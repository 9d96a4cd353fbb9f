import FlatClosure.Main
import FlatClosure.Proofs.Arithmetic
import FlatClosure.Proofs.Candidates
import FlatClosure.Proofs.CapturedWrites
import FlatClosure.Proofs.ClassNames
import FlatClosure.Proofs.Comprehensions
import FlatClosure.Proofs.Destructuring
import FlatClosure.Proofs.History
import FlatClosure.Proofs.Idempotence
import FlatClosure.Proofs.Instantiation
import FlatClosure.Proofs.Leftmost
import FlatClosure.Proofs.Lines
import FlatClosure.Proofs.LoweredFile
import FlatClosure.Proofs.Marks
import FlatClosure.Proofs.Methods
import FlatClosure.Proofs.Objects
import FlatClosure.Proofs.Outline
import FlatClosure.Proofs.Packed
import FlatClosure.Proofs.Positions
import FlatClosure.Proofs.Receiver
import FlatClosure.Proofs.Registration
import FlatClosure.Proofs.Renaming
import FlatClosure.Proofs.Resolution
import FlatClosure.Proofs.Sets
import FlatClosure.Proofs.Slots
import FlatClosure.Proofs.Snippets
import FlatClosure.Proofs.Variables
import FlatClosure.Syntax.Build
import FlatClosure.Syntax.Numbering
import FlatClosure.Syntax.Visit
