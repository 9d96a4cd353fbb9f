/-!
# Source spans

A span is a stretch of bytes in a registered source file.  The file number with all bits set
means that no position is known; every span with that number is *dummy*, whatever its ends.
-/

namespace FlatClosure

/-- A stretch of bytes in a source file: from `start` up to, not including, `stop`. -/
structure Span where
  /-- Number of the source file. -/
  file : UInt32
  /-- First byte. -/
  start : UInt32
  /-- The byte after the last one. -/
  stop : UInt32
deriving DecidableEq, Inhabited

namespace Span

/-- The file number of unknown positions. -/
def noFile : UInt32 := 4294967295

/-- The span of a node without a position. -/
def dummy : Span := ⟨noFile, 0, 0⟩

/-- No position is known. -/
def isDummy (s : Span) : Bool := s.file == noFile

/-- The number of bytes; none when the ends are reversed. -/
def length (s : Span) : Nat := s.stop.toNat - s.start.toNat

/-- The span holds no byte. -/
def isEmpty (s : Span) : Bool := s.stop ≤ s.start

/-- The first span, unless it is dummy. -/
def orElse (s t : Span) : Span := if s.isDummy then t else s

end Span

end FlatClosure
