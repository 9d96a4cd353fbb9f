import FlatClosure.Conversion.Conventions
import FlatClosure.Toml.Reader

/-!
# Settings files

A settings file is a TOML document with one table, `closures`, whose entries are the names of
`Conventions`.  The table may be opened by a header, given by dotted keys, or written as a value;
as a value it may also be an array, which gives the names by position.
-/

namespace FlatClosure

/-- The table `closures` of a document that has no other. -/
def closuresTable? : List Toml.Line → Option Toml
  | .header ["closures"] false :: lines => do
    let entries ← lines.mapM Toml.Line.assignment?
    guard (Toml.distinctKeys entries)
    return .table entries
  | lines => do
    let entries ← lines.mapM Toml.Line.assignment?
    guard (Toml.distinctKeys entries)
    match entries with
    | [(["closures"], v)] => return v
    | _ =>
      return .table (← entries.mapM fun
        | ("closures" :: k :: path, v) => some (k :: path, v)
        | _ => none)

/-- A string as a JSON value. -/
def Toml.strJson? : Toml → Option Json
  | .str s => some (.str s)
  | _ => none

/-- Settings from a table or an array; what comes after the last setting of an array is
skipped. -/
def Conventions.ofToml? : Toml → Option Conventions
  | .table entries => do
    let fields ← entries.mapM fun
      | ([k], v) => v.strJson?.map fun j => (k, j)
      | _ => none
    Conventions.ofJson? (.obj fields)
  | .arr items => do
    let values ← (items.take Conventions.settingNames.length).mapM Toml.strJson?
    Conventions.ofJson? (.arr values)
  | _ => none

/-- The settings that a text gives, before they are checked. -/
def Conventions.ofText? (text : String) : Option Conventions :=
  ((Toml.read? text).bind closuresTable?).bind Conventions.ofToml?

end FlatClosure
