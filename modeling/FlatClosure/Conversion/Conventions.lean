import FlatClosure.Json.Basic
import FlatClosure.Text.Quoted

/-!
# Names of generated things

Closure conversion and the evaluator have to agree on how the classes of closures and their methods
are called.  `Conventions` holds these names; `Conventions.check` accepts only identifiers.
-/

namespace FlatClosure

/-- The names that closure conversion gives to what it generates. -/
structure Conventions where
  /-- What the name of a generated class starts with. -/
  classPrefix : String := "Clo"
  /-- The method that runs a closure. -/
  callMethod : String := "__call__"
  /-- The method that runs when an object is made. -/
  constructor : String := "__init__"
  /-- The first parameter of the call method. -/
  receiver : String := "self"
deriving DecidableEq, Inhabited

/-- A setting that is not an identifier. -/
structure SettingError where
  field : String
  value : String
deriving DecidableEq

/-- The error in words. -/
def SettingError.message (e : SettingError) : String :=
  "closures." ++ e.field ++ " must be an identifier, got " ++ quoted e.value

/-- An ASCII letter or an underscore. -/
def isNameStart (c : Char) : Bool := c == '_' || c.isAlpha

/-- The text is an identifier: ASCII letters, digits and underscores, not starting with a digit. -/
def isIdentifier (s : String) : Bool :=
  match s.toList with
  | [] => false
  | c :: cs => isNameStart c && cs.all fun d => isNameStart d || d.isDigit

namespace Conventions

/-- The settings with their names. -/
def settings (c : Conventions) : List (String × String) :=
  [("class_prefix", c.classPrefix), ("call_method", c.callMethod), ("constructor", c.constructor),
    ("receiver", c.receiver)]

/-- The names of the settings. -/
def settingNames : List String := ["class_prefix", "call_method", "constructor", "receiver"]

/-- The first setting that is not an identifier is an error. -/
def check (c : Conventions) : Except SettingError Conventions :=
  match c.settings.find? fun s => !isIdentifier s.2 with
  | some (field, value) => .error ⟨field, value⟩
  | none => .ok c

/-- The settings as a JSON object. -/
def toJson (c : Conventions) : Json := .obj (c.settings.map fun s => (s.1, .str s.2))

/-- The names of the fields of an object are all among those given. -/
def knownFields (names : List String) : Json → Bool
  | .obj fields => fields.all fun f => names.contains f.1
  | _ => true

/-- Settings from a JSON object; those left out have their defaults, and others are not allowed. -/
def ofJson? (j : Json) : Option Conventions := do
  let [classPrefix, callMethod, constructor, receiver] ← j.record? settingNames | none
  guard (knownFields settingNames j)
  let d : Conventions := {}
  return {
    classPrefix := ← Json.defaulted d.classPrefix Json.str? classPrefix
    callMethod := ← Json.defaulted d.callMethod Json.str? callMethod
    constructor := ← Json.defaulted d.constructor Json.str? constructor
    receiver := ← Json.defaulted d.receiver Json.str? receiver }

end Conventions

end FlatClosure
