import TypeScribe.Json.Basic

/-!
# Reading records out of objects

A record is read field by field. A field that is read must not be given twice; entries that nobody
asks for are ignored, however often they stand there. Instead of an object, a record may be an array
of its fields in order, the last ones left out.
-/
namespace TypeScribe.Json
set_option autoImplicit false

abbrev Entries := List (String × Json)

def entries? : Json → Option Entries
  | .object entries => some entries
  | _ => none

def string? : Json → Option String
  | .string s => some s
  | _ => none

def bool? : Json → Option Bool
  | .bool b => some b
  | _ => none

def array? : Json → Option (List Json)
  | .array elements => some elements
  | _ => none

/-- The entries of a record with the given fields. -/
def record? (fields : List String) : Json → Option Entries
  | .object entries => some entries
  | .array elements =>
    if elements.length ≤ fields.length then some (fields.zip elements) else none
  | _ => none

namespace Entries

/-- The value of a field: `none` if it is given twice, `some none` if it is not given. -/
def field? (entries : Entries) (key : String) : Option (Option Json) :=
  match entries.filter (fun entry => entry.1 == key) with
  | [] => some none
  | [entry] => some (some entry.2)
  | _ => none

/-- A field that must be given. -/
def required {α : Type} (entries : Entries) (key : String) (read : Json → Option α) : Option α :=
  match entries.field? key with
  | some (some j) => read j
  | _ => none

/-- A field that stands for `default` when it is not given. -/
def defaulted {α : Type} (entries : Entries) (key : String) (default : α)
    (read : Json → Option α) : Option α :=
  match entries.field? key with
  | some (some j) => read j
  | some none => some default
  | none => none

/-- A field that may be left out or be `null`. -/
def optional {α : Type} (entries : Entries) (key : String) (read : Json → Option α) :
    Option (Option α) :=
  match entries.field? key with
  | some (some .null) => some none
  | some (some j) => (read j).map some
  | some none => some none
  | none => none

end Entries
end TypeScribe.Json
