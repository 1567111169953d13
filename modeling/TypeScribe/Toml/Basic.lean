/-!
# TOML values

Numbers and dates keep their literal: nothing here computes with them.
-/
namespace TypeScribe
set_option autoImplicit false

inductive Toml where
  | string (value : String)
  | boolean (value : Bool)
  | integer (literal : String)
  | float (literal : String)
  | datetime (literal : String)
  | array (elements : List Toml)
  | table (entries : List (String × Toml))

namespace Toml

def string? : Toml → Option String
  | .string s => some s
  | _ => none

def boolean? : Toml → Option Bool
  | .boolean b => some b
  | _ => none

def array? : Toml → Option (List Toml)
  | .array elements => some elements
  | _ => none

def table? : Toml → Option (List (String × Toml))
  | .table entries => some entries
  | _ => none

/-- The entries of a record with the given fields: a table, or an array of its fields in order and
of whatever else. -/
def record? (fields : List String) : Toml → Option (List (String × Toml))
  | .table entries => some entries
  | .array elements => some (fields.zip elements)
  | _ => none

/-- An empty table or array. -/
def isNothing : Toml → Bool
  | .table entries => entries.isEmpty
  | .array elements => elements.isEmpty
  | _ => false

end Toml
end TypeScribe
