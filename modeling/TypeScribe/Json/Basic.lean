/-!
# JSON values

An object keeps its entries as written, in order and with repeated keys: whether a repeated key
matters is decided by whoever reads the object. A number keeps its literal.

Some well-formed texts stand for no value that can be held: a number beyond every double, a string
with half a surrogate pair, an object with such a key, a container nested too deep. They are all the
value `unfit`, which does no harm where nobody looks at it.
-/
namespace TypeScribe
set_option autoImplicit false

inductive Json where
  | null
  | bool (value : Bool)
  | number (literal : String)
  | string (value : String)
  | array (elements : List Json)
  | object (entries : List (String × Json))
  | unfit

namespace Json

/-- A natural number in decimal. -/
def ofNat (n : Nat) : Json := .number (toString n)

def ofStrings (texts : List String) : Json := .array (texts.map .string)

mutual
/-- How many values stand inside one another, the value itself included. -/
def depth : Json → Nat
  | .array elements => depthElements elements + 1
  | .object entries => depthEntries entries + 1
  | _ => 1

def depthElements : List Json → Nat
  | [] => 0
  | j :: js => max j.depth (depthElements js)

def depthEntries : List (String × Json) → Nat
  | [] => 0
  | (_, j) :: rest => max j.depth (depthEntries rest)
end

mutual
/-- Whether nothing in a value is unfit. -/
def isSound : Json → Bool
  | .array elements => areSound elements
  | .object entries => areEntriesSound entries
  | .unfit => false
  | _ => true

def areSound : List Json → Bool
  | [] => true
  | j :: js => j.isSound && areSound js

def areEntriesSound : List (String × Json) → Bool
  | [] => true
  | (_, j) :: rest => j.isSound && areEntriesSound rest
end

end Json
end TypeScribe
