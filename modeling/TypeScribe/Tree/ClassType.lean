import TypeScribe.Text.Segment
import TypeScribe.Tree.Node

/-!
# Types in the tree

A class type is a chain of names, each the scope of the next. `ClassType.parse` reads a dotted name
into such a chain and `dotted` writes it back. An array type is an element type under a number of
levels.
-/
namespace TypeScribe
set_option autoImplicit false

def isDot (c : Char) : Bool := c == '.'

namespace Node

/-- The names of a class type from the leftmost scope on; a node of another category has none. -/
def segments : {c : Category} → Node c → List String
  | _, .classType scope name _ _ => scope.segments ++ [name]
  | _, .present n => n.segments
  | _, _ => []

/-- The leftmost scope of a class type. -/
def root : {c : Category} → Node c → Node c
  | _, .classType (.present scope) _ _ _ => scope.root
  | _, n => n

/-- How many array levels stand around the element type. -/
def arrayLevel : {c : Category} → Node c → Nat
  | _, .array component _ => component.arrayLevel + 1
  | _, _ => 0

/-- The type under all array levels. -/
def elementType : {c : Category} → Node c → Node c
  | _, .array component _ => component.elementType
  | _, n => n

end Node

namespace ClassType

/-- A name without scope, type arguments or annotations. -/
def simple (name : String) : ClassType := .classType .absent name .absent .nil

/-- A name under a scope. -/
def inScope (scope : ClassType) (name : String) : ClassType :=
  .classType (.present scope) name .absent .nil

/-- The chain of names that a dotted name spells. -/
def parse (dotted : String) : ClassType :=
  match Text.segments isDot dotted with
  | [] => simple ""
  | first :: rest => rest.foldl inScope (simple first)

def name : ClassType → String
  | .classType _ name _ _ => name

def dotted (t : ClassType) : String := Text.joinWith "." t.segments

def withTypeArguments (t : ClassType) (arguments : List TypeUse) : ClassType :=
  match t with
  | .classType scope name _ annotations =>
    .classType scope name (.present (.ofList arguments)) annotations

def diamond (t : ClassType) : ClassType := withTypeArguments t []

def isDiamond : ClassType → Bool
  | .classType _ _ (.present .nil) _ => true
  | _ => false

end ClassType

namespace TypeUse

def plain (p : Primitive) : TypeUse := .primitive p .nil

def ofDotted (dotted : String) : TypeUse := .classUse (ClassType.parse dotted)

/-- An array of the given number of levels, without annotations. -/
def arrayOf (component : TypeUse) : Nat → TypeUse
  | 0 => component
  | levels + 1 => .array (arrayOf component levels) .nil

def isUnknown : TypeUse → Bool
  | .unknown => true
  | _ => false

/-- Whether a cast to the type cuts off the fraction of a number. -/
def isIntegral : TypeUse → Bool
  | .primitive .int _ => true
  | .primitive .long _ => true
  | _ => false

end TypeUse
end TypeScribe
