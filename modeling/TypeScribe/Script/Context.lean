import TypeScribe.Layout.ModuleQueue
import TypeScribe.Resolution

/-!
# Context of a node

What a node's surroundings contribute to its script: the declarations and anonymous classes that are
open around it, and the route to it.
-/
namespace TypeScribe
set_option autoImplicit false

/-- Whether the node is a free-standing comment. -/
def Node.isComment : {c : Category} → Node c → Bool
  | _, .commentStmt _ => true
  | _, _ => false

/-- An open anonymous class body. -/
structure Frame where
  /-- How many declarations were open around it. -/
  depth : Nat
  /-- The closure parameter that holds the creating instance; none in static context. -/
  outerThis : Option String

structure Context where
  resolver : Resolver
  scope : Scope := []
  /-- The open anonymous class bodies, innermost first. -/
  frames : List Frame := []
  route : Route := []
  /-- Whether the members at hand are members of an interface. -/
  inInterface : Bool := false
  /-- Whether the declarators at hand belong to a static field. -/
  inStaticField : Bool := false
  /-- Whether the expression at hand is the initial value of a static field. -/
  isStaticValue : Bool := false

namespace Context

/-- The context of the child at a place. -/
def child (cx : Context) (place : Nat) : Context :=
  { cx with route := place :: cx.route, isStaticValue := false }

/-- The context of what follows a node in its sequence. A free-standing comment takes no place. -/
def after {c : Category} (cx : Context) (head : Node c) : Context :=
  if head.isComment then cx else cx.child 1

/-- The context of what an optional node holds, which is at hand when the optional node is. -/
def content (cx : Context) : Context := { cx with route := 0 :: cx.route }

/-- The context inside a declaration. -/
def enter (cx : Context) (decl : TypeDecl) : Context := { cx with scope := decl :: cx.scope }

def membersOf (cx : Context) (isInterface : Bool) : Context :=
  { cx with inInterface := isInterface }

def declarators (cx : Context) (isStatic : Bool) : Context := { cx with inStaticField := isStatic }

/-- The context of the initial value of a declarator. -/
def initialValue (cx : Context) : Context := { cx.child 1 with isStaticValue := cx.inStaticField }

/-- The context of a declaration that is moved out: no anonymous class is open around it. -/
def detached (cx : Context) : Context := { cx with frames := [] }

def enclosingName? (cx : Context) : Option String := cx.scope.head?.map TypeDecl.name

/-- How many open anonymous class bodies hold their creating instance. -/
def captures (cx : Context) : Nat := cx.frames.countP fun f => f.outerThis.isSome

/-- The closure parameter for the next anonymous class: open ones stay visible under theirs. -/
def captureName (cx : Context) : String :=
  match cx.captures with
  | 0 => "__this"
  | n => "__this" ++ toString n

/-- The closure parameter of an anonymous class, if it is not in static context. -/
def outerThis (cx : Context) (isStatic : Bool) : Option String :=
  if isStatic then none else some cx.captureName

/-- Whether an anonymous class created here under `scope` is in static context: only if it is itself
the initial value of a static field. -/
def createsStatic (cx : Context) (scope : Node (.optional .expr)) : Bool :=
  cx.isStaticValue && scope.toOption.isNone

/-- The context inside an anonymous class body. -/
def enterAnonymous (cx : Context) (isStatic : Bool) : Context :=
  { cx with
    frames := { depth := cx.scope.length, outerThis := cx.outerThis isStatic } :: cx.frames
    inInterface := false }

/-- The instance of the innermost declaration: in an anonymous class body it is held by the
outermost closure that was opened in that declaration. -/
def innermostThis (cx : Context) : String :=
  ((cx.frames.reverse.find? fun f => f.depth == cx.scope.length).bind Frame.outerThis).getD "this"

/-- `this` with an optional qualifier. A qualifier other than the innermost declaration names the
closure parameter of the class inside it. -/
def thisText (cx : Context) : Option String → String
  | none => "this"
  | some name => if cx.enclosingName? == some name then cx.innermostThis else name ++ "_this"

/-- A simple type name as it is written: qualified if it can be resolved. -/
def typeName (cx : Context) (name : String) : String :=
  match cx.resolver.resolveSimple name cx.scope with
  | .ok d => d.qualifiedName
  | .error _ => name

/-- Whether a type is known to be an interface. -/
def isInterface (cx : Context) (type : ClassType) : Bool :=
  match cx.resolver.resolve type cx.scope with
  | .ok d => d.isInterface
  | .error _ => false

end Context

/-- Whether a nested declaration is moved to a module behind its root: TypeScript interfaces hold no
declarations, and what stands in one has no enclosing instance. -/
def mustMove (decl : TypeDecl) (scope : Scope) : Bool :=
  decl.isInterface || scope.any TypeDecl.isInterface

end TypeScribe
