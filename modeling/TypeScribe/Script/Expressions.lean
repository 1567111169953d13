import TypeScribe.Script.Types

/-!
# Scripts of expressions

Equality is written as identity, a cast to an integral type as rounding down, and an anonymous class
as a class expression inside a closure that holds the creating instance.
-/
namespace TypeScribe
set_option autoImplicit false

def BinaryOp.scriptSymbol : BinaryOp → String
  | .equals => "==="
  | .notEquals => "!=="
  | op => op.symbol

namespace Script
open Doc

/-- Something under an optional scope. -/
def underScope (scope : Option Doc) (d : Doc) : Doc :=
  match scope with
  | some s => s ++ text "." ++ d
  | none => d

def arrayAccess (base index : Doc) : Doc := base ++ text "[" ++ index ++ text "]"

def infixed (left : Doc) (symbol : String) (right : Doc) : Doc :=
  left ++ text " " ++ text symbol ++ text " " ++ right

def unary (op : UnaryOp) (operand : Doc) : Doc :=
  if op.followsOperand then operand ++ text op.symbol else text op.symbol ++ operand

def cast (isIntegral : Bool) (type operand : Doc) : Doc :=
  if isIntegral then between "Math.floor(" ")" operand else between "<" ">" type ++ operand

def arrayLiteral (values : List Doc) : Doc := between "[" "]" (separated ", " values)

/-- A sized array; only the first dimension has a size in TypeScript. -/
def sizedArray (elementType : Doc) (sizes : List (Option Doc)) : Doc :=
  text "new Array<" ++ elementType ++ concat (sizes.tail.map fun _ => text "[]") ++ text ">("
    ++ (sizes.head?.getD none).getD [] ++ text ")"

def arrayCreation (elementType : Doc) (sizes : List (Option Doc)) (values : Option (List Doc)) :
    Doc :=
  match values with
  | some values => arrayLiteral values
  | none => sizedArray elementType sizes

def conditional (condition consequent alternative : Doc) : Doc :=
  condition ++ text " ? " ++ consequent ++ text " : " ++ alternative

def methodCall (scope : Option Doc) (typeArguments : List TypeShape) (name : String)
    (arguments : List Doc) : Doc :=
  underScope scope (text (escapeIdentifier name))
    ++ angled (typeArguments.map TypeShape.doc) ++ parenthesized arguments

def superDoc (qualifier : Option String) : Doc :=
  match qualifier with
  | some name => unsupported (.qualifiedSuper name) ++ text "super"
  | none => text "super"

def members (ms : List MemberShape) : Doc := ms.flatMap fun m => newline ++ m.doc ++ newline

def anonymousClass (cx : Context) (type : ClassType) (typeDoc : Doc) (arguments : List Doc)
    (body : List MemberShape) (isStatic : Bool) : Doc :=
  (match cx.outerThis isStatic with
    | some name => text ("((" ++ name ++ ") => ")
    | none => [])
    ++ text (if cx.isInterface type then "new class implements " else "new class extends ")
    ++ typeDoc ++ line " \x7b" ++ indented (members body) ++ text "\x7d" ++ parenthesized arguments
    ++ (if isStatic then [] else text ")(this)")

def objectCreation (cx : Context) (scope : Option Doc) (type : ClassType) (typeDoc : Doc)
    (arguments : List Doc) (body : Option (List MemberShape)) (isStatic : Bool) : Doc :=
  match body with
  | some body =>
    (if scope.isSome then unsupported (.qualifiedAnonymousClass type.name) else [])
      ++ anonymousClass cx type typeDoc arguments body isStatic
  | none => underScope scope (text "new " ++ typeDoc ++ parenthesized arguments)

def lambda (parameters : List Doc) (isEnclosed : Bool) (body : Doc) : Doc :=
  (if isEnclosed then parenthesized parameters else separated ", " parameters)
    ++ text " => " ++ body

def initialValue (value : Option Doc) : Doc :=
  match value with
  | some d => text " = " ++ d
  | none => []

/-- One variable with the type that its declaration gives all of them. -/
def declarator (base : Option Doc) (d : DeclaratorShape) : Doc :=
  text (escapeIdentifier d.name)
    ++ (match base with
      | some type => text ": " ++ type ++ d.dimensions
      | none => [])
    ++ d.initializer

def declarators (base : Option Doc) (ds : List DeclaratorShape) : Doc :=
  separated ", " (ds.map (declarator base))

def declarationWord (mods : ModifierSet) : String :=
  if mods.contains .final then "const " else "let "

def variableGroup (mods : ModifierSet) (annotations : List Doc) (base : Option Doc)
    (ds : List DeclaratorShape) : Doc :=
  inlineAnnotations annotations ++ modifiers mods ++ text (declarationWord mods)
    ++ declarators base ds

end Script
end TypeScribe
