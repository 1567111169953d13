import TypeScribe.Tree.CompilationUnit

/-!
# Building trees

Nodes with the fewest parts, and functions that add the rest. A function that adds what a kind of
node does not have leaves the node as it is.
-/
namespace TypeScribe
set_option autoImplicit false

namespace Comment

def line (content : String) : Comment := { kind := .line, content := content }

def block (content : String) : Comment := { kind := .block, content := content }

def javadoc (content : String) : Comment := { kind := .javadoc, content := content }

end Comment

namespace Import

def single (name : String) : Import := { name := name }

def onDemand (name : String) : Import := { name := name, isOnDemand := true }

def ofStatic (name : String) : Import := { name := name, isStatic := true }

end Import

namespace AnnotationUse

def marker (name : String) : AnnotationUse := .annotationMarker name

def single (name : String) (value : Expr) : AnnotationUse := .annotationSingle name value

def normal (name : String) (elements : List (String × Expr)) : AnnotationUse :=
  .annotationNormal name (.ofList (elements.map fun (key, value) => .element key value))

end AnnotationUse

namespace CompilationUnit

def withPackage (u : CompilationUnit) (name : String) : CompilationUnit :=
  { u with package := some { name := name } }

def withImport (u : CompilationUnit) (i : Import) : CompilationUnit :=
  { u with imports := u.imports ++ [i] }

def withType (u : CompilationUnit) (decl : TypeDecl) : CompilationUnit :=
  { u with types := u.types ++ [decl] }

def withComment (u : CompilationUnit) (c : Comment) : CompilationUnit :=
  { u with comment := some c }

end CompilationUnit

namespace TypeDecl

def ofClass (name : String) : TypeDecl :=
  .classDecl name false .empty none .nil .nil .nil .nil .nil []

def ofInterface (name : String) : TypeDecl :=
  .classDecl name true .empty none .nil .nil .nil .nil .nil []

def ofEnum (name : String) : TypeDecl := .enumDecl name .empty none .nil .nil .nil .nil

def ofAnnotationType (name : String) : TypeDecl := .annotationDecl name .empty none .nil .nil

def withModifiers (modifiers : List Modifier) : TypeDecl → TypeDecl
  | .classDecl name isInterface _ comment annotations typeParameters extended implemented members
      trailing =>
    .classDecl name isInterface (.ofList modifiers) comment annotations typeParameters extended
      implemented members trailing
  | .enumDecl name _ comment annotations implemented constants members =>
    .enumDecl name (.ofList modifiers) comment annotations implemented constants members
  | .annotationDecl name _ comment annotations members =>
    .annotationDecl name (.ofList modifiers) comment annotations members

def withComment (c : Comment) : TypeDecl → TypeDecl
  | .classDecl name isInterface modifiers _ annotations typeParameters extended implemented members
      trailing =>
    .classDecl name isInterface modifiers (some c) annotations typeParameters extended implemented
      members trailing
  | .enumDecl name modifiers _ annotations implemented constants members =>
    .enumDecl name modifiers (some c) annotations implemented constants members
  | .annotationDecl name modifiers _ annotations members =>
    .annotationDecl name modifiers (some c) annotations members

def annotatedWith (a : AnnotationUse) : TypeDecl → TypeDecl
  | .classDecl name isInterface modifiers comment annotations typeParameters extended implemented
      members trailing =>
    .classDecl name isInterface modifiers comment (annotations.snoc a) typeParameters extended
      implemented members trailing
  | .enumDecl name modifiers comment annotations implemented constants members =>
    .enumDecl name modifiers comment (annotations.snoc a) implemented constants members
  | .annotationDecl name modifiers comment annotations members =>
    .annotationDecl name modifiers comment (annotations.snoc a) members

def withTypeParameter (p : Node .typeParameter) : TypeDecl → TypeDecl
  | .classDecl name isInterface modifiers comment annotations typeParameters extended implemented
      members trailing =>
    .classDecl name isInterface modifiers comment annotations (typeParameters.snoc p) extended
      implemented members trailing
  | decl => decl

def extending (t : ClassType) : TypeDecl → TypeDecl
  | .classDecl name isInterface modifiers comment annotations typeParameters extended implemented
      members trailing =>
    .classDecl name isInterface modifiers comment annotations typeParameters (extended.snoc t)
      implemented members trailing
  | decl => decl

def implementing (t : ClassType) : TypeDecl → TypeDecl
  | .classDecl name isInterface modifiers comment annotations typeParameters extended implemented
      members trailing =>
    .classDecl name isInterface modifiers comment annotations typeParameters extended
      (implemented.snoc t) members trailing
  | .enumDecl name modifiers comment annotations implemented constants members =>
    .enumDecl name modifiers comment annotations (implemented.snoc t) constants members
  | decl => decl

def withMember (m : Member) : TypeDecl → TypeDecl
  | .classDecl name isInterface modifiers comment annotations typeParameters extended implemented
      members trailing =>
    .classDecl name isInterface modifiers comment annotations typeParameters extended implemented
      (members.snoc m) trailing
  | .enumDecl name modifiers comment annotations implemented constants members =>
    .enumDecl name modifiers comment annotations implemented constants (members.snoc m)
  | .annotationDecl name modifiers comment annotations members =>
    .annotationDecl name modifiers comment annotations (members.snoc m)

/-- An enum with one more constant, of which only the name is given. -/
def withConstant (constant : String) : TypeDecl → TypeDecl
  | .enumDecl name modifiers comment annotations implemented constants members =>
    .enumDecl name modifiers comment annotations implemented
      (constants.snoc (.enumConstant constant none .nil .nil .nil)) members
  | decl => decl

end TypeDecl

namespace Declarator

def named (name : String) : Node .declarator := .declarator name .nil .absent

def withInitializer (value : Expr) : Node .declarator → Node .declarator
  | .declarator name dimensions _ => .declarator name dimensions (.present value)

/-- A declarator with the given number of dimensions, none of them annotated. -/
def withDimensions (count : Nat) : Node .declarator → Node .declarator
  | .declarator name _ initial =>
    .declarator name (.ofList (List.replicate count (.dimension .nil))) initial

end Declarator

namespace Parameter

def of (name : String) (type : TypeUse) : Node .parameter :=
  .parameter name type .empty .nil false .nil

def withModifiers (modifiers : List Modifier) : Node .parameter → Node .parameter
  | .parameter name type _ annotations isVarArgs varArgsAnnotations =>
    .parameter name type (.ofList modifiers) annotations isVarArgs varArgsAnnotations

def annotatedWith (a : AnnotationUse) : Node .parameter → Node .parameter
  | .parameter name type modifiers annotations isVarArgs varArgsAnnotations =>
    .parameter name type modifiers (annotations.snoc a) isVarArgs varArgsAnnotations

def varArgs : Node .parameter → Node .parameter
  | .parameter name type modifiers annotations _ varArgsAnnotations =>
    .parameter name type modifiers annotations true varArgsAnnotations

end Parameter

namespace TypeParameter

def named (name : String) : Node .typeParameter := .typeParameter name .nil .nil

def boundedBy (bound : ClassType) : Node .typeParameter → Node .typeParameter
  | .typeParameter name bounds annotations => .typeParameter name (bounds.snoc bound) annotations

end TypeParameter

namespace Member

def ofFields (modifiers : List Modifier) (type : TypeUse) (declarators : List (Node .declarator)) :
    Member :=
  .field (.ofList modifiers) none .nil type (.ofList declarators)

/-- A field with one variable. -/
def ofField (modifiers : List Modifier) (type : TypeUse) (name : String) (value : Option Expr) :
    Member :=
  ofFields modifiers type [.declarator name .nil (.ofOption value)]

def ofMethod (name : String) (returnType : TypeUse) : Member :=
  .method name .empty none .nil .nil returnType .nil .nil .absent

def ofConstructor (name : String) : Member :=
  .constructor name .empty none .nil .nil .nil .nil (.block .nil [])

def ofInitializer (isStatic : Bool) (body : Block) : Member := .initializer isStatic none body

def ofAnnotationMember (name : String) (type : TypeUse) : Member :=
  .annotationMember name .empty none .nil type .absent

def withModifiers (modifiers : List Modifier) : Member → Member
  | .field _ comment annotations baseType declarators =>
    .field (.ofList modifiers) comment annotations baseType declarators
  | .method name _ comment annotations typeParameters returnType parameters thrown body =>
    .method name (.ofList modifiers) comment annotations typeParameters returnType parameters thrown
      body
  | .constructor name _ comment annotations typeParameters parameters thrown body =>
    .constructor name (.ofList modifiers) comment annotations typeParameters parameters thrown body
  | m => m

def withComment (c : Comment) : Member → Member
  | .field modifiers _ annotations baseType declarators =>
    .field modifiers (some c) annotations baseType declarators
  | .method name modifiers _ annotations typeParameters returnType parameters thrown body =>
    .method name modifiers (some c) annotations typeParameters returnType parameters thrown body
  | m => m

def annotatedWith (a : AnnotationUse) : Member → Member
  | .field modifiers comment annotations baseType declarators =>
    .field modifiers comment (annotations.snoc a) baseType declarators
  | .method name modifiers comment annotations typeParameters returnType parameters thrown body =>
    .method name modifiers comment (annotations.snoc a) typeParameters returnType parameters thrown
      body
  | m => m

def withTypeParameter (p : Node .typeParameter) : Member → Member
  | .method name modifiers comment annotations typeParameters returnType parameters thrown body =>
    .method name modifiers comment annotations (typeParameters.snoc p) returnType parameters thrown
      body
  | m => m

def withParameter (p : Node .parameter) : Member → Member
  | .method name modifiers comment annotations typeParameters returnType parameters thrown body =>
    .method name modifiers comment annotations typeParameters returnType (parameters.snoc p) thrown
      body
  | .constructor name modifiers comment annotations typeParameters parameters thrown body =>
    .constructor name modifiers comment annotations typeParameters (parameters.snoc p) thrown body
  | m => m

def throwing (t : TypeUse) : Member → Member
  | .method name modifiers comment annotations typeParameters returnType parameters thrown body =>
    .method name modifiers comment annotations typeParameters returnType parameters (thrown.snoc t)
      body
  | .constructor name modifiers comment annotations typeParameters parameters thrown body =>
    .constructor name modifiers comment annotations typeParameters parameters (thrown.snoc t) body
  | m => m

def withBody (b : Block) : Member → Member
  | .method name modifiers comment annotations typeParameters returnType parameters thrown _ =>
    .method name modifiers comment annotations typeParameters returnType parameters thrown
      (.present b)
  | .constructor name modifiers comment annotations typeParameters parameters thrown _ =>
    .constructor name modifiers comment annotations typeParameters parameters thrown b
  | m => m

def withDefault (value : Expr) : Member → Member
  | .annotationMember name modifiers comment annotations type _ =>
    .annotationMember name modifiers comment annotations type (.present value)
  | m => m

def isStatic : Member → Bool
  | .field modifiers .. => modifiers.contains .static
  | .method _ modifiers .. => modifiers.contains .static
  | .initializer isStatic .. => isStatic
  | .nestedType decl => TypeDecl.isStatic decl
  | _ => false

end Member

def Block.of (statements : List Stmt) : Block := .block (.ofList statements) []

namespace VariableGroup

def of (modifiers : List Modifier) (type : TypeUse) (declarators : List (Node .declarator)) :
    VariableGroup :=
  .variableGroup (.ofList modifiers) .nil type (.ofList declarators)

/-- One variable without modifiers. -/
def single (type : TypeUse) (name : String) (value : Option Expr) : VariableGroup :=
  of [] type [.declarator name .nil (.ofOption value)]

def isFinal : VariableGroup → Bool
  | .variableGroup modifiers .. => modifiers.contains .final

end VariableGroup

namespace Expr

def call (scope : Option Expr) (name : String) (arguments : List Expr) : Expr :=
  .methodCall (.ofOption scope) .nil name (.ofList arguments)

def new (type : ClassType) (arguments : List Expr) : Expr :=
  .objectCreation .absent type .nil (.ofList arguments) .absent

def anonymous (type : ClassType) (arguments : List Expr) (body : List Member) : Expr :=
  .objectCreation .absent type .nil (.ofList arguments) (.present (.ofList body))

end Expr

/-- The declaration of local variables as a statement. -/
def Stmt.declare (group : VariableGroup) : Stmt := .exprStmt (.variableDeclaration group)

end TypeScribe
