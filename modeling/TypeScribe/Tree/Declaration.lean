import TypeScribe.Tree.Node

/-!
# Type declarations and their members

What classes, enums and annotation types have in common, and the names that members declare.
-/
namespace TypeScribe
set_option autoImplicit false

namespace TypeDecl

def name : TypeDecl → String
  | .classDecl name .. => name
  | .enumDecl name .. => name
  | .annotationDecl name .. => name

def modifiers : TypeDecl → ModifierSet
  | .classDecl _ _ modifiers .. => modifiers
  | .enumDecl _ modifiers .. => modifiers
  | .annotationDecl _ modifiers .. => modifiers

def comment : TypeDecl → Option Comment
  | .classDecl _ _ _ comment .. => comment
  | .enumDecl _ _ comment .. => comment
  | .annotationDecl _ _ comment .. => comment

/-- Annotation types count as interfaces. -/
def isInterface : TypeDecl → Bool
  | .classDecl _ isInterface .. => isInterface
  | .enumDecl .. => false
  | .annotationDecl .. => true

def isStatic (d : TypeDecl) : Bool := d.modifiers.contains .static

def members : TypeDecl → List Member
  | .classDecl _ _ _ _ _ _ _ _ members _ => members.toList
  | .enumDecl _ _ _ _ _ _ members => members.toList
  | .annotationDecl _ _ _ _ members => members.toList

end TypeDecl

def Member.type? : Member → Option TypeDecl
  | .nestedType decl => some decl
  | _ => none

/-- The declarations directly inside a declaration, in source order. -/
def TypeDecl.nestedTypes (d : TypeDecl) : List TypeDecl := d.members.filterMap Member.type?

def declaratorName : Node .declarator → String
  | .declarator name _ _ => name

def parameterName : Node .parameter → String
  | .parameter name .. => name

namespace VariableGroup

def modifiers : VariableGroup → ModifierSet
  | .variableGroup modifiers _ _ _ => modifiers

def names : VariableGroup → List String
  | .variableGroup _ _ _ declarators => declarators.toList.map declaratorName

end VariableGroup

/-- The names under which a member can be reached; constructors and initializers have none. -/
def Member.names : Member → List String
  | .nestedType decl => [TypeDecl.name decl]
  | .field _ _ _ _ declarators => declarators.toList.map declaratorName
  | .method name .. => [name]
  | .annotationMember name .. => [name]
  | .constructor .. => []
  | .initializer .. => []

end TypeScribe
