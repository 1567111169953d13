import TypeScribe.Tree.Declaration

/-!
# Outlines

The skeleton of a declaration: its name and the declarations nested in it, without bodies.
-/
namespace TypeScribe
set_option autoImplicit false

inductive Outline where
  | mk (name : String) (isInterface : Bool) (modifiers : ModifierSet) (memberNames : List String)
      (memberCount : Nat) (nested : List Outline)

def Outline.name : Outline → String
  | .mk name .. => name

/-- The outlines of the declarations at the top of a node: a declaration, a member that declares
one, or a sequence of these. -/
def Node.outlines : {c : Category} → Node c → List Outline
  | _, .nil => []
  | _, .cons head tail => head.outlines ++ tail.outlines
  | _, .nestedType decl => decl.outlines
  | _, .classDecl name isInterface modifiers _ _ _ _ _ members _ =>
    [.mk name isInterface modifiers (members.toList.flatMap Member.names) members.toList.length
      members.outlines]
  | _, .enumDecl name modifiers _ _ _ _ members =>
    [.mk name false modifiers (members.toList.flatMap Member.names) members.toList.length
      members.outlines]
  | _, .annotationDecl name modifiers _ _ members =>
    [.mk name true modifiers (members.toList.flatMap Member.names) members.toList.length
      members.outlines]
  | _, _ => []

end TypeScribe
