import TypeScribe.Tree.CompilationUnit

/-!
# What a tree holds

`Node.any` asks whether some node of a tree, at any depth, has a property. With it a tree *declares*
if a type declaration stands in it as a member or as a statement, and a declaration is *regular* if
all declarations inside it are members of declarations: none is local to a body, and none stands in
an anonymous class, an enum constant or an annotation.
-/
namespace TypeScribe
set_option autoImplicit false

/-- Whether the node or a node below it has the property. -/
def Node.any (p : {c : Category} → Node c → Bool) : {c : Category} → Node c → Bool
  | _, n@(.cons head tail) => p n || head.any p || tail.any p
  | _, n@(.present node) => p n || node.any p
  | _, n@(.annotationSingle _ value) => p n || value.any p
  | _, n@(.annotationNormal _ elements) => p n || elements.any p
  | _, n@(.element _ value) => p n || value.any p
  | _, n@(.classDecl _ _ _ _ annotations typeParameters extended implemented members _) =>
    p n || annotations.any p || typeParameters.any p || extended.any p || implemented.any p
      || members.any p
  | _, n@(.enumDecl _ _ _ annotations implemented constants members) =>
    p n || annotations.any p || implemented.any p || constants.any p || members.any p
  | _, n@(.annotationDecl _ _ _ annotations members) =>
    p n || annotations.any p || members.any p
  | _, n@(.enumConstant _ _ annotations arguments body) =>
    p n || annotations.any p || arguments.any p || body.any p
  | _, n@(.nestedType decl) => p n || decl.any p
  | _, n@(.field _ _ annotations base declarators) =>
    p n || annotations.any p || base.any p || declarators.any p
  | _, n@(.method _ _ _ annotations typeParameters result parameters thrown body) =>
    p n || annotations.any p || typeParameters.any p || result.any p || parameters.any p
      || thrown.any p || body.any p
  | _, n@(.constructor _ _ _ annotations typeParameters parameters thrown body) =>
    p n || annotations.any p || typeParameters.any p || parameters.any p || thrown.any p
      || body.any p
  | _, n@(.initializer _ _ body) => p n || body.any p
  | _, n@(.annotationMember _ _ _ annotations type value) =>
    p n || annotations.any p || type.any p || value.any p
  | _, n@(.declarator _ dimensions initial) => p n || dimensions.any p || initial.any p
  | _, n@(.dimension annotations) => p n || annotations.any p
  | _, n@(.parameter _ type _ annotations _ varArgsAnnotations) =>
    p n || type.any p || annotations.any p || varArgsAnnotations.any p
  | _, n@(.typeParameter _ bounds annotations) => p n || bounds.any p || annotations.any p
  | _, n@(.primitive _ annotations) => p n || annotations.any p
  | _, n@(.classUse type) => p n || type.any p
  | _, n@(.array component annotations) => p n || component.any p || annotations.any p
  | _, n@(.void annotations) => p n || annotations.any p
  | _, n@(.intersection elements) => p n || elements.any p
  | _, n@(.union elements) => p n || elements.any p
  | _, n@(.wildcard extendsBound superBound annotations) =>
    p n || extendsBound.any p || superBound.any p || annotations.any p
  | _, n@(.classType scope _ typeArguments annotations) =>
    p n || scope.any p || typeArguments.any p || annotations.any p
  | _, n@(.block statements _) => p n || statements.any p
  | _, n@(.switchEntry label statements) => p n || label.any p || statements.any p
  | _, n@(.catchClause caught body) => p n || caught.any p || body.any p
  | _, n@(.variableGroup _ annotations base declarators) =>
    p n || annotations.any p || base.any p || declarators.any p
  | _, n@(.blockStmt body) => p n || body.any p
  | _, n@(.exprStmt expr) => p n || expr.any p
  | _, n@(.localType decl) => p n || decl.any p
  | _, n@(.assertStmt check message) => p n || check.any p || message.any p
  | _, n@(.labeled _ statement) => p n || statement.any p
  | _, n@(.switchStmt selector entries) => p n || selector.any p || entries.any p
  | _, n@(.returnStmt expr) => p n || expr.any p
  | _, n@(.ifStmt condition consequent alternative) =>
    p n || condition.any p || consequent.any p || alternative.any p
  | _, n@(.whileStmt condition body) => p n || condition.any p || body.any p
  | _, n@(.doStmt body condition) => p n || body.any p || condition.any p
  | _, n@(.forEachStmt loopVariable iterable body) =>
    p n || loopVariable.any p || iterable.any p || body.any p
  | _, n@(.forStmt init compare update body) =>
    p n || init.any p || compare.any p || update.any p || body.any p
  | _, n@(.throwStmt expr) => p n || expr.any p
  | _, n@(.synchronizedStmt lock body) => p n || lock.any p || body.any p
  | _, n@(.tryStmt resources body catches finallyBlock) =>
    p n || resources.any p || body.any p || catches.any p || finallyBlock.any p
  | _, n@(.constructorCall _ expr typeArguments arguments) =>
    p n || expr.any p || typeArguments.any p || arguments.any p
  | _, n@(.creationLevel size annotations) => p n || size.any p || annotations.any p
  | _, n@(.lambdaExpr expr) => p n || expr.any p
  | _, n@(.lambdaBlock body) => p n || body.any p
  | _, n@(.fieldAccess scope _) => p n || scope.any p
  | _, n@(.arrayAccess base index) => p n || base.any p || index.any p
  | _, n@(.arrayCreation elementType levels initial) =>
    p n || elementType.any p || levels.any p || initial.any p
  | _, n@(.arrayInitializer values) => p n || values.any p
  | _, n@(.assign target _ value) => p n || target.any p || value.any p
  | _, n@(.binary left _ right) => p n || left.any p || right.any p
  | _, n@(.unary _ expr) => p n || expr.any p
  | _, n@(.cast type expr) => p n || type.any p || expr.any p
  | _, n@(.classLiteral type) => p n || type.any p
  | _, n@(.conditional condition consequent alternative) =>
    p n || condition.any p || consequent.any p || alternative.any p
  | _, n@(.enclosed inner) => p n || inner.any p
  | _, n@(.instanceOf expr type) => p n || expr.any p || type.any p
  | _, n@(.methodCall scope typeArguments _ arguments) =>
    p n || scope.any p || typeArguments.any p || arguments.any p
  | _, n@(.objectCreation scope type typeArguments arguments anonymousBody) =>
    p n || scope.any p || type.any p || typeArguments.any p || arguments.any p
      || anonymousBody.any p
  | _, n@(.lambda parameters _ body) => p n || parameters.any p || body.any p
  | _, n@(.methodReference scope typeArguments _) => p n || scope.any p || typeArguments.any p
  | _, n@(.typeExpr type) => p n || type.any p
  | _, n@(.variableDeclaration decl) => p n || decl.any p
  | _, n@(.annotationExpr use) => p n || use.any p
  | _, n => p n

/-- A search has found nothing. -/
def Lacks (found : Bool) : Prop := found = false

theorem Lacks.left {a b : Bool} (h : Lacks (a || b)) : Lacks a := (Bool.or_eq_false_iff.mp h).1

theorem Lacks.right {a b : Bool} (h : Lacks (a || b)) : Lacks b := (Bool.or_eq_false_iff.mp h).2

namespace Node

variable {p : {c : Category} → Node c → Bool} {c : Category}

theorem any_eq_false (h : ∀ {c : Category} (n : Node c), p n = false) (n : Node c) :
    n.any p = false := by
  have hor {a b : Bool} (ha : a = false) (hb : b = false) : (a || b) = false := by
    rw [ha, hb, Bool.or_false]
  induction n <;> repeat first | assumption | exact h _ | refine hor ?_ ?_

theorem any_of_self {n : Node c} (h : p n = true) : n.any p = true := by
  have hor {a b : Bool} (ha : a = true) : (a || b) = true := by rw [ha, Bool.true_or]
  cases n <;> repeat first | exact h | refine hor ?_

theorem eq_false_of_lacks {n : Node c} (h : Lacks (n.any p)) : p n = false := by
  rw [← Bool.not_eq_true]
  intro hself
  rw [Lacks, any_of_self hself] at h
  cases h

theorem ofList_toList (ns : Node (.many c)) : ofList ns.toList = ns := by
  match ns with
  | .nil => rfl
  | .cons n rest => rw [toList_cons, ofList, ofList_toList rest]
termination_by sizeOf ns

theorem exists_ofList (ns : Node (.many c)) : ∃ l, ns = ofList l :=
  ⟨ns.toList, (ofList_toList ns).symm⟩

theorem any_eq_false_of_mem {ns : Node (.many c)} (h : ns.any p = false) :
    ∀ n ∈ ns.toList, n.any p = false := by
  obtain ⟨l, rfl⟩ := ns.exists_ofList
  rw [toList_ofList]
  induction l with
  | nil => exact fun _ hn => nomatch hn
  | cons n rest ih =>
    obtain ⟨hhead, hrest⟩ := Bool.or_eq_false_iff.mp h
    exact List.forall_mem_cons.mpr ⟨(Bool.or_eq_false_iff.mp hhead).2, ih hrest⟩

end Node

/-- Whether the node is a member or a statement that declares a type. -/
def Node.isDeclaring : {c : Category} → Node c → Bool
  | _, .nestedType _ => true
  | _, .localType _ => true
  | _, _ => false

/-- Whether a type is declared in the node, other than by the node itself. -/
def Node.declares {c : Category} (n : Node c) : Bool := n.any Node.isDeclaring

/-- Whether types are declared in the node as members of declarations only. -/
def Node.isRegular : {c : Category} → Node c → Bool
  | _, .nil => true
  | _, .cons head tail => head.isRegular && tail.isRegular
  | _, .nestedType decl => decl.isRegular
  | _, .classDecl _ _ _ _ annotations typeParameters extended implemented members _ =>
    !annotations.declares && !typeParameters.declares && !extended.declares
      && !implemented.declares && members.isRegular
  | _, .enumDecl _ _ _ annotations implemented constants members =>
    !annotations.declares && !implemented.declares && !constants.declares && members.isRegular
  | _, .annotationDecl _ _ _ annotations members => !annotations.declares && members.isRegular
  | _, n => !n.declares

/-- The annotations above a declaration. -/
def TypeDecl.annotations : TypeDecl → Node (.many .annotationUse)
  | .classDecl _ _ _ _ annotations .. => annotations
  | .enumDecl _ _ _ annotations .. => annotations
  | .annotationDecl _ _ _ annotations _ => annotations

namespace CompilationUnit

def packageAnnotations (u : CompilationUnit) : List AnnotationUse :=
  (u.package.map Package.annotations).getD []

/-- Whether types are declared in the unit at its top and as members of declarations only. -/
def isRegular (u : CompilationUnit) : Bool :=
  u.packageAnnotations.all (fun a => !a.declares) && u.types.all Node.isRegular

end CompilationUnit
end TypeScribe
