import TypeScribe.Proofs.Tree.Any
import TypeScribe.Script.Unit

/-!
# Trees without comments

A tree is erased by taking out its comments: those that belong to a node, those that trail in it,
and the statements that are nothing but a comment. Everything that names are resolved by is kept.
-/
namespace TypeScribe
set_option autoImplicit false

/-- The node without comments. A comment that is the whole body of a statement stays. -/
def Node.erase : {c : Category} → Node c → Node c
  | _, .cons head tail => if head.isComment then tail.erase else .cons head.erase tail.erase
  | _, .present node => .present node.erase
  | _, .annotationSingle name value => .annotationSingle name value.erase
  | _, .annotationNormal name elements => .annotationNormal name elements.erase
  | _, .element name value => .element name value.erase
  | _, .classDecl name isInterface modifiers _ annotations typeParameters extended implemented
      members _ =>
    .classDecl name isInterface modifiers none annotations.erase typeParameters.erase
      extended.erase implemented.erase members.erase []
  | _, .enumDecl name modifiers _ annotations implemented constants members =>
    .enumDecl name modifiers none annotations.erase implemented.erase constants.erase members.erase
  | _, .annotationDecl name modifiers _ annotations members =>
    .annotationDecl name modifiers none annotations.erase members.erase
  | _, .enumConstant name _ annotations arguments body =>
    .enumConstant name none annotations.erase arguments.erase body.erase
  | _, .nestedType decl => .nestedType decl.erase
  | _, .field modifiers _ annotations base declarators =>
    .field modifiers none annotations.erase base.erase declarators.erase
  | _, .method name modifiers _ annotations typeParameters result parameters thrown body =>
    .method name modifiers none annotations.erase typeParameters.erase result.erase
      parameters.erase thrown.erase body.erase
  | _, .constructor name modifiers _ annotations typeParameters parameters thrown body =>
    .constructor name modifiers none annotations.erase typeParameters.erase parameters.erase
      thrown.erase body.erase
  | _, .initializer isStatic _ body => .initializer isStatic none body.erase
  | _, .annotationMember name modifiers _ annotations type value =>
    .annotationMember name modifiers none annotations.erase type.erase value.erase
  | _, .declarator name dimensions initial => .declarator name dimensions.erase initial.erase
  | _, .dimension annotations => .dimension annotations.erase
  | _, .parameter name type modifiers annotations isVarArgs varArgsAnnotations =>
    .parameter name type.erase modifiers annotations.erase isVarArgs varArgsAnnotations.erase
  | _, .typeParameter name bounds annotations =>
    .typeParameter name bounds.erase annotations.erase
  | _, .primitive base annotations => .primitive base annotations.erase
  | _, .classUse type => .classUse type.erase
  | _, .array component annotations => .array component.erase annotations.erase
  | _, .void annotations => .void annotations.erase
  | _, .intersection elements => .intersection elements.erase
  | _, .union elements => .union elements.erase
  | _, .wildcard extendsBound superBound annotations =>
    .wildcard extendsBound.erase superBound.erase annotations.erase
  | _, .classType scope name typeArguments annotations =>
    .classType scope.erase name typeArguments.erase annotations.erase
  | _, .block statements _ => .block statements.erase []
  | _, .switchEntry label statements => .switchEntry label.erase statements.erase
  | _, .catchClause caught body => .catchClause caught.erase body.erase
  | _, .variableGroup modifiers annotations base declarators =>
    .variableGroup modifiers annotations.erase base.erase declarators.erase
  | _, .blockStmt body => .blockStmt body.erase
  | _, .exprStmt expr => .exprStmt expr.erase
  | _, .localType decl => .localType decl.erase
  | _, .assertStmt check message => .assertStmt check.erase message.erase
  | _, .labeled label statement => .labeled label statement.erase
  | _, .switchStmt selector entries => .switchStmt selector.erase entries.erase
  | _, .returnStmt expr => .returnStmt expr.erase
  | _, .ifStmt condition consequent alternative =>
    .ifStmt condition.erase consequent.erase alternative.erase
  | _, .whileStmt condition body => .whileStmt condition.erase body.erase
  | _, .doStmt body condition => .doStmt body.erase condition.erase
  | _, .forEachStmt loopVariable iterable body =>
    .forEachStmt loopVariable.erase iterable.erase body.erase
  | _, .forStmt init compare update body =>
    .forStmt init.erase compare.erase update.erase body.erase
  | _, .throwStmt expr => .throwStmt expr.erase
  | _, .synchronizedStmt lock body => .synchronizedStmt lock.erase body.erase
  | _, .tryStmt resources body catches finallyBlock =>
    .tryStmt resources.erase body.erase catches.erase finallyBlock.erase
  | _, .constructorCall isThis expr typeArguments arguments =>
    .constructorCall isThis expr.erase typeArguments.erase arguments.erase
  | _, .creationLevel size annotations => .creationLevel size.erase annotations.erase
  | _, .lambdaExpr expr => .lambdaExpr expr.erase
  | _, .lambdaBlock body => .lambdaBlock body.erase
  | _, .fieldAccess scope name => .fieldAccess scope.erase name
  | _, .arrayAccess base index => .arrayAccess base.erase index.erase
  | _, .arrayCreation elementType levels initial =>
    .arrayCreation elementType.erase levels.erase initial.erase
  | _, .arrayInitializer values => .arrayInitializer values.erase
  | _, .assign target op value => .assign target.erase op value.erase
  | _, .binary left op right => .binary left.erase op right.erase
  | _, .unary op expr => .unary op expr.erase
  | _, .cast type expr => .cast type.erase expr.erase
  | _, .classLiteral type => .classLiteral type.erase
  | _, .conditional condition consequent alternative =>
    .conditional condition.erase consequent.erase alternative.erase
  | _, .enclosed inner => .enclosed inner.erase
  | _, .instanceOf expr type => .instanceOf expr.erase type.erase
  | _, .methodCall scope typeArguments name arguments =>
    .methodCall scope.erase typeArguments.erase name arguments.erase
  | _, .objectCreation scope type typeArguments arguments anonymousBody =>
    .objectCreation scope.erase type.erase typeArguments.erase arguments.erase anonymousBody.erase
  | _, .lambda parameters isEnclosed body => .lambda parameters.erase isEnclosed body.erase
  | _, .methodReference scope typeArguments identifier =>
    .methodReference scope.erase typeArguments.erase identifier
  | _, .typeExpr type => .typeExpr type.erase
  | _, .variableDeclaration decl => .variableDeclaration decl.erase
  | _, .annotationExpr use => .annotationExpr use.erase
  | _, n => n

namespace Node

variable {c : Category}

theorem isComment_eq_false (n : Node c) (h : c ≠ .stmt) : n.isComment = false := by
  cases n <;> first | rfl | exact absurd rfl h

theorem toList_erase (ns : Node (.many c)) (h : c ≠ .stmt) :
    ns.erase.toList = ns.toList.map erase := by
  obtain ⟨l, rfl⟩ := ns.exists_ofList
  induction l with
  | nil => rfl
  | cons n rest ih =>
    change (if n.isComment then (ofList rest).erase
      else cons n.erase (ofList rest).erase).toList = _
    rw [isComment_eq_false n h]
    change n.erase :: (ofList rest).erase.toList = n.erase :: (ofList rest).toList.map erase
    rw [ih]

theorem toOption_erase (n : Node (.optional c)) : n.erase.toOption = n.toOption.map erase := by
  cases n <;> rfl

theorem segments_erase (n : Node c) : n.erase.segments = n.segments := by
  induction n with
  | present n ih => exact ih
  | classType scope name typeArguments annotations ih _ _ =>
    change scope.erase.segments ++ [name] = scope.segments ++ [name]
    rw [ih]
  | cons head tail ihHead ihTail =>
    have hnone {k : Category} (ns : Node (.many k)) : ns.segments = [] := by cases ns <;> rfl
    rw [hnone, hnone]
  | _ => rfl

end Node

namespace TypeDecl

@[simp] theorem name_erase (decl : TypeDecl) : name decl.erase = name decl := by
  cases decl <;> rfl

@[simp] theorem modifiers_erase (decl : TypeDecl) : modifiers decl.erase = modifiers decl := by
  cases decl <;> rfl

@[simp] theorem comment_erase (decl : TypeDecl) : comment decl.erase = none := by
  cases decl <;> rfl

@[simp] theorem isInterface_erase (decl : TypeDecl) :
    isInterface decl.erase = isInterface decl := by
  cases decl <;> rfl

end TypeDecl

theorem declaratorNames_erase (declarators : Node (.many .declarator)) :
    declarators.erase.toList.map declaratorName = declarators.toList.map declaratorName := by
  have hname (d : Node .declarator) : declaratorName d.erase = declaratorName d := by
    cases d
    rfl
  rw [declarators.toList_erase nofun, List.map_map]
  exact List.map_congr_left fun d _ => hname d

theorem Member.names_erase (m : Member) : Member.names m.erase = Member.names m := by
  cases m with
  | nestedType decl => exact congrArg (fun name => [name]) (TypeDecl.name_erase decl)
  | field modifiers comment annotations base declarators => exact declaratorNames_erase declarators
  | _ => rfl

theorem memberNames_erase (members : Node (.many .member)) :
    members.erase.toList.flatMap Member.names = members.toList.flatMap Member.names := by
  rw [members.toList_erase nofun, List.flatMap_map]
  simp only [Member.names_erase]

theorem TypeDecl.members_erase (decl : TypeDecl) :
    TypeDecl.members decl.erase = (TypeDecl.members decl).map Node.erase := by
  cases decl with
  | classDecl _ _ _ _ _ _ _ _ members => exact members.toList_erase nofun
  | enumDecl _ _ _ _ _ _ members => exact members.toList_erase nofun
  | annotationDecl _ _ _ _ members => exact members.toList_erase nofun

theorem nests_erase (decl : TypeDecl) (name : String) :
    Resolver.nests decl.erase name = Resolver.nests decl name := by
  have htype (m : Member) : Member.type? m.erase = (Member.type? m).map Node.erase := by
    cases m <;> rfl
  unfold Resolver.nests TypeDecl.nestedTypes
  rw [TypeDecl.members_erase, List.filterMap_map]
  simp only [Function.comp_def, htype]
  rw [← List.map_filterMap, List.any_map]
  simp [Function.comp_def]

theorem Node.outlines_erase {c : Category} (n : Node c) : n.erase.outlines = n.outlines := by
  have hlength (members : Node (.many .member)) :
      members.erase.toList.length = members.toList.length := by
    rw [members.toList_erase nofun, List.length_map]
  induction n with
  | cons head tail ihHead ihTail =>
    change (if head.isComment then tail.erase else cons head.erase tail.erase).outlines =
      head.outlines ++ tail.outlines
    cases hcomment : head.isComment with
    | true =>
      have hnone : head.outlines = [] := by
        cases head <;> first | rfl | cases hcomment
      rw [hnone]
      exact ihTail
    | false =>
      change head.erase.outlines ++ tail.erase.outlines = _
      rw [ihHead, ihTail]
  | nestedType decl ih => exact ih
  | classDecl name isInterface modifiers comment annotations typeParameters extended implemented
      members trailing _ _ _ _ ih =>
    change [Outline.mk _ _ _ (members.erase.toList.flatMap Member.names) _ members.erase.outlines] = _
    rw [memberNames_erase, hlength, ih]
    rfl
  | enumDecl name modifiers comment annotations implemented constants members _ _ _ ih =>
    change [Outline.mk _ _ _ (members.erase.toList.flatMap Member.names) _ members.erase.outlines] = _
    rw [memberNames_erase, hlength, ih]
    rfl
  | annotationDecl name modifiers comment annotations members _ ih =>
    change [Outline.mk _ _ _ (members.erase.toList.flatMap Member.names) _ members.erase.outlines] = _
    rw [memberNames_erase, hlength, ih]
    rfl
  | _ => rfl

def Import.erase (i : Import) : Import := { i with comment := none }

def Package.erase (package : Package) : Package :=
  { package with annotations := package.annotations.map Node.erase }

/-- The unit without comments. -/
def CompilationUnit.erase (u : CompilationUnit) : CompilationUnit where
  comment := none
  package := u.package.map Package.erase
  imports := u.imports.map Import.erase
  types := u.types.map Node.erase
  trailing := []

theorem CompilationUnit.packageName_erase (u : CompilationUnit) :
    u.erase.packageName = u.packageName := by
  rw [packageName, packageName, erase, Option.map_map]
  rfl

theorem CompilationUnit.packageQualifier_erase (u : CompilationUnit) :
    u.erase.packageQualifier = u.packageQualifier := by
  rw [packageQualifier, packageName_erase, packageQualifier]

theorem CompilationUnit.descriptors_erase (u : CompilationUnit) :
    u.erase.descriptors = u.descriptors := by
  rw [descriptors, packageQualifier_erase, descriptors, erase, List.flatMap_map]
  simp only [Node.outlines_erase]

namespace Resolver

def erase (r : Resolver) : Resolver := { r with imports := r.imports.map Import.erase }

theorem ofUnit_erase (u : CompilationUnit) (classPath : ClassIndex) :
    ofUnit u.erase classPath = (ofUnit u classPath).erase := by
  have hdeclared : ClassIndex.ofUnit u.erase = ClassIndex.ofUnit u := by
    rw [ClassIndex.ofUnit, CompilationUnit.descriptors_erase, ClassIndex.ofUnit]
  rw [ofUnit, CompilationUnit.packageName_erase, CompilationUnit.packageQualifier_erase, hdeclared]
  rfl

theorem lexicalScope?_erase (name : String) (scope : Scope) :
    lexicalScope? name (scope.map Node.erase) =
      (lexicalScope? name scope).map (List.map Node.erase) := by
  induction scope with
  | nil => rfl
  | cons d outer ih =>
    rw [List.map_cons, lexicalScope?, nests_erase, lexicalScope?]
    split
    · rfl
    · exact ih

theorem nestedName_erase (r : Resolver) (scope : Scope) (name : String) :
    r.erase.nestedName (scope.map Node.erase) name = r.nestedName scope name := by
  rw [nestedName, List.foldr_map, nestedName]
  simp only [TypeDecl.name_erase]
  rfl

theorem imported?_erase (r : Resolver) (name : String) (imports : List Import) :
    r.erase.imported? name (imports.map Import.erase) = r.imported? name imports := by
  induction imports with
  | nil => rfl
  | cons i rest ih =>
    rw [List.map_cons, imported?, imported?, ih]
    rfl

theorem resolveSimple_erase (r : Resolver) (name : String) (scope : Scope) :
    r.erase.resolveSimple name (scope.map Node.erase) = r.resolveSimple name scope := by
  have himported : r.erase.imported? name r.erase.imports = r.imported? name r.imports :=
    r.imported?_erase name r.imports
  rw [resolveSimple, lexicalScope?_erase, himported, resolveSimple]
  cases lexicalScope? name scope with
  | none => rfl
  | some inner =>
    change r.erase.lookupOr (r.erase.nestedName (inner.map Node.erase) name) _ = _
    rw [nestedName_erase]
    rfl

theorem resolve_erase (r : Resolver) (type : ClassType) (scope : Scope) :
    r.erase.resolve type.erase (scope.map Node.erase) = r.resolve type scope := by
  rw [resolve, Node.segments_erase, resolve]
  unfold resolveSegments
  cases Node.segments type with
  | nil => rfl
  | cons first rest =>
    simp only [resolveSimple_erase]
    rfl

end Resolver

namespace Context

/-- The context of the same place in the tree without comments. -/
def erase (cx : Context) : Context :=
  { cx with resolver := cx.resolver.erase, scope := cx.scope.map Node.erase }

variable (cx : Context)

theorem typeName_erase (name : String) : cx.erase.typeName name = cx.typeName name := by
  have hresolved : cx.erase.resolver.resolveSimple name cx.erase.scope =
      cx.resolver.resolveSimple name cx.scope := cx.resolver.resolveSimple_erase name cx.scope
  rw [typeName, hresolved, typeName]

theorem isInterface_erase (type : ClassType) :
    cx.erase.isInterface type.erase = cx.isInterface type := by
  have hresolved : cx.erase.resolver.resolve type.erase cx.erase.scope =
      cx.resolver.resolve type cx.scope := cx.resolver.resolve_erase type cx.scope
  rw [isInterface, hresolved, isInterface]

theorem enclosingName?_erase : cx.erase.enclosingName? = cx.enclosingName? := by
  unfold enclosingName? erase
  cases cx.scope with
  | nil => rfl
  | cons d outer => exact congrArg some (TypeDecl.name_erase d)

theorem enterAnonymous_erase (isStatic : Bool) :
    cx.erase.enterAnonymous isStatic = (cx.enterAnonymous isStatic).erase := by
  unfold enterAnonymous erase
  simp [outerThis, captureName, captures]

theorem thisText_erase (qualifier : Option String) :
    cx.erase.thisText qualifier = cx.thisText qualifier := by
  have hinnermost : cx.erase.innermostThis = cx.innermostThis := by
    unfold innermostThis erase
    rw [List.length_map]
  cases qualifier with
  | none => rfl
  | some name => rw [thisText, enclosingName?_erase, hinnermost, thisText]

end Context

theorem mustMove_erase (decl : TypeDecl) (scope : Scope) :
    mustMove decl.erase (scope.map Node.erase) = mustMove decl scope := by
  rw [mustMove, TypeDecl.isInterface_erase, List.any_map, mustMove]
  simp [Function.comp_def]

end TypeScribe
