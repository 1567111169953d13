import Mathlib.Data.List.Basic
import TypeScribe.Convert
import TypeScribe.Proofs.ClassIndex.Agreement
import TypeScribe.Proofs.Script.Every
import TypeScribe.Proofs.Script.Revision

/-!
# Scripts elsewhere

The script of a node depends on where the node stands only through the routes of what it moves, and
on the resolver only through what the type names in the node denote. So a declaration that is put
somewhere else, under a resolver that agrees on its names, has the same script up to routes.
-/
namespace TypeScribe
set_option autoImplicit false
open Revision

namespace Revision

/-- The revision for what is put below a route. -/
def below (base : Route) : Revision where
  keepsComments := true
  reroute := (· ++ base)
  injective := List.append_left_injective base

variable (base : Route)

theorem kept_comment (c : Option Comment) :
    Doc.comment c = (below base).doc (Doc.comment c) :=
  ((below base).doc_comment c).symm

theorem kept_comments (cs : List Comment) :
    Doc.comments cs = (below base).doc (Doc.comments cs) :=
  ((below base).doc_comments cs).symm

theorem heads_below (decl : TypeDecl) : (below base).Heads decl decl where
  name := rfl
  modifiers := rfl
  comment := kept_comment base decl.comment

/-- What becomes of the script of a node. -/
def script (v : Revision) : (c : Category) → Script c → Script c
  | .many c => fun (ss : List (Script c)) => ss.map (v.script c)
  | .optional c => fun (s : Option (Script c)) => s.map (v.script c)
  | .typeUse => v.typeShape
  | .declarator => v.declaratorShape
  | .stmt => v.stmtShape
  | .member => v.memberShape
  | .typeDecl => v.declShape
  | .creationLevel => fun (s : Option Doc) => s.map v.doc
  | .annotationUse => v.doc
  | .element => v.doc
  | .enumConstant => v.doc
  | .dimension => v.doc
  | .parameter => v.doc
  | .typeParameter => v.doc
  | .classType => v.doc
  | .block => v.doc
  | .switchEntry => v.doc
  | .catchClause => v.doc
  | .variableGroup => v.doc
  | .lambdaBody => v.doc
  | .expr => v.doc

end Revision

/-- Whether the node is a class type whose own name is not among the names. -/
def Node.isForeign (names : String → Bool) : {c : Category} → Node c → Bool
  | _, .classType _ name _ _ => !names name
  | _, _ => false

theorem name_of_lacks {names : String → Bool} {name : String}
    {scope : Node (.optional .classType)} {arguments : Node (.optional (.many .typeUse))}
    {annotations : Node (.many .annotationUse)}
    (h : Lacks ((Node.classType scope name arguments annotations).any (Node.isForeign names))) :
    names name = true := by
  have hself := Node.eq_false_of_lacks (p := Node.isForeign names) h
  exact Bool.not_eq_eq_eq_not.mp hself

/-- No name is foreign where all are allowed. -/
theorem Node.lacks_isForeign {c : Category} (n : Node c) :
    Lacks (n.any (Node.isForeign fun _ => true)) := by
  refine Node.any_eq_false (fun n => ?_) n
  cases n <;> rfl

theorem segments_of_lacks {names : String → Bool} {c : Category} (n : Node c)
    (h : Lacks (n.any (Node.isForeign names))) : ∀ s ∈ n.segments, names s = true := by
  induction n with
  | classType scope name arguments annotations ihScope =>
    have hsegments : ∀ s ∈ scope.segments ++ [name], names s = true := by
      refine List.forall_mem_append.mpr ⟨ihScope h.left.left.right, ?_⟩
      exact List.forall_mem_singleton.mpr (name_of_lacks h)
    exact hsegments
  | present node ih => exact ih h.right
  | _ => exact fun s hs => nomatch hs

namespace Context

/-- The context of the same node below a route, under another resolver. -/
def placed (cx : Context) (r : Resolver) (base : Route) : Context :=
  { cx with resolver := r, route := cx.route ++ base }

def resolvedBy (cx : Context) (r : Resolver) : Context := { cx with resolver := r }

theorem after_placed {c : Category} (cx : Context) (r : Resolver) (base : Route) (head : Node c) :
    (cx.placed r base).after head = (cx.after head).placed r base := by
  unfold after
  split <;> rfl

theorem after_resolvedBy {c : Category} (cx : Context) (r : Resolver) (head : Node c) :
    (cx.resolvedBy r).after head = (cx.after head).resolvedBy r := by
  unfold after
  split <;> rfl

variable {names : String → Bool} {r r' : Resolver} (hr : Resolver.AgreeOn names r r')
  (base : Route) (cx : Context)

include hr

theorem typeName_placed {name : String} (h : names name = true) :
    (cx.placed r' base).typeName name = (cx.resolvedBy r).typeName name := by
  have hresolve : r'.resolveSimple name cx.scope = r.resolveSimple name cx.scope :=
    hr.resolveSimple h cx.scope
  unfold typeName placed resolvedBy
  rw [hresolve]

theorem isInterface_placed (type : ClassType) (h : Lacks (type.any (Node.isForeign names))) :
    (cx.placed r' base).isInterface type = (cx.resolvedBy r).isInterface type := by
  have hresolve : r'.resolve type cx.scope = r.resolve type cx.scope :=
    hr type.segments cx.scope (segments_of_lacks type h)
  unfold isInterface placed resolvedBy
  rw [hresolve]

end Context

namespace Script

variable {r r' : Resolver} {base : Route} {decl : TypeDecl} {shape shape' : DeclShape}

theorem nestedType_placed (cx : Context) (h : shape' = (below base).declShape shape) :
    nestedType (cx.placed r' base) decl shape' =
      (below base).doc (nestedType (cx.resolvedBy r) decl shape) := by
  have hplaced : (cx.placed r' base).enclosingName? = cx.enclosingName? := rfl
  have hresolved : (cx.resolvedBy r).enclosingName? = cx.enclosingName? := rfl
  have hdecl := heads_below base decl
  unfold nestedType
  rw [moduleDecl_revised hdecl h, hplaced, hresolved]
  split
  · rfl
  · change (if mustMove decl cx.scope then _ else _) =
      (below base).doc (if mustMove decl cx.scope then _ else _)
    split
    · rfl
    · cases decl with
      | enumDecl => exact nestedEnum_revised hdecl h
      | classDecl => exact nestedClass_revised _ hdecl h
      | annotationDecl => exact nestedClass_revised _ hdecl h

theorem localType_placed (cx : Context) (h : shape' = (below base).declShape shape) :
    localType (cx.placed r' base) decl shape' =
      (below base).doc (localType (cx.resolvedBy r) decl shape) := by
  have hplaced : (cx.placed r' base).enclosingName? = cx.enclosingName? := rfl
  have hresolved : (cx.resolvedBy r).enclosingName? = cx.enclosingName? := rfl
  unfold localType
  rw [hplaced, hresolved]
  split
  · rfl
  · next enclosing _ =>
    cases decl with
    | classDecl name isInterface =>
      cases isInterface with
      | true => rfl
      | false =>
        subst h
        simp [declShape, closure_revised enclosing rfl, ← kept_comment]
    | enumDecl => rfl
    | annotationDecl => rfl

end Script

open Script Context in
/-- A node that is put below a route has the same script up to routes, under every resolver that
agrees on the type names in it. -/
theorem Node.script_placed {names : String → Bool} {r r' : Resolver}
    (hr : Resolver.AgreeOn names r r') (base : Route) {c : Category} (n : Node c) (cx : Context)
    (h : Lacks (n.any (Node.isForeign names))) :
    n.script (cx.placed r' base) = (below base).script c (n.script (cx.resolvedBy r)) := by
  induction n generalizing cx with
  | nil => rfl
  | @cons c head tail ihHead ihTail =>
    change head.script ((cx.child 0).placed r' base) ::
        tail.script ((cx.placed r' base).after head) =
      (below base).script c (head.script ((cx.child 0).resolvedBy r)) ::
        (below base).script (.many c) (tail.script ((cx.resolvedBy r).after head))
    rw [after_placed, after_resolvedBy, ihHead _ h.left.right, ihTail _ h.right]
  | absent => rfl
  | present node ih => exact congrArg some (ih cx.content h.right)
  -- Annotations
  | annotationMarker name => rfl
  | annotationSingle name value ih =>
    exact annotationComment_revised name (between_revised "(" ")" (ih (cx.child 0) h.right))
  | annotationNormal name elements ih =>
    exact annotationComment_revised name (parenthesized_revised (ih (cx.child 0) h.right))
  | element name value ih => exact element_revised name (ih (cx.child 0) h.right)
  -- Type declarations
  | classDecl name isInterface modifiers comment annotations typeParameters extended implemented
      members trailing ihAnnotations ihParameters ihExtended ihImplemented ihMembers =>
    let decl : TypeDecl := .classDecl name isInterface modifiers comment annotations typeParameters
      extended implemented members trailing
    exact declShape_mk
      (annotationLines_revised (ihAnnotations (cx.child 0) h.left.left.left.left.right))
      (classContent_revised name isInterface modifiers
        (ihParameters ((cx.enter decl).child 1) h.left.left.left.right)
        (ihExtended ((cx.enter decl).child 2) h.left.left.right)
        (ihImplemented ((cx.enter decl).child 3) h.left.right)
        (ihMembers (((cx.enter decl).membersOf isInterface).child 4) h.right)
        (kept_comments base trailing))
  | enumDecl name modifiers comment annotations implemented constants members ihAnnotations
      ihImplemented ihConstants ihMembers =>
    let decl : TypeDecl :=
      .enumDecl name modifiers comment annotations implemented constants members
    exact declShape_mk
      (annotationLines_revised (ihAnnotations (cx.child 0) h.left.left.left.right))
      (enumContent_revised name (ihImplemented ((cx.enter decl).child 1) h.left.left.right)
        (ihConstants ((cx.enter decl).child 2) h.left.right)
        (ihMembers (((cx.enter decl).membersOf false).child 3) h.right))
  | annotationDecl name modifiers comment annotations members ihAnnotations ihMembers =>
    let decl : TypeDecl := .annotationDecl name modifiers comment annotations members
    exact declShape_mk
      (annotationLines_revised (ihAnnotations (cx.child 0) h.left.right))
      (annotationContent_revised name
        (ihMembers (((cx.enter decl).membersOf true).child 1) h.right))
  | enumConstant name comment annotations arguments body ihAnnotations ihArguments ihBody =>
    exact enumConstant_revised name (kept_comment base comment)
      (ihAnnotations (cx.child 0) h.left.left.right)
      (ihArguments (cx.child 1) h.left.right) (ihBody ((cx.membersOf false).child 2) h.right)
  -- Members
  | nestedType decl ih =>
    refine congrArg (MemberShape.mk true) (nestedType_placed (cx.child 0) ?_)
    change decl.script (if mustMove decl cx.scope then _ else _) = declShape _ (decl.script
      (if mustMove decl cx.scope then _ else _))
    split
    · exact ih (cx.child 0).detached h.right
    · exact ih (cx.child 0) h.right
  | field modifiers comment annotations type declarators ihAnnotations ihType ihDeclarators =>
    exact congrArg (MemberShape.mk false) (field_revised modifiers rfl (kept_comment base comment)
      (ihAnnotations (cx.child 0) h.left.left.right)
      (knownType_revised rfl (ihType (cx.child 1) h.left.right))
      (ihDeclarators ((cx.declarators (modifiers.contains .static)).child 2) h.right))
  | method name modifiers comment annotations typeParameters result parameters thrown body
      ihAnnotations ihTypeParameters ihResult ihParameters _ ihBody =>
    exact congrArg (MemberShape.mk false) (method_revised name modifiers _ rfl
      (kept_comment base comment)
      (ihAnnotations (cx.child 0) h.left.left.left.left.left.right)
      (ihTypeParameters (cx.child 1) h.left.left.left.left.right)
      (typeDoc_revised (ihResult (cx.child 2) h.left.left.left.right))
      (ihParameters (cx.child 3) h.left.left.right) (ihBody (cx.child 4) h.right))
  | constructor name modifiers comment annotations typeParameters parameters thrown body
      ihAnnotations _ ihParameters _ ihBody =>
    exact congrArg (MemberShape.mk false) (constructor_revised _ (kept_comment base comment)
      (ihAnnotations (cx.child 0) h.left.left.left.left.right)
      (ihParameters (cx.child 1) h.left.left.right) (ihBody (cx.child 2) h.right))
  | initializer isStatic comment body ih =>
    exact congrArg (MemberShape.mk false)
      (initializer_revised isStatic (kept_comment base comment) (ih (cx.child 0) h.right))
  | annotationMember name modifiers comment annotations type value ihAnnotations ihType _ =>
    exact congrArg (MemberShape.mk false) (annotationMember_revised name (kept_comment base comment)
      (ihAnnotations (cx.child 0) h.left.left.right)
      (typeDoc_revised (ihType (cx.child 1) h.left.right)))
  | declarator name dimensions initial ihDimensions ihInitial =>
    exact declaratorShape_mk name (concat_revised (ihDimensions (cx.child 0) h.left.right))
      (initialValue_revised (ihInitial cx.initialValue h.right))
  | dimension annotations ih => exact level_revised (ih (cx.child 0) h.right)
  | parameter name type modifiers annotations isVarArgs varArgsAnnotations ihType ihAnnotations
      ihVarArgs =>
    exact parameter_revised name modifiers isVarArgs
      (knownType_revised rfl (ihType (cx.child 0) h.left.left.right))
      (ihAnnotations (cx.child 1) h.left.right) (ihVarArgs (cx.child 2) h.right)
  | typeParameter name bounds annotations ihBounds ihAnnotations =>
    exact typeParameter_revised name (ihBounds (cx.child 0) h.left.right)
      (ihAnnotations (cx.child 1) h.right)
  -- Types
  | primitive base annotations ih =>
    exact plainType_revised
      (append_revised (levelAnnotations_revised (ih (cx.child 0) h.right)) rfl)
  | classUse type ih => exact plainType_revised (ih (cx.child 0) h.right)
  | array component annotations ihComponent ihAnnotations =>
    exact arrayType_revised (ihComponent (cx.child 0) h.left.right)
      (ihAnnotations (cx.child 1) h.right)
  | void annotations => rfl
  | intersection elements ih =>
    exact plainType_revised (separated_revised " & " (typeDocs_revised (ih (cx.child 0) h.right)))
  | union elements ih =>
    exact plainType_revised (separated_revised " | " (typeDocs_revised (ih (cx.child 0) h.right)))
  | wildcard extendsBound superBound annotations ihExtends ihSuper _ =>
    exact plainType_revised (boundOrAny_revised (ihExtends (cx.child 0) h.left.left.right)
      (ihSuper (cx.child 1) h.left.right))
  | unknown => rfl
  | classType scope name typeArguments annotations ihScope ihArguments ihAnnotations =>
    have hname := typeName_placed hr base cx (name_of_lacks h)
    exact classType_revised name hname rfl
      (ihScope (cx.child 0) h.left.left.right) (ihArguments (cx.child 1) h.left.right)
      (ihAnnotations (cx.child 2) h.right)
  -- Statements
  | block statements trailing ih =>
    exact block_revised
      (stmtLines_revised (ih (cx.child 0) h.right))
      (kept_comments base trailing)
  | switchEntry label statements ihLabel ihStatements =>
    exact switchEntry_revised (ihLabel (cx.child 0) h.left.right)
      (stmtLines_revised (ihStatements (cx.child 1) h.right))
  | catchClause caught body _ ih =>
    exact catchClause_revised _ (ih (cx.child 0) h.right)
  | variableGroup modifiers annotations type declarators ihAnnotations ihType ihDeclarators =>
    exact variableGroup_revised modifiers (ihAnnotations (cx.child 0) h.left.left.right)
      (knownType_revised rfl (ihType (cx.child 1) h.left.right))
      (ihDeclarators ((cx.declarators false).child 2) h.right)
  | blockStmt body ih => exact congrArg (StmtShape.mk .block) (ih (cx.child 0) h.right)
  | exprStmt expr ih => exact congrArg plainStmt (endedBy_revised ";" (ih (cx.child 0) h.right))
  | localType decl ih =>
    exact congrArg plainStmt (localType_placed cx (ih (cx.child 0) h.right))
  | assertStmt check message => rfl
  | labeled label statement ih =>
    exact congrArg plainStmt (append_revised rfl
      (congrArg StmtShape.doc (ih (cx.child 0) h.right)))
  | emptyStmt => rfl
  | switchStmt selector entries ihSelector ihEntries =>
    exact congrArg plainStmt (switchStmt_revised (ihSelector (cx.child 0) h.left.right)
      (ihEntries (cx.child 1) h.right))
  | breakStmt label => exact congrArg plainStmt (jump_revised "break" label).symm
  | continueStmt label => exact congrArg plainStmt (jump_revised "continue" label).symm
  | returnStmt expr ih =>
    exact congrArg plainStmt (returnStmt_revised (ih (cx.child 0) h.right))
  | ifStmt condition consequent alternative ihCondition ihConsequent ihAlternative =>
    exact congrArg (StmtShape.mk .branch) (ifStmt_revised
      (ihCondition (cx.child 0) h.left.left.right) (ihConsequent (cx.child 1) h.left.right)
      (ihAlternative (cx.child 2) h.right))
  | whileStmt condition body ihCondition ihBody =>
    exact congrArg plainStmt (whileStmt_revised (ihCondition (cx.child 0) h.left.right)
      (ihBody (cx.child 1) h.right))
  | doStmt body condition ihBody ihCondition =>
    exact congrArg plainStmt (doStmt_revised (ihBody (cx.child 0) h.left.right)
      (ihCondition (cx.child 1) h.right))
  | forEachStmt loopVariable iterable body _ ihIterable ihBody =>
    exact congrArg plainStmt (forEachStmt_revised _ _ (ihIterable (cx.child 0) h.left.right)
      (ihBody (cx.child 1) h.right))
  | forStmt init compare update body ihInit ihCompare ihUpdate ihBody =>
    exact congrArg plainStmt (forStmt_revised (ihInit (cx.child 0) h.left.left.left.right)
      (ihCompare (cx.child 1) h.left.left.right) (ihUpdate (cx.child 2) h.left.right)
      (ihBody (cx.child 3) h.right))
  | throwStmt expr ih =>
    exact congrArg plainStmt (between_revised "throw " ";" (ih (cx.child 0) h.right))
  | synchronizedStmt lock body _ ih =>
    exact congrArg plainStmt (synchronizedStmt_revised (ih (cx.child 0) h.right))
  | tryStmt resources body catches finallyBlock ihResources ihBody ihCatches ihFinally =>
    exact congrArg plainStmt (tryStmt_revised (ihResources (cx.child 0) h.left.left.left.right)
      (ihBody (cx.child 1) h.left.left.right) (ihCatches (cx.child 2) h.left.right)
      (ihFinally (cx.child 3) h.right))
  | constructorCall isThis expr typeArguments arguments ihExpr _ ihArguments =>
    exact congrArg plainStmt (constructorCall_revised isThis
      (ihExpr (cx.child 0) h.left.left.right) (ihArguments (cx.child 1) h.right))
  | commentStmt comment => rfl
  | unparsable => rfl
  -- Expressions
  | creationLevel size annotations ih _ => exact ih (cx.child 0) h.left.right
  | lambdaExpr expr ih => exact ih (cx.child 0) h.right
  | lambdaBlock body ih => exact ih (cx.child 0) h.right
  | nameExpr name => rfl
  | fieldAccess scope name ih =>
    exact underScope_revised (congrArg some (ih (cx.child 0) h.right)) rfl
  | arrayAccess base index ihBase ihIndex =>
    exact arrayAccess_revised (ihBase (cx.child 0) h.left.right) (ihIndex (cx.child 1) h.right)
  | arrayCreation elementType levels initial ihType ihLevels ihInitial =>
    exact arrayCreation_revised (typeDoc_revised (ihType (cx.child 0) h.left.left.right))
      (ihLevels (cx.child 1) h.left.right) (ihInitial (cx.child 2) h.right)
  | arrayInitializer values ih => exact arrayLiteral_revised (ih (cx.child 0) h.right)
  | assign target op value ihTarget ihValue =>
    exact infixed_revised _ (ihTarget (cx.child 0) h.left.right) (ihValue (cx.child 1) h.right)
  | binary left op right ihLeft ihRight =>
    exact infixed_revised _ (ihLeft (cx.child 0) h.left.right) (ihRight (cx.child 1) h.right)
  | unary op expr ih => exact unary_revised op (ih (cx.child 0) h.right)
  | cast type expr ihType ihExpr =>
    exact cast_revised _ (typeDoc_revised (ihType (cx.child 0) h.left.right))
      (ihExpr (cx.child 1) h.right)
  | classLiteral type ih =>
    exact endedBy_revised ".class" (typeDoc_revised (ih (cx.child 0) h.right))
  | conditional condition consequent alternative ihCondition ihConsequent ihAlternative =>
    exact conditional_revised (ihCondition (cx.child 0) h.left.left.right)
      (ihConsequent (cx.child 1) h.left.right) (ihAlternative (cx.child 2) h.right)
  | enclosed inner ih => exact between_revised "(" ")" (ih (cx.child 0) h.right)
  | instanceOf expr type ihExpr ihType =>
    exact infixed_revised _ (ihExpr (cx.child 0) h.left.right)
      (typeDoc_revised (ihType (cx.child 1) h.right))
  | integerLiteral value => rfl
  | longLiteral value => rfl
  | doubleLiteral value => rfl
  | charLiteral value => rfl
  | stringLiteral value => rfl
  | booleanLiteral value => rfl
  | nullLiteral => rfl
  | thisExpr qualifier => rfl
  | superExpr qualifier => exact (superDoc_revised qualifier).symm
  | methodCall scope typeArguments name arguments ihScope ihTypes ihArguments =>
    exact methodCall_revised name (ihScope (cx.child 0) h.left.left.right)
      (ihTypes (cx.child 1) h.left.right) (ihArguments (cx.child 2) h.right)
  | objectCreation scope type typeArguments arguments anonymousBody ihScope ihType _ ihArguments
      ihBody =>
    have htype := isInterface_placed hr base cx type h.left.left.left.right
    exact objectCreation_revised _ rfl htype rfl
      (ihScope (cx.child 0) h.left.left.left.left.right)
      (ihType (cx.child 1) h.left.left.left.right) (ihArguments (cx.child 2) h.left.right)
      (ihBody ((cx.enterAnonymous (cx.createsStatic scope)).child 3) h.right)
  | lambda parameters isEnclosed body ihParameters ihBody =>
    exact lambda_revised isEnclosed (ihParameters (cx.child 0) h.left.right)
      (ihBody (cx.child 1) h.right)
  | methodReference scope typeArguments identifier ih _ =>
    exact append_revised rfl (underScope_revised (congrArg some (ih (cx.child 0) h.left.right)) rfl)
  | typeExpr type ih => exact typeDoc_revised (ih (cx.child 0) h.right)
  | variableDeclaration decl ih => exact ih (cx.child 0) h.right
  | annotationExpr use ih => exact ih (cx.child 0) h.right

namespace CompilationUnit

variable {names : String → Bool} {r r' : Resolver} (hr : Resolver.AgreeOn names r r')
  (base : Route) (cx : Context)

include hr in
theorem block_placed {decl : TypeDecl} (h : Lacks (decl.any (Node.isForeign names))) :
    block (cx.placed r' base) decl = (below base).doc (block (cx.resolvedBy r) decl) := by
  have hscript := decl.script_placed hr base cx h
  rw [block, Script.rootDecl_revised (heads_below base decl) hscript, doc_withModules, block]

include hr in
theorem blocks_placed (place : Nat) {types : List TypeDecl}
    (h : ∀ decl ∈ types, Lacks (decl.any (Node.isForeign names))) :
    blocks (cx.placed r' base) place types =
      (blocks (cx.resolvedBy r) place types).map (below base).doc := by
  induction types generalizing place with
  | nil => rfl
  | cons decl rest ih =>
    obtain ⟨hdecl, hrest⟩ := List.forall_mem_cons.mp h
    have hblock := block_placed hr base (cx.child place) hdecl
    exact congr (congrArg List.cons hblock) (ih (place + 1) hrest)

theorem importDoc_below (i : Import) : (below base).doc i.doc = i.doc := by
  unfold Import.doc
  rw [doc_append, ← kept_comment]
  split <;> rfl

include hr in
theorem openNamespace_placed {package : Package}
    (h : ∀ a ∈ package.annotations, Lacks (a.any (Node.isForeign names))) :
    openNamespace (cx.placed r' base) package =
      (below base).doc (openNamespace (cx.resolvedBy r) package) := by
  have hannotations : package.annotations.map (fun a => a.script (cx.placed r' base)) =
      (package.annotations.map fun a => a.script (cx.resolvedBy r)).map (below base).doc := by
    have hscripts :=
      List.map_congr_left fun a ha => Node.script_placed hr base a cx (h a ha)
    exact hscripts.trans List.map_map.symm
  unfold openNamespace
  rw [doc_append, doc_append, ← Script.annotationLines_revised hannotations]
  rfl

include hr in
theorem header_placed (u : CompilationUnit) (wrap : Bool)
    (h : ∀ a ∈ u.packageAnnotations, Lacks (a.any (Node.isForeign names))) :
    u.header wrap (cx.placed r' base) = (below base).doc (u.header wrap (cx.resolvedBy r)) := by
  have himports : (below base).doc (u.imports.flatMap Import.doc) =
      u.imports.flatMap Import.doc := by
    rw [doc_flatMap]
    simp only [importDoc_below]
  have hend : (below base).doc (if u.imports.isEmpty then [] else Doc.newline) =
      if u.imports.isEmpty then [] else Doc.newline := by
    split <;> rfl
  unfold header
  rw [doc_append, doc_append, doc_append, himports, hend, ← kept_comment]
  cases hnamespace : u.namespace? wrap with
  | none => rfl
  | some package =>
    have hpackage := package_of_namespace? hnamespace
    have hopen := openNamespace_placed hr base cx fun a ha =>
      h a (by simpa [packageAnnotations, hpackage] using ha)
    rw [← hopen]

theorem footer_below (u : CompilationUnit) (wrap : Bool) :
    (below base).doc (u.footer wrap) = u.footer wrap := by
  unfold footer
  rw [doc_append, ← kept_comments]
  split <;> rfl

end CompilationUnit

theorem typeset_below {σ : Type} [Sheet σ] (config : Config) (base : Route) (sheet : σ) (d : Doc) :
    typeset config sheet ((below base).doc d) = typeset config sheet d := by
  have hkept {p : Piece} {rest : Doc} (hp : (below base).piece p = [p])
      (ih : ∀ sheet : σ, typeset config sheet ((below base).doc rest) = typeset config sheet rest)
      (sheet : σ) :
      typeset config sheet ((below base).doc (p :: rest)) = typeset config sheet (p :: rest) := by
    rw [doc_cons, hp, List.singleton_append, typeset, typeset]
    cases typesetPiece config sheet p with
    | ok next => exact ih next
    | error e => rfl
  induction d generalizing sheet with
  | nil => rfl
  | cons p rest ih =>
    cases p with
    | moved route names body => exact ih sheet
    | _ => exact hkept rfl ih sheet

open CompilationUnit in
/-- Class paths under which the type names of a unit denote the same give the same text. -/
theorem convert_eq_of_agreeOn {u : CompilationUnit} {names : String → Bool}
    {classPath classPath' : ClassIndex}
    (hr : Resolver.AgreeOn names (.ofUnit u classPath) (.ofUnit u classPath'))
    (hannotations : ∀ a ∈ u.packageAnnotations, Lacks (a.any (Node.isForeign names)))
    (htypes : ∀ decl ∈ u.types, Lacks (decl.any (Node.isForeign names))) (config : Config) :
    convert u config classPath' = convert u config classPath := by
  let cx : Context := { resolver := .ofUnit u classPath }
  have hscript (wrap : Bool) :
      u.script wrap classPath' = (below []).doc (u.script wrap classPath) := by
    change u.header wrap (cx.placed _ []) ++ stacked (blocks (cx.placed _ []) 0 u.types) ++ _ = _
    rw [header_placed hr [] cx u wrap hannotations, blocks_placed hr [] cx 0 htypes, doc_stacked,
      ← footer_below [] u wrap, ← doc_append, ← doc_append]
    rfl
  rw [convert, hscript, typeset_below, convert]

end TypeScribe
