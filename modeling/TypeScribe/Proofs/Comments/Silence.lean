import TypeScribe.Convert
import TypeScribe.Proofs.Comments.Erase
import TypeScribe.Proofs.Script.Revision
import TypeScribe.Samples

/-!
# Leaving out comments

A configuration may switch off all comments. That has the same effect as erasing them from the
tree: the script of the erased tree is the script of the tree without its comments. The one
exception is a comment that is the whole body of a statement, which cannot be taken out.
-/
namespace TypeScribe
set_option autoImplicit false

/-- The revision that leaves out all comments. -/
def Revision.silent : Revision where
  keepsComments := false
  reroute := id
  injective := Function.injective_id

open Revision

theorem silent_comment (c : Option Comment) : Doc.comment none = silent.doc (Doc.comment c) :=
  (silent.doc_comment c).symm

theorem silent_comments (cs : List Comment) : Doc.comments [] = silent.doc (Doc.comments cs) :=
  (silent.doc_comments cs).symm

/-- The statements that are no comments, without the comments inside them. -/
def quietStmts (ss : List StmtShape) : List StmtShape :=
  (ss.filter fun s => s.form ≠ .comment).map silent.stmtShape

theorem Script.stmtLines_quiet {ss ss' : List StmtShape} (h : ss' = quietStmts ss)
    (hcomment : ∀ s ∈ ss, s.form = .comment → silent.doc s.doc = []) :
    stmtLines ss' = silent.doc (stmtLines ss) := by
  subst h
  induction ss with
  | nil => rfl
  | cons s rest ih =>
    obtain ⟨hs, hrest⟩ := List.forall_mem_cons.mp hcomment
    have htail := ih hrest
    change _ = silent.doc (stmtLine s ++ stmtLines rest)
    rw [doc_append, ← htail]
    by_cases hform : s.form = .comment
    · simp [quietStmts, stmtLine, hform, hs hform]
    · simp [quietStmts, stmtLines, stmtLine, hform, stmtShape]

/-- The script without comments. A statement that is a comment stays one, but vanishes from a
sequence. -/
def Script.quiet : (c : Category) → Script c → Script c
  | .many .stmt => quietStmts
  | .many c => fun (ss : List (Script c)) => ss.map (Script.quiet c)
  | .optional c => fun (s : Option (Script c)) => s.map (Script.quiet c)
  | .typeUse => silent.typeShape
  | .declarator => silent.declaratorShape
  | .stmt => fun (s : StmtShape) => if s.form = .comment then s else silent.stmtShape s
  | .member => silent.memberShape
  | .typeDecl => silent.declShape
  | .creationLevel => fun (s : Option Doc) => s.map silent.doc
  | .annotationUse => silent.doc
  | .element => silent.doc
  | .enumConstant => silent.doc
  | .dimension => silent.doc
  | .parameter => silent.doc
  | .typeParameter => silent.doc
  | .classType => silent.doc
  | .block => silent.doc
  | .switchEntry => silent.doc
  | .catchClause => silent.doc
  | .variableGroup => silent.doc
  | .lambdaBody => silent.doc
  | .expr => silent.doc

/-- Whether the node is a statement whose body is a comment. -/
def Node.hasCommentBody : {c : Category} → Node c → Bool
  | _, .labeled _ statement => statement.isComment
  | _, .ifStmt _ consequent alternative =>
    consequent.isComment || alternative.toOption.any Node.isComment
  | _, .whileStmt _ body => body.isComment
  | _, .doStmt body _ => body.isComment
  | _, .forEachStmt _ _ body => body.isComment
  | _, .forStmt _ _ _ body => body.isComment
  | _, _ => false

theorem Stmt.form_eq_comment {s : Stmt} {cx : Context}
    (h : StmtShape.form (s.script cx) = .comment) : s.isComment = true := by
  cases s <;> first | rfl | cases h

theorem Stmt.quiet_script {s : Stmt} (h : s.isComment = false) (cx : Context) :
    Script.quiet .stmt (s.script cx) = silent.stmtShape (s.script cx) := by
  refine if_neg fun hform => ?_
  rw [form_eq_comment hform] at h
  cases h

theorem quiet_optional_stmt {s : Node (.optional .stmt)}
    (h : s.toOption.any Node.isComment = false) (cx : Context) :
    Script.quiet (.optional .stmt) (s.script cx) = Option.map silent.stmtShape (s.script cx) := by
  cases s with
  | absent => rfl
  | present s => exact congrArg some (Stmt.quiet_script h _)

theorem quiet_comment_stmts (ss : Node (.many .stmt)) (cx : Context) :
    ∀ s ∈ (show List StmtShape from ss.script cx), s.form = .comment → silent.doc s.doc = [] := by
  obtain ⟨l, rfl⟩ := ss.exists_ofList
  induction l generalizing cx with
  | nil => exact fun s hs => nomatch hs
  | cons s rest ih =>
    refine List.forall_mem_cons.mpr ⟨?_, ih _⟩
    intro hform
    cases s <;> first | rfl | cases hform

theorem quiet_cons {c : Category} (head : Node c) (h : head.isComment = false) (cx : Context)
    (rest : List (Script c)) :
    Script.quiet (.many c) (head.script cx :: rest) =
      Script.quiet c (head.script cx) :: Script.quiet (.many c) rest := by
  cases head <;> first | rfl | cases h

theorem isUnknown_erase (type : TypeUse) :
    TypeUse.isUnknown type.erase = TypeUse.isUnknown type := by
  cases type <;> rfl

theorem isIntegral_erase (type : TypeUse) :
    TypeUse.isIntegral type.erase = TypeUse.isIntegral type := by
  cases type with
  | primitive base annotations => cases base <;> rfl
  | _ => rfl

theorem parameterName_erase (parameter : Node .parameter) :
    parameterName parameter.erase = parameterName parameter := by
  cases parameter
  rfl

theorem VariableGroup.modifiers_erase (group : VariableGroup) :
    VariableGroup.modifiers group.erase = VariableGroup.modifiers group := by
  cases group
  rfl

theorem VariableGroup.names_erase (group : VariableGroup) :
    VariableGroup.names group.erase = VariableGroup.names group := by
  cases group
  exact declaratorNames_erase _

theorem ClassType.name_erase (type : ClassType) :
    ClassType.name type.erase = ClassType.name type := by
  cases type
  rfl

theorem isEmpty_erase (thrown : Node (.many .typeUse)) :
    thrown.erase.toList.isEmpty = thrown.toList.isEmpty := by
  rw [thrown.toList_erase nofun, List.isEmpty_map]

theorem Context.createsStatic_erase (cx : Context) (scope : Node (.optional .expr)) :
    cx.erase.createsStatic scope.erase = cx.createsStatic scope := by
  rw [createsStatic, Node.toOption_erase, Option.isNone_map]
  rfl

theorem heads_erase (decl : TypeDecl) : silent.Heads decl decl.erase where
  name := TypeDecl.name_erase decl
  modifiers := TypeDecl.modifiers_erase decl
  comment := by
    rw [TypeDecl.comment_erase]
    exact silent_comment decl.comment

namespace Script

variable {decl : TypeDecl} {shape shape' : DeclShape}

theorem nestedType_quiet (cx : Context) (h : shape' = silent.declShape shape) :
    nestedType cx.erase decl.erase shape' = silent.doc (nestedType cx decl shape) := by
  have hmove : mustMove decl.erase cx.erase.scope = mustMove decl cx.scope :=
    mustMove_erase decl cx.scope
  have hnames : cx.erase.scope.reverse.map TypeDecl.name = cx.scope.reverse.map TypeDecl.name := by
    change (cx.scope.map Node.erase).reverse.map TypeDecl.name = _
    rw [← List.map_reverse, List.map_map]
    exact List.map_congr_left fun d _ => TypeDecl.name_erase d
  unfold nestedType
  rw [cx.enclosingName?_erase, hmove, hnames, moduleDecl_revised (heads_erase decl) h,
    TypeDecl.name_erase]
  split
  · rfl
  · split
    · rfl
    · cases decl with
      | enumDecl => exact nestedEnum_revised (heads_erase _) h
      | classDecl => exact nestedClass_revised _ (heads_erase _) h
      | annotationDecl => exact nestedClass_revised _ (heads_erase _) h

theorem localType_quiet (cx : Context) (h : shape' = silent.declShape shape) :
    localType cx.erase decl.erase shape' = silent.doc (localType cx decl shape) := by
  unfold localType
  rw [cx.enclosingName?_erase]
  split
  · rw [TypeDecl.name_erase]
    rfl
  · next enclosing _ =>
    cases decl with
    | classDecl name isInterface =>
      cases isInterface with
      | true => rfl
      | false =>
        subst h
        change Doc.comment none ++ silent.doc shape.annotations
          ++ Doc.text ("const " ++ name ++ " = ")
          ++ closure enclosing (silent.doc shape.content) = _
        rw [closure_revised enclosing rfl]
        simp [← silent_comment]
    | enumDecl => rfl
    | annotationDecl => rfl

end Script

theorem Node.isComment_erase {c : Category} (n : Node c) : n.erase.isComment = n.isComment := by
  cases n with
  | cons head tail => exact isComment_eq_false (cons head tail).erase nofun
  | _ => rfl

open Script in
/-- The script of the erased node is the script of the node without its comments. -/
theorem Node.script_erase {c : Category} (n : Node c) (cx : Context)
    (h : Lacks (n.any Node.hasCommentBody)) :
    n.erase.script cx.erase = Script.quiet c (n.script cx) := by
  induction n generalizing cx with
  | @nil c => cases c <;> rfl
  | @cons c head tail ihHead ihTail =>
    cases hcomment : head.isComment with
    | true =>
      cases head <;> try cases hcomment
      exact ihTail cx h.right
    | false =>
      have herase : (cons head tail).erase = cons head.erase tail.erase := by
        change (if head.isComment then tail.erase else cons head.erase tail.erase) = _
        rw [hcomment]
        rfl
      have hafter : cx.after head = cx.child 1 := by
        rw [Context.after, hcomment]
        rfl
      have hafter' : cx.erase.after head.erase = (cx.child 1).erase := by
        rw [Context.after, head.isComment_erase, hcomment]
        rfl
      rw [herase]
      change head.erase.script (cx.child 0).erase :: tail.erase.script (cx.erase.after head.erase) =
        Script.quiet (.many c) (head.script (cx.child 0) :: tail.script (cx.after head))
      rw [hafter, hafter', ihHead _ h.left.right, ihTail _ h.right]
      exact (quiet_cons head hcomment _ _).symm
  | absent => rfl
  | present node ih => exact congrArg some (ih cx.content h.right)
  -- Annotations
  | annotationMarker name => rfl
  | annotationSingle name value ih =>
    exact annotationComment_revised name (between_revised "(" ")" (ih (cx.child 0) h.right))
  | annotationNormal name elements ih =>
    exact annotationComment_revised name (parenthesized_revised (ih (cx.child 0) h.right))
  | element name value ih => exact element_revised name (ih (cx.child 0) h.right)
  -- Type declarations
  | classDecl name isInterface modifiers comment annotations typeParameters extended implemented
      members trailing ihAnnotations ihParameters ihExtended ihImplemented ihMembers =>
    let decl : TypeDecl := .classDecl name isInterface modifiers comment annotations typeParameters
      extended implemented members trailing
    exact declShape_mk
      (annotationLines_revised (ihAnnotations (cx.child 0) h.left.left.left.left.right))
      (classContent_revised name isInterface modifiers
        (ihParameters ((cx.enter decl).child 1) h.left.left.left.right)
        (ihExtended ((cx.enter decl).child 2) h.left.left.right)
        (ihImplemented ((cx.enter decl).child 3) h.left.right)
        (ihMembers (((cx.enter decl).membersOf isInterface).child 4) h.right)
        (silent_comments trailing))
  | enumDecl name modifiers comment annotations implemented constants members ihAnnotations
      ihImplemented ihConstants ihMembers =>
    let decl : TypeDecl :=
      .enumDecl name modifiers comment annotations implemented constants members
    exact declShape_mk
      (annotationLines_revised (ihAnnotations (cx.child 0) h.left.left.left.right))
      (enumContent_revised name (ihImplemented ((cx.enter decl).child 1) h.left.left.right)
        (ihConstants ((cx.enter decl).child 2) h.left.right)
        (ihMembers (((cx.enter decl).membersOf false).child 3) h.right))
  | annotationDecl name modifiers comment annotations members ihAnnotations ihMembers =>
    let decl : TypeDecl := .annotationDecl name modifiers comment annotations members
    exact declShape_mk
      (annotationLines_revised (ihAnnotations (cx.child 0) h.left.right))
      (annotationContent_revised name
        (ihMembers (((cx.enter decl).membersOf true).child 1) h.right))
  | enumConstant name comment annotations arguments body ihAnnotations ihArguments ihBody =>
    exact enumConstant_revised name (silent_comment comment)
      (ihAnnotations (cx.child 0) h.left.left.right)
      (ihArguments (cx.child 1) h.left.right) (ihBody ((cx.membersOf false).child 2) h.right)
  -- Members
  | nestedType decl ih =>
    refine congrArg (MemberShape.mk true) (nestedType_quiet (cx.child 0) ?_)
    have hmove : mustMove decl.erase cx.erase.scope = mustMove decl cx.scope :=
      mustMove_erase decl cx.scope
    rw [hmove]
    split
    · exact ih (cx.child 0).detached h.right
    · exact ih (cx.child 0) h.right
  | field modifiers comment annotations base declarators ihAnnotations ihBase ihDeclarators =>
    exact congrArg (MemberShape.mk false) (field_revised modifiers rfl (silent_comment comment)
      (ihAnnotations (cx.child 0) h.left.left.right)
      (knownType_revised (isUnknown_erase _) (ihBase (cx.child 1) h.left.right))
      (ihDeclarators ((cx.declarators (modifiers.contains .static)).child 2) h.right))
  | method name modifiers comment annotations typeParameters result parameters thrown body
      ihAnnotations ihTypeParameters ihResult ihParameters _ ihBody =>
    refine congrArg (MemberShape.mk false) ?_
    rw [isEmpty_erase]
    exact method_revised name modifiers _ rfl (silent_comment comment)
      (ihAnnotations (cx.child 0) h.left.left.left.left.left.right)
      (ihTypeParameters (cx.child 1) h.left.left.left.left.right)
      (typeDoc_revised (ihResult (cx.child 2) h.left.left.left.right))
      (ihParameters (cx.child 3) h.left.left.right) (ihBody (cx.child 4) h.right)
  | constructor name modifiers comment annotations typeParameters parameters thrown body
      ihAnnotations _ ihParameters _ ihBody =>
    refine congrArg (MemberShape.mk false) ?_
    rw [isEmpty_erase]
    exact constructor_revised _ (silent_comment comment)
      (ihAnnotations (cx.child 0) h.left.left.left.left.right)
      (ihParameters (cx.child 1) h.left.left.right) (ihBody (cx.child 2) h.right)
  | initializer isStatic comment body ih =>
    exact congrArg (MemberShape.mk false)
      (initializer_revised isStatic (silent_comment comment) (ih (cx.child 0) h.right))
  | annotationMember name modifiers comment annotations type value ihAnnotations ihType _ =>
    exact congrArg (MemberShape.mk false) (annotationMember_revised name (silent_comment comment)
      (ihAnnotations (cx.child 0) h.left.left.right)
      (typeDoc_revised (ihType (cx.child 1) h.left.right)))
  | declarator name dimensions initial ihDimensions ihInitial =>
    exact declaratorShape_mk name (concat_revised (ihDimensions (cx.child 0) h.left.right))
      (initialValue_revised (ihInitial cx.initialValue h.right))
  | dimension annotations ih => exact level_revised (ih (cx.child 0) h.right)
  | parameter name type modifiers annotations isVarArgs varArgsAnnotations ihType ihAnnotations
      ihVarArgs =>
    exact parameter_revised name modifiers isVarArgs
      (knownType_revised (isUnknown_erase _) (ihType (cx.child 0) h.left.left.right))
      (ihAnnotations (cx.child 1) h.left.right) (ihVarArgs (cx.child 2) h.right)
  | typeParameter name bounds annotations ihBounds ihAnnotations =>
    exact typeParameter_revised name (ihBounds (cx.child 0) h.left.right)
      (ihAnnotations (cx.child 1) h.right)
  -- Types
  | primitive base annotations ih =>
    exact plainType_revised
      (append_revised (levelAnnotations_revised (ih (cx.child 0) h.right)) rfl)
  | classUse type ih => exact plainType_revised (ih (cx.child 0) h.right)
  | array component annotations ihComponent ihAnnotations =>
    exact arrayType_revised (ihComponent (cx.child 0) h.left.right)
      (ihAnnotations (cx.child 1) h.right)
  | void annotations => rfl
  | intersection elements ih =>
    exact plainType_revised (separated_revised " & " (typeDocs_revised (ih (cx.child 0) h.right)))
  | union elements ih =>
    exact plainType_revised (separated_revised " | " (typeDocs_revised (ih (cx.child 0) h.right)))
  | wildcard extendsBound superBound annotations ihExtends ihSuper _ =>
    exact plainType_revised (boundOrAny_revised (ihExtends (cx.child 0) h.left.left.right)
      (ihSuper (cx.child 1) h.left.right))
  | unknown => rfl
  | classType scope name typeArguments annotations ihScope ihArguments ihAnnotations =>
    exact classType_revised name (cx.typeName_erase name) scope.segments_erase
      (ihScope (cx.child 0) h.left.left.right) (ihArguments (cx.child 1) h.left.right)
      (ihAnnotations (cx.child 2) h.right)
  -- Statements
  | block statements trailing ih =>
    exact block_revised
      (stmtLines_quiet (ih (cx.child 0) h.right) (quiet_comment_stmts statements _))
      (silent_comments trailing)
  | switchEntry label statements ihLabel ihStatements =>
    exact switchEntry_revised (ihLabel (cx.child 0) h.left.right)
      (stmtLines_quiet (ihStatements (cx.child 1) h.right) (quiet_comment_stmts statements _))
  | catchClause caught body _ ih =>
    change Script.catchClause (parameterName caught.erase) _ = _
    rw [parameterName_erase]
    exact catchClause_revised _ (ih (cx.child 0) h.right)
  | variableGroup modifiers annotations base declarators ihAnnotations ihBase ihDeclarators =>
    exact variableGroup_revised modifiers (ihAnnotations (cx.child 0) h.left.left.right)
      (knownType_revised (isUnknown_erase _) (ihBase (cx.child 1) h.left.right))
      (ihDeclarators ((cx.declarators false).child 2) h.right)
  | blockStmt body ih => exact congrArg (StmtShape.mk .block) (ih (cx.child 0) h.right)
  | exprStmt expr ih => exact congrArg plainStmt (endedBy_revised ";" (ih (cx.child 0) h.right))
  | localType decl ih =>
    exact congrArg plainStmt (localType_quiet cx (ih (cx.child 0) h.right))
  | assertStmt check message => rfl
  | labeled label statement ih =>
    have hself := eq_false_of_lacks (p := Node.hasCommentBody) h
    have hbody := (ih (cx.child 0) h.right).trans (Stmt.quiet_script hself _)
    exact congrArg plainStmt (append_revised rfl (congrArg StmtShape.doc hbody))
  | emptyStmt => rfl
  | switchStmt selector entries ihSelector ihEntries =>
    exact congrArg plainStmt (switchStmt_revised (ihSelector (cx.child 0) h.left.right)
      (ihEntries (cx.child 1) h.right))
  | breakStmt label => exact congrArg plainStmt (jump_revised "break" label).symm
  | continueStmt label => exact congrArg plainStmt (jump_revised "continue" label).symm
  | returnStmt expr ih =>
    exact congrArg plainStmt (returnStmt_revised (ih (cx.child 0) h.right))
  | ifStmt condition consequent alternative ihCondition ihConsequent ihAlternative =>
    have hself := eq_false_of_lacks (p := Node.hasCommentBody) h
    obtain ⟨hthen, helse⟩ := Bool.or_eq_false_iff.mp hself
    have hconsequent := (ihConsequent (cx.child 1) h.left.right).trans (Stmt.quiet_script hthen _)
    have halternative := (ihAlternative (cx.child 2) h.right).trans (quiet_optional_stmt helse _)
    exact congrArg (StmtShape.mk .branch)
      (ifStmt_revised (ihCondition (cx.child 0) h.left.left.right) hconsequent halternative)
  | whileStmt condition body ihCondition ihBody =>
    have hself := eq_false_of_lacks (p := Node.hasCommentBody) h
    have hbody := (ihBody (cx.child 1) h.right).trans (Stmt.quiet_script hself _)
    exact congrArg plainStmt (whileStmt_revised (ihCondition (cx.child 0) h.left.right) hbody)
  | doStmt body condition ihBody ihCondition =>
    have hself := eq_false_of_lacks (p := Node.hasCommentBody) h
    have hbody := (ihBody (cx.child 0) h.left.right).trans (Stmt.quiet_script hself _)
    exact congrArg plainStmt (doStmt_revised hbody (ihCondition (cx.child 1) h.right))
  | forEachStmt loopVariable iterable body _ ihIterable ihBody =>
    have hself := eq_false_of_lacks (p := Node.hasCommentBody) h
    have hbody := (ihBody (cx.child 1) h.right).trans (Stmt.quiet_script hself _)
    refine congrArg plainStmt ?_
    rw [VariableGroup.modifiers_erase, VariableGroup.names_erase]
    exact forEachStmt_revised _ _ (ihIterable (cx.child 0) h.left.right) hbody
  | forStmt init compare update body ihInit ihCompare ihUpdate ihBody =>
    have hself := eq_false_of_lacks (p := Node.hasCommentBody) h
    have hbody := (ihBody (cx.child 3) h.right).trans (Stmt.quiet_script hself _)
    exact congrArg plainStmt (forStmt_revised (ihInit (cx.child 0) h.left.left.left.right)
      (ihCompare (cx.child 1) h.left.left.right) (ihUpdate (cx.child 2) h.left.right) hbody)
  | throwStmt expr ih =>
    exact congrArg plainStmt (between_revised "throw " ";" (ih (cx.child 0) h.right))
  | synchronizedStmt lock body _ ih =>
    exact congrArg plainStmt (synchronizedStmt_revised (ih (cx.child 0) h.right))
  | tryStmt resources body catches finallyBlock ihResources ihBody ihCatches ihFinally =>
    exact congrArg plainStmt (tryStmt_revised (ihResources (cx.child 0) h.left.left.left.right)
      (ihBody (cx.child 1) h.left.left.right) (ihCatches (cx.child 2) h.left.right)
      (ihFinally (cx.child 3) h.right))
  | constructorCall isThis expr typeArguments arguments ihExpr _ ihArguments =>
    exact congrArg plainStmt (constructorCall_revised isThis
      (ihExpr (cx.child 0) h.left.left.right) (ihArguments (cx.child 1) h.right))
  | commentStmt comment => rfl
  | unparsable => rfl
  -- Expressions
  | creationLevel size annotations ih _ => exact ih (cx.child 0) h.left.right
  | lambdaExpr expr ih => exact ih (cx.child 0) h.right
  | lambdaBlock body ih => exact ih (cx.child 0) h.right
  | nameExpr name => rfl
  | fieldAccess scope name ih =>
    exact underScope_revised (congrArg some (ih (cx.child 0) h.right)) rfl
  | arrayAccess base index ihBase ihIndex =>
    exact arrayAccess_revised (ihBase (cx.child 0) h.left.right) (ihIndex (cx.child 1) h.right)
  | arrayCreation elementType levels initial ihType ihLevels ihInitial =>
    exact arrayCreation_revised (typeDoc_revised (ihType (cx.child 0) h.left.left.right))
      (ihLevels (cx.child 1) h.left.right) (ihInitial (cx.child 2) h.right)
  | arrayInitializer values ih => exact arrayLiteral_revised (ih (cx.child 0) h.right)
  | assign target op value ihTarget ihValue =>
    exact infixed_revised _ (ihTarget (cx.child 0) h.left.right) (ihValue (cx.child 1) h.right)
  | binary left op right ihLeft ihRight =>
    exact infixed_revised _ (ihLeft (cx.child 0) h.left.right) (ihRight (cx.child 1) h.right)
  | unary op expr ih => exact unary_revised op (ih (cx.child 0) h.right)
  | cast type expr ihType ihExpr =>
    change Script.cast (TypeUse.isIntegral type.erase) _ _ = _
    rw [isIntegral_erase]
    exact cast_revised _ (typeDoc_revised (ihType (cx.child 0) h.left.right))
      (ihExpr (cx.child 1) h.right)
  | classLiteral type ih =>
    exact endedBy_revised ".class" (typeDoc_revised (ih (cx.child 0) h.right))
  | conditional condition consequent alternative ihCondition ihConsequent ihAlternative =>
    exact conditional_revised (ihCondition (cx.child 0) h.left.left.right)
      (ihConsequent (cx.child 1) h.left.right) (ihAlternative (cx.child 2) h.right)
  | enclosed inner ih => exact between_revised "(" ")" (ih (cx.child 0) h.right)
  | instanceOf expr type ihExpr ihType =>
    exact infixed_revised _ (ihExpr (cx.child 0) h.left.right)
      (typeDoc_revised (ihType (cx.child 1) h.right))
  | integerLiteral value => rfl
  | longLiteral value => rfl
  | doubleLiteral value => rfl
  | charLiteral value => rfl
  | stringLiteral value => rfl
  | booleanLiteral value => rfl
  | nullLiteral => rfl
  | thisExpr qualifier => exact congrArg Doc.text (cx.thisText_erase qualifier)
  | superExpr qualifier => exact (superDoc_revised qualifier).symm
  | methodCall scope typeArguments name arguments ihScope ihTypes ihArguments =>
    exact methodCall_revised name (ihScope (cx.child 0) h.left.left.right)
      (ihTypes (cx.child 1) h.left.right) (ihArguments (cx.child 2) h.right)
  | objectCreation scope type typeArguments arguments anonymousBody ihScope ihType _ ihArguments
      ihBody =>
    change Script.objectCreation _ _ _ _ _ (anonymousBody.erase.script
      ((cx.erase.enterAnonymous (cx.erase.createsStatic scope.erase)).child 3))
      (cx.erase.createsStatic scope.erase) = _
    rw [cx.createsStatic_erase]
    have hbody := ihBody ((cx.enterAnonymous (cx.createsStatic scope)).child 3) h.right
    have hinside := cx.enterAnonymous_erase (cx.createsStatic scope)
    rw [hinside]
    exact objectCreation_revised _ rfl (cx.isInterface_erase type) (ClassType.name_erase type)
      (ihScope (cx.child 0) h.left.left.left.left.right)
      (ihType (cx.child 1) h.left.left.left.right) (ihArguments (cx.child 2) h.left.right) hbody
  | lambda parameters isEnclosed body ihParameters ihBody =>
    exact lambda_revised isEnclosed (ihParameters (cx.child 0) h.left.right)
      (ihBody (cx.child 1) h.right)
  | methodReference scope typeArguments identifier ih _ =>
    exact append_revised rfl (underScope_revised (congrArg some (ih (cx.child 0) h.left.right)) rfl)
  | typeExpr type ih => exact typeDoc_revised (ih (cx.child 0) h.right)
  | variableDeclaration decl ih => exact ih (cx.child 0) h.right
  | annotationExpr use ih => exact ih (cx.child 0) h.right

namespace CompilationUnit

/-- Whether somewhere in the unit a comment is the whole body of a statement. -/
def hasCommentBody (u : CompilationUnit) : Bool :=
  u.packageAnnotations.any (fun a => a.any Node.hasCommentBody)
    || u.types.any fun decl => decl.any Node.hasCommentBody

theorem importDoc_erase (i : Import) : i.erase.doc = silent.doc i.doc := by
  unfold Import.doc
  rw [doc_append, ← silent_comment]
  change (if i.isOnDemand then _ else _) = _
  split <;> rfl

theorem importDocs_erase (imports : List Import) :
    (imports.map Import.erase).flatMap Import.doc = silent.doc (imports.flatMap Import.doc) := by
  rw [doc_flatMap, List.flatMap_map]
  simp only [importDoc_erase]

theorem openNamespace_erase (cx : Context) (package : Package)
    (h : ∀ a ∈ package.annotations, Lacks (a.any Node.hasCommentBody)) :
    openNamespace cx.erase package.erase = silent.doc (openNamespace cx package) := by
  have hannotations : (package.annotations.map Node.erase).map (fun a => a.script cx.erase) =
      (package.annotations.map fun a => a.script cx).map silent.doc := by
    have hscripts := List.map_congr_left fun a ha => Node.script_erase a cx (h a ha)
    exact List.map_map.trans (hscripts.trans List.map_map.symm)
  unfold openNamespace
  rw [doc_append, doc_append, ← Script.annotationLines_revised hannotations]
  rfl

theorem namespace?_erase (u : CompilationUnit) (wrap : Bool) :
    u.erase.namespace? wrap = (u.namespace? wrap).map Package.erase := by
  cases wrap <;> rfl

theorem header_erase (u : CompilationUnit) (wrap : Bool) (cx : Context)
    (h : ∀ a ∈ u.packageAnnotations, Lacks (a.any Node.hasCommentBody)) :
    u.erase.header wrap cx.erase = silent.doc (u.header wrap cx) := by
  have himports : u.erase.imports.flatMap Import.doc = silent.doc (u.imports.flatMap Import.doc) :=
    importDocs_erase u.imports
  have hempty : u.erase.imports.isEmpty = u.imports.isEmpty := List.isEmpty_map
  unfold header
  rw [u.namespace?_erase, himports, hempty]
  cases hnamespace : u.namespace? wrap with
  | none => simp [erase, ← silent_comment, apply_ite silent.doc]
  | some package =>
    have hpackage : u.package = some package := by
      cases wrap with
      | true => exact hnamespace
      | false => cases hnamespace
    have hopen := openNamespace_erase cx package fun a ha =>
      h a (by simpa [packageAnnotations, hpackage] using ha)
    simp [erase, hopen, ← silent_comment, apply_ite silent.doc]

theorem blocks_erase (cx : Context) (place : Nat) (types : List TypeDecl)
    (h : ∀ decl ∈ types, Lacks (decl.any Node.hasCommentBody)) :
    blocks cx.erase place (types.map Node.erase) = (blocks cx place types).map silent.doc := by
  induction types generalizing place with
  | nil => rfl
  | cons decl rest ih =>
    obtain ⟨hdecl, hrest⟩ := List.forall_mem_cons.mp h
    have hblock : block (cx.child place).erase decl.erase =
        silent.doc (block (cx.child place) decl) := by
      rw [block, Script.rootDecl_revised (heads_erase decl) (decl.script_erase _ hdecl),
        doc_withModules]
      rfl
    exact congr (congrArg List.cons hblock) (ih (place + 1) hrest)

theorem footer_erase (u : CompilationUnit) (wrap : Bool) :
    u.erase.footer wrap = silent.doc (u.footer wrap) := by
  unfold footer
  rw [u.namespace?_erase, Option.isSome_map, doc_append, ← silent_comments]
  change (if _ then _ else _) = _
  split <;> rfl

theorem script_erase {u : CompilationUnit} (h : u.hasCommentBody = false) (wrap : Bool)
    (classPath : ClassIndex) :
    u.erase.script wrap classPath = silent.doc (u.script wrap classPath) := by
  obtain ⟨hannotations, htypes⟩ := Bool.or_eq_false_iff.mp h
  have hlacks {c : Category} {nodes : List (Node c)}
      (h : (nodes.any fun n => n.any Node.hasCommentBody) = false) :
      ∀ n ∈ nodes, Lacks (n.any Node.hasCommentBody) := by
    intro n hn
    exact Bool.eq_false_iff.mpr (List.any_eq_false.mp h n hn)
  let cx : Context := { resolver := .ofUnit u classPath }
  have hcx : ({ resolver := .ofUnit u.erase classPath } : Context) = cx.erase := by
    rw [Resolver.ofUnit_erase]
    rfl
  have hblocks : blocks cx.erase 0 u.erase.types = (blocks cx 0 u.types).map silent.doc :=
    blocks_erase cx 0 u.types (hlacks htypes)
  have hscript : u.script wrap classPath =
      u.header wrap cx ++ stacked (blocks cx 0 u.types) ++ u.footer wrap := rfl
  have herased : u.erase.script wrap classPath =
      u.erase.header wrap cx.erase ++ stacked (blocks cx.erase 0 u.erase.types)
        ++ u.erase.footer wrap := by
    rw [← hcx]
    rfl
  rw [herased, hscript, header_erase u wrap cx (hlacks hannotations), u.footer_erase, hblocks,
    doc_stacked, doc_append, doc_append]

end CompilationUnit

/-- The configuration that leaves out all comments. -/
def Config.silent (config : Config) : Config :=
  { config with printComments := false, printJavadoc := false }

theorem Config.silent_prints (config : Config) (kind : CommentKind) :
    config.silent.prints kind = false := by
  cases kind <;> rfl

variable {σ : Type} [Sheet σ]

theorem typesetPiece_silent (config : Config) (sheet : σ) {p : Piece} (h : silent.piece p = [p]) :
    typesetPiece config.silent sheet p = typesetPiece config sheet p := by
  cases p with
  | comment c => cases h
  | _ => rfl

theorem typeset_silent (config : Config) (sheet : σ) (d : Doc) :
    typeset config.silent sheet d = typeset config sheet (silent.doc d) := by
  have hkept {p : Piece} {rest : Doc} (hp : silent.piece p = [p])
      (ih : ∀ sheet : σ, typeset config.silent sheet rest = typeset config sheet (silent.doc rest))
      (sheet : σ) :
      typeset config.silent sheet (p :: rest) = typeset config sheet (silent.doc (p :: rest)) := by
    rw [doc_cons, hp, List.singleton_append, typeset, typeset,
      typesetPiece_silent config sheet hp]
    cases typesetPiece config sheet p with
    | ok next => exact ih next
    | error e => rfl
  induction d generalizing sheet with
  | nil => rfl
  | cons p rest ih =>
    cases p with
    | comment c =>
      rw [typeset, typesetPiece, config.silent_prints]
      exact ih sheet
    | moved route names body => exact ih sheet
    | _ => exact hkept rfl ih sheet

/-- Switching all comments off has the same effect as erasing them from the tree, be it a text or an
error, unless a comment is the whole body of a statement. -/
theorem convert_silent_eq_convert_erase (u : CompilationUnit) (h : u.hasCommentBody = false)
    (config : Config) (classPath : ClassIndex) :
    convert u { config with printComments := false, printJavadoc := false } classPath =
      convert u.erase config classPath := by
  rw [convert, convert, CompilationUnit.script_erase h]
  exact congrArg (Except.map Writer.written) (typeset_silent config _ _)

/-- A class with comments of every kind: above it, between and behind statements, and in an
interface that is moved. -/
def Samples.commented : CompilationUnit :=
  let body : Block := .block (.ofList [.commentStmt (.line " none yet"),
    .switchStmt (.nameExpr "x") (.ofList [.switchEntry .absent (.ofList [
      .commentStmt (.block " nothing "), .breakStmt none])])]) [.line " done"]
  let members := [
    Member.ofField [] intType "x" none |> Member.withComment (.block " counted "),
    Member.ofMethod "work" (.ofDotted "String") |> Member.withBody body,
    .nestedType (withMembers (TypeDecl.withComment (.javadoc " Moved. ") (.ofInterface "Inner"))
      [abstractInt "f" |> Member.withComment (.line " one")])]
  { comment := some (.block " head ")
    package := some { name := "demo" }
    imports := [{ name := "java.util.List", comment := some (.line " lists") }]
    types := [withMembers (TypeDecl.withComment (.javadoc " Commented. ") (.ofClass "Noted"))
      members]
    trailing := [.line " end"] }

theorem commented_silent :
    Samples.commented.hasCommentBody = false ∧
      convert Samples.commented { printComments := false, printJavadoc := false } .empty =
        convert Samples.commented.erase {} .empty ∧
      convert Samples.commented {} .empty ≠ convert Samples.commented.erase {} .empty := by
  have hbody : Samples.commented.hasCommentBody = false := by decide
  have hdiffer : (convert Samples.commented {} .empty).toOption ≠
      (convert Samples.commented.erase {} .empty).toOption := by decide +kernel
  exact ⟨hbody, convert_silent_eq_convert_erase Samples.commented hbody {} .empty,
    fun heq => hdiffer (congrArg Except.toOption heq)⟩

end TypeScribe
