import TypeScribe.Proofs.Tree.Reading
import TypeScribe.Tree.Build

/-!
# Reading a tree back

However a tree is written, it is read back: an induction over the tree with one step for every kind
of node. In each step `FindsAll` gives the fields of the node, the induction hypotheses read the
children among them, and the reader of that kind puts the node together.
-/
namespace TypeScribe
set_option autoImplicit false

open Json

theorem TypeDecl.exists_rows (decl : TypeDecl) : ∃ rows, decl.pattern = .object rows
    ∧ ("member" :: Pattern.keys rows).Nodup ∧ ("stmt" :: Pattern.keys rows).Nodup := by
  cases decl <;> exact ⟨_, rfl, of_decide_eq_true rfl, of_decide_eq_true rfl⟩

theorem AnnotationUse.exists_rows (use : AnnotationUse) : ∃ rows, use.pattern = .object rows
    ∧ ("kind" :: Pattern.keys rows).Nodup := by
  cases use <;> exact ⟨_, rfl, of_decide_eq_true rfl⟩

theorem Category.isDistinct_of_optional {c : Category}
    (h : (Category.optional c).isDistinct = true) : c.isDistinct = true := by
  cases c with
  | optional c => cases h
  | _ => exact h

theorem Decode.node_null {c : Category} {place : Place} {levels : Nat}
    (h : (Category.optional c).isDistinct = true) :
    Decode.node (Decode.reader place levels) c .null = none := by
  cases c with
  | optional c => cases h
  | _ => cases place <;> rfl

theorem Decode.node_optional {c : Category} {r : NodeReader} {j : Json} (h : j ≠ .null) :
    Decode.node r (.optional c) j = (Decode.node r c j).map .present := by
  cases j with
  | null => exact absurd rfl h
  | _ => rfl

theorem Node.reads {c : Category} (n : Node c) : n.Reads := by
  induction n with
  | nil =>
    refine .of_node fun _ levels place j hj _ => ?_
    cases hj with
    | array hall =>
      cases hall
      rfl
  | @cons c head tail ihHead ihTail =>
    refine .of_node fun hc levels place j hj hdepth => ?_
    obtain ⟨elements, helements⟩ := tail.exists_pattern_eq_array
    change (head.pattern.push tail.pattern).Matches j at hj
    rw [helements] at hj
    cases hj with
    | array hall =>
      cases hall with
      | @cons _ _ x xs hhead htail =>
        change max x.depth (depthElements xs) + 1 ≤ levels + 1 at hdepth
        obtain ⟨hx, hxs⟩ := Nat.max_le.mp (Nat.le_of_succ_le_succ hdepth)
        have hfirst : Decode.nodeWithin levels place c x = some head :=
          ihHead hc levels place x hhead hx
        have hothers := ihTail hc (levels + 1) place (.array xs)
          (helements ▸ .array htail) (Nat.succ_le_succ hxs)
        obtain ⟨ns, hns, rfl⟩ := Option.map_eq_some_iff.mp hothers
        have hall : (x :: xs).mapM (Decode.nodeWithin levels place c) = some (head :: ns) := by
          rw [List.mapM_cons]
          exact bind_of_eq hfirst (bind_of_eq hns rfl)
        exact congrArg (Option.map Node.ofList) hall
  | absent =>
    refine .of_node fun _ levels place j hj _ => ?_
    cases hj
    rfl
  | @present c node ih =>
    refine .of_node fun hc levels place j hj hdepth => ?_
    have hnode : Decode.node (Decode.reader place levels) c j = some node :=
      ih (Category.isDistinct_of_optional hc) (levels + 1) place j hj hdepth
    have hj : j ≠ .null := by
      rintro rfl
      rw [Decode.node_null hc] at hnode
      cases hnode
    rw [Decode.node_optional hj, hnode]
    rfl
  | annotationMarker name =>
    refine .of_fields rfl (of_decide_eq_true rfl) fun place levels e h => ?_
    obtain ⟨hname, harguments, -⟩ := h
    change Decode.annotationUse _ e = some _
    refine bind_of_eq hname.string ?_
    rcases harguments.tagged place Schema.annotationArguments (of_decide_eq_true rfl) rfl with
      ⟨inner, hfield, -, htagged⟩ | ⟨-, hfield⟩
    · exact bind_of_eq hfield (bind_of_eq htagged rfl)
    · exact bind_of_eq hfield rfl
  | annotationSingle name value ihValue =>
    refine .of_fields rfl (of_decide_eq_true rfl) fun place levels e h => ?_
    obtain ⟨hname, harguments, -⟩ := h
    change Decode.annotationUse _ e = some _
    refine bind_of_eq hname.string ?_
    rcases harguments.tagged place Schema.annotationArguments (of_decide_eq_true rfl) rfl with
      ⟨inner, hfield, ⟨hvalue, -⟩, htagged⟩ | ⟨hmiss, -⟩
    · exact bind_of_eq hfield <| bind_of_eq htagged <| bind_of_eq rfl <|
        bind_of_eq (hvalue.child ihValue) rfl
    · cases hmiss
  | annotationNormal name elements ihElements =>
    refine .of_fields rfl (of_decide_eq_true rfl) fun place levels e h => ?_
    obtain ⟨hname, harguments, -⟩ := h
    change Decode.annotationUse _ e = some _
    refine bind_of_eq hname.string ?_
    rcases harguments.tagged place Schema.annotationArguments (of_decide_eq_true rfl) rfl with
      ⟨inner, hfield, ⟨hpairs, -⟩, htagged⟩ | ⟨hmiss, -⟩
    · exact bind_of_eq hfield <| bind_of_eq htagged <| bind_of_eq rfl <|
        bind_of_eq (hpairs.child ihElements) rfl
    · cases hmiss
  | element name value ihValue =>
    refine .of_fields rfl (of_decide_eq_true rfl) fun place levels e h => ?_
    obtain ⟨hname, hvalue, -⟩ := h
    change Decode.element _ e = some _
    exact bind_of_eq hname.string <| bind_of_eq (hvalue.child ihValue) rfl
  | classDecl name isInterface modifiers comment annotations typeParameters extended implemented
      members trailing ihAnnotations ihTypeParameters ihExtended ihImplemented ihMembers =>
    refine TypeDecl.reads rfl rfl rfl fun levels e h => ?_
    obtain ⟨hname, hisInterface, hmodifiers, hannotations, hcomment, htypeParameters, hextended,
      himplemented, hmembers, htrailing, -⟩ := h
    exact bind_of_eq hname.string <| bind_of_eq hisInterface.flag <|
      bind_of_eq hmodifiers.modifiers <| bind_of_eq hcomment.comment <|
      bind_of_eq (hannotations.children ihAnnotations) <|
      bind_of_eq (htypeParameters.children ihTypeParameters) <|
      bind_of_eq (hextended.children ihExtended) <|
      bind_of_eq (himplemented.children ihImplemented) <|
      bind_of_eq (hmembers.children ihMembers) <| bind_of_eq htrailing.trailing rfl
  | enumDecl name modifiers comment annotations implemented constants members ihAnnotations
      ihImplemented ihConstants ihMembers =>
    refine TypeDecl.reads rfl rfl rfl fun levels e h => ?_
    obtain ⟨hname, hmodifiers, hannotations, hcomment, himplemented, hconstants, hmembers, -⟩ := h
    exact bind_of_eq hname.string <| bind_of_eq hmodifiers.modifiers <|
      bind_of_eq hcomment.comment <| bind_of_eq (hannotations.children ihAnnotations) <|
      bind_of_eq (himplemented.children ihImplemented) <|
      bind_of_eq (hconstants.children ihConstants) <| bind_of_eq (hmembers.children ihMembers) rfl
  | annotationDecl name modifiers comment annotations members ihAnnotations ihMembers =>
    refine TypeDecl.reads rfl rfl rfl fun levels e h => ?_
    obtain ⟨hname, hmodifiers, hannotations, hcomment, hmembers, -⟩ := h
    exact bind_of_eq hname.string <| bind_of_eq hmodifiers.modifiers <|
      bind_of_eq hcomment.comment <| bind_of_eq (hannotations.children ihAnnotations) <|
      bind_of_eq (hmembers.children ihMembers) rfl
  | enumConstant name comment annotations arguments body ihAnnotations ihArguments ihBody =>
    refine .of_fields rfl (of_decide_eq_true rfl) fun place levels e h => ?_
    obtain ⟨hname, hannotations, hcomment, harguments, hbody, -⟩ := h
    change Decode.enumConstant _ e = some _
    exact bind_of_eq hname.string <| bind_of_eq hcomment.comment <|
      bind_of_eq (hannotations.children ihAnnotations) <|
      bind_of_eq (harguments.children ihArguments) <| bind_of_eq (hbody.children ihBody) rfl
  | nestedType decl ih =>
    obtain ⟨rows, hrows, hmember, -⟩ := TypeDecl.exists_rows decl
    refine .of_inner Schema.member ih rfl hrows hmember rfl rfl
      fun place levels e htagged hinner => ?_
    exact bind_of_eq htagged (bind_of_eq hinner rfl)
  | field modifiers comment annotations baseType declarators ihAnnotations ihBaseType
      ihDeclarators =>
    refine Member.reads rfl rfl rfl fun levels e h => ?_
    obtain ⟨hmodifiers, hannotations, hcomment, hbaseType, hdeclarators, -⟩ := h
    exact bind_of_eq hmodifiers.modifiers <| bind_of_eq hcomment.comment <|
      bind_of_eq (hannotations.children ihAnnotations) <| bind_of_eq (hbaseType.child ihBaseType) <|
      bind_of_eq (hdeclarators.child ihDeclarators) rfl
  | method name modifiers comment annotations typeParameters returnType parameters thrown body
      ihAnnotations ihTypeParameters ihReturnType ihParameters ihThrown ihBody =>
    refine Member.reads rfl rfl rfl fun levels e h => ?_
    obtain ⟨hname, hmodifiers, hannotations, hcomment, htypeParameters, hreturnType, hparameters,
      hthrown, hbody, -⟩ := h
    exact bind_of_eq hname.string <| bind_of_eq hmodifiers.modifiers <|
      bind_of_eq hcomment.comment <| bind_of_eq (hannotations.children ihAnnotations) <|
      bind_of_eq (htypeParameters.children ihTypeParameters) <|
      bind_of_eq (hreturnType.child ihReturnType) <|
      bind_of_eq (hparameters.children ihParameters) <| bind_of_eq (hthrown.children ihThrown) <|
      bind_of_eq (hbody.optionalChild ihBody) rfl
  | constructor name modifiers comment annotations typeParameters parameters thrown body
      ihAnnotations ihTypeParameters ihParameters ihThrown ihBody =>
    refine Member.reads rfl rfl rfl fun levels e h => ?_
    obtain ⟨hname, hmodifiers, hannotations, hcomment, htypeParameters, hparameters, hthrown,
      hbody, -⟩ := h
    exact bind_of_eq hname.string <| bind_of_eq hmodifiers.modifiers <|
      bind_of_eq hcomment.comment <| bind_of_eq (hannotations.children ihAnnotations) <|
      bind_of_eq (htypeParameters.children ihTypeParameters) <|
      bind_of_eq (hparameters.children ihParameters) <| bind_of_eq (hthrown.children ihThrown) <|
      bind_of_eq (hbody.blockOrEmpty ihBody) rfl
  | initializer isStatic comment body ihBody =>
    refine Member.reads rfl rfl rfl fun levels e h => ?_
    obtain ⟨hisStatic, hcomment, hbody, -⟩ := h
    exact bind_of_eq hisStatic.flag <| bind_of_eq hcomment.comment <|
      bind_of_eq (hbody.child ihBody) rfl
  | annotationMember name modifiers comment annotations type defaultValue ihAnnotations ihType
      ihDefaultValue =>
    refine Member.reads rfl rfl rfl fun levels e h => ?_
    obtain ⟨hname, hmodifiers, hannotations, hcomment, htype, hdefaultValue, -⟩ := h
    exact bind_of_eq hname.string <| bind_of_eq hmodifiers.modifiers <|
      bind_of_eq hcomment.comment <| bind_of_eq (hannotations.children ihAnnotations) <|
      bind_of_eq (htype.child ihType) <| bind_of_eq (hdefaultValue.optionalChild ihDefaultValue) rfl
  | declarator name dimensions initial ihDimensions ihInitial =>
    refine .of_fields rfl (of_decide_eq_true rfl) fun place levels e h => ?_
    obtain ⟨hname, hdimensions, hinitial, -⟩ := h
    change Decode.declarator _ e = some _
    exact bind_of_eq hname.string <| bind_of_eq (hdimensions.children ihDimensions) <|
      bind_of_eq (hinitial.optionalChild ihInitial) rfl
  | dimension annotations ihAnnotations =>
    refine .of_fields rfl (of_decide_eq_true rfl) fun place levels e h => ?_
    obtain ⟨hannotations, -⟩ := h
    change Decode.dimension _ e = some _
    exact bind_of_eq (hannotations.children ihAnnotations) rfl
  | parameter name type modifiers annotations isVarArgs varArgsAnnotations ihType ihAnnotations
      ihVarArgsAnnotations =>
    refine .of_fields rfl (of_decide_eq_true rfl) fun place levels e h => ?_
    obtain ⟨hname, htype, hmodifiers, hannotations, hisVarArgs, hvarArgsAnnotations, -⟩ := h
    change Decode.parameter _ e = some _
    exact bind_of_eq hname.string <| bind_of_eq (htype.child ihType) <|
      bind_of_eq hmodifiers.modifiers <| bind_of_eq (hannotations.children ihAnnotations) <|
      bind_of_eq hisVarArgs.flag <|
      bind_of_eq (hvarArgsAnnotations.children ihVarArgsAnnotations) rfl
  | typeParameter name bounds annotations ihBounds ihAnnotations =>
    refine .of_fields rfl (of_decide_eq_true rfl) fun place levels e h => ?_
    obtain ⟨hname, hbounds, hannotations, -⟩ := h
    change Decode.typeParameter _ e = some _
    exact bind_of_eq hname.string <| bind_of_eq (hbounds.children ihBounds) <|
      bind_of_eq (hannotations.children ihAnnotations) rfl
  | primitive base annotations ihAnnotations =>
    refine TypeUse.reads rfl rfl rfl fun levels e h => ?_
    obtain ⟨hbase, hannotations, -⟩ := h
    exact bind_of_eq (hbase.word (by cases base <;> rfl)) <|
      bind_of_eq (hannotations.children ihAnnotations) rfl
  | classUse type ih =>
    cases type with
    | classType =>
      refine .of_inner Schema.typeUse ih rfl rfl (of_decide_eq_true rfl) rfl rfl
        fun place levels e htagged hinner => ?_
      exact bind_of_eq htagged (bind_of_eq rfl (bind_of_eq hinner rfl))
  | array component annotations ihComponent ihAnnotations =>
    refine TypeUse.reads rfl rfl rfl fun levels e h => ?_
    obtain ⟨hcomponent, hannotations, -⟩ := h
    exact bind_of_eq (hcomponent.child ihComponent) <|
      bind_of_eq (hannotations.children ihAnnotations) rfl
  | void annotations ihAnnotations =>
    refine TypeUse.reads rfl rfl rfl fun levels e h => ?_
    obtain ⟨hannotations, -⟩ := h
    exact bind_of_eq (hannotations.children ihAnnotations) rfl
  | intersection elements ihElements =>
    refine TypeUse.reads rfl rfl rfl fun levels e h => ?_
    obtain ⟨helements, -⟩ := h
    exact bind_of_eq (helements.child ihElements) rfl
  | union elements ihElements =>
    refine TypeUse.reads rfl rfl rfl fun levels e h => ?_
    obtain ⟨helements, -⟩ := h
    exact bind_of_eq (helements.child ihElements) rfl
  | wildcard extendsBound superBound annotations ihExtendsBound ihSuperBound ihAnnotations =>
    refine TypeUse.reads rfl rfl rfl fun levels e h => ?_
    obtain ⟨hextendsBound, hsuperBound, hannotations, -⟩ := h
    exact bind_of_eq (hextendsBound.optionalChild ihExtendsBound) <|
      bind_of_eq (hsuperBound.optionalChild ihSuperBound) <|
      bind_of_eq (hannotations.children ihAnnotations) rfl
  | unknown => exact TypeUse.reads rfl rfl rfl fun _ _ _ => rfl
  | classType scope name typeArguments annotations ihScope ihTypeArguments ihAnnotations =>
    refine .of_fields rfl (of_decide_eq_true rfl) fun place levels e h => ?_
    obtain ⟨hscope, hname, htypeArguments, hannotations, -⟩ := h
    change Decode.classType _ e = some _
    exact bind_of_eq (hscope.optionalChild ihScope) <| bind_of_eq hname.string <|
      bind_of_eq (htypeArguments.optionalChild ihTypeArguments) <|
      bind_of_eq (hannotations.children ihAnnotations) rfl
  | block statements trailing ihStatements =>
    refine .of_fields rfl (of_decide_eq_true rfl) fun place levels e h => ?_
    obtain ⟨hstatements, htrailing, -⟩ := h
    change Decode.block _ e = some _
    exact bind_of_eq (hstatements.children ihStatements) <| bind_of_eq htrailing.trailing rfl
  | switchEntry label statements ihLabel ihStatements =>
    refine .of_fields rfl (of_decide_eq_true rfl) fun place levels e h => ?_
    obtain ⟨hlabel, hstatements, -⟩ := h
    change Decode.switchEntry _ e = some _
    exact bind_of_eq (hlabel.optionalChild ihLabel) <|
      bind_of_eq (hstatements.children ihStatements) rfl
  | catchClause caught body ihCaught ihBody =>
    refine .of_fields rfl (of_decide_eq_true rfl) fun place levels e h => ?_
    obtain ⟨hcaught, hbody, -⟩ := h
    change Decode.catchClause _ e = some _
    exact bind_of_eq (hcaught.child ihCaught) <| bind_of_eq (hbody.child ihBody) rfl
  | variableGroup modifiers annotations baseType declarators ihAnnotations ihBaseType
      ihDeclarators =>
    refine .of_fields rfl (of_decide_eq_true rfl) fun place levels e h => ?_
    obtain ⟨hmodifiers, hannotations, hbaseType, hdeclarators, -⟩ := h
    change Decode.variableGroup _ e = some _
    exact bind_of_eq hmodifiers.modifiers <| bind_of_eq (hannotations.children ihAnnotations) <|
      bind_of_eq (hbaseType.child ihBaseType) <| bind_of_eq (hdeclarators.child ihDeclarators) rfl
  | blockStmt body ih =>
    cases body with
    | block =>
      refine .of_inner Schema.stmt ih rfl rfl (of_decide_eq_true rfl) rfl rfl
        fun place levels e htagged hinner => ?_
      exact bind_of_eq htagged (bind_of_eq rfl (bind_of_eq hinner rfl))
  | exprStmt expr ihExpr =>
    refine Stmt.reads rfl rfl rfl fun levels e h => ?_
    obtain ⟨hexpr, -⟩ := h
    exact bind_of_eq (hexpr.child ihExpr) rfl
  | localType decl ih =>
    obtain ⟨rows, hrows, -, hstmt⟩ := TypeDecl.exists_rows decl
    refine .of_inner Schema.stmt ih rfl hrows hstmt rfl rfl
      fun place levels e htagged hinner => ?_
    exact bind_of_eq htagged (bind_of_eq hinner rfl)
  | assertStmt check message ihCheck ihMessage =>
    refine Stmt.reads rfl rfl rfl fun levels e h => ?_
    obtain ⟨hcheck, hmessage, -⟩ := h
    exact bind_of_eq (hcheck.child ihCheck) <| bind_of_eq (hmessage.optionalChild ihMessage) rfl
  | labeled label statement ihStatement =>
    refine Stmt.reads rfl rfl rfl fun levels e h => ?_
    obtain ⟨hlabel, hstatement, -⟩ := h
    exact bind_of_eq hlabel.string <| bind_of_eq (hstatement.child ihStatement) rfl
  | emptyStmt => exact Stmt.reads rfl rfl rfl fun _ _ _ => rfl
  | switchStmt selector entries ihSelector ihEntries =>
    refine Stmt.reads rfl rfl rfl fun levels e h => ?_
    obtain ⟨hselector, hentries, -⟩ := h
    exact bind_of_eq (hselector.child ihSelector) <| bind_of_eq (hentries.children ihEntries) rfl
  | breakStmt label =>
    refine Stmt.reads rfl rfl rfl fun levels e h => ?_
    obtain ⟨hlabel, -⟩ := h
    exact bind_of_eq hlabel.text rfl
  | continueStmt label =>
    refine Stmt.reads rfl rfl rfl fun levels e h => ?_
    obtain ⟨hlabel, -⟩ := h
    exact bind_of_eq hlabel.text rfl
  | returnStmt expr ihExpr =>
    refine Stmt.reads rfl rfl rfl fun levels e h => ?_
    obtain ⟨hexpr, -⟩ := h
    exact bind_of_eq (hexpr.optionalChild ihExpr) rfl
  | ifStmt condition consequent alternative ihCondition ihConsequent ihAlternative =>
    refine Stmt.reads rfl rfl rfl fun levels e h => ?_
    obtain ⟨hcondition, hconsequent, halternative, -⟩ := h
    exact bind_of_eq (hcondition.child ihCondition) <|
      bind_of_eq (hconsequent.child ihConsequent) <|
      bind_of_eq (halternative.optionalChild ihAlternative) rfl
  | whileStmt condition body ihCondition ihBody =>
    refine Stmt.reads rfl rfl rfl fun levels e h => ?_
    obtain ⟨hcondition, hbody, -⟩ := h
    exact bind_of_eq (hcondition.child ihCondition) <| bind_of_eq (hbody.child ihBody) rfl
  | doStmt body condition ihBody ihCondition =>
    refine Stmt.reads rfl rfl rfl fun levels e h => ?_
    obtain ⟨hbody, hcondition, -⟩ := h
    exact bind_of_eq (hbody.child ihBody) <| bind_of_eq (hcondition.child ihCondition) rfl
  | forEachStmt decl iterable body ihDecl ihIterable ihBody =>
    refine Stmt.reads rfl rfl rfl fun levels e h => ?_
    obtain ⟨hdecl, hiterable, hbody, -⟩ := h
    exact bind_of_eq (hdecl.child ihDecl) <| bind_of_eq (hiterable.child ihIterable) <|
      bind_of_eq (hbody.child ihBody) rfl
  | forStmt init compare update body ihInit ihCompare ihUpdate ihBody =>
    refine Stmt.reads rfl rfl rfl fun levels e h => ?_
    obtain ⟨hinit, hcompare, hupdate, hbody, -⟩ := h
    exact bind_of_eq (hinit.children ihInit) <| bind_of_eq (hcompare.optionalChild ihCompare) <|
      bind_of_eq (hupdate.children ihUpdate) <| bind_of_eq (hbody.child ihBody) rfl
  | throwStmt expr ihExpr =>
    refine Stmt.reads rfl rfl rfl fun levels e h => ?_
    obtain ⟨hexpr, -⟩ := h
    exact bind_of_eq (hexpr.child ihExpr) rfl
  | synchronizedStmt lock body ihLock ihBody =>
    refine Stmt.reads rfl rfl rfl fun levels e h => ?_
    obtain ⟨hlock, hbody, -⟩ := h
    exact bind_of_eq (hlock.child ihLock) <| bind_of_eq (hbody.child ihBody) rfl
  | tryStmt resources body catches finallyBlock ihResources ihBody ihCatches ihFinallyBlock =>
    refine Stmt.reads rfl rfl rfl fun levels e h => ?_
    obtain ⟨hresources, hbody, hcatches, hfinallyBlock, -⟩ := h
    exact bind_of_eq (hresources.children ihResources) <| bind_of_eq (hbody.child ihBody) <|
      bind_of_eq (hcatches.children ihCatches) <|
      bind_of_eq (hfinallyBlock.optionalChild ihFinallyBlock) rfl
  | constructorCall isThis expr typeArguments arguments ihExpr ihTypeArguments ihArguments =>
    refine Stmt.reads rfl rfl rfl fun levels e h => ?_
    obtain ⟨hisThis, hexpr, htypeArguments, harguments, -⟩ := h
    exact bind_of_eq hisThis.bool <| bind_of_eq (hexpr.optionalChild ihExpr) <|
      bind_of_eq (htypeArguments.children ihTypeArguments) <|
      bind_of_eq (harguments.children ihArguments) rfl
  | commentStmt comment =>
    refine Stmt.reads rfl rfl rfl fun levels e h => ?_
    exact bind_of_eq (Comment.ofEntries?_of_finds .inside h) rfl
  | unparsable => exact Stmt.reads rfl rfl rfl fun _ _ _ => rfl
  | creationLevel size annotations ihSize ihAnnotations =>
    refine .of_fields rfl (of_decide_eq_true rfl) fun place levels e h => ?_
    obtain ⟨hsize, hannotations, -⟩ := h
    change Decode.creationLevel _ e = some _
    exact bind_of_eq (hsize.optionalChild ihSize) <|
      bind_of_eq (hannotations.children ihAnnotations) rfl
  | lambdaExpr expr ihExpr =>
    refine LambdaBody.reads rfl rfl rfl fun levels e h => ?_
    obtain ⟨hexpr, -⟩ := h
    exact bind_of_eq (hexpr.child ihExpr) rfl
  | lambdaBlock body ih =>
    cases body with
    | block =>
      refine .of_inner Schema.lambdaBody ih rfl rfl (of_decide_eq_true rfl) rfl rfl
        fun place levels e htagged hinner => ?_
      exact bind_of_eq htagged (bind_of_eq rfl (bind_of_eq hinner rfl))
  | nameExpr name =>
    refine Expr.reads rfl rfl rfl fun levels e h => ?_
    obtain ⟨hname, -⟩ := h
    exact bind_of_eq hname.string rfl
  | fieldAccess scope name ihScope =>
    refine Expr.reads rfl rfl rfl fun levels e h => ?_
    obtain ⟨hscope, hname, -⟩ := h
    exact bind_of_eq (hscope.child ihScope) <| bind_of_eq hname.string rfl
  | arrayAccess base index ihBase ihIndex =>
    refine Expr.reads rfl rfl rfl fun levels e h => ?_
    obtain ⟨hbase, hindex, -⟩ := h
    exact bind_of_eq (hbase.child ihBase) <| bind_of_eq (hindex.child ihIndex) rfl
  | arrayCreation elementType levels initial ihElementType ihLevels ihInitial =>
    refine Expr.reads rfl rfl rfl fun levels e h => ?_
    obtain ⟨helementType, hlevels, hinitial, -⟩ := h
    exact bind_of_eq (helementType.child ihElementType) <| bind_of_eq (hlevels.child ihLevels) <|
      bind_of_eq (hinitial.optionalChild ihInitial) rfl
  | arrayInitializer values ihValues =>
    refine Expr.reads rfl rfl rfl fun levels e h => ?_
    obtain ⟨hvalues, -⟩ := h
    exact bind_of_eq (hvalues.child ihValues) rfl
  | assign target op value ihTarget ihValue =>
    refine Expr.reads rfl rfl rfl fun levels e h => ?_
    obtain ⟨htarget, hop, hvalue, -⟩ := h
    exact bind_of_eq (htarget.child ihTarget) <| bind_of_eq (hop.word (by cases op <;> rfl)) <|
      bind_of_eq (hvalue.child ihValue) rfl
  | binary left op right ihLeft ihRight =>
    refine Expr.reads rfl rfl rfl fun levels e h => ?_
    obtain ⟨hleft, hop, hright, -⟩ := h
    exact bind_of_eq (hleft.child ihLeft) <| bind_of_eq (hop.word (by cases op <;> rfl)) <|
      bind_of_eq (hright.child ihRight) rfl
  | unary op expr ihExpr =>
    refine Expr.reads rfl rfl rfl fun levels e h => ?_
    obtain ⟨hop, hexpr, -⟩ := h
    exact bind_of_eq (hop.word (by cases op <;> rfl)) <| bind_of_eq (hexpr.child ihExpr) rfl
  | cast type expr ihType ihExpr =>
    refine Expr.reads rfl rfl rfl fun levels e h => ?_
    obtain ⟨htype, hexpr, -⟩ := h
    exact bind_of_eq (htype.child ihType) <| bind_of_eq (hexpr.child ihExpr) rfl
  | classLiteral type ihType =>
    refine Expr.reads rfl rfl rfl fun levels e h => ?_
    obtain ⟨htype, -⟩ := h
    exact bind_of_eq (htype.child ihType) rfl
  | conditional condition consequent alternative ihCondition ihConsequent ihAlternative =>
    refine Expr.reads rfl rfl rfl fun levels e h => ?_
    obtain ⟨hcondition, hconsequent, halternative, -⟩ := h
    exact bind_of_eq (hcondition.child ihCondition) <|
      bind_of_eq (hconsequent.child ihConsequent) <|
      bind_of_eq (halternative.child ihAlternative) rfl
  | enclosed inner ihInner =>
    refine Expr.reads rfl rfl rfl fun levels e h => ?_
    obtain ⟨hinner, -⟩ := h
    exact bind_of_eq (hinner.child ihInner) rfl
  | instanceOf expr type ihExpr ihType =>
    refine Expr.reads rfl rfl rfl fun levels e h => ?_
    obtain ⟨hexpr, htype, -⟩ := h
    exact bind_of_eq (hexpr.child ihExpr) <| bind_of_eq (htype.child ihType) rfl
  | integerLiteral value =>
    refine Expr.reads rfl rfl rfl fun levels e h => ?_
    obtain ⟨hvalue, -⟩ := h
    exact bind_of_eq hvalue.string rfl
  | longLiteral value =>
    refine Expr.reads rfl rfl rfl fun levels e h => ?_
    obtain ⟨hvalue, -⟩ := h
    exact bind_of_eq hvalue.string rfl
  | doubleLiteral value =>
    refine Expr.reads rfl rfl rfl fun levels e h => ?_
    obtain ⟨hvalue, -⟩ := h
    exact bind_of_eq hvalue.string rfl
  | charLiteral value =>
    refine Expr.reads rfl rfl rfl fun levels e h => ?_
    obtain ⟨hvalue, -⟩ := h
    exact bind_of_eq hvalue.string rfl
  | stringLiteral value =>
    refine Expr.reads rfl rfl rfl fun levels e h => ?_
    obtain ⟨hvalue, -⟩ := h
    exact bind_of_eq hvalue.string rfl
  | booleanLiteral value =>
    refine Expr.reads rfl rfl rfl fun levels e h => ?_
    obtain ⟨hvalue, -⟩ := h
    exact bind_of_eq hvalue.bool rfl
  | nullLiteral => exact Expr.reads rfl rfl rfl fun _ _ _ => rfl
  | thisExpr qualifier =>
    refine Expr.reads rfl rfl rfl fun levels e h => ?_
    obtain ⟨hqualifier, -⟩ := h
    exact bind_of_eq hqualifier.text rfl
  | superExpr qualifier =>
    refine Expr.reads rfl rfl rfl fun levels e h => ?_
    obtain ⟨hqualifier, -⟩ := h
    exact bind_of_eq hqualifier.text rfl
  | methodCall scope typeArguments name arguments ihScope ihTypeArguments ihArguments =>
    refine Expr.reads rfl rfl rfl fun levels e h => ?_
    obtain ⟨hscope, htypeArguments, hname, harguments, -⟩ := h
    exact bind_of_eq (hscope.optionalChild ihScope) <|
      bind_of_eq (htypeArguments.children ihTypeArguments) <| bind_of_eq hname.string <|
      bind_of_eq (harguments.children ihArguments) rfl
  | objectCreation scope type typeArguments arguments anonymousBody ihScope ihType ihTypeArguments
      ihArguments ihAnonymousBody =>
    refine Expr.reads rfl rfl rfl fun levels e h => ?_
    obtain ⟨hscope, htype, htypeArguments, harguments, hanonymousBody, -⟩ := h
    exact bind_of_eq (hscope.optionalChild ihScope) <| bind_of_eq (htype.child ihType) <|
      bind_of_eq (htypeArguments.children ihTypeArguments) <|
      bind_of_eq (harguments.children ihArguments) <|
      bind_of_eq (hanonymousBody.optionalChild ihAnonymousBody) rfl
  | lambda parameters isEnclosed body ihParameters ihBody =>
    refine Expr.reads rfl rfl rfl fun levels e h => ?_
    obtain ⟨hparameters, hisEnclosed, hbody, -⟩ := h
    exact bind_of_eq (hparameters.child ihParameters) <| bind_of_eq hisEnclosed.flag <|
      bind_of_eq (hbody.child ihBody) rfl
  | methodReference scope typeArguments identifier ihScope ihTypeArguments =>
    refine Expr.reads rfl rfl rfl fun levels e h => ?_
    obtain ⟨hscope, htypeArguments, hidentifier, -⟩ := h
    exact bind_of_eq (hscope.child ihScope) <|
      bind_of_eq (htypeArguments.children ihTypeArguments) <| bind_of_eq hidentifier.string rfl
  | typeExpr type ihType =>
    refine Expr.reads rfl rfl rfl fun levels e h => ?_
    obtain ⟨htype, -⟩ := h
    exact bind_of_eq (htype.child ihType) rfl
  | variableDeclaration decl ih =>
    cases decl with
    | variableGroup =>
      refine .of_inner Schema.expr ih rfl rfl (of_decide_eq_true rfl) rfl rfl
        fun place levels e htagged hinner => ?_
      exact bind_of_eq htagged (bind_of_eq rfl (bind_of_eq hinner rfl))
  | annotationExpr use ih =>
    obtain ⟨rows, hrows, hnodup⟩ := AnnotationUse.exists_rows use
    refine .of_inner Schema.expr ih rfl hrows hnodup rfl rfl
      fun place levels e htagged hinner => ?_
    exact bind_of_eq htagged (bind_of_eq rfl (bind_of_eq hinner rfl))

theorem Node.ofJson?_of_matches {c : Category} {n : Node c} {j : Json} (hc : c.isDistinct = true)
    (h : n.pattern.Matches j) : Node.ofJson? c j = some n :=
  n.reads hc j.depth .outside j h (Nat.le_refl _)

theorem Package.ofJson?_of_matches {p : Package} {j : Json} (h : p.pattern.Matches j) :
    Package.ofJson? j = some p := by
  obtain ⟨e, rfl, hname, hannotations, -⟩ := h.finds (of_decide_eq_true rfl) (Nat.le_succ j.depth)
  refine bind_of_eq rfl (bind_of_eq hname.string (bind_of_eq ?_ rfl))
  exact hannotations.list fun _ _ hj _ => Node.ofJson?_of_matches rfl hj

theorem Import.ofJson?_of_matches {i : Import} {j : Json} (h : i.pattern.Matches j) :
    Import.ofJson? j = some i := by
  obtain ⟨e, rfl, hname, hstatic, hdemand, hcomment, -⟩ :=
    h.finds (of_decide_eq_true rfl) (Nat.le_succ j.depth)
  refine bind_of_eq rfl (bind_of_eq hname.string (bind_of_eq hstatic.flag
    (bind_of_eq hdemand.flag (bind_of_eq ?_ rfl))))
  exact hcomment.optional (fun _ _ hj _ => Comment.ofJson?_of_matches .outside hj) rfl

theorem CompilationUnit.ofJson?_of_matches {u : CompilationUnit} {j : Json}
    (h : u.pattern.Matches j) : CompilationUnit.ofJson? j = some u := by
  obtain ⟨e, rfl, hcomment, hpackage, himports, htypes, htrailing, -⟩ :=
    h.finds (of_decide_eq_true rfl) (Nat.le_succ j.depth)
  have hread (c : Comment) (j : Json) (hj : c.pattern.Matches j) :
      Comment.ofJson? .outside j = some c := Comment.ofJson?_of_matches .outside hj
  refine bind_of_eq rfl ?_
  refine bind_of_eq (hcomment.optional (fun c j hj _ => hread c j hj) rfl) ?_
  refine bind_of_eq (hpackage.optional (fun _ _ hj _ => Package.ofJson?_of_matches hj) rfl) ?_
  refine bind_of_eq (himports.list fun _ _ hj _ => Import.ofJson?_of_matches hj) ?_
  refine bind_of_eq (htypes.list fun _ _ hj _ => Node.ofJson?_of_matches rfl hj) ?_
  exact bind_of_eq (htrailing.list fun c j hj _ => hread c j hj) rfl

/-- A unit is read back from its encoding, and from every other way of writing that encoding: fields
in any order, entries that are neither tag nor field added, fields left out that hold their default,
modifiers in any order and number. -/
theorem CompilationUnit.reads_back (u : CompilationUnit) :
    u.pattern.plain = u.toJson ∧ CompilationUnit.ofJson? u.toJson = some u
      ∧ ∀ j, u.pattern.Matches j → CompilationUnit.ofJson? j = some u := by
  refine ⟨u.plain_pattern, ?_, fun j hj => CompilationUnit.ofJson?_of_matches hj⟩
  rw [← u.plain_pattern]
  exact CompilationUnit.ofJson?_of_matches u.pattern.matches_plain

/-- An annotated constructor that does nothing. -/
def Samples.injectedMember : Member :=
  .constructor "Box" .empty none (.cons (.annotationMarker "Inject") .nil) .nil .nil .nil
    (.block .nil [])

def Samples.injected : CompilationUnit where
  types := [.classDecl "Box" false (.ofList [.publicAccess, .final]) none .nil .nil .nil .nil
    (.cons injectedMember .nil) []]

/-- The class in few words, out of order and with notes in between. -/
def Samples.injectedBriefly : Json :=
  let member : Json := .object [("line", .ofNat 3),
    ("annotations", .array [.object [("name", .string "Inject")]]), ("name", .string "Box"),
    ("member", .string "constructor")]
  .object [("version", .ofNat 1), ("types", .array [.object [("members", .array [member]),
    ("modifiers", .array [.string "final", .string "public", .string "final"]),
    ("name", .string "Box"), ("kind", .string "class")]])]

theorem injected_reads_back : Samples.injected.pattern.Matches Samples.injectedBriefly
    ∧ CompilationUnit.ofJson? Samples.injectedBriefly = some Samples.injected := by
  have hreverse {e e' : Entries} (h : e = e'.reverse) : e.Perm e' := h ▸ List.reverse_perm e'
  have hinject : (Node.annotationMarker "Inject").pattern.Matches
      (.object [("name", .string "Inject")]) :=
    .object (.keep (.string _) (.drop .nil)) (List.forall_mem_nil _) (.refl _)
  have hline : ∀ entry ∈ [("line", Json.ofNat 3)],
      entry.1 ∉ "member" :: Schema.constructor ∧ entry.2.isSound = true :=
    List.forall_mem_singleton.mpr ⟨by decide, rfl⟩
  have hmember : Samples.injectedMember.pattern.Matches _ :=
    .object (.keep (.string _) (.keep (.string _) (.drop (.keep (.array (.cons hinject .nil))
      (.drop (.drop (.drop (.drop (.drop .nil))))))))) hline (List.reverse_perm _)
  have hmodifiers : (Pattern.modifiers (.ofList [.publicAccess, .final])).Matches
      (.array [.string "final", .string "public", .string "final"]) :=
    .modifiers [.final, .publicAccess, .final] fun m => by cases m <;> decide
  have hversion : ∀ entry ∈ [("version", Json.ofNat 1)],
      entry.1 ∉ Schema.compilationUnit ∧ entry.2.isSound = true :=
    List.forall_mem_singleton.mpr ⟨by decide, rfl⟩
  have hmatches : Samples.injected.pattern.Matches Samples.injectedBriefly := by
    refine .object (.drop (.drop (.drop (.keep (.array (.cons ?_ .nil)) (.drop .nil))))) hversion
      (hreverse rfl)
    exact .object (.keep (.string _) (.keep (.string _) (.drop (.keep hmodifiers (.drop (.drop
      (.drop (.drop (.drop (.keep (.array (.cons hmember .nil)) (.drop .nil)))))))))))
      (List.forall_mem_nil _) (hreverse rfl)
  exact ⟨hmatches, (CompilationUnit.reads_back Samples.injected).2.2 _ hmatches⟩

end TypeScribe
