import TypeScribe.Proofs.ClassIndex.Resolved
import TypeScribe.Proofs.Script.Children
import TypeScribe.Proofs.Statements.Bodies

/-!
# Statements that are written as one

An assertion and a local declaration other than a class become comments, and resources become
declarations before the block that they belong to. Every other statement is written as one statement,
if the bodies that stand in it without braces are. Then what is written behind it is read as if it
stood alone: nothing of it becomes part of the statement, and no part of the statement escapes it.
-/
namespace TypeScribe
set_option autoImplicit false
open Text

def TypeDecl.isClass : TypeDecl → Bool
  | .classDecl _ isInterface .. => !isInterface
  | _ => false

/-- Whether the statement, and each one that ends it, has one statement as its counterpart. -/
def Node.isWhole : {c : Category} → Node c → Bool
  | _, .present node => node.isWhole
  | _, .localType decl => TypeDecl.isClass decl
  | _, .assertStmt _ _ => false
  | _, .commentStmt _ => false
  | _, .labeled _ statement => statement.isWhole
  | _, .ifStmt _ consequent alternative => consequent.isWhole && alternative.isWhole
  | _, .whileStmt _ body => body.isWhole
  | _, .doStmt body _ => body.isWhole
  | _, .forEachStmt _ _ body => body.isWhole
  | _, .forStmt _ _ _ body => body.isWhole
  | _, .tryStmt resources _ _ _ => resources.toList.isEmpty
  | _, _ => true

/-- The script is read as what it stands for: a statement as one or as none, a block as what stands
in braces, a clause behind the block that it belongs to, and a declaration as the beginning of a
statement. -/
def Script.IsRead (config : Config) : (c : Category) → Bool → Script c → Prop
  | .many c => fun _ (ss : List (Script c)) => ∀ s ∈ ss, ∃ isOne, Script.IsRead config c isOne s
  | .optional c => fun isOne (s : Option (Script c)) => ∀ t ∈ s, Script.IsRead config c isOne t
  | .stmt => fun isOne (s : StmtShape) => Doc.IsReadAs config s.doc isOne
  | .block => fun _ => Doc.Embraces config
  | .catchClause => fun _ => Doc.IsClause config
  | .variableGroup => fun _ => Doc.Strands config
  | _ => fun _ _ => True

/-- A declaration in a body is one statement if it is a class, and a comment otherwise. -/
theorem Doc.isReadAs_localType {config : Config} (hconfig : config.IsReadable) (decl : TypeDecl)
    {cx : Context} (h : cx.Admits statementSpelling Context.IsInside
      ((Node.localType decl).any Node.isDeclaring)
      ((Node.localType decl).any (Node.misspells statementSpelling)))
    (hleads : Lacks ((Node.localType decl).any Node.misleads)) (hcx : cx.Guides) :
    IsReadAs config (StmtShape.doc ((Node.localType decl).script cx)) decl.isClass := by
  have hI := Context.isInside_inherited
  have hinside : cx.IsInside := h.inherits rfl
  have hdecl := TypeDecl.spelledBy decl h.right.spelled
  obtain ⟨enclosing, henclosing⟩ : ∃ enclosing, cx.enclosingName? = some enclosing := by
    obtain ⟨d, outer, hscope⟩ := List.exists_cons_of_ne_nil hinside
    exact ⟨d.name, by simp [Context.enclosingName?, hscope]⟩
  have hletters : Over statementSpelling.letters enclosing := by
    obtain ⟨d, hd, rfl⟩ := Option.map_eq_some_iff.mp henclosing
    exact h.speaks.scope d (List.mem_of_mem_head? hd)
  have hmarker : IsReadAs config (unsupported (.localType decl.name)) false := by
    refine (passedOver_unsupported hconfig ?_).isReadAs
    rintro s ⟨⟩
    exact statementSpelling.over_slash hdecl.name
  change IsReadAs config (Script.localType cx decl (decl.script (cx.child 0))) _
  unfold Script.localType
  rw [henclosing]
  cases decl with
  | enumDecl => exact hmarker
  | annotationDecl => exact hmarker
  | classDecl name isInterface modifiers comment annotations typeParameters extended implemented members
      trailing =>
    cases isInterface with
    | true => exact hmarker
    | false =>
      have hshape := Node.script_stays hconfig (Node.classDecl name false modifiers comment annotations
        typeParameters extended implemented members trailing) _ (h.right.child hI 0)
      have hannotations := Node.script_opens hconfig annotations _
        ((h.right.child hI 0).left.left.left.left.right.child hI 0)
        hleads.right.left.left.left.left.right hcx
      have hcomment := passedOver_comment hconfig hdecl.comment
      have hlines : IsPassedOver config (Script.annotationLines _) := .flatMap fun d hd =>
        (hannotations d hd).append (passedOver_newline hconfig)
      exact isReadAs_localClass hconfig (hcomment.append hlines) hdecl.name hletters hshape.2

/-- Every statement is read as one if it is whole, and goes amiss otherwise. -/
theorem Node.script_read {config : Config} (hconfig : config.IsReadable) {c : Category} (n : Node c)
    (cx : Context) (h : cx.Admits statementSpelling Context.IsInside (n.any Node.isDeclaring)
      (n.any (Node.misspells statementSpelling)))
    (hleads : Lacks (n.any Node.misleads)) (hcx : cx.Guides) :
    Script.IsRead config c n.isWhole (n.script cx) := by
  have hI := Context.isInside_inherited
  have hP := Doc.stays_composes hconfig
  -- only statements that stand in others without braces need the hypothesis of the induction
  induction n generalizing cx with
  | nil => exact fun s hs => absurd hs List.not_mem_nil
  | cons head tail ihHead ihTail =>
    exact List.forall_mem_cons.mpr ⟨⟨_, ihHead _ (h.left.right.child hI 0) hleads.left.right hcx⟩,
      ihTail _ (h.right.after hI head) hleads.right (hcx.after head)⟩
  | absent => exact fun s hs => nomatch hs
  | present node ih =>
    rintro s ⟨⟩
    exact ih _ (h.right.content hI) hleads.right hcx
  | block statements trailing =>
    have hstatements := Node.script_stays hconfig statements _ (h.right.child hI 0)
    exact Doc.embraces_block hconfig
      (hP.join (hP.stmtLines hstatements) (hP.solid (hP.comments h.comments)))
  | catchClause caught body _ ih =>
    exact Doc.isClause_catch hconfig (over_parameterName h.left.right.names)
      (ih _ (h.right.child hI 0) hleads.right hcx)
  | variableGroup modifiers annotations base declarators =>
    have hannotations := Node.script_opens hconfig annotations _ (h.left.left.right.child hI 0)
      hleads.left.left.right hcx
    have hbase := hP.knownType base (Node.script_stays hconfig base _ (h.left.right.child hI 1))
    have hdeclarators := Node.script_stays hconfig declarators _
      ((h.right.declarators hI false).child hI 2)
    exact Doc.strands_variableGroup hconfig hannotations (hP.declarators hbase hdeclarators)
  | blockStmt body ih => exact (ih _ (h.right.child hI 0) hleads.right hcx).isReadAs
  | exprStmt expr =>
    exact Doc.Opens.ended hconfig
      (Node.script_opens hconfig expr _ (h.right.child hI 0) hleads.right hcx)
  | localType decl => exact Doc.isReadAs_localType hconfig decl h hleads hcx
  | assertStmt check message =>
    exact (Doc.passedOver_nameless hconfig .assertStatement rfl).isReadAs
  | labeled label statement ih =>
    have hlabel : isLabel label = true := by
      simpa [Node.misleads] using Node.eq_false_of_lacks (p := Node.misleads) hleads
    exact (ih _ (h.right.child hI 0) hleads.right hcx).labeled hconfig
      (h.names label List.mem_cons_self) hlabel
  | emptyStmt => exact Doc.opens_nil.ended hconfig
  | switchStmt selector entries =>
    exact Doc.takes_switch hconfig (Node.script_stays hconfig selector _ (h.left.right.child hI 0))
      (hP.switchEntries (Node.script_stays hconfig entries _ (h.right.child hI 1)))
  | breakStmt label =>
    exact Doc.isReadAs_jump hconfig (.inl rfl) fun s hs => h.names s (Option.mem_toList.mpr hs)
  | continueStmt label =>
    exact Doc.isReadAs_jump hconfig (.inr rfl) fun s hs => h.names s (Option.mem_toList.mpr hs)
  | returnStmt expr =>
    exact Doc.isReadAs_returnStmt hconfig (Node.script_stays hconfig expr _ (h.right.child hI 0))
  | ifStmt condition consequent alternative _ ihConsequent ihAlternative =>
    refine (ihConsequent _ (h.left.right.child hI 1) hleads.left.right hcx).ifStmt hconfig
      (Node.script_stays hconfig condition _ (h.left.left.right.child hI 0))
      (ihAlternative _ (h.right.child hI 2) hleads.right hcx)
      (Node.script_stays hconfig alternative _ (h.right.child hI 2)) ?_
    intro hnone
    cases alternative with
    | absent => rfl
    | present node => cases hnone
  | whileStmt condition body _ ih =>
    exact (ih _ (h.right.child hI 1) hleads.right hcx).inLoop hconfig (.inl rfl)
      (Node.script_stays hconfig condition _ (h.left.right.child hI 0)).inside
  | doStmt body condition ih =>
    exact (ih _ (h.left.right.child hI 0) hleads.left.right hcx).doStmt hconfig
      (Node.script_stays hconfig condition _ (h.right.child hI 1))
  | forEachStmt loopVariable iterable body _ _ ih =>
    exact (ih _ (h.right.child hI 1) hleads.right hcx).forEachStmt hconfig _
      (VariableGroup.over_names h.left.left.right.spelled)
      (Node.script_stays hconfig iterable _ (h.left.right.child hI 0))
  | forStmt init compare update body _ _ _ ih =>
    exact Doc.IsReadAs.forStmt hconfig
      (Node.script_stays hconfig init _ (h.left.left.left.right.child hI 0))
      (Node.script_stays hconfig compare _ (h.left.left.right.child hI 1))
      (Node.script_stays hconfig update _ (h.left.right.child hI 2))
      (ih _ (h.right.child hI 3) hleads.right hcx)
  | throwStmt expr =>
    exact Doc.isReadAs_throwStmt hconfig (Node.script_stays hconfig expr _ (h.right.child hI 0))
  | synchronizedStmt lock body _ ih =>
    have hmarker : Doc.IsPassedOver config (Doc.unsupported .synchronizedStatement ++ Doc.newline) :=
      (Doc.passedOver_nameless hconfig _ rfl).append (Doc.passedOver_newline hconfig)
    have hbody := (ih _ (h.right.child hI 0) hleads.right hcx).isReadAs
    exact hbody.behind (y := []) rfl fun roles count => hmarker _ (Reader.isSteady_start roles count)
  | tryStmt resources body catches finallyBlock ihResources ihBody ihCatches ihFinally =>
    have hresources := ihResources _ (h.left.left.left.right.child hI 0) hleads.left.left.left.right hcx
    have hcatches := ihCatches _ (h.left.right.child hI 2) hleads.left.right hcx
    have hopens := Node.script_opens hconfig resources _ (h.left.left.left.right.child hI 0)
      hleads.left.left.left.right hcx
    have hbody := ihBody _ (h.left.left.right.child hI 1) hleads.left.left.right hcx
    have hwhole := Doc.isReadAs_tryStmt hconfig hbody hopens
      (fun d hd => (hresources d hd).choose_spec) (fun d hd => (hcatches d hd).choose_spec)
      (ihFinally _ (h.right.child hI 3) hleads.right hcx)
    have hempty : (show List Doc from resources.script (cx.child 0)).isEmpty =
        resources.toList.isEmpty := by cases resources <;> rfl
    rw [hempty] at hwhole
    exact hwhole
  | constructorCall isThis expr typeArguments arguments =>
    exact Doc.isReadAs_constructorCall hconfig isThis
      (Node.script_opens hconfig expr _ (h.left.left.right.child hI 0) hleads.left.left.right hcx)
      (Node.script_stays hconfig arguments _ (h.right.child hI 1))
  | commentStmt comment =>
    have hcomment : Doc.IsPassedOver config (Doc.comment (some comment)) := by
      refine Doc.passedOver_comment hconfig ?_
      rintro c ⟨⟩
      exact h.comments comment List.mem_cons_self
    exact hcomment.isReadAs
  | unparsable => exact Doc.isReadAs_of_takes fun _ _ => ⟨false, Doc.takes_text hconfig rfl⟩
  | _ => trivial

theorem Reader.Amiss.statements?_ne {r : Reader} (h : r.Amiss [] 0) : r.statements? ≠ some 1 := by
  cases h with
  | awaiting x => cases x <;> simp [Reader.statements?]
  | unclosed clauses hx => simp [Reader.statements?, hx]
  | several clauses _ hcount =>
    have hcount := Nat.ne_of_gt hcount
    simpa [Reader.statements?, areClosed] using hcount

/-- What a writer adds for a document that is read as one statement, or as none. -/
theorem Doc.IsReadAs.exists_count {config : Config} {d : Doc} {isOne : Bool}
    (h : IsReadAs config d isOne) {w : Writer} (hw : w.margins = config.margins) : ∃ w' text,
      typeset config w d = .ok w' ∧ w'.written = w.written ++ text ∧
      (countStatements text = some 1 ↔ isOne = true) ∧
      (isOne = true → ∀ more n, countStatements more = some n →
        countStatements (text ++ more) = some (n + 1)) := by
  have hmeets : w.Meets config (.placed (.start []) 0) :=
    ⟨hw, .inl (Reader.isSteady_start [] 0).rests⟩
  cases isOne with
  | true =>
    obtain ⟨clauses, x, hx, hread⟩ := h [] 0
    rw [List.append_nil] at hread
    obtain ⟨w', text, htypeset, hwritten, hfeed, -⟩ := hread w hmeets
    refine ⟨w', text, htypeset, hwritten, ⟨fun _ => rfl, fun _ => ?_⟩, fun _ more n hmore =>
      countStatements_behind hx hfeed hmore⟩
    change (feed text.toList (.placed (.start []) 0)).bind Reader.statements? = _
    rw [hfeed]
    simp [Reader.statements?, hx]
  | false =>
    have hnone {text : String} (hcount : countStatements text ≠ some 1) :
        (countStatements text = some 1 ↔ false = true) ∧ (false = true → ∀ more n,
          countStatements more = some n → countStatements (text ++ more) = some (n + 1)) :=
      ⟨⟨fun h => absurd h hcount, fun h => absurd h Bool.false_ne_true⟩,
        fun h => absurd h Bool.false_ne_true⟩
    rcases h [] 0 with hstops | ⟨r, hr, hread⟩
    · obtain ⟨w', text, htypeset, hwritten, hfeed⟩ := hstops w hmeets
      refine ⟨w', text, htypeset, hwritten, hnone ?_⟩
      change (feed text.toList (.placed (.start []) 0)).bind Reader.statements? ≠ _
      rw [hfeed]
      exact Option.some_ne_none 1 |>.symm
    · obtain ⟨w', text, htypeset, hwritten, hfeed, -⟩ := hread w hmeets
      refine ⟨w', text, htypeset, hwritten, hnone ?_⟩
      change (feed text.toList (.placed (.start []) 0)).bind Reader.statements? ≠ _
      rw [hfeed]
      exact hr.statements?_ne

/-- A reader tells the words of the node, and of what is around it, from control words. -/
structure Written.IsLegible (w : Written) : Prop where
  spelled : Lacks (w.node.any (Node.misspells statementSpelling))
  leads : Lacks (w.node.any Node.misleads)
  speaks : w.context.Speaks statementSpelling.letters
  guides : w.context.Guides

theorem Context.isAstray_captureName (cx : Context) : isAstray cx.captureName = false := by
  have hhead (s : String) : isAstray ("__this" ++ s) = false := by
    rw [isAstray, String.toList_append]
    exact isControlWord_of_mem (List.mem_cons_self)
  unfold Context.captureName
  split
  · exact hhead ""
  · exact hhead _

theorem Context.eq_captureName {cx : Context} {isStatic : Bool} {s : String}
    (h : s ∈ cx.outerThis isStatic) : s = cx.captureName := by
  cases isStatic with
  | true => cases h
  | false =>
    cases h
    rfl

theorem Node.over_entered {sp : Spelling} {c : Category} {n : Node c}
    (h : Lacks (n.any (Node.misspells sp))) {scope : Scope}
    (hscope : ∀ d ∈ scope, Over sp.letters d.name) : ∀ d ∈ n.entered scope, Over sp.letters d.name := by
  cases c with
  | typeDecl => exact List.forall_mem_cons.mpr ⟨(TypeDecl.spelledBy n h).name, hscope⟩
  | _ => exact hscope

theorem Written.IsLegible.child {w v : Written} (hchild : v ∈ w.node.children w.context)
    (h : w.IsLegible) : v.IsLegible where
  spelled := Node.lacks_of_mem_children w.context h.spelled v hchild
  leads := Node.lacks_of_mem_children w.context h.leads v hchild
  speaks := by
    obtain ⟨hresolver, hscope⟩ := w.node.context_of_mem_children w.context v hchild
    refine ⟨?_, ?_, ?_⟩
    · rw [hresolver]
      exact h.speaks.resolved
    · rcases hscope with hscope | hscope
      · rw [hscope]
        exact h.speaks.scope
      · rw [hscope]
        exact Node.over_entered h.spelled h.speaks.scope
    · intro f hf s hs
      rcases w.node.frames_of_mem_children w.context v hchild f hf with hf | ⟨isStatic, hf⟩
      · exact h.speaks.frames f hf s hs
      · rw [hf] at hs
        rw [Context.eq_captureName hs]
        exact over_of_all statementSpelling.letter w.context.over_captureName
  guides := by
    obtain ⟨hresolver, -⟩ := w.node.context_of_mem_children w.context v hchild
    refine ⟨?_, ?_⟩
    · rw [hresolver]
      exact h.guides.1
    · intro f hf s hs
      rcases w.node.frames_of_mem_children w.context v hchild f hf with hf | ⟨isStatic, hf⟩
      · exact h.guides.2 f hf s hs
      · rw [hf] at hs
        rw [Context.eq_captureName hs]
        exact w.context.isAstray_captureName

/-- A reader tells the words of the unit, and of the class path, from control words. -/
structure CompilationUnit.IsLegible (u : CompilationUnit) (classPath : ClassIndex) : Prop where
  package : ∀ p ∈ u.package, Over statementSpelling.letters p.name
  spelled : ∀ decl ∈ u.types, decl.any (Node.misspells statementSpelling) = false
  leads : ∀ decl ∈ u.types, decl.any Node.misleads = false
  indexed : ∀ d ∈ classPath.types, Over statementSpelling.letters d.binaryName
  named : ∀ d ∈ u.descriptors ++ classPath.types, isAstray d.qualifiedName = false

theorem CompilationUnit.IsLegible.root {u : CompilationUnit} {classPath : ClassIndex}
    (hu : u.IsLegible classPath) {place : Nat} {root : TypeDecl} (hroot : u.types[place]? = some root) :
    Written.IsLegible ⟨root, ({ resolver := .ofUnit u classPath } : Context).child place⟩ := by
  have hmem := List.mem_of_getElem? hroot
  have hspeaks := Context.speaks_ofUnit statementSpelling.letter hu.package hu.spelled hu.indexed
  refine ⟨hu.spelled root hmem, hu.leads root hmem,
    ⟨hspeaks.resolved, hspeaks.scope, hspeaks.frames⟩, ?_, ?_⟩
  · intro name scope d hd
    refine hu.named d (List.mem_append.mpr ?_)
    exact (Resolver.knows_of_resolveSimple hd).imp_left ClassIndex.mem_of_mem_ofList
  · exact List.forall_mem_nil _

/-- A statement inside of a declaration is written as one statement if and only if it is whole. Then
what stands behind it counts as it does by itself. -/
theorem CompilationUnit.statement_countsAsOne_iff {u : CompilationUnit} {classPath : ClassIndex}
    {config : Config} (hconfig : config.IsReadable) (hu : u.IsLegible classPath) {place : Nat}
    {root : TypeDecl} (hroot : u.types[place]? = some root) {statement : Stmt} {cx : Context}
    (hwithin : Within ⟨root, ({ resolver := .ofUnit u classPath } : Context).child place⟩
      ⟨statement, cx⟩)
    (hinside : cx.IsInside) {w : Writer} (hw : w.margins = config.margins) : ∃ w' text,
      typeset config w (StmtShape.doc (statement.script cx)) = .ok w' ∧
      w'.written = w.written ++ text ∧
      (countStatements text = some 1 ↔ statement.isWhole = true) ∧
      (statement.isWhole = true → ∀ more n, countStatements more = some n →
        countStatements (text ++ more) = some (n + 1)) := by
  have hlegible := hwithin.invariant Written.IsLegible.child (hu.root hroot)
  have hread := statement.script_read hconfig cx ⟨fun _ => hinside, hlegible.spelled, hlegible.speaks⟩
    hlegible.leads hlegible.guides
  exact Doc.IsReadAs.exists_count hread hw

/-- A class with the statement in the body of a method. -/
def methodClass (statement : Stmt) : TypeDecl :=
  .classDecl "A" false .empty none .nil .nil .nil .nil
    (.ofList [Member.ofMethod "f" (.void .nil) |> Member.withBody (.of [statement])]) []

def methodUnit (statement : Stmt) : CompilationUnit := { types := [methodClass statement] }

/-- The context of the class. -/
def classContext (statement : Stmt) : Context :=
  ({ resolver := .ofUnit (methodUnit statement) {} } : Context).child 0

/-- The context of the statement. -/
def methodContext (statement : Stmt) : Context :=
  let inside := ((classContext statement).enter (methodClass statement)).membersOf false
  ((((inside.child 4).child 0).child 4).content.child 0).child 0

theorem methodUnit_within (statement : Stmt) :
    Within ⟨methodClass statement, classContext statement⟩ ⟨statement, methodContext statement⟩ := by
  refine .step (.tail _ (.tail _ (.tail _ (.tail _ (.head _))))) (.step (.head _) ?_)
  refine .step (.tail _ (.tail _ (.tail _ (.tail _ (.head _))))) (.step (.head _) ?_)
  exact .step (.head _) (.step (.head _) (.refl _))

/-- `if (c) assert c;` -/
def guardedAssertion : Stmt := .ifStmt (.nameExpr "c") (.assertStmt (.nameExpr "c") .absent) .absent

/-- `if (c) g();` -/
def guardedCall : Stmt := .ifStmt (.nameExpr "c") (.exprStmt (Expr.call none "g" [])) .absent

/-- A call in a branch is the body of it, and an assertion is not. -/
theorem guardedCall_countsAsOne :
    Config.IsReadable {} ∧ (methodUnit guardedAssertion).IsLegible {} ∧
    (methodUnit guardedCall).IsLegible {} ∧
    (∃ w, typeset {} (Config.writer {})
      (StmtShape.doc (guardedAssertion.script (methodContext guardedAssertion))) = .ok w ∧
      countStatements w.written ≠ some 1) ∧
    ∃ w, typeset {} (Config.writer {})
      (StmtShape.doc (guardedCall.script (methodContext guardedCall))) = .ok w ∧
      countStatements w.written = some 1 := by
  have hassertion : (methodUnit guardedAssertion).IsLegible {} :=
    ⟨(fun _ hp => nomatch hp), by decide +kernel, by decide +kernel, (fun _ hd => nomatch hd),
      by decide +kernel⟩
  have hcall : (methodUnit guardedCall).IsLegible {} :=
    ⟨(fun _ hp => nomatch hp), by decide +kernel, by decide +kernel, (fun _ hd => nomatch hd),
      by decide +kernel⟩
  refine ⟨Config.isReadable_default, hassertion, hcall, ?_, ?_⟩
  · obtain ⟨w, text, htypeset, hwritten, hcount, -⟩ := CompilationUnit.statement_countsAsOne_iff
      Config.isReadable_default hassertion rfl (methodUnit_within _) (List.cons_ne_nil _ _)
        (w := Config.writer {}) rfl
    refine ⟨w, htypeset, ?_⟩
    rw [hwritten]
    exact fun hone => nomatch hcount.mp hone
  · obtain ⟨w, text, htypeset, hwritten, hcount, -⟩ := CompilationUnit.statement_countsAsOne_iff
      Config.isReadable_default hcall rfl (methodUnit_within _) (List.cons_ne_nil _ _)
        (w := Config.writer {}) rfl
    refine ⟨w, htypeset, ?_⟩
    rw [hwritten]
    exact hcount.mpr rfl

end TypeScribe
