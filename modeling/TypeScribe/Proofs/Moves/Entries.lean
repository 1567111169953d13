import TypeScribe.Proofs.Moves.Waves
import TypeScribe.Proofs.Script.Routes

/-!
# What is moved out of a node

A script moves declarations that stand in its node, wherever they stand: in a member, in the body of
an anonymous class or of an enum constant, in a local class or in an argument of an annotation. The
script of a moved declaration moves what stands inside that declaration, and there declarations are
nested less deep.
-/
namespace TypeScribe
set_option autoImplicit false

/-- The greater of two depths. Only its lemmas open it, so that comparing the depths of nodes does
not compute them. -/
@[irreducible] def deeper (a b : Nat) : Nat := max a b

/-- How deep type declarations are nested in one another below the node. -/
def Node.nesting : {c : Category} → Node c → Nat
  | _, .cons head tail => deeper head.nesting tail.nesting
  | _, .present node => node.nesting
  | _, .annotationSingle _ value => value.nesting
  | _, .annotationNormal _ elements => elements.nesting
  | _, .element _ value => value.nesting
  | _, .classDecl _ _ _ _ annotations typeParameters extended implemented members _ =>
    deeper (deeper (deeper (deeper annotations.nesting typeParameters.nesting) extended.nesting)
      implemented.nesting) members.nesting
  | _, .enumDecl _ _ _ annotations implemented constants members =>
    deeper (deeper (deeper annotations.nesting implemented.nesting) constants.nesting)
      members.nesting
  | _, .annotationDecl _ _ _ annotations members => deeper annotations.nesting members.nesting
  | _, .enumConstant _ _ annotations arguments body =>
    deeper (deeper annotations.nesting arguments.nesting) body.nesting
  | _, .nestedType decl => decl.nesting + 1
  | _, .field _ _ annotations base declarators =>
    deeper (deeper annotations.nesting base.nesting) declarators.nesting
  | _, .method _ _ _ annotations typeParameters result parameters thrown body =>
    deeper (deeper (deeper (deeper (deeper annotations.nesting typeParameters.nesting)
      result.nesting) parameters.nesting) thrown.nesting) body.nesting
  | _, .constructor _ _ _ annotations typeParameters parameters thrown body =>
    deeper (deeper (deeper (deeper annotations.nesting typeParameters.nesting) parameters.nesting)
      thrown.nesting) body.nesting
  | _, .initializer _ _ body => body.nesting
  | _, .annotationMember _ _ _ annotations type value =>
    deeper (deeper annotations.nesting type.nesting) value.nesting
  | _, .declarator _ dimensions initial => deeper dimensions.nesting initial.nesting
  | _, .dimension annotations => annotations.nesting
  | _, .parameter _ type _ annotations _ varArgsAnnotations =>
    deeper (deeper type.nesting annotations.nesting) varArgsAnnotations.nesting
  | _, .typeParameter _ bounds annotations => deeper bounds.nesting annotations.nesting
  | _, .primitive _ annotations => annotations.nesting
  | _, .classUse type => type.nesting
  | _, .array component annotations => deeper component.nesting annotations.nesting
  | _, .void annotations => annotations.nesting
  | _, .intersection elements => elements.nesting
  | _, .union elements => elements.nesting
  | _, .wildcard extendsBound superBound annotations =>
    deeper (deeper extendsBound.nesting superBound.nesting) annotations.nesting
  | _, .classType scope _ typeArguments annotations =>
    deeper (deeper scope.nesting typeArguments.nesting) annotations.nesting
  | _, .block statements _ => statements.nesting
  | _, .switchEntry label statements => deeper label.nesting statements.nesting
  | _, .catchClause caught body => deeper caught.nesting body.nesting
  | _, .variableGroup _ annotations base declarators =>
    deeper (deeper annotations.nesting base.nesting) declarators.nesting
  | _, .blockStmt body => body.nesting
  | _, .exprStmt expr => expr.nesting
  | _, .localType decl => decl.nesting + 1
  | _, .assertStmt check message => deeper check.nesting message.nesting
  | _, .labeled _ statement => statement.nesting
  | _, .switchStmt selector entries => deeper selector.nesting entries.nesting
  | _, .returnStmt expr => expr.nesting
  | _, .ifStmt condition consequent alternative =>
    deeper (deeper condition.nesting consequent.nesting) alternative.nesting
  | _, .whileStmt condition body => deeper condition.nesting body.nesting
  | _, .doStmt body condition => deeper body.nesting condition.nesting
  | _, .forEachStmt loopVariable iterable body =>
    deeper (deeper loopVariable.nesting iterable.nesting) body.nesting
  | _, .forStmt init compare update body =>
    deeper (deeper (deeper init.nesting compare.nesting) update.nesting) body.nesting
  | _, .throwStmt expr => expr.nesting
  | _, .synchronizedStmt lock body => deeper lock.nesting body.nesting
  | _, .tryStmt resources body catches finallyBlock =>
    deeper (deeper (deeper resources.nesting body.nesting) catches.nesting) finallyBlock.nesting
  | _, .constructorCall _ expr typeArguments arguments =>
    deeper (deeper expr.nesting typeArguments.nesting) arguments.nesting
  | _, .creationLevel size annotations => deeper size.nesting annotations.nesting
  | _, .lambdaExpr expr => expr.nesting
  | _, .lambdaBlock body => body.nesting
  | _, .fieldAccess scope _ => scope.nesting
  | _, .arrayAccess base index => deeper base.nesting index.nesting
  | _, .arrayCreation elementType levels initial =>
    deeper (deeper elementType.nesting levels.nesting) initial.nesting
  | _, .arrayInitializer values => values.nesting
  | _, .assign target _ value => deeper target.nesting value.nesting
  | _, .binary left _ right => deeper left.nesting right.nesting
  | _, .unary _ expr => expr.nesting
  | _, .cast type expr => deeper type.nesting expr.nesting
  | _, .classLiteral type => type.nesting
  | _, .conditional condition consequent alternative =>
    deeper (deeper condition.nesting consequent.nesting) alternative.nesting
  | _, .enclosed inner => inner.nesting
  | _, .instanceOf expr type => deeper expr.nesting type.nesting
  | _, .methodCall scope typeArguments _ arguments =>
    deeper (deeper scope.nesting typeArguments.nesting) arguments.nesting
  | _, .objectCreation scope type typeArguments arguments anonymousBody =>
    deeper (deeper (deeper (deeper scope.nesting type.nesting) typeArguments.nesting)
      arguments.nesting) anonymousBody.nesting
  | _, .lambda parameters _ body => deeper parameters.nesting body.nesting
  | _, .methodReference scope typeArguments _ => deeper scope.nesting typeArguments.nesting
  | _, .typeExpr type => type.nesting
  | _, .variableDeclaration decl => decl.nesting
  | _, .annotationExpr use => use.nesting
  | _, _ => 0

/-- The depth is at most `k`. -/
def Bounds (k depth : Nat) : Prop := depth ≤ k

namespace Bounds

variable {k a b : Nat}

theorem left (h : Bounds k (deeper a b)) : Bounds k a := by
  unfold deeper at h
  exact Nat.le_trans (Nat.le_max_left a b) h

theorem right (h : Bounds k (deeper a b)) : Bounds k b := by
  unfold deeper at h
  exact Nat.le_trans (Nat.le_max_right a b) h

theorem inner (h : Bounds k (a + 1)) : Bounds k a := Nat.le_of_succ_le h

end Bounds

theorem Node.bounds_of_mem_children {k : Nat} {c : Category} {n : Node c} (cx : Context)
    (h : Bounds k n.nesting) : ∀ v ∈ n.children cx, Bounds k v.node.nesting := by
  cases n with
  | nestedType decl => exact List.forall_mem_singleton.mpr h.inner
  | localType decl => exact List.forall_mem_singleton.mpr h.inner
  | _ =>
    repeat
      have hlast := h.right
      replace h := h.left
    repeat first
      | exact List.forall_mem_nil _
      | assumption
      | refine List.forall_mem_cons.mpr ⟨?_, ?_⟩

theorem Within.nesting_le {w x : Written} (h : Within w x) : x.node.nesting ≤ w.node.nesting :=
  h.invariant (I := fun v => Bounds w.node.nesting v.node.nesting)
    (fun hchild hu => Node.bounds_of_mem_children _ hu _ hchild) (Nat.le_refl _)

/-- The declaration is nested somewhere in the node as a member, and it is one that is moved. -/
structure MovesOut (w : Written) (decl : TypeDecl) (cx : Context) : Prop where
  within : Within w ⟨.nestedType decl, cx⟩
  moved : mustMove decl cx.scope = true

/-- A moved declaration as it is written. -/
def movedDecl (decl : TypeDecl) (cx : Context) : Written := ⟨decl, (cx.child 0).detached⟩

/-- What is queued for a moved declaration: the names of the declarations around it, outermost first,
and what is written inside the modules of these names. -/
def movedEntry (decl : TypeDecl) (cx : Context) : Route × Module :=
  let shape : DeclShape := decl.script (cx.child 0).detached
  ((cx.child 0).route,
    { names := cx.scope.reverse.map TypeDecl.name
      body := Doc.comment decl.comment ++ shape.annotations ++ Doc.text "export " ++ shape.content })

/-- The entry is that of a declaration in the node. -/
def StandsIn (w : Written) (e : Route × Module) : Prop :=
  ∃ decl cx, MovesOut w decl cx ∧ e = movedEntry decl cx

namespace MovesOut

variable {w : Written} {decl : TypeDecl} {cx : Context}

theorem movedDecl_within (h : MovesOut w decl cx) : Within w (movedDecl decl cx) := by
  refine h.within.child (List.mem_singleton.mpr ?_)
  rw [if_pos h.moved]
  rfl

theorem trans {v : Written} (hv : Within w v) (h : MovesOut v decl cx) : MovesOut w decl cx :=
  ⟨hv.trans h.within, h.moved⟩

theorem nesting_lt (h : MovesOut w decl cx) : decl.nesting < w.node.nesting :=
  h.within.nesting_le

theorem route_suffix (h : MovesOut w decl cx) : w.context.route <:+ (movedEntry decl cx).1 :=
  h.within.route_suffix.trans (List.suffix_cons _ _)

/-- A declaration is known by its route. -/
theorem eq_of_route {decl' : TypeDecl} {cx' : Context} (h : MovesOut w decl cx)
    (h' : MovesOut w decl' cx') (hroute : (movedEntry decl cx).1 = (movedEntry decl' cx').1) :
    decl = decl' ∧ cx = cx' := by
  have heq := h.within.eq_of_route h'.within rfl rfl (List.cons.inj hroute).2
  cases heq
  exact ⟨rfl, rfl⟩

end MovesOut

/-- The piece moves only declarations that stand in the node. -/
def Piece.MovesFrom (w : Written) (p : Piece) : Prop := ∀ e ∈ moves [p], StandsIn w e

theorem Piece.movesFrom_plainly (w : Written) : HoldsPlainly (Piece.MovesFrom w) where
  text _ := List.forall_mem_nil _
  newline := List.forall_mem_nil _
  indent := List.forall_mem_nil _
  outdent := List.forall_mem_nil _
  comment _ := List.forall_mem_nil _
  unsupported _ := List.forall_mem_nil _

theorem Doc.Every.standsIn {w : Written} {d : Doc} (h : Doc.Every (Piece.MovesFrom w) d) :
    ∀ e ∈ moves d, StandsIn w e := by
  intro e he
  exact h _ (mem_moves.mp he) e List.mem_cons_self

theorem Written.script_movesFrom {w x : Written} (h : Within w x) :
    Script.All anySpelling (Doc.Every (Piece.MovesFrom w)) (Doc.Every (Piece.MovesFrom w))
      (Doc.Every (Piece.MovesFrom w)) x.category (x.node.script x.context) := by
  have hP := Piece.movesFrom_plainly w
  induction x using Written.inductionOn with
  | step x ih =>
    refine Node.script_of_children (I := fun _ => True) hP.composes
      ⟨fun _ => trivial, x.node.any_misspells_any, x.context.speaks_anyLetter⟩ ?_ ?_ ?_ ?_
    · intro a _ harguments
      cases a <;> exact hP.uniform.annotationComment (over_anyLetter _) harguments
    · intro _ _ f
      exact Doc.every_cons.mpr ⟨List.forall_mem_nil _, Doc.every_nil⟩
    · intro decl hdecl hmoves _
      refine Doc.every_cons.mpr ⟨List.forall_mem_singleton.mpr ?_, Doc.every_nil⟩
      obtain ⟨node, context⟩ := x
      cases node with
      | nestedType nested =>
        cases hdecl
        exact ⟨decl, context, ⟨h, hmoves⟩, rfl⟩
      | _ => cases hdecl
    · rw [List.forall_iff_forall_mem]
      intro v hv
      exact ih v hv (h.child hv)

theorem TypeDecl.script_standsIn (decl : TypeDecl) (cx : Context) :
    (∀ e ∈ moves (DeclShape.annotations (decl.script cx)), StandsIn ⟨decl, cx⟩ e) ∧
      ∀ e ∈ moves (DeclShape.content (decl.script cx)), StandsIn ⟨decl, cx⟩ e := by
  obtain ⟨hannotations, hcontent⟩ := Written.script_movesFrom (Within.refl ⟨decl, cx⟩)
  exact ⟨Doc.Every.standsIn hannotations, Doc.Every.standsIn hcontent⟩

/-- A root moves declarations that stand in it. -/
theorem Site.moves_root_standsIn (s : Site) :
    ∀ e ∈ moves s.root, StandsIn ⟨s.decl, s.context⟩ e := by
  obtain ⟨hannotations, hcontent⟩ := TypeDecl.script_standsIn s.decl s.context
  have hexport (b : Bool) : moves (if b then Doc.text "export " else []) = [] := by
    cases b <;> rfl
  intro e he
  simp only [root, Script.rootDecl, moves_append, moves_comment, hexport, List.nil_append,
    List.append_nil, List.mem_append] at he
  rcases he with he | he
  · exact hannotations e he
  · exact hcontent e he

/-- A moved declaration moves what stands in it. -/
theorem moves_movedEntry (decl : TypeDecl) (cx : Context) :
    ∀ e ∈ moves (movedEntry decl cx).2.body, StandsIn (movedDecl decl cx) e := by
  obtain ⟨hannotations, hcontent⟩ := TypeDecl.script_standsIn decl (cx.child 0).detached
  intro e he
  simp only [movedEntry, moves_append, moves_comment, moves_text,
    List.nil_append, List.append_nil, List.mem_append] at he
  rcases he with he | he
  · exact hannotations e he
  · exact hcontent e he

theorem StandsIn.moves {w : Written} {e : Route × Module} (h : StandsIn w e) :
    ∀ e' ∈ moves e.2.body, StandsIn w e' := by
  obtain ⟨decl, cx, hmoved, rfl⟩ := h
  intro e' he'
  obtain ⟨decl', cx', hmoved', rfl⟩ := moves_movedEntry decl cx e' he'
  exact ⟨decl', cx', hmoved'.trans hmoved.movedDecl_within, rfl⟩

theorem StandsIn.route_suffix {w : Written} {e : Route × Module} (h : StandsIn w e) :
    w.context.route <:+ e.1 := by
  obtain ⟨decl, cx, hmoved, rfl⟩ := h
  exact hmoved.route_suffix

end TypeScribe
