import Mathlib.Data.List.Pairwise
import TypeScribe.Proofs.Moves.Site
import TypeScribe.Proofs.Script.Children
import TypeScribe.Proofs.Script.Every

/-!
# Routes tell members apart

The route of a node grows on the way down, and the children of a node take different places. Only a
free-standing comment takes no place, and nothing stands in it. So two members of a tree that
declare types are the same if they have the same route, and a member that is written several times
is known again.
-/
namespace TypeScribe
set_option autoImplicit false

theorem Within.trans {w v x : Written} (h : Within w v) (h' : Within v x) : Within w x := by
  induction h with
  | refl => exact h'
  | step hchild _ ih => exact .step hchild (ih h')

theorem Within.child {w v x : Written} (h : Within w v) (hchild : x ∈ v.node.children v.context) :
    Within w x :=
  h.trans (.step hchild (.refl x))

theorem Node.route_suffix_of_mem_children {c : Category} (n : Node c) (cx : Context) :
    ∀ v ∈ n.children cx, cx.route <:+ v.context.route := by
  cases n with
  | cons head tail =>
    refine List.forall_mem_cons.mpr ⟨List.suffix_cons _ _, List.forall_mem_singleton.mpr ?_⟩
    unfold Context.after
    split
    · exact List.suffix_refl _
    · exact List.suffix_cons _ _
  | nestedType decl =>
    refine List.forall_mem_singleton.mpr ?_
    split <;> exact List.suffix_cons _ _
  | _ =>
    repeat first
      | exact List.forall_mem_nil _
      | exact List.suffix_cons _ _
      | refine List.forall_mem_cons.mpr ⟨?_, ?_⟩

theorem Within.route_suffix {w x : Written} (h : Within w x) :
    w.context.route <:+ x.context.route := by
  refine h.invariant (I := fun v => w.context.route <:+ v.context.route) ?_ (List.suffix_refl _)
  intro u v hchild hu
  exact hu.trans (u.node.route_suffix_of_mem_children u.context v hchild)

/-- The node is a member that declares a type. -/
def Written.Nests (w : Written) : Prop := w.node.nested?.isSome = true

/-- No member that declares a type stands in both nodes. -/
def Written.Apart (w w' : Written) : Prop :=
  ∀ x x', Within w x → Within w' x' → x.Nests → x'.Nests → x.context.route ≠ x'.context.route

namespace Written

variable {w w' : Written}

instance : Std.Symm Written.Apart where
  symm _ _ h := fun x x' hx hx' hn hn' heq => h x' x hx' hx hn' hn heq.symm

theorem apart_of_places {a b : Nat} {outer : Route} (hab : a ≠ b)
    (hw : w.context.route = a :: outer) (hw' : w'.context.route = b :: outer) : w.Apart w' := by
  intro x x' hx hx' _ _ heq
  have hsuffix := hx.route_suffix
  have hsuffix' := hx'.route_suffix
  rw [hw] at hsuffix
  rw [hw', ← heq] at hsuffix'
  exact not_suffix_of_ne hab hsuffix hsuffix'

/-- Nothing stands in a free-standing comment. -/
theorem apart_of_isComment (h : w.node.isComment = true) : w.Apart w' := by
  intro x x' hx _ hn _
  obtain ⟨node, context⟩ := w
  cases node with
  | commentStmt comment =>
    cases hx with
    | refl => cases hn
    | step hchild _ => cases hchild
  | _ => cases h

end Written

theorem Node.children_apart {c : Category} (n : Node c) (cx : Context) :
    (n.children cx).Pairwise Written.Apart := by
  cases n with
  | cons head tail =>
    refine .cons (List.forall_mem_singleton.mpr ?_) (List.pairwise_singleton _ _)
    by_cases hcomment : head.isComment = true
    · exact Written.apart_of_isComment hcomment
    · have hafter : cx.after head = cx.child 1 := if_neg hcomment
      rw [hafter]
      exact Written.apart_of_places Nat.zero_ne_one rfl rfl
  | _ =>
    repeat first
      | exact .nil
      | exact List.forall_mem_nil _
      | exact Written.apart_of_places (by decide) rfl rfl
      | refine .cons ?_ ?_
      | refine List.forall_mem_cons.mpr ⟨?_, ?_⟩

/-- What stands in a member that declares a type has a longer route. -/
theorem Written.Nests.route_ne {w v x : Written} (h : w.Nests)
    (hchild : v ∈ w.node.children w.context) (hx : Within v x) :
    x.context.route ≠ w.context.route := by
  intro heq
  have hroute : v.context.route = 0 :: w.context.route := by
    obtain ⟨node, context⟩ := w
    cases node with
    | nestedType decl =>
      rw [List.mem_singleton.mp hchild]
      dsimp only
      split <;> rfl
    | _ => cases h
  have hlength := hx.route_suffix.length_le
  rw [hroute, heq, List.length_cons] at hlength
  omega

theorem Within.eq_of_route {w x x' : Written} (h : Within w x) (h' : Within w x') (hx : x.Nests)
    (hx' : x'.Nests) (hroute : x.context.route = x'.context.route) : x = x' := by
  induction h with
  | refl w =>
    cases h' with
    | refl => rfl
    | step hchild hrest => exact absurd hroute.symm (hx.route_ne hchild hrest)
  | @step w v x hchild hrest ih =>
    cases h' with
    | refl => exact absurd hroute (hx'.route_ne hchild hrest)
    | @step _ v' _ hchild' hrest' =>
      by_cases heq : v = v'
      · subst heq
        exact ih hrest' hx hroute
      · have hapart := (w.node.children_apart w.context).forall hchild hchild' heq
        exact absurd hroute (hapart x x' hrest hrest' hx hx')

end TypeScribe
