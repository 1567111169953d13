import Mathlib.Data.List.Nodup
import Mathlib.Logic.Relation
import TypeScribe.Proofs.Binding.Instances
import TypeScribe.Proofs.Moves.Draining

/-!
# The stacks of a unit that is being written

A unit can be written with two stacks, of the declarations and of the anonymous class bodies that
are open, instead of a context for each node. Writing a node opens something around some of its
parts and closes it again, also when a part has failed. A declaration that has to be moved is
queued, with the declarations around it, and written when no other node is.

However the parts of nodes are visited, the stacks are what the active calls have opened. So a call
leaves them as it found them, they are those of the context in which the script of the node is made,
and the closure parameters of the open anonymous classes are numbered from the outside.
-/
namespace TypeScribe
set_option autoImplicit false

/-- The open declarations and anonymous class bodies, innermost first. -/
structure Stacks where
  scope : Scope := []
  frames : List Frame := []

/-- What is opened around a part of a node. -/
inductive Opening where
  | declaration (decl : TypeDecl)
  | anonymous (isStatic : Bool)

namespace Stacks

/-- How many open anonymous class bodies hold their creating instance. -/
def captures (s : Stacks) : Nat := s.frames.countP fun f => f.outerThis.isSome

def push (s : Stacks) : Opening → Stacks
  | .declaration decl => { s with scope := decl :: s.scope }
  | .anonymous isStatic =>
    { s with
      frames :=
        { depth := s.scope.length
          outerThis := if isStatic then none else some (captureNameAt s.captures) } :: s.frames }

def pop (s : Stacks) : Opening → Stacks
  | .declaration _ => { s with scope := s.scope.tail }
  | .anonymous _ => { s with frames := s.frames.tail }

theorem pop_push (s : Stacks) (o : Opening) : (s.push o).pop o = s := by
  cases o <;> rfl

/-- The stacks with what is open around a part, if anything is. -/
def around (s : Stacks) : Option Opening → Stacks
  | none => s
  | some o => s.push o

end Stacks

def Context.toStacks (cx : Context) : Stacks := { scope := cx.scope, frames := cx.frames }

/-- What is opened around the child at a place: a declaration is open around all its parts but the
annotations, and an anonymous class around its body. -/
def Node.opening : {c : Category} → Node c → Context → Nat → Option Opening
  | .typeDecl, decl, _, place => if place = 0 then none else some (.declaration decl)
  | _, .objectCreation scope _ _ _ _, cx, place =>
    if place = 3 then some (.anonymous (cx.createsStatic scope)) else none
  | _, _, _, _ => none

/-- A node that is being written, and what is open around the part at hand. -/
structure Call where
  written : Written
  opening : Option Opening

/-- A declaration to be written in modules, and the declarations around its place. -/
structure PendingDecl where
  written : Written
  enclosing : Scope

/-- The state of writing a unit. -/
structure Emission where
  /-- The nodes being written, innermost first. -/
  calls : List Call := []
  /-- The moved declaration being written, with the scope to go back to. -/
  writing : Option (PendingDecl × Scope) := none
  current : Stacks := {}
  queued : List PendingDecl := []
  failed : Bool := false

/-- Outside of static context an anonymous class is printed in a closure over the instance that creates
it. -/
theorem Node.exists_script_anonymous {receiver : Node (.optional .expr)} (type : ClassType)
    (typeArguments : Node (.many .typeUse)) (arguments : Node (.many .expr))
    (body : Node (.many .member)) {cx : Context} (hstatic : cx.createsStatic receiver = false) :
    ∃ marker content : Doc,
      Node.script (.objectCreation receiver type typeArguments arguments (.present body)) cx =
        marker ++ Doc.text ("((" ++ cx.captureName ++ ") => ") ++ content ++ Doc.text ")(this)" := by
  have hcontent (typeDoc : Doc) (arguments : List Doc) (body : List MemberShape) :
      ∃ content, Script.anonymousClass cx type typeDoc arguments body false =
        Doc.text ("((" ++ cx.captureName ++ ") => ") ++ content ++ Doc.text ")(this)" := by
    refine ⟨Doc.text (if cx.isInterface type then "new class implements " else "new class extends ")
      ++ typeDoc ++ Doc.line " \x7b" ++ Doc.indented (Script.members body) ++ Doc.text "\x7d"
      ++ Script.parenthesized arguments, ?_⟩
    simp [Script.anonymousClass, Context.outerThis]
  obtain ⟨content, hclass⟩ := hcontent (type.script (cx.child 1)) (arguments.script (cx.child 2))
    (body.script ((cx.enterAnonymous (cx.createsStatic receiver)).child 3).content)
  refine ⟨if receiver.toOption.isSome then Doc.unsupported (.qualifiedAnonymousClass type.name)
    else [], content, ?_⟩
  rw [List.append_assoc, List.append_assoc, ← List.append_assoc (Doc.text _), ← hclass, ← hstatic]
  cases receiver <;> rfl

namespace Emission

/-- One step. Nodes are visited in any order and any number of times, and anything may fail. After a
failure things are only closed and left. -/
inductive Proceeds (starts : List Written) : Emission → Emission → Prop where
  | start {σ : Emission} {w : Written} (hidle : σ.calls = []) (hwriting : σ.writing = none)
      (hok : σ.failed = false) (hw : w ∈ starts) :
      Proceeds starts σ { σ with calls := [⟨w, none⟩] }
  | openModule {σ : Emission} {m : PendingDecl} (hidle : σ.calls = []) (hwriting : σ.writing = none)
      (hok : σ.failed = false) (hm : m ∈ σ.queued) :
      Proceeds starts σ { σ with
        writing := some (m, σ.current.scope), current := { σ.current with scope := m.enclosing } }
  | callModule {σ : Emission} {m : PendingDecl} {outer : Scope} (hidle : σ.calls = [])
      (hwriting : σ.writing = some (m, outer)) (hok : σ.failed = false) :
      Proceeds starts σ { σ with calls := [⟨m.written, none⟩] }
  | closeModule {σ : Emission} {m : PendingDecl} {outer : Scope} (hidle : σ.calls = [])
      (hwriting : σ.writing = some (m, outer)) :
      Proceeds starts σ { σ with writing := none, current := { σ.current with scope := outer } }
  | enter {σ : Emission} {w : Written} {rest : List Call} {place : Nat} {o : Opening}
      (hcalls : σ.calls = ⟨w, none⟩ :: rest) (hok : σ.failed = false)
      (ho : w.node.opening w.context place = some o) :
      Proceeds starts σ { σ with calls := ⟨w, some o⟩ :: rest, current := σ.current.push o }
  | exit {σ : Emission} {w : Written} {rest : List Call} {o : Opening}
      (hcalls : σ.calls = ⟨w, some o⟩ :: rest) :
      Proceeds starts σ { σ with calls := ⟨w, none⟩ :: rest, current := σ.current.pop o }
  | call {σ : Emission} {w v : Written} {rest : List Call} {place : Nat} {o : Option Opening}
      (hcalls : σ.calls = ⟨w, o⟩ :: rest) (hok : σ.failed = false)
      (hplace : (w.node.children w.context)[place]? = some v)
      (ho : w.node.opening w.context place = o)
      (hstays : ∀ decl, w.node.nested? = some decl → mustMove decl σ.current.scope = false) :
      Proceeds starts σ { σ with calls := ⟨v, none⟩ :: ⟨w, o⟩ :: rest }
  | enqueue {σ : Emission} {w : Written} {rest : List Call} {decl : TypeDecl}
      (hcalls : σ.calls = ⟨w, none⟩ :: rest) (hok : σ.failed = false)
      (hdecl : w.node.nested? = some decl) (hmoves : mustMove decl σ.current.scope = true) :
      Proceeds starts σ { σ with
        queued := σ.queued ++ [⟨movedDecl decl w.context, σ.current.scope⟩] }
  | leave {σ : Emission} {w : Written} {rest : List Call} (hcalls : σ.calls = ⟨w, none⟩ :: rest) :
      Proceeds starts σ { σ with calls := rest }
  | fail {σ : Emission} : Proceeds starts σ { σ with failed := true }

/-- Any number of steps. -/
def Runs (starts : List Written) : Emission → Emission → Prop :=
  Relation.ReflTransGen (Proceeds starts)

/-- The state is met while a unit is written. -/
def Reached (starts : List Written) (σ : Emission) : Prop := Runs starts {} σ

end Emission

namespace CompilationUnit

/-- Where writing a unit starts: the annotations of its package and the top-level declarations. -/
def starts (u : CompilationUnit) (classPath : ClassIndex) : List Written :=
  u.packageAnnotations.map (fun a => ⟨a, { resolver := .ofUnit u classPath }⟩)
    ++ (u.roots classPath).map Site.toWritten

theorem toStacks_of_mem_starts (u : CompilationUnit) (classPath : ClassIndex) :
    ∀ w ∈ u.starts classPath, w.context.toStacks = {} := by
  intro w hw
  rcases List.mem_append.mp hw with hw | hw
  · obtain ⟨a, -, rfl⟩ := List.mem_map.mp hw
    rfl
  · obtain ⟨s, hs, rfl⟩ := List.mem_map.mp hw
    obtain ⟨-, hscope, hframes⟩ := mem_roots hs
    change Stacks.mk s.context.scope s.context.frames = _
    rw [hscope, hframes]

end CompilationUnit

/-- The context of a child differs from that of its node by what is opened around the child. -/
theorem Node.toStacks_of_child {c : Category} (n : Node c) (cx : Context) {place : Nat}
    {v : Written} (hplace : (n.children cx)[place]? = some v)
    (hstays : ∀ decl, n.nested? = some decl → mustMove decl cx.scope = false) :
    v.context.toStacks = cx.toStacks.around (n.opening cx place) := by
  have hmem : v ∈ n.children cx := List.mem_of_getElem? hplace
  cases n with
  | cons head tail =>
    have hafter : (cx.after head).toStacks = cx.toStacks := by
      unfold Context.after
      split <;> rfl
    rcases List.mem_cons.mp hmem with rfl | hmem
    · rfl
    · rw [List.mem_singleton.mp hmem]
      exact hafter
  | nestedType decl =>
    rw [List.mem_singleton.mp hmem, hstays decl rfl]
    rfl
  | classDecl | enumDecl | annotationDecl | objectCreation =>
    match place with
    | 0 | 1 | 2 | 3 | 4 => first | cases hplace; rfl | cases hplace
    | _ + 5 => cases hplace
  | _ =>
    refine (?_ : ∀ v ∈ _, v.context.toStacks = cx.toStacks) v hmem
    repeat first
      | exact List.forall_mem_nil _
      | exact rfl
      | refine List.forall_mem_cons.mpr ⟨?_, ?_⟩

theorem Node.opening_of_nested? {c : Category} {n : Node c} {decl : TypeDecl}
    (h : n.nested? = some decl) (cx : Context) (place : Nat) : n.opening cx place = none := by
  cases n with
  | nestedType => rfl
  | _ => cases h

namespace Stacks

/-- The closure parameters are numbered from the outside, no frame lies deeper than one inside it,
and none deeper than the scope. -/
structure Ordered (s : Stacks) : Prop where
  names : s.frames.reverse.filterMap Frame.outerThis = (List.range s.captures).map captureNameAt
  depths : s.frames.reverse.Pairwise fun f g => f.depth ≤ g.depth
  bounded : ∀ f ∈ s.frames, f.depth ≤ s.scope.length

variable {s : Stacks}

theorem ordered_of_frames_nil (h : s.frames = []) : s.Ordered := by
  obtain ⟨scope, frames⟩ := s
  cases h
  exact ⟨rfl, .nil, List.forall_mem_nil _⟩

theorem Ordered.push (h : s.Ordered) (o : Opening) : (s.push o).Ordered := by
  cases o with
  | declaration decl =>
    exact ⟨h.names, h.depths, fun f hf => Nat.le_succ_of_le (h.bounded f hf)⟩
  | anonymous isStatic =>
    refine ⟨?_, ?_, List.forall_mem_cons.mpr ⟨Nat.le_refl _, h.bounded⟩⟩
    · cases isStatic with
      | true => simpa [Stacks.push, captures] using h.names
      | false =>
        have hcaptures : (s.push (.anonymous false)).captures = s.captures + 1 := by
          simp [Stacks.push, captures]
        rw [hcaptures, List.range_succ, List.map_append, ← h.names]
        simp [Stacks.push]
    · change ((_ :: s.frames).reverse).Pairwise _
      rw [List.reverse_cons, List.pairwise_append]
      refine ⟨h.depths, List.pairwise_singleton _ _, ?_⟩
      intro f hf
      exact List.forall_mem_singleton.mpr (h.bounded f (List.mem_reverse.mp hf))

theorem Ordered.around (h : s.Ordered) (o : Option Opening) : (s.around o).Ordered := by
  cases o with
  | none => exact h
  | some o => exact h.push o

theorem Ordered.nodup (h : s.Ordered) : (s.frames.reverse.filterMap Frame.outerThis).Nodup := by
  rw [h.names]
  exact List.nodup_range.map fun _ _ => captureNameAt_injective

/-- The next closure parameter is not one of those that are open. -/
theorem Ordered.captureNameAt_notMem (h : s.Ordered) :
    captureNameAt s.captures ∉ s.frames.reverse.filterMap Frame.outerThis := by
  rw [h.names]
  intro hmem
  obtain ⟨n, hn, hname⟩ := List.mem_map.mp hmem
  exact absurd (captureNameAt_injective hname) (Nat.ne_of_lt (List.mem_range.mp hn))

/-- The stacks that calls have opened on top of others. -/
def after (base : Stacks) : List Call → Stacks
  | [] => base
  | c :: rest => (base.after rest).around c.opening

theorem Ordered.after (h : s.Ordered) (calls : List Call) : (s.after calls).Ordered := by
  induction calls with
  | nil => exact h
  | cons c rest ih => exact ih.around c.opening

end Stacks

/-- The node is written in its context somewhere in the unit. -/
def IsWritten (starts : List Written) (w : Written) : Prop := ∃ s ∈ starts, Within s w

/-- The declaration belongs to the unit, and is written with the scope that was kept for it and in
no anonymous class. -/
structure PendingDecl.Sound (starts : List Written) (m : PendingDecl) : Prop where
  isWritten : IsWritten starts m.written
  toStacks : m.written.context.toStacks = { scope := m.enclosing }

/-- Each call writes a node of the unit, in the context in which its script is made. -/
def Agree (starts : List Written) (base : Stacks) : List Call → Prop
  | [] => True
  | c :: rest =>
    IsWritten starts c.written ∧ c.written.context.toStacks = base.after rest ∧
      Agree starts base rest

namespace Emission

/-- The stacks under all calls. -/
def base (σ : Emission) : Stacks :=
  match σ.writing with
  | none => {}
  | some (m, _) => { scope := m.enclosing }

structure Sound (starts : List Written) (σ : Emission) : Prop where
  current : σ.current = σ.base.after σ.calls
  agree : Agree starts σ.base σ.calls
  queued : ∀ m ∈ σ.queued, m.Sound starts
  writing : ∀ p ∈ σ.writing, p.1.Sound starts ∧ p.2 = []

variable {starts : List Written} {σ τ : Emission}

theorem base_of_none (h : σ.writing = none) : σ.base = {} := by
  rw [base, h]

theorem base_of_some {m : PendingDecl} {outer : Scope} (h : σ.writing = some (m, outer)) :
    σ.base = { scope := m.enclosing } := by
  rw [base, h]

theorem sound_new : Sound starts {} where
  current := rfl
  agree := trivial
  queued := List.forall_mem_nil _
  writing _ h := nomatch h

theorem Sound.current_of_idle (h : σ.Sound starts) (hidle : σ.calls = []) : σ.current = σ.base := by
  rw [h.current, hidle]
  rfl

/-- The node at hand is written in the context whose stacks are the current ones. -/
theorem Sound.current_of_call (h : σ.Sound starts) {c : Call} {rest : List Call}
    (hcalls : σ.calls = c :: rest) :
    IsWritten starts c.written ∧ σ.current = c.written.context.toStacks.around c.opening ∧
      c.written.context.toStacks = σ.base.after rest ∧ Agree starts σ.base rest := by
  have hagree := h.agree
  rw [hcalls] at hagree
  obtain ⟨hwritten, htoStacks, hrest⟩ := hagree
  refine ⟨hwritten, ?_, htoStacks, hrest⟩
  rw [h.current, hcalls, htoStacks]
  rfl

/-- What one step preserves. -/
theorem Sound.proceeds (hstarts : ∀ w ∈ starts, w.context.toStacks = {}) (h : σ.Sound starts)
    (hstep : Proceeds starts σ τ) : τ.Sound starts := by
  cases hstep with
  | @start w hidle hwriting hok hw =>
    have hcurrent := h.current_of_idle hidle
    refine ⟨hcurrent, ⟨⟨w, hw, .refl w⟩, ?_, trivial⟩, h.queued, h.writing⟩
    exact (hstarts w hw).trans (base_of_none hwriting).symm
  | @openModule m hidle hwriting hok hm =>
    have hcurrent := (h.current_of_idle hidle).trans (base_of_none hwriting)
    refine ⟨?_, ?_, h.queued, ?_⟩
    · rw [hcurrent, hidle]
      rfl
    · rw [hidle]
      trivial
    · rintro p ⟨⟩
      exact ⟨h.queued m hm, by rw [hcurrent]⟩
  | @callModule m outer hidle hwriting hok =>
    have hcurrent := h.current_of_idle hidle
    obtain ⟨hm, -⟩ := h.writing (m, outer) hwriting
    refine ⟨hcurrent, ⟨hm.isWritten, ?_, trivial⟩, h.queued, h.writing⟩
    exact hm.toStacks.trans (base_of_some hwriting).symm
  | @closeModule m outer hidle hwriting =>
    have hcurrent := (h.current_of_idle hidle).trans (base_of_some hwriting)
    obtain ⟨-, houter⟩ := h.writing (m, outer) hwriting
    dsimp only at houter
    refine ⟨?_, ?_, h.queued, fun _ hp => nomatch hp⟩
    · rw [hcurrent, hidle, houter]
      rfl
    · rw [hidle]
      trivial
  | @enter w rest place o hcalls hok ho =>
    obtain ⟨hwritten, hcurrent, htoStacks, hrest⟩ := h.current_of_call hcalls
    refine ⟨?_, ⟨hwritten, htoStacks, hrest⟩, h.queued, h.writing⟩
    rw [hcurrent, htoStacks]
    rfl
  | @exit w rest o hcalls =>
    obtain ⟨hwritten, hcurrent, htoStacks, hrest⟩ := h.current_of_call hcalls
    refine ⟨?_, ⟨hwritten, htoStacks, hrest⟩, h.queued, h.writing⟩
    rw [hcurrent, htoStacks]
    exact Stacks.pop_push _ o
  | @call w v rest place o hcalls hok hplace ho hstays =>
    obtain ⟨⟨s, hs, hwithin⟩, hcurrent, htoStacks, hrest⟩ := h.current_of_call hcalls
    have hchild : v.context.toStacks = w.context.toStacks.around o := by
      rw [← ho]
      refine w.node.toStacks_of_child w.context hplace ?_
      intro decl hdecl
      -- Nothing is opened around a nested declaration, so its scope is the current one.
      have hnone : o = none := ho.symm.trans (Node.opening_of_nested? hdecl _ _)
      have hscope : σ.current.scope = w.context.scope := by
        rw [hcurrent, hnone]
        rfl
      rw [← hscope]
      exact hstays decl hdecl
    refine ⟨?_, ⟨⟨s, hs, hwithin.child (List.mem_of_getElem? hplace)⟩, ?_, ⟨s, hs, hwithin⟩,
      htoStacks, hrest⟩, h.queued, h.writing⟩
    · rw [hcurrent, htoStacks]
      rfl
    · rw [hchild, htoStacks]
      rfl
  | @enqueue w rest decl hcalls hok hdecl hmoves =>
    obtain ⟨⟨s, hs, hwithin⟩, hcurrent, -, -⟩ := h.current_of_call hcalls
    have hscope : σ.current.scope = w.context.scope := by
      rw [hcurrent]
      rfl
    refine ⟨h.current, h.agree, ?_, h.writing⟩
    refine List.forall_mem_append.mpr ⟨h.queued, List.forall_mem_singleton.mpr ?_⟩
    rw [hscope] at hmoves ⊢
    obtain ⟨node, context⟩ := w
    cases node with
    | nestedType nested =>
      cases hdecl
      exact ⟨⟨s, hs, MovesOut.movedDecl_within ⟨hwithin, hmoves⟩⟩, rfl⟩
    | _ => cases hdecl
  | @leave w rest hcalls =>
    obtain ⟨-, hcurrent, htoStacks, hrest⟩ := h.current_of_call hcalls
    exact ⟨hcurrent.trans htoStacks, hrest, h.queued, h.writing⟩
  | fail => exact ⟨h.current, h.agree, h.queued, h.writing⟩

theorem Sound.runs (hstarts : ∀ w ∈ starts, w.context.toStacks = {}) (h : σ.Sound starts)
    (hruns : Runs starts σ τ) : τ.Sound starts := by
  induction hruns with
  | refl => exact h
  | tail _ hstep ih => exact ih.proceeds hstarts hstep

theorem Sound.ordered (h : σ.Sound starts) : σ.current.Ordered := by
  rw [h.current]
  refine Stacks.Ordered.after (Stacks.ordered_of_frames_nil ?_) _
  unfold base
  split <;> rfl

/-- The stacks are settled by the active calls. -/
theorem Sound.current_eq (h : σ.Sound starts) (h' : τ.Sound starts) (hcalls : τ.calls = σ.calls)
    (hwriting : τ.writing = σ.writing) : τ.current = σ.current := by
  rw [h.current, h'.current, hcalls, base, hwriting]
  rfl

theorem exists_left (starts : List Written) (σ : Emission) :
    ∃ τ, Runs starts σ τ ∧ τ.calls = [] ∧ τ.writing = σ.writing ∧ τ.queued = σ.queued ∧
      τ.failed = σ.failed := by
  generalize hcalls : σ.calls = calls
  induction calls generalizing σ with
  | nil => exact ⟨σ, .refl, hcalls, rfl, rfl, rfl⟩
  | cons c rest ih =>
    obtain ⟨w, opening⟩ := c
    cases opening with
    | none =>
      obtain ⟨τ, hruns, hleft⟩ := ih { σ with calls := rest } rfl
      exact ⟨τ, .head (.leave hcalls) hruns, hleft⟩
    | some o =>
      obtain ⟨τ, hruns, hleft⟩ := ih { σ with calls := rest, current := σ.current.pop o } rfl
      exact ⟨τ, .head (.exit hcalls) (.head (.leave rfl) hruns), hleft⟩

theorem exists_idle (starts : List Written) (σ : Emission) :
    ∃ τ, Runs starts σ τ ∧ τ.calls = [] ∧ τ.writing = none ∧ τ.queued = σ.queued ∧
      τ.failed = σ.failed := by
  obtain ⟨τ, hruns, hcalls, hwriting, hqueued, hfailed⟩ := exists_left starts σ
  cases hmodule : τ.writing with
  | none => exact ⟨τ, hruns, hcalls, hmodule, hqueued, hfailed⟩
  | some p => exact ⟨_, hruns.tail (.closeModule hcalls hmodule), hcalls, rfl, hqueued, hfailed⟩

/-- Some state is about to write the node. -/
def Visits (starts : List Written) (w : Written) : Prop :=
  ∃ σ rest, Reached starts σ ∧ σ.failed = false ∧ σ.calls = ⟨w, none⟩ :: rest

theorem visits_start {w : Written} (hw : w ∈ starts) : Visits starts w :=
  ⟨_, [], .single (.start rfl rfl rfl hw), rfl, rfl⟩

/-- A moved declaration is written once all calls have been left. -/
theorem visits_movedDecl {w : Written} {decl : TypeDecl} {rest : List Call}
    (hreached : Reached starts σ) (hok : σ.failed = false) (hcalls : σ.calls = ⟨w, none⟩ :: rest)
    (hdecl : w.node.nested? = some decl) (hmoves : mustMove decl σ.current.scope = true) :
    Visits starts (movedDecl decl w.context) := by
  have hqueue := hreached.tail (.enqueue hcalls hok hdecl hmoves)
  obtain ⟨τ, hruns, hidle, hwriting, hqueued, hfailed⟩ := exists_idle starts
    { σ with queued := σ.queued ++ [⟨movedDecl decl w.context, σ.current.scope⟩] }
  have hm : ⟨movedDecl decl w.context, σ.current.scope⟩ ∈ τ.queued := by
    rw [hqueued]
    exact List.mem_append_right _ List.mem_cons_self
  have hopened := (hqueue.trans hruns).tail (.openModule hidle hwriting (hfailed.trans hok) hm)
  exact ⟨_, [], hopened.tail (.callModule hidle rfl (hfailed.trans hok)), hfailed.trans hok, rfl⟩

theorem Visits.child (hstarts : ∀ w ∈ starts, w.context.toStacks = {}) {w v : Written}
    (h : Visits starts w) (hchild : v ∈ w.node.children w.context) : Visits starts v := by
  obtain ⟨σ, rest, hreached, hok, hcalls⟩ := h
  have hscope : σ.current.scope = w.context.scope := by
    rw [((sound_new.runs hstarts hreached).current_of_call hcalls).2.1]
    rfl
  by_cases hmoved : ∃ decl, w.node.nested? = some decl ∧ mustMove decl w.context.scope = true
  · obtain ⟨decl, hdecl, hmoves⟩ := hmoved
    have hv : v = movedDecl decl w.context := by
      obtain ⟨node, context⟩ := w
      cases node with
      | nestedType nested =>
        cases hdecl
        rw [List.mem_singleton.mp hchild, if_pos hmoves]
        rfl
      | _ => cases hdecl
    rw [hv]
    exact visits_movedDecl hreached hok hcalls hdecl (hscope ▸ hmoves)
  · have hstays : ∀ decl, w.node.nested? = some decl → mustMove decl w.context.scope = false := by
      intro decl hdecl
      rw [← Bool.not_eq_true]
      exact fun hmoves => hmoved ⟨decl, hdecl, hmoves⟩
    obtain ⟨place, hplace⟩ := List.mem_iff_getElem?.mp hchild
    cases ho : w.node.opening w.context place with
    | none =>
      exact ⟨_, _, hreached.tail (.call hcalls hok hplace ho (hscope ▸ hstays)), hok, rfl⟩
    | some o =>
      have hentered := hreached.tail (.enter hcalls hok ho)
      refine ⟨_, _, hentered.tail (.call rfl hok hplace ho ?_), hok, rfl⟩
      intro decl hdecl
      rw [Node.opening_of_nested? hdecl] at ho
      cases ho

theorem Visits.within (hstarts : ∀ w ∈ starts, w.context.toStacks = {}) {w x : Written}
    (hx : Within w x) (h : Visits starts w) : Visits starts x := by
  induction hx with
  | refl => exact h
  | step hchild _ ih => exact ih (h.child hstarts hchild)

/-- An anonymous class that is about to be written in a closure is printed with a parameter that is
none of the open ones, and its body is opened under that name. -/
theorem Reached.printed_parameter {u : CompilationUnit} {classPath : ClassIndex}
    (hreached : Reached (u.starts classPath) σ) {receiver : Node (.optional .expr)}
    {type : ClassType} {typeArguments : Node (.many .typeUse)} {arguments : Node (.many .expr)}
    {body : Node (.many .member)} {cx : Context} {rest : List Call}
    (hcalls : σ.calls = ⟨⟨.objectCreation receiver type typeArguments arguments (.present body), cx⟩,
      none⟩ :: rest)
    (hstatic : cx.createsStatic receiver = false) :
    ∃ (name : String) (marker content : Doc),
      Node.script (.objectCreation receiver type typeArguments arguments (.present body)) cx =
        marker ++ Doc.text ("((" ++ name ++ ") => ") ++ content ++ Doc.text ")(this)" ∧
      name ∉ σ.current.frames.reverse.filterMap Frame.outerThis ∧
      ∀ place o, Node.opening (.objectCreation receiver type typeArguments arguments (.present body))
          cx place = some o →
        (σ.current.push o).frames.head?.bind Frame.outerThis = some name := by
  have hsound := sound_new.runs (u.toStacks_of_mem_starts classPath) hreached
  have hcurrent : σ.current = cx.toStacks := (hsound.current_of_call hcalls).2.1
  have hname : cx.captureName = captureNameAt σ.current.captures := by
    rw [hcurrent]
    rfl
  obtain ⟨marker, content, hscript⟩ :=
    Node.exists_script_anonymous type typeArguments arguments body hstatic
  refine ⟨cx.captureName, marker, content, hscript, ?_, ?_⟩
  · rw [hname]
    exact hsound.ordered.captureNameAt_notMem
  · intro place o ho
    simp only [Node.opening, Option.ite_none_right_eq_some, Option.some.injEq] at ho
    obtain ⟨-, rfl⟩ := ho
    rw [hstatic, hname]
    rfl

end Emission

/-- In every state that is met while a unit is written, the closure parameters of the open anonymous
classes are numbered from the outside, so none of them hides another; the depths of the open bodies
do not decrease inwards and do not exceed the scope. The node at hand is one of the unit, and the
stacks are those of the context in which its script is made. When the same calls are active again,
the stacks are what they were, also after a failure; every call can be left, and at last the stacks
are empty. Each node of the unit is met. -/
theorem closure_parameters_never_shadow (u : CompilationUnit) (classPath : ClassIndex) :
    (∀ σ, Emission.Reached (u.starts classPath) σ →
      σ.current.frames.reverse.filterMap Frame.outerThis =
          (List.range σ.current.captures).map captureNameAt ∧
        (σ.current.frames.reverse.filterMap Frame.outerThis).Nodup ∧
        σ.current.frames.reverse.Pairwise (fun f g => f.depth ≤ g.depth) ∧
        (∀ f ∈ σ.current.frames, f.depth ≤ σ.current.scope.length) ∧
        (∀ c rest, σ.calls = c :: rest → (∃ s ∈ u.starts classPath, Within s c.written) ∧
          σ.current = c.written.context.toStacks.around c.opening) ∧
        (∀ τ, Emission.Runs (u.starts classPath) σ τ → τ.calls = σ.calls →
          τ.writing = σ.writing → τ.current = σ.current) ∧
        ∃ τ, Emission.Runs (u.starts classPath) σ τ ∧ τ.calls = [] ∧ τ.writing = none ∧
          τ.failed = σ.failed ∧ τ.current = {}) ∧
    ∀ s ∈ u.starts classPath, ∀ x, Within s x →
      ∃ σ rest, Emission.Reached (u.starts classPath) σ ∧ σ.calls = ⟨x, none⟩ :: rest := by
  have hstarts := u.toStacks_of_mem_starts classPath
  constructor
  · intro σ hreached
    have hsound := Emission.sound_new.runs hstarts hreached
    have hordered := hsound.ordered
    refine ⟨hordered.names, hordered.nodup, hordered.depths, hordered.bounded, ?_, ?_, ?_⟩
    · intro c rest hcalls
      obtain ⟨hwritten, hcurrent, -⟩ := hsound.current_of_call hcalls
      exact ⟨hwritten, hcurrent⟩
    · intro τ hruns
      exact hsound.current_eq (hsound.runs hstarts hruns)
    · obtain ⟨τ, hruns, hcalls, hwriting, -, hfailed⟩ :=
        Emission.exists_idle (u.starts classPath) σ
      have hcurrent := (hsound.runs hstarts hruns).current_of_idle hcalls
      exact ⟨τ, hruns, hcalls, hwriting, hfailed, hcurrent.trans (Emission.base_of_none hwriting)⟩
  · intro s hs x hx
    obtain ⟨σ, rest, hreached, -, hcalls⟩ := Emission.Visits.within hstarts hx
      (Emission.visits_start hs)
    exact ⟨σ, rest, hreached, hcalls⟩

def Written.descend (w : Written) : List Nat → Option Written
  | [] => some w
  | place :: places => (w.node.children w.context)[place]?.bind fun v => v.descend places

theorem Within.of_descend {w x : Written} (places : List Nat)
    (h : w.descend places = some x) : Within w x := by
  induction places generalizing w with
  | nil =>
    cases h
    exact .refl _
  | cons place places ih =>
    obtain ⟨v, hplace, hrest⟩ := Option.bind_eq_some_iff.mp h
    exact .step (List.mem_of_getElem? hplace) (ih hrest)

open Samples in
/-- An anonymous class in a static field, one inside it, and in that a named class with a third. -/
def nestedClosures : TypeDecl :=
  let runnable (modifiers : List Modifier) (name : String) (body : List Member) : Member :=
    Member.ofField modifiers (.ofDotted "Runnable") name
      (some (.anonymous (.simple "Runnable") [] body))
  let inner : Member :=
    .nestedType (withMembers (.ofClass "Inner") [runnable [] "third" [counter "v"]])
  withMembers (.ofClass "Outer") [runnable [.static] "first" [runnable [] "second" [inner]]]

/-- The body in the static field takes no name, and the named class lies between the two that do. -/
theorem nestedClosures_numbered :
    ∃ σ, Emission.Reached (CompilationUnit.starts { types := [nestedClosures] } {}) σ ∧
      σ.current.frames.reverse.map Frame.depth = [1, 1, 2] ∧
      σ.current.frames.reverse.map Frame.outerThis = [none, some "__this", some "__this1"] := by
  obtain ⟨hstates, hmet⟩ := closure_parameters_never_shadow { types := [nestedClosures] } {}
  obtain ⟨σ, rest, hreached, hcalls⟩ := hmet _ List.mem_cons_self _ (Within.of_descend
    [4, 0, 2, 0, 1, 0, 3, 0, 0, 2, 0, 1, 0, 3, 0, 0, 0, 4, 0, 2, 0, 1, 0, 3] rfl)
  obtain ⟨-, -, -, -, hnode, -⟩ := hstates σ hreached
  obtain ⟨-, hcurrent⟩ := hnode _ rest hcalls
  refine ⟨σ, hreached, ?_, ?_⟩
  · rw [hcurrent]
    rfl
  · rw [hcurrent]
    rfl

end TypeScribe
