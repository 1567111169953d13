import Mathlib.Data.List.Chain
import Mathlib.Data.List.Forall2
import TypeScribe.Proofs.Moves.Entries

/-!
# Draining the queue

The roots of a unit share one queue. What a root moves is queued, and waves are taken until one is
empty; writing a wave queues what it moves in turn. Each wave stands inside the one before it, so a
root has at most as many waves as declarations are nested in one another inside it, and it leaves
nothing behind for the next one.
-/
namespace TypeScribe
set_option autoImplicit false

abbrev Wave := List (Route × Module)

/-- A wave is taken, and what it moves is queued. -/
def ModuleQueue.nextWave (q : ModuleQueue Module) : ModuleQueue Module :=
  q.takeWave.2.enqueueMany (q.takeWave.1.flatMap fun e => moves e.2.body)

/-- Waves are taken until one is empty. -/
inductive Drains : ModuleQueue Module → List Wave → ModuleQueue Module → Prop where
  | done {q : ModuleQueue Module} (hempty : q.pending = []) : Drains q [] q.takeWave.2
  | wave {q last : ModuleQueue Module} {waves : List Wave} (hwave : q.pending ≠ [])
      (hrest : Drains q.nextWave waves last) : Drains q (q.pending :: waves) last

/-- Documents are written in order, each followed by what is drained after it. -/
inductive WritesRoots :
    ModuleQueue Module → List Doc → List (List Wave) → ModuleQueue Module → Prop where
  | nil {q : ModuleQueue Module} : WritesRoots q [] [] q
  | cons {q drained last : ModuleQueue Module} {d : Doc} {docs : List Doc} {waves : List Wave}
      {runs : List (List Wave)} (hdrains : Drains (q.enqueueMany (moves d)) waves drained)
      (hrest : WritesRoots drained docs runs last) : WritesRoots q (d :: docs) (waves :: runs) last

theorem ModuleQueue.mem_pending_nextWave {q : ModuleQueue Module} {e : Route × Module}
    (h : e ∈ q.nextWave.pending) : ∃ f ∈ q.pending, e ∈ moves f.2.body := by
  rcases mem_pending_enqueueMany h with h | h
  · cases h
  · exact List.mem_flatMap.mp h

theorem ModuleQueue.standsIn_nextWave {q : ModuleQueue Module} {w : Written}
    (h : ∀ e ∈ q.pending, StandsIn w e) : ∀ e ∈ q.nextWave.pending, StandsIn w e := by
  intro e he
  obtain ⟨f, hf, he⟩ := mem_pending_nextWave he
  exact (h f hf).moves e he

/-- Draining ends after at most `k` waves, if a rank of the entries is below `k` and decreases from
an entry to what it moves. -/
theorem exists_drains {R : Nat → Route × Module → Prop} (hzero : ∀ e, ¬R 0 e)
    (hstep : ∀ k e, R (k + 1) e → ∀ e' ∈ moves e.2.body, R k e') (k : Nat)
    (q : ModuleQueue Module) (hq : ∀ e ∈ q.pending, R k e) :
    ∃ waves last, Drains q waves last ∧ waves.length ≤ k := by
  induction k generalizing q with
  | zero =>
    have hempty : q.pending = [] := List.eq_nil_iff_forall_not_mem.mpr fun e he => hzero e (hq e he)
    exact ⟨[], _, .done hempty, Nat.le_refl 0⟩
  | succ k ih =>
    by_cases hempty : q.pending = []
    · exact ⟨[], _, .done hempty, Nat.zero_le _⟩
    · have hnext : ∀ e ∈ q.nextWave.pending, R k e := by
        intro e he
        obtain ⟨f, hf, he⟩ := ModuleQueue.mem_pending_nextWave he
        exact hstep k f (hq f hf) e he
      obtain ⟨waves, last, hdrains, hlength⟩ := ih q.nextWave hnext
      exact ⟨_, last, .wave hempty hdrains, Nat.succ_le_succ hlength⟩

/-- The entry is that of a declaration in the node with less than `k` declarations nested in one
another inside it. -/
def NestsBelow (w : Written) (k : Nat) (e : Route × Module) : Prop :=
  ∃ decl cx, MovesOut w decl cx ∧ e = movedEntry decl cx ∧ decl.nesting < k

theorem StandsIn.nestsBelow {w : Written} {e : Route × Module} (h : StandsIn w e) :
    NestsBelow w w.node.nesting e := by
  obtain ⟨decl, cx, hmoved, rfl⟩ := h
  exact ⟨decl, cx, hmoved, rfl, hmoved.nesting_lt⟩

theorem NestsBelow.moves {w : Written} {k : Nat} {e : Route × Module} (h : NestsBelow w (k + 1) e) :
    ∀ e' ∈ moves e.2.body, NestsBelow w k e' := by
  obtain ⟨decl, cx, hmoved, rfl, hnesting⟩ := h
  intro e' he'
  obtain ⟨decl', cx', hmoved', rfl⟩ := moves_movedEntry decl cx e' he'
  have hlt : decl'.nesting < decl.nesting := hmoved'.nesting_lt
  exact ⟨decl', cx', hmoved'.trans hmoved.movedDecl_within, rfl, by omega⟩

/-- The second wave consists of declarations that stand inside declarations of the first. -/
def Feeds (w : Written) (wave next : Wave) : Prop :=
  ∀ e ∈ next, ∃ decl cx, MovesOut w decl cx ∧ movedEntry decl cx ∈ wave ∧
    StandsIn (movedDecl decl cx) e

theorem drain_of_pending_nil {q : ModuleQueue Module} (h : q.pending = []) (n : Nat) :
    drain n q = [] := by
  induction n generalizing q with
  | zero => rfl
  | succ n ih =>
    have hwave : q.takeWave.1.map Prod.snd = [] := by
      change q.pending.map Prod.snd = []
      rw [h, List.map_nil]
    rw [drain, hwave]
    exact ih rfl

namespace Drains

variable {q last : ModuleQueue Module} {waves : List Wave} (h : Drains q waves last)

include h

theorem pending_eq_nil : last.pending = [] := by
  induction h with
  | done => rfl
  | wave _ _ ih => exact ih

theorem ne_nil_of_mem : ∀ wave ∈ waves, wave ≠ [] := by
  induction h with
  | done => exact List.forall_mem_nil _
  | wave hwave _ ih => exact List.forall_mem_cons.mpr ⟨hwave, ih⟩

theorem eq_pending_of_mem_head? : ∀ wave ∈ waves.head?, wave = q.pending := by
  intro wave hwave
  cases h with
  | done => cases hwave
  | wave => exact (Option.some.inj hwave).symm

theorem unique {waves' : List Wave} {last' : ModuleQueue Module} (h' : Drains q waves' last') :
    waves = waves' ∧ last = last' := by
  induction h generalizing waves' last' with
  | done hempty =>
    cases h' with
    | done => exact ⟨rfl, rfl⟩
    | wave hwave => exact absurd hempty hwave
  | wave hwave _ ih =>
    cases h' with
    | done hempty => exact absurd hempty hwave
    | wave _ hrest =>
      obtain ⟨rfl, rfl⟩ := ih hrest
      exact ⟨rfl, rfl⟩

theorem drain_eq {n : Nat} (hn : waves.length ≤ n) :
    drain n q = waves.flatten.map Prod.snd := by
  induction h generalizing n with
  | done hempty => exact drain_of_pending_nil hempty n
  | @wave q last waves _ _ ih =>
    obtain ⟨n, rfl⟩ := Nat.exists_eq_succ_of_ne_zero (Nat.ne_of_gt (Nat.lt_of_lt_of_le
      (Nat.succ_pos _) hn))
    have hrest := ih (Nat.le_of_succ_le_succ hn)
    rw [drain, List.flatMap_map, List.flatten_cons, List.map_append]
    exact congrArg (q.pending.map Prod.snd ++ ·) hrest

theorem standsIn {w : Written} (hw : ∀ e ∈ q.pending, StandsIn w e) :
    ∀ wave ∈ waves, ∀ e ∈ wave, StandsIn w e := by
  induction h with
  | done => exact List.forall_mem_nil _
  | wave _ _ ih => exact List.forall_mem_cons.mpr ⟨hw, ih (ModuleQueue.standsIn_nextWave hw)⟩

theorem isChain {w : Written} (hw : ∀ e ∈ q.pending, StandsIn w e) : waves.IsChain (Feeds w) := by
  induction h with
  | done => exact .nil
  | @wave q last waves _ hrest ih =>
    refine (ih (ModuleQueue.standsIn_nextWave hw)).cons ?_
    intro next hhead e he
    rw [hrest.eq_pending_of_mem_head? next hhead] at he
    obtain ⟨f, hf, he⟩ := ModuleQueue.mem_pending_nextWave he
    obtain ⟨decl, cx, hmoved, rfl⟩ := hw f hf
    exact ⟨decl, cx, hmoved, hf, moves_movedEntry decl cx e he⟩

end Drains

/-- Draining what a document moves takes no more waves than the document is deep. -/
theorem exists_drains_of_moves (q : ModuleQueue Module) (hq : q.pending = []) (d : Doc) :
    ∃ waves last, Drains (q.enqueueMany (moves d)) waves last ∧ waves.length ≤ depthOf d := by
  refine exists_drains (R := fun k e => depthOf e.2.body < k) ?_ ?_ _ _ ?_
  · intro e
    exact Nat.not_lt_zero _
  · intro k e hk e' he'
    have hdepth : depthOf e'.2.body + 1 ≤ depthOf e.2.body := depth_le_depthOf (mem_moves.mp he')
    omega
  · intro e he
    rcases ModuleQueue.mem_pending_enqueueMany he with he | he
    · rw [hq] at he
      cases he
    · exact depth_le_depthOf (mem_moves.mp he)

/-- The queues have the same pending entries, and have met the same routes among some. -/
structure Alike (A : Route → Prop) (q q' : ModuleQueue Module) : Prop where
  pending : q.pending = q'.pending
  seen : ∀ route, A route → (route ∈ q.seen ↔ route ∈ q'.seen)

namespace Alike

variable {A : Route → Prop} {q q' : ModuleQueue Module}

theorem enqueue (h : Alike A q q') {route : Route} (hroute : A route) (m : Module) :
    Alike A (q.enqueue route m) (q'.enqueue route m) := by
  have haccepts : q.accepts route = q'.accepts route := by
    rw [ModuleQueue.accepts, ModuleQueue.accepts, List.contains_eq_mem, List.contains_eq_mem,
      decide_eq_decide.mpr (h.seen route hroute)]
  unfold ModuleQueue.enqueue
  rw [haccepts]
  split
  · constructor
    · exact congrArg (· ++ [(route, m)]) h.pending
    · intro other hother
      rw [List.mem_cons, List.mem_cons, h.seen other hother]
  · exact h

theorem enqueueMany (h : Alike A q q') {entries : List (Route × Module)}
    (hentries : ∀ e ∈ entries, A e.1) :
    Alike A (q.enqueueMany entries) (q'.enqueueMany entries) := by
  induction entries generalizing q q' with
  | nil => exact h
  | cons e rest ih =>
    obtain ⟨he, hrest⟩ := List.forall_mem_cons.mp hentries
    exact ih (h.enqueue he e.2) hrest

theorem nextWave (h : Alike A q q') (hmoves : ∀ e ∈ q.pending, ∀ e' ∈ moves e.2.body, A e'.1) :
    Alike A q.nextWave q'.nextWave := by
  have hpending : q'.takeWave.1 = q.takeWave.1 := h.pending.symm
  have htaken : Alike A q.takeWave.2 q'.takeWave.2 := ⟨rfl, h.seen⟩
  unfold ModuleQueue.nextWave
  rw [hpending]
  refine htaken.enqueueMany ?_
  intro e he
  obtain ⟨f, hf, he⟩ := List.mem_flatMap.mp he
  exact hmoves f hf e he

theorem drains {w : Written} (h : Alike (w.context.route <:+ ·) q q')
    (hw : ∀ e ∈ q.pending, StandsIn w e) {waves : List Wave} {last : ModuleQueue Module}
    (hdrains : Drains q waves last) : ∃ last', Drains q' waves last' := by
  induction hdrains generalizing q' with
  | done hempty => exact ⟨_, .done (h.pending ▸ hempty)⟩
  | @wave q last waves hwave _ ih =>
    have hnext := h.nextWave fun e he e' he' => ((hw e he).moves e' he').route_suffix
    obtain ⟨last', hrest⟩ := ih hnext (ModuleQueue.standsIn_nextWave hw)
    rw [h.pending] at hwave ⊢
    exact ⟨last', .wave hwave hrest⟩

end Alike

namespace ModuleQueue

variable {α : Type} {q : ModuleQueue α} {route : Route}

theorem mem_seen_enqueue {other : Route} {a : α} (h : route ∈ (q.enqueue other a).seen) :
    route = other ∨ route ∈ q.seen := by
  unfold enqueue at h
  split at h
  · exact List.mem_cons.mp h
  · exact .inr h

theorem mem_seen_enqueueMany {entries : List (Route × α)}
    (h : route ∈ (q.enqueueMany entries).seen) :
    route ∈ q.seen ∨ ∃ e ∈ entries, e.1 = route := by
  induction entries generalizing q with
  | nil => exact .inl h
  | cons e rest ih =>
    rcases ih h with h | ⟨f, hf, hroute⟩
    · rcases mem_seen_enqueue h with hroute | h
      · exact .inr ⟨e, List.mem_cons_self, hroute.symm⟩
      · exact .inl h
    · exact .inr ⟨f, List.mem_cons_of_mem _ hf, hroute⟩

end ModuleQueue

theorem Drains.seen {q last : ModuleQueue Module} {waves : List Wave} (h : Drains q waves last)
    {w : Written} (hw : ∀ e ∈ q.pending, StandsIn w e) :
    ∀ route ∈ last.seen, route ∈ q.seen ∨ w.context.route <:+ route := by
  induction h with
  | done => exact fun route => .inl
  | @wave q last waves _ _ ih =>
    intro route hroute
    rcases ih (ModuleQueue.standsIn_nextWave hw) route hroute with hroute | hroute
    · rcases ModuleQueue.mem_seen_enqueueMany hroute with hroute | ⟨e, he, rfl⟩
      · exact .inl hroute
      · obtain ⟨f, hf, he⟩ := List.mem_flatMap.mp he
        exact .inr ((hw f hf).moves e he).route_suffix
    · exact .inr hroute

/-- The root as a node in its context. -/
def Site.toWritten (s : Site) : Written := ⟨s.decl, s.context⟩

/-- The waves in which the modules behind a root are written. -/
structure Site.Drained (s : Site) (waves : List Wave) : Prop where
  ne_nil : ∀ wave ∈ waves, wave ≠ []
  length_le : waves.length ≤ s.decl.nesting
  standsIn : ∀ wave ∈ waves, ∀ e ∈ wave, StandsIn s.toWritten e
  chain : waves.IsChain (Feeds s.toWritten)
  modules : modules s.root = waves.flatten.map Prod.snd

theorem Site.standsIn_enqueued (s : Site) {q : ModuleQueue Module} (hpending : q.pending = []) :
    ∀ e ∈ (q.enqueueMany (moves s.root)).pending, StandsIn s.toWritten e := by
  intro e he
  rcases ModuleQueue.mem_pending_enqueueMany he with he | he
  · rw [hpending] at he
    cases he
  · exact s.moves_root_standsIn e he

/-- A root is drained alike whatever the queue has met elsewhere. -/
theorem Site.exists_drained (s : Site) {q : ModuleQueue Module} (hpending : q.pending = [])
    (hseen : ∀ route ∈ q.seen, ¬s.route <:+ route) :
    ∃ waves last, Drains (q.enqueueMany (moves s.root)) waves last ∧ s.Drained waves := by
  have hentries := s.standsIn_enqueued hpending
  obtain ⟨waves, last, hdrains, hlength⟩ :=
    exists_drains (fun e ⟨_, _, _, _, hlt⟩ => Nat.not_lt_zero _ hlt) (fun _ _ => NestsBelow.moves)
      _ _ fun e he => (hentries e he).nestsBelow
  refine ⟨waves, last, hdrains, hdrains.ne_nil_of_mem, hlength, hdrains.standsIn hentries,
    hdrains.isChain hentries, ?_⟩
  have hnew : Alike (s.route <:+ ·) q {} := by
    refine ⟨hpending, ?_⟩
    intro route hroute
    exact ⟨fun h => absurd hroute (hseen route h), fun h => nomatch h⟩
  have halike := hnew.enqueueMany fun e he => (s.moves_root_standsIn e he).route_suffix
  obtain ⟨_, hfresh⟩ := halike.drains (w := s.toWritten) hentries hdrains
  obtain ⟨waves', last', hdrains', hdepth⟩ := exists_drains_of_moves {} rfl s.root
  obtain ⟨rfl, -⟩ := hfresh.unique hdrains'
  exact hdrains'.drain_eq hdepth

/-- No route leads into both sites. -/
def Site.Apart (s s' : Site) : Prop := ∀ route, s.route <:+ route → ¬s'.route <:+ route

theorem CompilationUnit.roots_apart (u : CompilationUnit) (classPath : ClassIndex) :
    (u.roots classPath).Pairwise Site.Apart := by
  have hplaces : (u.types.zipIdx.map Prod.snd).Nodup := by
    rw [List.zipIdx_map_snd]
    exact List.nodup_range'
  refine List.pairwise_map.mpr ((List.pairwise_map.mp hplaces).imp ?_)
  intro a b hne route ha hb
  exact not_suffix_of_ne hne ha hb

theorem exists_writesRoots {sites : List Site} (hapart : sites.Pairwise Site.Apart)
    {q : ModuleQueue Module} (hpending : q.pending = [])
    (hseen : ∀ s ∈ sites, ∀ route ∈ q.seen, ¬s.route <:+ route) :
    ∃ runs last, WritesRoots q (sites.map Site.root) runs last ∧
      List.Forall₂ Site.Drained sites runs := by
  induction sites generalizing q with
  | nil => exact ⟨[], q, .nil, .nil⟩
  | cons s rest ih =>
    obtain ⟨hs, hrest⟩ := List.pairwise_cons.mp hapart
    obtain ⟨hseenHere, hseenRest⟩ := List.forall_mem_cons.mp hseen
    obtain ⟨waves, drained, hdrains, hdrained⟩ := s.exists_drained hpending hseenHere
    have hseenAfter : ∀ s' ∈ rest, ∀ route ∈ drained.seen, ¬s'.route <:+ route := by
      intro s' hs' route hroute
      rcases hdrains.seen (s.standsIn_enqueued hpending) route hroute with hroute | hroute
      · rcases ModuleQueue.mem_seen_enqueueMany hroute with hroute | ⟨e, he, rfl⟩
        · exact hseenRest s' hs' route hroute
        · exact hs s' hs' _ (s.moves_root_standsIn e he).route_suffix
      · exact hs s' hs' route hroute
    obtain ⟨runs, last, hwrites, hruns⟩ := ih hrest hdrains.pending_eq_nil hseenAfter
    exact ⟨waves :: runs, last, .cons hdrains hwrites, .cons hdrained hruns⟩

namespace WritesRoots

variable {q last : ModuleQueue Module} {docs : List Doc} {runs : List (List Wave)}

theorem unique (h : WritesRoots q docs runs last) {runs' : List (List Wave)}
    {last' : ModuleQueue Module} (h' : WritesRoots q docs runs' last') :
    runs = runs' ∧ last = last' := by
  induction h generalizing runs' last' with
  | nil =>
    cases h'
    exact ⟨rfl, rfl⟩
  | cons hdrains _ ih =>
    cases h' with
    | cons hdrains' hrest' =>
      obtain ⟨rfl, rfl⟩ := hdrains.unique hdrains'
      obtain ⟨rfl, rfl⟩ := ih hrest'
      exact ⟨rfl, rfl⟩

theorem take (h : WritesRoots q docs runs last) (hq : q.pending = []) (n : Nat) :
    ∃ between, WritesRoots q (docs.take n) (runs.take n) between ∧ between.pending = [] := by
  induction h generalizing n with
  | nil =>
    rw [List.take_nil, List.take_nil]
    exact ⟨_, .nil, hq⟩
  | cons hdrains _ ih =>
    cases n with
    | zero => exact ⟨_, .nil, hq⟩
    | succ n =>
      obtain ⟨between, hwrites, hempty⟩ := ih hdrains.pending_eq_nil n
      exact ⟨between, .cons hdrains hwrites, hempty⟩

end WritesRoots

/-- The roots of a unit are written on one queue, in one way only. Behind each there are at most as
many waves as declarations are nested in one another inside it. None is empty, all consist of
declarations in the root, and each but the first of declarations inside those of the wave before it.
The queue is empty whenever a root has been written. -/
theorem CompilationUnit.waves_within_nesting (u : CompilationUnit) (classPath : ClassIndex) :
    ∃ runs last, WritesRoots {} ((u.roots classPath).map Site.root) runs last ∧
      (∀ runs' last', WritesRoots {} ((u.roots classPath).map Site.root) runs' last' →
        runs' = runs ∧ last' = last) ∧
      List.Forall₂ Site.Drained (u.roots classPath) runs ∧
      ∀ n, ∃ between, between.pending = [] ∧
        WritesRoots {} (((u.roots classPath).map Site.root).take n) (runs.take n) between := by
  obtain ⟨runs, last, hwrites, hruns⟩ :=
    exists_writesRoots (u.roots_apart classPath) (q := {}) rfl fun _ _ _ h => nomatch h
  refine ⟨runs, last, hwrites, fun _ _ h => h.unique hwrites, hruns, ?_⟩
  intro n
  obtain ⟨between, htaken, hempty⟩ := hwrites.take rfl n
  exact ⟨between, hempty, htaken⟩

end TypeScribe
