import TypeScribe.Proofs.Binding.Instances
import TypeScribe.Proofs.Layout.QueueHistory
import TypeScribe.Proofs.Moves.Draining

/-!
# Moved declarations are written once

A node may be visited several times: the base type of a field is written for each of its variables,
with whatever its annotations declare. The queue gives out the first visit of each declaration and
no other, over all the roots of a unit, and what it gives out is what stands behind the roots.
-/
namespace TypeScribe
set_option autoImplicit false

/-- What is queued while a wave is written, in order. -/
def Wave.visits (wave : Wave) : List (Route × Module) := wave.flatMap fun e => moves e.2.body

/-- What is queued while documents are written and drained, in order. A declaration that is visited
again is listed again. -/
def visits (docs : List Doc) (runs : List (List Wave)) : List (Route × Module) :=
  (docs.zip runs).flatMap fun (d, waves) => moves d ++ waves.flatMap Wave.visits

theorem visits_cons (d : Doc) (docs : List Doc) (waves : List Wave) (runs : List (List Wave)) :
    visits (d :: docs) (waves :: runs) =
      moves d ++ waves.flatMap Wave.visits ++ visits docs runs :=
  rfl

/-- A root and behind it what its waves hold, each entry in its own modules. -/
def rootBlock (d : Doc) (waves : List Wave) : Doc :=
  d ++ (if waves.flatten.isEmpty then [] else Doc.newline)
    ++ waves.flatten.flatMap fun e => inModules e.2.names e.2.body

theorem Drains.accounts {q last : ModuleQueue Module} {waves before : List Wave}
    {es : List (Route × Module)} (h : Drains q waves last)
    (hq : QueueRun.Accounts ⟨q, before⟩ es) :
    QueueRun.Accounts ⟨last, before ++ waves⟩ (es ++ waves.flatMap Wave.visits) := by
  induction h generalizing before es with
  | @done q hempty =>
    have hentries := hq.entries
    dsimp only at hentries
    rw [hempty] at hentries
    rw [List.flatMap_nil, List.append_nil, List.append_nil]
    exact ⟨hentries, hq.seen⟩
  | @wave q last waves _ _ ih =>
    have hnext : QueueRun.Accounts ⟨q.nextWave, before ++ [q.pending]⟩
        (es ++ Wave.visits q.pending) :=
      hq.takeWave.enqueueMany (Wave.visits q.pending)
    have hrest := ih hnext
    rwa [List.append_assoc, List.append_assoc] at hrest

namespace WritesRoots

variable {q last : ModuleQueue Module} {docs : List Doc} {runs : List (List Wave)}
  (h : WritesRoots q docs runs last)

include h

theorem accounts {before : List Wave} {es : List (Route × Module)}
    (hq : QueueRun.Accounts ⟨q, before⟩ es) :
    QueueRun.Accounts ⟨last, before ++ runs.flatten⟩ (es ++ visits docs runs) := by
  induction h generalizing before es with
  | nil =>
    rw [visits, List.zip_nil_left, List.flatMap_nil, List.flatten_nil, List.append_nil,
      List.append_nil]
    exact hq
  | @cons q drained last d docs waves runs hdrains _ ih =>
    have hrest := ih (hdrains.accounts (hq.enqueueMany (moves d)))
    rw [visits_cons, List.flatten_cons]
    simpa only [List.append_assoc] using hrest

theorem pending_eq_nil (hq : q.pending = []) : last.pending = [] := by
  induction h with
  | nil => exact hq
  | cons hdrains _ ih => exact ih hdrains.pending_eq_nil

end WritesRoots

theorem WritesRoots.entries {docs : List Doc} {runs : List (List Wave)}
    {last : ModuleQueue Module} (h : WritesRoots {} docs runs last) :
    runs.flatten.flatten = firsts (visits docs runs) := by
  have hentries := (h.accounts QueueRun.accounts_new).entries
  dsimp only at hentries
  rwa [h.pending_eq_nil rfl, List.append_nil] at hentries

theorem standsIn_of_mem_visits {sites : List Site} {runs : List (List Wave)}
    (h : List.Forall₂ Site.Drained sites runs) :
    ∀ e ∈ visits (sites.map Site.root) runs, ∃ s ∈ sites, StandsIn s.toWritten e := by
  induction h with
  | nil => exact List.forall_mem_nil _
  | @cons s waves sites runs hs _ ih =>
    intro e he
    rcases List.mem_append.mp he with he | he
    · refine ⟨s, List.mem_cons_self, ?_⟩
      rcases List.mem_append.mp he with he | he
      · exact s.moves_root_standsIn e he
      · obtain ⟨wave, hwave, he⟩ := List.mem_flatMap.mp he
        obtain ⟨f, hf, he⟩ := List.mem_flatMap.mp he
        exact (hs.standsIn wave hwave f hf).moves e he
    · obtain ⟨s', hs', he⟩ := ih e he
      exact ⟨s', List.mem_cons_of_mem _ hs', he⟩

instance : Std.Symm Site.Apart where
  symm _ _ h := fun route hs hs' => h route hs' hs

/-- Over all roots of a unit, a moved declaration is known by its route. -/
theorem CompilationUnit.eq_of_route {u : CompilationUnit} {classPath : ClassIndex} {s s' : Site}
    (hs : s ∈ u.roots classPath) (hs' : s' ∈ u.roots classPath) {decl decl' : TypeDecl}
    {cx cx' : Context} (h : MovesOut s.toWritten decl cx) (h' : MovesOut s'.toWritten decl' cx')
    (hroute : (movedEntry decl cx).1 = (movedEntry decl' cx').1) :
    s = s' ∧ decl = decl' ∧ cx = cx' := by
  by_cases heq : s = s'
  · subst heq
    exact ⟨rfl, h.eq_of_route h' hroute⟩
  · have hsuffix := h'.route_suffix
    rw [← hroute] at hsuffix
    exact absurd hsuffix ((u.roots_apart classPath).forall hs hs' heq _ h.route_suffix)

theorem CompilationUnit.visit_eq_of_route {u : CompilationUnit} {classPath : ClassIndex}
    {e e' : Route × Module} (he : ∃ s ∈ u.roots classPath, StandsIn s.toWritten e)
    (he' : ∃ s ∈ u.roots classPath, StandsIn s.toWritten e') (hroute : e.1 = e'.1) : e = e' := by
  obtain ⟨s, hs, decl, cx, hmoved, rfl⟩ := he
  obtain ⟨s', hs', decl', cx', hmoved', rfl⟩ := he'
  obtain ⟨-, rfl, rfl⟩ := eq_of_route hs hs' hmoved hmoved' hroute
  rfl

theorem Site.Drained.withModules_eq {s : Site} {waves : List Wave} (h : s.Drained waves) :
    withModules s.root = rootBlock s.root waves := by
  rw [withModules, h.modules, rootBlock, List.isEmpty_map, List.flatMap_map]
  rfl

theorem blocks_eq_zipWith {sites : List Site} {runs : List (List Wave)}
    (h : List.Forall₂ Site.Drained sites runs) :
    (sites.map fun s => withModules s.root) = (sites.map Site.root).zipWith rootBlock runs := by
  induction h with
  | nil => rfl
  | cons hs _ ih => rw [List.map_cons, List.map_cons, List.zipWith_cons_cons, hs.withModules_eq, ih]

/-- Calls on a queue in any order lose and repeat nothing: what was given out and what is pending
are the first requests of their routes, in order, and exactly a first request is accepted. The roots
of a unit are written with one queue, which is empty at the end. A route belongs to one declaration
of the unit only, and however often a declaration is visited, exactly one of the modules that are
written is its own. -/
theorem queued_declarations_written_once :
    (∀ (α : Type) (calls : List (QueueCall α)),
      (({} : QueueRun α).after calls).waves.flatten
            ++ (({} : QueueRun α).after calls).queue.pending =
          firsts (requests calls) ∧
        ∀ route, (({} : QueueRun α).after calls).queue.accepts route = true ↔
          route ∉ (requests calls).map Prod.fst) ∧
    ∀ (u : CompilationUnit) (classPath : ClassIndex),
      (∀ s ∈ u.roots classPath, ∀ s' ∈ u.roots classPath, ∀ decl cx decl' cx',
        MovesOut s.toWritten decl cx → MovesOut s'.toWritten decl' cx' →
        (movedEntry decl cx).1 = (movedEntry decl' cx').1 → s = s' ∧ decl = decl' ∧ cx = cx') ∧
      ∃ runs last, WritesRoots {} ((u.roots classPath).map Site.root) runs last ∧
        last.pending = [] ∧
        (∀ wrap, u.script wrap classPath = u.header wrap { resolver := .ofUnit u classPath }
          ++ List.intercalate Doc.newline ((((u.roots classPath).map Site.root).zipWith rootBlock
            runs).map fun d => d ++ Doc.newline)
          ++ u.footer wrap) ∧
        ∀ e ∈ visits ((u.roots classPath).map Site.root) runs,
          (∃ s ∈ u.roots classPath, StandsIn s.toWritten e) ∧
            (runs.flatten.flatten.filter fun f => f.1 = e.1) = [e] := by
  constructor
  · intro α calls
    have haccounts := QueueRun.accounts_after calls
    exact ⟨haccounts.entries, haccounts.accepts_iff⟩
  · intro u classPath
    refine ⟨fun s hs s' hs' decl cx decl' cx' => CompilationUnit.eq_of_route hs hs', ?_⟩
    obtain ⟨runs, last, hwrites, hruns⟩ :=
      exists_writesRoots (u.roots_apart classPath) (q := {}) rfl fun _ _ _ h => nomatch h
    refine ⟨runs, last, hwrites, hwrites.pending_eq_nil rfl, ?_, ?_⟩
    · intro wrap
      rw [← blocks_eq_zipWith hruns, ← u.blocks_eq_roots classPath,
        ← CompilationUnit.stacked_eq_intercalate]
      rfl
    · intro e he
      have hstands := standsIn_of_mem_visits hruns
      refine ⟨hstands e he, ?_⟩
      -- The visit that is kept has the route of `e`, so it is `e`.
      obtain ⟨f, hf, hroute⟩ := List.mem_map.mp (mem_routes_firsts.mpr (List.mem_map_of_mem he))
      have heq := CompilationUnit.visit_eq_of_route (hstands f (mem_of_mem_firsts hf))
        (hstands e he) hroute
      rw [hwrites.entries]
      exact filter_route_of_nodup (routes_firsts_nodup _) (heq ▸ hf)

open Samples in
/-- Two variables share a base type, and an annotation of the base type declares an interface. -/
def sharedBase : TypeDecl :=
  let maker : Expr := .anonymous (.simple "Maker") [] [.nestedType (TypeDecl.ofInterface "Inner")]
  withMembers (.ofClass "Shared") [
    .field .empty none .nil (.primitive .int (.ofList [AnnotationUse.single "Note" maker]))
      (.ofList [Declarator.named "a", Declarator.named "b"])]

/-- The interface is visited for both variables, and it is written once. -/
theorem sharedBase_written_once :
    ∃ root ∈ CompilationUnit.roots { types := [sharedBase] } {}, ∃ e ∈ moves root.root,
      (moves root.root).map Prod.fst = [e.1, e.1] ∧
      ∃ runs last, WritesRoots {} [root.root] runs last ∧
        (runs.flatten.flatten.filter fun f => f.1 = e.1) = [e] := by
  obtain ⟨-, hunits⟩ := queued_declarations_written_once
  obtain ⟨-, runs, last, hwrites, -, -, honce⟩ := hunits { types := [sharedBase] } {}
  refine ⟨_, List.mem_cons_self, _, List.mem_cons_self, rfl, runs, last, hwrites, ?_⟩
  refine (honce _ ?_).2
  change WritesRoots {} [_] runs last at hwrites
  cases hwrites with
  | cons => exact List.mem_append_left _ (List.mem_append_left _ List.mem_cons_self)

end TypeScribe
