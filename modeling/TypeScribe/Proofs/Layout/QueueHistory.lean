import Mathlib.Data.List.Basic
import TypeScribe.Layout.ModuleQueue

/-!
# The history of a queue

Calls on a queue may come in any order. What has been given out in waves and what is still pending
are together the first entry of each route that was queued, in order: nothing is lost and nothing is
given out twice.
-/
namespace TypeScribe
set_option autoImplicit false

variable {α : Type}

inductive QueueCall (α : Type) where
  | enqueue (route : Route) (a : α)
  | takeWave

def QueueCall.entry? : QueueCall α → Option (Route × α)
  | .enqueue route a => some (route, a)
  | .takeWave => none

/-- What calls ask to queue, in order. -/
def requests (calls : List (QueueCall α)) : List (Route × α) := calls.filterMap QueueCall.entry?

/-- The first entry of each route. -/
def firsts : List (Route × α) → List (Route × α)
  | [] => []
  | e :: rest => e :: (firsts rest).filter fun f => f.1 ≠ e.1

/-- A queue with the waves that were taken from it. -/
structure QueueRun (α : Type) where
  queue : ModuleQueue α := {}
  waves : List (List (Route × α)) := []

namespace QueueRun

def call (r : QueueRun α) : QueueCall α → QueueRun α
  | .enqueue route a => { r with queue := r.queue.enqueue route a }
  | .takeWave => { queue := r.queue.takeWave.2, waves := r.waves ++ [r.queue.takeWave.1] }

def after (r : QueueRun α) (calls : List (QueueCall α)) : QueueRun α := calls.foldl call r

end QueueRun

theorem mem_of_mem_firsts {e : Route × α} {es : List (Route × α)} (h : e ∈ firsts es) : e ∈ es := by
  induction es with
  | nil => exact h
  | cons f rest ih =>
    rcases List.mem_cons.mp h with rfl | h
    · exact List.mem_cons_self
    · exact List.mem_cons_of_mem _ (ih (List.mem_of_mem_filter h))

theorem mem_routes_firsts {route : Route} {es : List (Route × α)} :
    route ∈ (firsts es).map Prod.fst ↔ route ∈ es.map Prod.fst := by
  constructor
  · rintro h
    obtain ⟨e, he, rfl⟩ := List.mem_map.mp h
    exact List.mem_map_of_mem (mem_of_mem_firsts he)
  · intro h
    induction es with
    | nil => exact h
    | cons e rest ih =>
      rw [firsts, List.map_cons, List.mem_cons]
      by_cases hroute : route = e.1
      · exact .inl hroute
      · have hrest : route ∈ rest.map Prod.fst := by simpa [hroute] using h
        obtain ⟨f, hf, rfl⟩ := List.mem_map.mp (ih hrest)
        exact .inr (List.mem_map_of_mem (List.mem_filter.mpr ⟨hf, by simpa using hroute⟩))

theorem routes_firsts_nodup (es : List (Route × α)) : ((firsts es).map Prod.fst).Nodup := by
  induction es with
  | nil => exact List.nodup_nil
  | cons e rest ih =>
    rw [firsts, List.map_cons, List.nodup_cons]
    constructor
    · intro h
      obtain ⟨f, hf, hroute⟩ := List.mem_map.mp h
      have hne : f.1 ≠ e.1 := by simpa using (List.mem_filter.mp hf).2
      exact hne hroute
    · exact ih.sublist (List.filter_sublist.map Prod.fst)

theorem filter_route_of_nodup {es : List (Route × α)} (hnodup : (es.map Prod.fst).Nodup)
    {e : Route × α} (he : e ∈ es) : (es.filter fun f => f.1 = e.1) = [e] := by
  induction es with
  | nil => cases he
  | cons f rest ih =>
    obtain ⟨hf, hrest⟩ := List.nodup_cons.mp hnodup
    rcases List.mem_cons.mp he with rfl | he
    · have hothers : (rest.filter fun f => f.1 = e.1) = [] := by
        rw [List.filter_eq_nil_iff]
        intro g hg hroute
        exact hf (of_decide_eq_true hroute ▸ List.mem_map_of_mem hg)
      rw [List.filter_cons_of_pos (by simp), hothers]
    · have hne : f.1 ≠ e.1 := fun hroute => hf (hroute ▸ List.mem_map_of_mem he)
      rw [List.filter_cons_of_neg (by simpa using hne)]
      exact ih hrest he

theorem firsts_concat (es : List (Route × α)) (e : Route × α) :
    firsts (es ++ [e]) = if e.1 ∈ es.map Prod.fst then firsts es else firsts es ++ [e] := by
  induction es with
  | nil => rfl
  | cons f rest ih =>
    rw [List.cons_append, firsts, ih, firsts]
    by_cases hrest : e.1 ∈ rest.map Prod.fst
    · have hmem : e.1 ∈ (f :: rest).map Prod.fst := List.mem_cons_of_mem _ hrest
      rw [if_pos hrest, if_pos hmem]
    · rw [if_neg hrest, List.filter_append]
      by_cases hroute : e.1 = f.1
      · simp [hroute]
      · have hmem : e.1 ∉ (f :: rest).map Prod.fst := by
          rw [List.map_cons, List.mem_cons]
          exact not_or.mpr ⟨hroute, hrest⟩
        rw [if_neg hmem]
        simp [hroute]

namespace QueueRun

/-- The run has met the entries: the first of each route was given out or is pending, and their
routes are known. -/
structure Accounts (r : QueueRun α) (es : List (Route × α)) : Prop where
  entries : r.waves.flatten ++ r.queue.pending = firsts es
  seen : ∀ route, route ∈ r.queue.seen ↔ route ∈ es.map Prod.fst

theorem accounts_new : ({} : QueueRun α).Accounts [] where
  entries := rfl
  seen _ := Iff.rfl

namespace Accounts

variable {r : QueueRun α} {es : List (Route × α)} (h : r.Accounts es)

include h

theorem accepts_iff (route : Route) :
    r.queue.accepts route = true ↔ route ∉ es.map Prod.fst := by
  rw [ModuleQueue.accepts, Bool.not_eq_true', List.contains_eq_mem, decide_eq_false_iff_not, h.seen]

theorem enqueue (route : Route) (a : α) :
    (r.call (.enqueue route a)).Accounts (es ++ [(route, a)]) := by
  by_cases haccepts : r.queue.accepts route = true
  · have hnew := (h.accepts_iff route).mp haccepts
    constructor
    · change r.waves.flatten ++ (r.queue.enqueue route a).pending = _
      rw [ModuleQueue.enqueue, if_pos haccepts, firsts_concat, if_neg hnew, ← h.entries,
        List.append_assoc]
    · intro other
      change other ∈ (r.queue.enqueue route a).seen ↔ _
      rw [ModuleQueue.enqueue, if_pos haccepts, List.map_append, List.mem_append, List.mem_cons,
        h.seen]
      simp [or_comm]
  · have hmet : route ∈ es.map Prod.fst :=
      not_not.mp fun hnew => haccepts ((h.accepts_iff route).mpr hnew)
    constructor
    · change r.waves.flatten ++ (r.queue.enqueue route a).pending = _
      rw [ModuleQueue.enqueue, if_neg haccepts, firsts_concat, if_pos hmet, h.entries]
    · intro other
      change other ∈ (r.queue.enqueue route a).seen ↔ _
      rw [ModuleQueue.enqueue, if_neg haccepts, List.map_append, List.mem_append, h.seen]
      constructor
      · exact .inl
      · rintro (hother | hother)
        · exact hother
        · rw [List.mem_singleton.mp hother]
          exact hmet

theorem enqueueMany (entries : List (Route × α)) :
    QueueRun.Accounts { r with queue := r.queue.enqueueMany entries } (es ++ entries) := by
  induction entries generalizing r es with
  | nil =>
    rw [List.append_nil]
    exact h
  | cons e rest ih =>
    have hrest := ih (h.enqueue e.1 e.2)
    rwa [List.append_assoc] at hrest

theorem takeWave : (r.call .takeWave).Accounts es where
  entries := by
    change (r.waves ++ [r.queue.pending]).flatten ++ [] = _
    rw [List.flatten_append, List.flatten_singleton, List.append_nil, h.entries]
  seen := h.seen

theorem after (calls : List (QueueCall α)) : (r.after calls).Accounts (es ++ requests calls) := by
  induction calls generalizing r es with
  | nil =>
    rw [requests, List.filterMap_nil, List.append_nil]
    exact h
  | cons c rest ih =>
    cases c with
    | enqueue route a =>
      have hrest := ih (h.enqueue route a)
      rwa [List.append_assoc] at hrest
    | takeWave => exact ih h.takeWave

end Accounts

/-- After any calls on a new queue, the waves and what is pending are the first entries of their
routes, and exactly a route that was not met before is accepted. -/
theorem accounts_after (calls : List (QueueCall α)) :
    (({} : QueueRun α).after calls).Accounts (requests calls) :=
  accounts_new.after calls

end QueueRun
end TypeScribe
