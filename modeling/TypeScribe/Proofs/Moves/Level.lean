import Mathlib.Data.List.MinMax
import Mathlib.Data.List.Perm.Basic
import Mathlib.Order.Nat
import TypeScribe.Proofs.Moves.Site

/-!
# Levels of moved declarations

What stands in a moved declaration is moved too. So below a site the levels rise one by one: the
sites of one level, in source order, directly contain those of the next. The declarations that are
moved out of a root are its sites sorted by level.
-/
namespace TypeScribe
set_option autoImplicit false

namespace Site

def height (s : Site) : Nat := (s.within.map level).foldr max 0

def atLevel (s : Site) (k : Nat) : List Site := s.within.filter fun e => e.level = k

/-- The sites below a root that are moved, level by level and each level in source order. -/
def moved (s : Site) : List Site := (List.range s.height).flatMap fun k => s.atLevel (k + 1)

theorem isMoved_iff (s : Site) : s.IsMoved ↔ mustMove s.decl s.context.scope = true := by
  simp [IsMoved, chain, mustMove]

theorem level_of_mem_nested {s e : Site} (h : e ∈ s.nested) :
    e.level = s.level + if e.IsMoved then 1 else 0 := by
  have hscope := scope_of_mem_nested h
  simp only [level, path, isMoved_iff]
  rw [hscope]
  rfl

theorem isMoved_of_mem_nested {s e : Site} (h : e ∈ s.nested) (hs : s.IsMoved) : e.IsMoved := by
  refine .inr ?_
  rw [chain_of_mem_nested h]
  rcases hs with hs | ⟨d, hd, hs⟩
  · exact ⟨s.decl, List.mem_append_right _ List.mem_cons_self, hs⟩
  · exact ⟨d, List.mem_append_left _ hd, hs⟩

end Site

theorem mustMove_of_moveLevel_pos {d : TypeDecl} {scope : Scope} (h : 0 < moveLevel (d :: scope)) :
    mustMove d scope = true := by
  induction scope generalizing d with
  | nil => cases h
  | cons e outer ih =>
    by_cases hd : mustMove d (e :: outer) = true
    · exact hd
    · have houter : 0 < moveLevel (e :: outer) := by simpa [moveLevel, hd] using h
      have he := ih houter
      -- An interface at or around `e` is also around `d`.
      simp only [mustMove, List.any_cons, Bool.or_eq_true] at he ⊢
      exact .inr he

namespace Site

theorem isMoved_of_level_pos {s : Site} (h : 0 < s.level) : s.IsMoved :=
  s.isMoved_iff.mpr (mustMove_of_moveLevel_pos h)

theorem level_pos_of_isMoved {s e : Site} (h : e ∈ s.nested) (he : e.IsMoved) : 0 < e.level := by
  rw [level_of_mem_nested h, if_pos he]
  omega

/-- Levels do not fall on the way down, and rise with every step below a moved site. -/
theorem level_le_of_mem_within {s e : Site} (h : e ∈ s.within) :
    s.level ≤ e.level ∧ (s.IsMoved → s.level < e.level) := by
  induction s using inductionOn with
  | step s ih =>
    rw [within_eq] at h
    obtain ⟨d, hd, he⟩ := List.mem_flatMap.mp h
    have hlevel := level_of_mem_nested hd
    have hle : s.level ≤ d.level := by omega
    have hlt : s.IsMoved → s.level < d.level := by
      intro hs
      rw [if_pos (isMoved_of_mem_nested hd hs)] at hlevel
      omega
    rcases List.mem_cons.mp he with rfl | he
    · exact ⟨hle, hlt⟩
    · have hrest := (ih d hd he).1
      exact ⟨Nat.le_trans hle hrest, fun hs => Nat.lt_of_lt_of_le (hlt hs) hrest⟩

theorem atLevel_eq_nil {s : Site} (h : s.IsMoved) {k : Nat} (hk : k ≤ s.level) :
    s.atLevel k = [] := by
  refine List.filter_eq_nil_iff.mpr ?_
  intro e he
  have hlt := (level_le_of_mem_within he).2 h
  simp only [decide_eq_true_eq]
  omega

theorem atLevel_eq (s : Site) (k : Nat) :
    s.atLevel k = s.nested.flatMap fun e => (if e.level = k then [e] else []) ++ e.atLevel k := by
  unfold atLevel
  rw [within_eq, List.filter_flatMap]
  refine List.flatMap_congr ?_
  intro e _
  rw [List.filter_cons]
  split <;> rename_i h
  · rw [if_pos (by simpa using h)]
    rfl
  · rw [if_neg (by simpa using h)]
    rfl

/-- The first level below a site: its moved sites, and the first level below the others. -/
theorem atLevel_next (s : Site) :
    s.atLevel (s.level + 1) =
      s.nested.flatMap fun e => if e.IsMoved then [e] else e.atLevel (e.level + 1) := by
  rw [atLevel_eq]
  refine List.flatMap_congr ?_
  intro e he
  have hlevel := level_of_mem_nested he
  by_cases hmoved : e.IsMoved
  · rw [if_pos hmoved] at hlevel ⊢
    rw [if_pos hlevel, atLevel_eq_nil hmoved (by omega)]
    rfl
  · rw [if_neg hmoved] at hlevel ⊢
    rw [if_neg (by omega), show s.level = e.level by omega]
    rfl

theorem atLevel_next_of_isMoved {s : Site} (h : s.IsMoved) :
    s.atLevel (s.level + 1) = s.nested := by
  rw [atLevel_next]
  calc
    (s.nested.flatMap fun e => if e.IsMoved then [e] else e.atLevel (e.level + 1)) =
        s.nested.flatMap fun e => [e] := by
      refine List.flatMap_congr ?_
      intro e he
      rw [if_pos (isMoved_of_mem_nested he h)]
    _ = s.nested := by simp

/-- A level above the site's own consists of what stands directly in the level before it. -/
theorem atLevel_succ (s : Site) {k : Nat} (hk : 0 < k) :
    s.atLevel (k + 1) = (if s.level = k then s.nested else []) ++ (s.atLevel k).flatMap nested := by
  induction s using inductionOn with
  | step s ih =>
    by_cases hs : s.level = k
    · -- All that stands in `s` is one level higher.
      subst hs
      have hmoved : s.IsMoved := isMoved_of_level_pos hk
      rw [if_pos rfl, atLevel_next_of_isMoved hmoved, atLevel_eq_nil hmoved (Nat.le_refl _)]
      simp
    · rw [if_neg hs, List.nil_append, atLevel_eq s (k + 1), atLevel_eq s k, List.flatMap_assoc]
      refine List.flatMap_congr ?_
      intro e he
      have hlevel := level_of_mem_nested he
      have hne : e.level ≠ k + 1 := by
        intro heq
        have hpos : 0 < s.level := by
          split at hlevel <;> omega
        rw [if_pos (isMoved_of_mem_nested he (isMoved_of_level_pos hpos))] at hlevel
        omega
      rw [if_neg hne, List.nil_append, ih e he, List.flatMap_append]
      split <;> simp

/-- What is moved out of a site: its first level and all that stands in it. -/
theorem filter_level_perm (s : Site) :
    (s.within.filter fun e => s.level < e.level).Perm
      (s.atLevel (s.level + 1) ++ (s.atLevel (s.level + 1)).flatMap within) := by
  induction s using inductionOn with
  | step s ih =>
    rw [atLevel_next, within_eq, List.filter_flatMap, List.flatMap_assoc]
    refine List.Perm.trans (List.Perm.flatMap_left _ ?_) (List.flatMap_append_perm _ _ _).symm
    intro e he
    have hlevel := level_of_mem_nested he
    by_cases hmoved : e.IsMoved
    · rw [if_pos hmoved] at hlevel ⊢
      have hall : (e :: e.within).filter (fun d => decide (s.level < d.level)) = e :: e.within := by
        refine List.filter_eq_self.mpr ?_
        intro d hd
        rcases List.mem_cons.mp hd with rfl | hd
        · simp only [decide_eq_true_eq]
          omega
        · have := (level_le_of_mem_within hd).1
          simp only [decide_eq_true_eq]
          omega
      rw [hall]
      simp
    · rw [if_neg hmoved] at hlevel ⊢
      have hstay : ¬ s.level < e.level := by omega
      rw [List.filter_cons, if_neg (by simpa using hstay), show s.level = e.level by omega]
      exact ih e he

theorem exists_parent {s e : Site} (h : e ∈ s.within) :
    ∃ parent ∈ s :: s.within, e ∈ parent.nested := by
  induction s using inductionOn with
  | step s ih =>
    have hwithin := s.within_eq
    rw [hwithin] at h
    obtain ⟨d, hd, he⟩ := List.mem_flatMap.mp h
    rcases List.mem_cons.mp he with rfl | he
    · exact ⟨s, List.mem_cons_self, hd⟩
    · obtain ⟨parent, hparent, he⟩ := ih d hd he
      refine ⟨parent, List.mem_cons_of_mem _ ?_, he⟩
      rw [hwithin]
      exact List.mem_flatMap.mpr ⟨d, hd, hparent⟩

theorem isMoved_iff_level_pos {s e : Site} (h : e ∈ s.within) : e.IsMoved ↔ 0 < e.level := by
  obtain ⟨parent, -, he⟩ := exists_parent h
  exact ⟨level_pos_of_isMoved he, isMoved_of_level_pos⟩

theorem level_le_height {s e : Site} (h : e ∈ s.within) : e.level ≤ s.height :=
  List.le_max_of_le (List.mem_map_of_mem h) (Nat.le_refl _)

theorem height_le {s : Site} {n : Nat} (h : ∀ e ∈ s.within, e.level ≤ n) : s.height ≤ n := by
  refine List.max_le_of_forall_le (s.within.map level) n ?_
  intro k hk
  obtain ⟨e, he, rfl⟩ := List.mem_map.mp hk
  exact h e he

end Site

theorem range_flatMap_filter_perm {α : Type} (l : List α) (key : α → Nat) (n : Nat) :
    ((List.range n).flatMap fun k => l.filter fun a => key a = k + 1).Perm
      (l.filter fun a => 0 < key a ∧ key a ≤ n) := by
  induction n with
  | zero =>
    have hnone : (l.filter fun a => decide (0 < key a ∧ key a ≤ 0)) = [] := by
      refine List.filter_eq_nil_iff.mpr ?_
      intro a _
      simp only [decide_eq_true_eq]
      omega
    rw [hnone]
    exact List.Perm.refl _
  | succ n ih =>
    rw [List.range_succ, List.flatMap_append, List.flatMap_singleton]
    have hlow : (l.filter fun a => decide (0 < key a ∧ key a ≤ n)) =
        (l.filter fun a => decide (0 < key a ∧ key a ≤ n + 1)).filter
          fun a => decide (key a ≤ n) := by
      rw [List.filter_filter]
      refine List.filter_congr ?_
      intro a _
      rw [← Bool.decide_and, decide_eq_decide]
      omega
    have hhigh : (l.filter fun a => decide (key a = n + 1)) =
        (l.filter fun a => decide (0 < key a ∧ key a ≤ n + 1)).filter
          fun a => !decide (key a ≤ n) := by
      rw [List.filter_filter]
      refine List.filter_congr ?_
      intro a _
      rw [← decide_not, ← Bool.decide_and, decide_eq_decide]
      omega
    rw [hhigh]
    refine (ih.append_right _).trans ?_
    rw [hlow]
    exact List.filter_append_perm _ _

namespace Site

theorem moved_perm (s : Site) : s.moved.Perm (s.within.filter fun e => e.IsMoved) := by
  have hfilter : (s.within.filter fun e => decide (0 < e.level ∧ e.level ≤ s.height)) =
      s.within.filter fun e => decide e.IsMoved := by
    refine List.filter_congr ?_
    intro e he
    rw [decide_eq_decide, isMoved_iff_level_pos he]
    exact and_iff_left (level_le_height he)
  rw [← hfilter]
  exact range_flatMap_filter_perm s.within level s.height

/-- The sites that are written in a number of waves; each wave is what stands directly in the one
before it. -/
def waves : Nat → List Site → List Site
  | 0, _ => []
  | n + 1, wave => wave ++ waves n (wave.flatMap nested)

theorem waves_atLevel {s : Site} (hs : s.level = 0) (n : Nat) {k : Nat} (hk : 0 < k) :
    waves n (s.atLevel k) = (List.range n).flatMap fun j => s.atLevel (k + j) := by
  induction n generalizing k with
  | zero => rfl
  | succ n ih =>
    have hnext : (s.atLevel k).flatMap nested = s.atLevel (k + 1) := by
      rw [atLevel_succ s hk, if_neg (by omega), List.nil_append]
    rw [waves, hnext, ih (by omega), List.range_succ_eq_map, List.flatMap_cons, List.flatMap_map]
    simp only [Nat.add_zero, Nat.succ_eq_add_one, Nat.add_assoc, Nat.add_comm 1]

end Site
end TypeScribe
