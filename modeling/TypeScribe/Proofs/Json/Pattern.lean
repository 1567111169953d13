import Mathlib.Data.List.Perm.Basic
import TypeScribe.Json.Record
import TypeScribe.Tree.Encode

/-!
# Patterns of JSON values

A pattern is a JSON value that says of every field whether it may be left out. `Pattern.plain` is
the value itself, and `Pattern.Matches` allows the other ways of writing it: the fields of an object
in any order, among entries that are none of its fields and without some that may be left out, and a
set of modifiers as any list of them. An added entry holds any value whatever; only what is unfit is
no value.

What a reader of records finds does not depend on the way of writing: `Pattern.Matches.finds`.
-/
namespace TypeScribe
set_option autoImplicit false

theorem ModifierSet.mem_toList {set : ModifierSet} {m : Modifier} :
    m ∈ set.toList ↔ set.contains m = true := by
  unfold ModifierSet.toList
  rw [List.mem_filter]
  constructor
  · exact fun h => h.2
  · intro h
    refine ⟨?_, h⟩
    cases m <;> decide

namespace Json

inductive Pattern where
  | null
  | bool (value : Bool)
  | string (value : String)
  | modifiers (set : ModifierSet)
  | array (elements : List Pattern)
  /-- The fields with their keys, and whether they may be left out. -/
  | object (rows : List (String × Bool × Pattern))

namespace Pattern

abbrev Row := String × Bool × Pattern

def keys (rows : List Row) : List String := rows.map (·.1)

mutual
/-- The value with every field in order. -/
def plain : Pattern → Json
  | .null => .null
  | .bool b => .bool b
  | .string s => .string s
  | .modifiers set => set.toJson
  | .array elements => .array (plainElements elements)
  | .object rows => .object (plainRows rows)

def plainElements : List Pattern → List Json
  | [] => []
  | p :: ps => p.plain :: plainElements ps

def plainRows : List Row → Entries
  | [] => []
  | (key, _, p) :: rows => (key, p.plain) :: plainRows rows
end

mutual
/-- The ways of writing a value. -/
inductive Matches : Pattern → Json → Prop
  | null : Matches .null .null
  | bool (b : Bool) : Matches (.bool b) (.bool b)
  | string (s : String) : Matches (.string s) (.string s)
  | modifiers {set : ModifierSet} (given : List Modifier)
      (hgiven : ∀ m, m ∈ given ↔ set.contains m = true) :
      Matches (.modifiers set) (.array (given.map .ofKeyword))
  | array {elements : List Pattern} {js : List Json} (hall : MatchesAll elements js) :
      Matches (.array elements) (.array js)
  | object {rows : List Row} {kept added entries : Entries} (hkept : Keeps rows kept)
      (hadded : ∀ entry ∈ added, entry.1 ∉ keys rows ∧ entry.2.isSound = true)
      (hperm : entries.Perm (kept ++ added)) : Matches (.object rows) (.object entries)

inductive MatchesAll : List Pattern → List Json → Prop
  | nil : MatchesAll [] []
  | cons {p : Pattern} {ps : List Pattern} {j : Json} {js : List Json} (hhead : p.Matches j)
      (htail : MatchesAll ps js) : MatchesAll (p :: ps) (j :: js)

/-- The fields of an object that are written. -/
inductive Keeps : List Row → Entries → Prop
  | nil : Keeps [] []
  | keep {key : String} {mayMiss : Bool} {p : Pattern} {rows : List Row} {j : Json} {kept : Entries}
      (hvalue : p.Matches j) (hrest : Keeps rows kept) :
      Keeps ((key, mayMiss, p) :: rows) ((key, j) :: kept)
  | drop {key : String} {p : Pattern} {rows : List Row} {kept : Entries} (hrest : Keeps rows kept) :
      Keeps ((key, true, p) :: rows) kept
end

end Pattern

namespace Pattern

mutual
theorem matches_plain : (p : Pattern) → p.Matches p.plain
  | .null => .null
  | .bool b => .bool b
  | .string s => .string s
  | .modifiers set => .modifiers set.toList fun _ => ModifierSet.mem_toList
  | .array elements => .array (matchesAll_plain elements)
  | .object rows =>
    .object (keeps_plain rows) (List.forall_mem_nil _) (by rw [List.append_nil])

theorem matchesAll_plain : (ps : List Pattern) → MatchesAll ps (plainElements ps)
  | [] => .nil
  | p :: ps => .cons (matches_plain p) (matchesAll_plain ps)

theorem keeps_plain : (rows : List Row) → Keeps rows (plainRows rows)
  | [] => .nil
  | (_, _, p) :: rows => .keep (matches_plain p) (keeps_plain rows)
end

end Pattern

theorem areEntriesSound_iff {entries : Entries} :
    areEntriesSound entries = true ↔ ∀ entry ∈ entries, entry.2.isSound = true := by
  induction entries with
  | nil => simp [areEntriesSound]
  | cons entry rest ih => simp [areEntriesSound, ih]

theorem areSound_keywords (given : List Modifier) :
    areSound (given.map .ofKeyword) = true := by
  induction given with
  | nil => rfl
  | cons m rest ih => simpa [areSound, ofKeyword, isSound] using ih

namespace Pattern

mutual
theorem Matches.isSound : {p : Pattern} → {j : Json} → p.Matches j → j.isSound = true
  | _, _, .null => rfl
  | _, _, .bool _ => rfl
  | _, _, .string _ => rfl
  | _, _, .modifiers given _ => areSound_keywords given
  | _, _, .array hall => hall.areSound
  | _, _, .object hkept hadded hperm => by
    refine areEntriesSound_iff.mpr fun entry hentry => ?_
    rcases List.mem_append.mp (hperm.mem_iff.mp hentry) with h | h
    · exact hkept.isSound h
    · exact (hadded entry h).2

theorem MatchesAll.areSound : {ps : List Pattern} → {js : List Json} → MatchesAll ps js →
    areSound js = true
  | _, _, .nil => rfl
  | _, _, .cons hhead htail => by
    rw [Json.areSound, hhead.isSound, htail.areSound]
    rfl

theorem Keeps.isSound : {rows : List Row} → {kept : Entries} → Keeps rows kept →
    ∀ {entry : String × Json}, entry ∈ kept → entry.2.isSound = true
  | _, _, .nil, _, h => nomatch h
  | _, _, .keep hvalue hrest, entry, h => by
    rcases List.mem_cons.mp h with rfl | h
    · exact hvalue.isSound
    · exact hrest.isSound h
  | _, _, .drop hrest, _, h => hrest.isSound h
end

end Pattern

namespace Entries

theorem field?_perm {e e' : Entries} (h : e.Perm e') (key : String) :
    e.field? key = e'.field? key := by
  have hfilter := h.filter (fun entry => entry.1 == key)
  unfold field?
  generalize e.filter (fun entry => entry.1 == key) = found at hfilter
  generalize e'.filter (fun entry => entry.1 == key) = found' at hfilter
  match found', hfilter with
  | [], hfilter => rw [List.perm_nil.mp hfilter]
  | [entry], hfilter => rw [List.perm_singleton.mp hfilter]
  | _ :: _ :: _, hfilter =>
    match found, hfilter.length_eq with
    | _ :: _ :: _, _ => rfl

theorem field?_of_notMem {e : Entries} {key : String} (h : key ∉ e.map (·.1)) :
    e.field? key = some none := by
  have hnone : e.filter (fun entry => entry.1 == key) = [] := by
    rw [List.filter_eq_nil_iff]
    intro entry hentry heq
    exact h (List.mem_map.mpr ⟨entry, hentry, by simpa using heq⟩)
  rw [field?, hnone]

theorem field?_cons_self {e : Entries} {key : String} {j : Json} (h : key ∉ e.map (·.1)) :
    field? ((key, j) :: e) key = some (some j) := by
  have hnone := field?_of_notMem h
  unfold field? at hnone ⊢
  rw [List.filter_cons_of_pos (by simp)]
  split at hnone
  · next heq => rw [heq]
  · simp at hnone
  · simp at hnone

theorem field?_cons_of_ne {e : Entries} {key key' : String} {j : Json} (h : key ≠ key') :
    field? ((key, j) :: e) key' = e.field? key' := by
  unfold field?
  rw [List.filter_cons_of_neg (by simpa using h)]

theorem field?_append {e added : Entries} {key : String} (h : ∀ entry ∈ added, entry.1 ≠ key) :
    field? (e ++ added) key = e.field? key := by
  have hnone : added.filter (fun entry => entry.1 == key) = [] := by
    rw [List.filter_eq_nil_iff]
    intro entry hentry
    simpa using h entry hentry
  unfold field?
  rw [List.filter_append, hnone, List.append_nil]

end Entries

theorem depth_pos (j : Json) : 0 < j.depth := by
  cases j <;> simp [depth]

theorem depth_le_depthEntries {entries : Entries} {entry : String × Json} (h : entry ∈ entries) :
    entry.2.depth ≤ depthEntries entries := by
  induction entries with
  | nil => nomatch h
  | cons head rest ih =>
    rw [depthEntries]
    rcases List.mem_cons.mp h with rfl | h
    · exact Nat.le_max_left _ _
    · exact Nat.le_trans (ih h) (Nat.le_max_right _ _)

namespace Entries

open Pattern

/-- A field stands among the entries once, with a value that matches and is not too deep, or it may
be left out and is. -/
def Finds (e : Entries) (levels : Nat) (row : Row) : Prop :=
  (∃ j, e.field? row.1 = some (some j) ∧ row.2.2.Matches j ∧ j.depth ≤ levels)
    ∨ (row.2.1 = true ∧ e.field? row.1 = some none)

def FindsAll (e : Entries) (levels : Nat) : List Row → Prop
  | [] => True
  | row :: rows => e.Finds levels row ∧ e.FindsAll levels rows

end Entries

namespace Pattern

theorem Keeps.mem_keys {rows : List Row} {kept : Entries} (h : Keeps rows kept) {key : String}
    (hkey : key ∈ kept.map (·.1)) : key ∈ keys rows := by
  induction rows generalizing kept with
  | nil =>
    cases h
    exact hkey
  | cons row rows ih =>
    cases h with
    | keep _ hrest =>
      rcases List.mem_cons.mp hkey with rfl | hkey
      · exact List.mem_cons_self
      · exact List.mem_cons_of_mem _ (ih hrest hkey)
    | drop hrest => exact List.mem_cons_of_mem _ (ih hrest hkey)

/-- The written fields are found wherever the look-ups agree with theirs. -/
theorem Keeps.findsAll {rows : List Row} {kept e : Entries} {levels : Nat} (h : Keeps rows kept)
    (hnodup : (keys rows).Nodup) (hdepth : ∀ entry ∈ kept, entry.2.depth ≤ levels)
    (hagree : ∀ key ∈ keys rows, e.field? key = Entries.field? kept key) :
    e.FindsAll levels rows := by
  induction rows generalizing kept with
  | nil => trivial
  | cons row rows ih =>
    obtain ⟨hfresh, hrows⟩ := List.nodup_cons.mp hnodup
    have hhead := hagree row.1 List.mem_cons_self
    cases h with
    | @keep key mayMiss p _ j kept hvalue hrest =>
      refine ⟨.inl ⟨j, ?_, hvalue, hdepth _ List.mem_cons_self⟩, ?_⟩
      · rw [hhead]
        exact Entries.field?_cons_self fun hkey => hfresh (hrest.mem_keys hkey)
      · refine ih hrest hrows (fun entry hentry => hdepth entry (List.mem_cons_of_mem _ hentry)) ?_
        intro key' hkey'
        rw [hagree key' (List.mem_cons_of_mem _ hkey')]
        exact Entries.field?_cons_of_ne fun heq => hfresh (heq ▸ hkey')
    | drop hrest =>
      refine ⟨.inr ⟨rfl, ?_⟩, ih hrest hrows hdepth fun key hkey => hagree key (.tail _ hkey)⟩
      rw [hhead]
      exact Entries.field?_of_notMem fun hkey => hfresh (hrest.mem_keys hkey)

/-- A reader finds every field of an object, however the object is written. -/
theorem Matches.finds {rows : List Row} {j : Json} {levels : Nat}
    (h : (Pattern.object rows).Matches j) (hnodup : (keys rows).Nodup)
    (hdepth : j.depth ≤ levels + 1) : ∃ e : Entries, j = .object e ∧ e.FindsAll levels rows := by
  cases h with
  | @object _ kept added e hkept hadded hperm =>
    refine ⟨e, rfl, hkept.findsAll hnodup ?_ ?_⟩
    · intro entry hentry
      have hmem : entry ∈ e := hperm.mem_iff.mpr (List.mem_append_left _ hentry)
      exact Nat.le_trans (depth_le_depthEntries hmem) (Nat.le_of_succ_le_succ hdepth)
    · intro key hkey
      rw [Entries.field?_perm hperm]
      refine Entries.field?_append fun entry hentry heq => ?_
      exact (hadded entry hentry).1 (heq ▸ hkey)

/-- An object with one more field matches without it too: the field is one of the added entries. -/
theorem Matches.tail {row : Row} {rows : List Row} {j : Json}
    (h : (Pattern.object (row :: rows)).Matches j) (hfresh : row.1 ∉ keys rows) :
    (Pattern.object rows).Matches j := by
  cases h with
  | @object _ kept added e hkept hadded hperm =>
    have hothers : ∀ entry ∈ added, entry.1 ∉ keys rows ∧ entry.2.isSound = true := by
      intro entry hentry
      obtain ⟨hkey, hsound⟩ := hadded entry hentry
      exact ⟨fun hmem => hkey (List.mem_cons_of_mem _ hmem), hsound⟩
    cases hkept with
    | @keep key _ _ _ j kept hvalue hrest =>
      have hmoved : e.Perm (kept ++ (key, j) :: added) := hperm.trans List.perm_middle.symm
      refine .object hrest ?_ hmoved
      intro entry hentry
      rcases List.mem_cons.mp hentry with rfl | hentry
      · exact ⟨hfresh, hvalue.isSound⟩
      · exact hothers entry hentry
    | drop hrest => exact .object hrest hothers hperm

end Pattern
end Json
end TypeScribe
