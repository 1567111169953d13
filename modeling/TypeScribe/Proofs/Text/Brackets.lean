import TypeScribe.Proofs.Text.Segments
import TypeScribe.Text.Blank

/-!
# Brackets in texts

A text is read from left to right with the brackets that are open. It is nested if every closing
bracket meets the innermost open one, of its own kind, and none is open at the end. Such a text is a
word of the grammar `WellNested`.

Names come from outside and are texts over an alphabet. Whatever the alphabet is, it has every
character that is no bracket.
-/
namespace TypeScribe.Text
set_option autoImplicit false

inductive Bracket where
  | round
  | square
  | curly
  deriving DecidableEq

def opening? : Char → Option Bracket
  | '(' => some .round
  | '[' => some .square
  | '\x7b' => some .curly
  | _ => none

def closing? : Char → Option Bracket
  | ')' => some .round
  | ']' => some .square
  | '\x7d' => some .curly
  | _ => none

def isBracket (c : Char) : Bool := (opening? c).isSome || (closing? c).isSome

/-- The brackets that are open after a character, innermost first; none if it closes a bracket that
is not the innermost open one. -/
def bracketStep (c : Char) (opened : List Bracket) : Option (List Bracket) :=
  match opening? c, closing? c with
  | some b, _ => some (b :: opened)
  | none, some b => if opened.head? = some b then some opened.tail else none
  | none, none => some opened

/-- The brackets that are open after a word, if those of `opened` are open before it. -/
def openAfter : List Char → List Bracket → Option (List Bracket)
  | [], opened => some opened
  | c :: cs, opened => (bracketStep c opened).bind (openAfter cs)

def IsNested (cs : List Char) : Prop := openAfter cs [] = some []

theorem openAfter_append (cs ds : List Char) (opened : List Bracket) :
    openAfter (cs ++ ds) opened = (openAfter cs opened).bind (openAfter ds) := by
  induction cs generalizing opened with
  | nil => rfl
  | cons c rest ih =>
    rw [List.cons_append, openAfter, openAfter]
    cases bracketStep c opened with
    | none => rfl
    | some next => exact ih next

theorem bracketStep_frame {c : Char} {opened next : List Bracket} (outer : List Bracket)
    (h : bracketStep c opened = some next) :
    bracketStep c (opened ++ outer) = some (next ++ outer) := by
  unfold bracketStep at h ⊢
  split at h
  · cases h
    rfl
  · split at h
    · cases opened with
      | nil => next hhead => cases hhead
      | cons b rest =>
        cases h
        next hhead => simpa using hhead
    · cases h
  · cases h
    rfl

/-- Brackets that a word does not reach are still open after it. -/
theorem openAfter_frame {cs : List Char} {opened next : List Bracket} (outer : List Bracket)
    (h : openAfter cs opened = some next) :
    openAfter cs (opened ++ outer) = some (next ++ outer) := by
  induction cs generalizing opened with
  | nil =>
    cases h
    rfl
  | cons c rest ih =>
    obtain ⟨middle, hstep, hrest⟩ := Option.bind_eq_some_iff.mp h
    rw [openAfter, bracketStep_frame outer hstep]
    exact ih hrest

theorem openAfter_of_bracketless {cs : List Char} (h : ∀ c ∈ cs, isBracket c = false)
    (opened : List Bracket) : openAfter cs opened = some opened := by
  induction cs with
  | nil => rfl
  | cons c rest ih =>
    obtain ⟨hc, hrest⟩ := List.forall_mem_cons.mp h
    have hstep : bracketStep c opened = some opened := by
      obtain ⟨hopen, hclose⟩ := Bool.or_eq_false_iff.mp hc
      rw [bracketStep, Option.isSome_eq_false_iff.mp hopen |> Option.isNone_iff_eq_none.mp,
        Option.isSome_eq_false_iff.mp hclose |> Option.isNone_iff_eq_none.mp]
    rw [openAfter, hstep]
    exact ih hrest

/-- A word in which every bracket that opens is closed by one of its own kind, around a word of this
form again. -/
inductive WellNested : List Char → Prop where
  | nil : WellNested []
  | plain {c : Char} {rest : List Char} (hc : isBracket c = false) (hrest : WellNested rest) :
      WellNested (c :: rest)
  | bracket {b : Bracket} {o c : Char} {inner rest : List Char} (ho : opening? o = some b)
      (hc : closing? c = some b) (hinner : WellNested inner) (hrest : WellNested rest) :
      WellNested (o :: inner ++ c :: rest)

theorem bracketStep_cases {c : Char} {opened next : List Bracket}
    (h : bracketStep c opened = some next) :
    (isBracket c = false ∧ next = opened) ∨
      (∃ b, opening? c = some b ∧ next = b :: opened) ∨
      ∃ b, closing? c = some b ∧ opened = b :: next := by
  unfold bracketStep at h
  cases hopen : opening? c with
  | some b =>
    rw [hopen] at h
    cases h
    exact .inr (.inl ⟨b, rfl, rfl⟩)
  | none =>
    cases hclose : closing? c with
    | none =>
      rw [hopen, hclose] at h
      cases h
      refine .inl ⟨?_, rfl⟩
      rw [isBracket, hopen, hclose]
      rfl
    | some b =>
      rw [hopen, hclose] at h
      refine .inr (.inr ⟨b, rfl, ?_⟩)
      cases opened with
      | nil => cases h
      | cons b' rest =>
        obtain ⟨hhead, rfl⟩ : b' = b ∧ rest = next := by simpa using h
        rw [hhead]

/-- A word that leaves nothing open closes the innermost bracket behind a nested word. -/
theorem exists_close_of_openAfter {cs : List Char} {b : Bracket} {outer : List Bracket}
    (h : openAfter cs (b :: outer) = some []) :
    ∃ inner c rest, cs = inner ++ c :: rest ∧ closing? c = some b ∧ WellNested inner ∧
      openAfter rest outer = some [] := by
  match cs with
  | [] => cases h
  | c :: cs =>
    obtain ⟨next, hstep, hcs⟩ := Option.bind_eq_some_iff.mp h
    rcases bracketStep_cases hstep with ⟨hc, rfl⟩ | ⟨b', hc, rfl⟩ | ⟨b', hc, heq⟩
    · obtain ⟨inner, close, rest, rfl, hclose, hinner, hrest⟩ := exists_close_of_openAfter hcs
      exact ⟨c :: inner, close, rest, rfl, hclose, .plain hc hinner, hrest⟩
    · -- The bracket is closed first, and what follows closes the one around it.
      obtain ⟨inner', close', rest', rfl, hclose', hinner', hrest'⟩ := exists_close_of_openAfter hcs
      obtain ⟨inner, close, rest, rfl, hclose, hinner, hrest⟩ := exists_close_of_openAfter hrest'
      refine ⟨c :: inner' ++ close' :: inner, close, rest, ?_, hclose,
        .bracket hc hclose' hinner' hinner, hrest⟩
      simp
    · cases heq
      exact ⟨[], c, cs, rfl, hc, .nil, hcs⟩
termination_by cs.length

theorem IsNested.wellNested {cs : List Char} (h : IsNested cs) : WellNested cs := by
  match cs with
  | [] => exact .nil
  | c :: cs =>
    obtain ⟨next, hstep, hcs⟩ := Option.bind_eq_some_iff.mp h
    rcases bracketStep_cases hstep with ⟨hc, rfl⟩ | ⟨b, hc, rfl⟩ | ⟨b, -, heq⟩
    · exact .plain hc (IsNested.wellNested hcs)
    · obtain ⟨inner, close, rest, rfl, hclose, hinner, hrest⟩ := exists_close_of_openAfter hcs
      exact .bracket hc hclose hinner (IsNested.wellNested hrest)
    · cases heq
termination_by cs.length

def brackets : List Char := ['(', '[', '\x7b', ')', ']', '\x7d']

theorem mem_brackets {c : Char} (h : isBracket c = true) : c ∈ brackets := by
  rcases Bool.or_eq_true_iff.mp h with hopen | hclose
  · unfold opening? at hopen
    split at hopen
    · exact .head _
    · exact .tail _ (.head _)
    · exact .tail _ (.tail _ (.head _))
    · cases hopen
  · refine List.mem_append_right ['(', '[', '\x7b'] ?_
    unfold closing? at hclose
    split at hclose
    · exact .head _
    · exact .tail _ (.head _)
    · exact .tail _ (.tail _ (.head _))
    · cases hclose

/-- A character is no bracket if it has a property that no bracket has. -/
theorem isBracket_eq_false {p : Char → Bool} (hp : brackets.all (fun b => !p b) = true) {c : Char}
    (h : p c = true) : isBracket c = false := by
  rw [← Bool.not_eq_true]
  intro hbracket
  have hnone := List.all_eq_true.mp hp c (mem_brackets hbracket)
  rw [h] at hnone
  cases hnone

/-- Every character of the text is a letter. -/
def Over (letters : Char → Bool) (s : String) : Prop := s.toList.all letters = true

instance (letters : Char → Bool) (s : String) : Decidable (Over letters s) :=
  inferInstanceAs (Decidable (_ = _))

/-- The text has no bracket. -/
abbrev IsBracketless (s : String) : Prop := Over (fun c => !isBracket c) s

section

variable {letters : Char → Bool} {s t : String}

theorem over_iff : Over letters s ↔ ∀ c ∈ s.toList, letters c = true := List.all_eq_true

theorem over_append : Over letters (s ++ t) ↔ Over letters s ∧ Over letters t := by
  rw [Over, String.toList_append, List.all_append, Bool.and_eq_true]
  rfl

theorem over_ofList {cs : List Char} :
    Over letters (String.ofList cs) ↔ ∀ c ∈ cs, letters c = true := by
  rw [over_iff, String.toList_ofList]

theorem IsBracketless.over (hletters : ∀ c, isBracket c = false → letters c = true)
    (h : IsBracketless s) : Over letters s := by
  rw [over_iff]
  intro c hc
  exact hletters c (by simpa using over_iff.mp h c hc)

theorem IsBracketless.openAfter_eq (h : IsBracketless s) (opened : List Bracket) :
    openAfter s.toList opened = some opened := by
  apply openAfter_of_bracketless
  intro c hc
  simpa using over_iff.mp h c hc

theorem over_map {f : Char → Char} (hf : ∀ c, letters c = true → letters (f c) = true)
    (h : Over letters s) : Over letters (s.map f) := by
  rw [over_iff] at h ⊢
  intro c hc
  rw [String.toList_map] at hc
  obtain ⟨b, hb, rfl⟩ := List.mem_map.mp hc
  exact hf b (h b hb)

theorem over_joinWith {texts : List String} (hs : Over letters s)
    (h : ∀ t ∈ texts, Over letters t) : Over letters (joinWith s texts) := by
  induction texts with
  | nil => rfl
  | cons t rest ih =>
    obtain ⟨ht, hrest⟩ := List.forall_mem_cons.mp h
    cases rest with
    | nil => exact ht
    | cons u rest => exact over_append.mpr ⟨over_append.mpr ⟨ht, hs⟩, ih hrest⟩

theorem over_segments (isSep : Char → Bool) (h : Over letters s) :
    ∀ t ∈ segments isSep s, Over letters t := by
  rw [over_iff] at h
  intro t ht
  exact over_iff.mpr fun c hc => h c ((infix_of_mem_segments ht).subset hc)

theorem over_lastSegment (isSep : Char → Bool) (h : Over letters s) :
    Over letters (lastSegment isSep s) := by
  refine over_segments isSep h _ ?_
  rw [lastSegment, segments, List.getLastD_cons]
  exact List.getLastD_mem_cons

theorem over_trim (h : Over letters s) : Over letters (trim s) := by
  rw [trim, over_ofList]
  intro c hc
  have hfront := List.mem_reverse.mp hc
  have hback := (List.dropWhile_sublist _).subset hfront
  exact over_iff.mp h c ((List.dropWhile_sublist _).subset (List.mem_reverse.mp hback))

end
end TypeScribe.Text
