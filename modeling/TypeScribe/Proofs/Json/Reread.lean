import Mathlib.Data.List.Forall2
import TypeScribe.Json.Printer
import TypeScribe.Json.Reader

/-!
# Reading what was written

A value without numbers is read back from the text that is written for it, whatever characters its
strings hold. It must not nest deeper than the reader allows.
-/
namespace TypeScribe.Json
set_option autoImplicit false

mutual
/-- Whether the value has neither a number nor anything unfit in it. -/
def isWordy : Json → Bool
  | .array elements => areWordy elements
  | .object entries => areEntriesWordy entries
  | .number _ => false
  | .unfit => false
  | _ => true

def areWordy : List Json → Bool
  | [] => true
  | j :: js => j.isWordy && areWordy js

def areEntriesWordy : List (String × Json) → Bool
  | [] => true
  | (_, j) :: rest => j.isWordy && areEntriesWordy rest
end

namespace Reader

/-- The unit stands for the character: itself, or the code of a control character. -/
inductive Unit16.Denotes : Unit16 → Char → Prop where
  | char (c : Char) : Denotes (.char c) c
  | unit {c : Char} (h : c.toNat < 0x20) : Denotes (.unit c.toNat) c

theorem hexDigit?_hexDigit : ∀ n < 16, hexDigit? (hexDigit n) = some n := by decide

theorem hex4?_control {n : Nat} (h : n < 0x20) :
    hex4? '0' '0' (hexDigit (n / 16)) (hexDigit (n % 16)) = some n := by
  have hzero : hexDigit? '0' = some 0 := by decide
  rw [hex4?, hzero, hexDigit?_hexDigit (n / 16) (by omega), hexDigit?_hexDigit (n % 16) (by omega)]
  refine congrArg some ?_
  omega

theorem units_plain {c : Char} (hquote : c ≠ '"') (hslash : c ≠ '\\') (h : ¬ c.toNat < 0x20)
    {rest tail : List Char} {us : List Unit16} (hrest : units rest = some (us, tail)) :
    units (c :: rest) = some (.char c :: us, tail) := by
  rw [units]
  · rw [if_neg (not_or.mpr ⟨h, hslash⟩), hrest]
  · exact hquote
  · intro _ _ _ _ _ heq
    exact absurd heq hslash
  · intro _ _ heq
    exact absurd heq hslash

theorem units_escaped {e c : Char} (hu : e ≠ 'u') (he : simpleEscape? e = some c)
    {rest tail : List Char} {us : List Unit16} (hrest : units rest = some (us, tail)) :
    units ('\\' :: e :: rest) = some (.char c :: us, tail) := by
  rw [units]
  · rw [he, hrest]
  · intro _ _ _ _ _ heq
    exact absurd heq hu

/-- A written character is read as one unit. -/
theorem units_escapeChar (c : Char) {rest tail : List Char} {us : List Unit16}
    (hrest : units rest = some (us, tail)) :
    ∃ u : Unit16, u.Denotes c ∧ units (escapeChar c ++ rest) = some (u :: us, tail) := by
  have hescaped {e k : Char} (hc : c = k) (hu : e ≠ 'u') (he : simpleEscape? e = some k) :
      ∃ u : Unit16, u.Denotes c ∧ units (['\\', e] ++ rest) = some (u :: us, tail) := by
    subst hc
    exact ⟨.char c, .char c, units_escaped hu he hrest⟩
  unfold escapeChar
  split
  · exact hescaped ‹_› (by decide) rfl
  split
  · exact hescaped ‹_› (by decide) rfl
  split
  · exact hescaped ‹_› (by decide) rfl
  split
  · exact hescaped ‹_› (by decide) rfl
  split
  · exact hescaped ‹_› (by decide) rfl
  split
  · exact hescaped ‹_› (by decide) rfl
  split
  · exact hescaped ‹_› (by decide) rfl
  split
  · next hcontrol =>
    refine ⟨.unit c.toNat, .unit hcontrol, ?_⟩
    simp only [List.cons_append, List.nil_append]
    rw [units, hex4?_control hcontrol, hrest]
  · next hquote hslash _ _ _ _ _ hcontrol =>
    exact ⟨.char c, .char c, units_plain hquote hslash hcontrol hrest⟩

theorem units_written (cs rest : List Char) :
    ∃ us, List.Forall₂ Unit16.Denotes us cs ∧
      units (cs.flatMap escapeChar ++ '"' :: rest) = some (us, rest) := by
  induction cs with
  | nil => exact ⟨[], .nil, rfl⟩
  | cons c cs ih =>
    obtain ⟨us, hus, hread⟩ := ih
    obtain ⟨u, hu, hunits⟩ := units_escapeChar c hread
    refine ⟨u :: us, .cons hu hus, ?_⟩
    rw [List.flatMap_cons, List.append_assoc]
    exact hunits

theorem joinUnits_control {n : Nat} (h : n < 0x20) (us : List Unit16) :
    joinUnits (.unit n :: us) = (joinUnits us).map (Char.ofNat n :: ·) := by
  have hhigh : isHighSurrogate n = false := by
    rw [isHighSurrogate, Bool.and_eq_false_iff]
    exact .inl (decide_eq_false (by omega))
  have hlow : isLowSurrogate n = false := by
    rw [isLowSurrogate, Bool.and_eq_false_iff]
    exact .inl (decide_eq_false (by omega))
  cases us with
  | nil => simp [joinUnits, hhigh, hlow]
  | cons u rest => cases u <;> simp [joinUnits, hhigh, hlow]

theorem joinUnits_of_denotes {us : List Unit16} {cs : List Char}
    (h : List.Forall₂ Unit16.Denotes us cs) : joinUnits us = some cs := by
  induction h with
  | nil => rfl
  | cons hu _ ih =>
    cases hu with
    | char c => rw [joinUnits, ih, Option.map_some]
    | @unit c hcontrol => rw [joinUnits_control hcontrol, ih, Option.map_some, Char.ofNat_toNat]

theorem string_written (s : String) (rest : List Char) :
    string (s.toList.flatMap escapeChar ++ '"' :: rest) = some (some s, rest) := by
  obtain ⟨us, hus, hread⟩ := units_written s.toList rest
  simp [string, hread, joinUnits_of_denotes hus]

theorem skipSpace_lineBreak (level : Nat) (s : List Char) :
    skipSpace (lineBreak level ++ s) = skipSpace s := by
  have hblanks : ∀ n, skipSpace (List.replicate n ' ' ++ s) = skipSpace s := by
    intro n
    induction n with
    | zero => rfl
    | succ n ih => exact ih
  exact hblanks (2 * level)

theorem value_congr (fuel room : Nat) {s t : List Char} (h : skipSpace s = skipSpace t) :
    value fuel room s = value fuel room t := by
  cases fuel with
  | zero => rfl
  | succ fuel => rw [value, value, h]

/-- What is written for a value begins with a character that is neither a blank nor the end of an
array. -/
theorem exists_prettyChars_eq (level : Nat) {j : Json} (h : j.isWordy = true) :
    ∃ c cs, prettyChars level j = c :: cs ∧ isSpace c = false ∧ c ≠ ']' := by
  match j with
  | .null => exact ⟨'n', _, rfl, rfl, by decide⟩
  | .bool true => exact ⟨'t', _, rfl, rfl, by decide⟩
  | .bool false => exact ⟨'f', _, rfl, rfl, by decide⟩
  | .string _ => exact ⟨'"', _, rfl, rfl, by decide⟩
  | .array [] => exact ⟨'[', _, rfl, rfl, by decide⟩
  | .array (_ :: _) => exact ⟨'[', _, rfl, rfl, by decide⟩
  | .object [] => exact ⟨'\x7b', _, rfl, rfl, by decide⟩
  | .object ((_, _) :: _) => exact ⟨'\x7b', _, rfl, rfl, by decide⟩

theorem skipSpace_prettyChars (level : Nat) {j : Json} (h : j.isWordy = true) (s tail : List Char) :
    skipSpace (prettyChars level j ++ s) ≠ ']' :: tail := by
  obtain ⟨c, cs, hchars, hspace, hend⟩ := exists_prettyChars_eq level h
  rw [hchars, List.cons_append, skipSpace, List.dropWhile_cons_of_neg (by rw [hspace]; decide)]
  intro heq
  exact hend (List.cons.inj heq).1

theorem value_array (fuel room : Nat) {s : List Char} (h : ∀ tail, skipSpace s ≠ ']' :: tail) :
    value (fuel + 1) room ('[' :: s) =
      (elements fuel (room - 1) s).map fun p => (container room (.array p.1), p.2) := by
  have hskip : skipSpace ('[' :: s) = '[' :: s := rfl
  simp only [value, hskip]

theorem value_object (fuel room : Nat) {s : List Char} (h : ∀ tail, skipSpace s ≠ '\x7d' :: tail) :
    value (fuel + 1) room ('\x7b' :: s) =
      (entries fuel (room - 1) s).map fun p => (container room (ofEntries p.1), p.2) := by
  have hskip : skipSpace ('\x7b' :: s) = '\x7b' :: s := rfl
  simp only [value, hskip]

theorem value_quote (fuel room : Nat) (s : String) (rest : List Char) :
    value (fuel + 1) room (quote s ++ rest) = some (.string s, rest) := by
  have hquote : skipSpace (quote s ++ rest) =
      '"' :: (s.toList.flatMap escapeChar ++ '"' :: rest) := by
    simp [quote, skipSpace, isSpace]
  simp only [value, hquote, string_written]
  rfl

section

variable {fuel room level outer : Nat} {s rest : List Char} {j : Json}

theorem elements_last (h : value fuel room s = some (j, lineBreak outer ++ ']' :: rest)) :
    elements (fuel + 1) room s = some ([j], rest) := by
  have hend : skipSpace (lineBreak outer ++ ']' :: rest) = ']' :: rest :=
    skipSpace_lineBreak outer _
  simp only [elements, h, hend]

theorem elements_next (h : value fuel room s = some (j, ',' :: rest)) :
    elements (fuel + 1) room s =
      (elements fuel room rest).map fun p => (j :: p.1, p.2) := by
  have hcomma : skipSpace (',' :: rest) = ',' :: rest := rfl
  simp only [elements, h, hcomma]

theorem skipSpace_key (level : Nat) (key : String) (s : List Char) :
    skipSpace (lineBreak level ++ (quote key ++ s)) =
      '"' :: (key.toList.flatMap escapeChar ++ '"' :: s) := by
  rw [skipSpace_lineBreak]
  simp [quote, skipSpace, isSpace]

theorem entries_last (key : String)
    (h : value fuel room s = some (j, lineBreak outer ++ '\x7d' :: rest)) :
    entries (fuel + 1) room (lineBreak level ++ (quote key ++ ':' :: ' ' :: s)) =
      some (some [(key, j)], rest) := by
  have hcolon : skipSpace (':' :: ' ' :: s) = ':' :: ' ' :: s := rfl
  have hvalue : value fuel room (' ' :: s) = value fuel room s := value_congr fuel room rfl
  have hend : skipSpace (lineBreak outer ++ '\x7d' :: rest) = '\x7d' :: rest :=
    skipSpace_lineBreak outer _
  simp only [entries, skipSpace_key, string_written, hcolon, hvalue, h, hend]
  rfl

theorem entries_next (key : String) (h : value fuel room s = some (j, ',' :: rest)) :
    entries (fuel + 1) room (lineBreak level ++ (quote key ++ ':' :: ' ' :: s)) =
      (entries fuel room rest).map fun p => (consEntry (some key) j p.1, p.2) := by
  have hcolon : skipSpace (':' :: ' ' :: s) = ':' :: ' ' :: s := rfl
  have hvalue : value fuel room (' ' :: s) = value fuel room s := value_congr fuel room rfl
  have hcomma : skipSpace (',' :: rest) = ',' :: rest := rfl
  simp only [entries, skipSpace_key, string_written, hcolon, hvalue, h, hcomma]

end

theorem length_lineBreak (level : Nat) : (lineBreak level).length = 2 * level + 1 := by
  simp [lineBreak]

theorem container_of_pos {room : Nat} (h : 0 < room) (j : Json) : container room j = j :=
  if_neg (Nat.ne_of_gt h)

-- A value takes no more steps than characters are written for it. That goes through the lists as
-- well: they are read from where their first member has been read.
mutual
theorem value_prettyChars (j : Json) (hwordy : j.isWordy = true) (fuel room level : Nat)
    (hroom : j.depth ≤ room) (hfuel : (prettyChars level j).length ≤ fuel) (rest : List Char) :
    value fuel room (prettyChars level j ++ rest) = some (j, rest) := by
  obtain ⟨c, cs, hchars, -⟩ := exists_prettyChars_eq level hwordy
  obtain ⟨fuel, rfl⟩ : ∃ n, fuel = n + 1 := by
    rw [hchars, List.length_cons] at hfuel
    exact ⟨fuel - 1, by omega⟩
  match j with
  | .null => rfl
  | .bool true => rfl
  | .bool false => rfl
  | .string s => exact value_quote fuel room s rest
  | .array [] => exact congrArg (fun j => some (j, rest)) (container_of_pos hroom _)
  | .array (j :: js) =>
    obtain ⟨hj, hjs⟩ := Bool.and_eq_true_iff.mp hwordy
    have hpos : 0 < room := Nat.lt_of_lt_of_le (Nat.succ_pos _) hroom
    simp only [depth, depthElements] at hroom
    simp only [prettyChars, List.length_append, List.length_cons, length_lineBreak] at hfuel
    obtain ⟨fuel, rfl⟩ : ∃ n, fuel = n + 1 := ⟨fuel - 1, by omega⟩
    have hfirst := value_prettyChars j hj fuel (room - 1) (level + 1) (by omega) (by omega)
      (prettyElements (level + 1) js ++ (lineBreak level ++ ']' :: rest))
    have hskip := skipSpace_lineBreak (level + 1) (prettyChars (level + 1) j ++
      (prettyElements (level + 1) js ++ (lineBreak level ++ ']' :: rest)))
    have hread := elements_prettyElements js hjs fuel (room - 1) (level + 1) level (by omega)
      (by omega) ((value_congr fuel (room - 1) hskip).trans hfirst)
    have hstart : ∀ tail, skipSpace (lineBreak (level + 1) ++ (prettyChars (level + 1) j ++
        (prettyElements (level + 1) js ++ (lineBreak level ++ ']' :: rest)))) ≠ ']' :: tail := by
      rw [hskip]
      exact skipSpace_prettyChars (level + 1) hj _
    simp only [prettyChars, List.append_assoc, List.cons_append, List.nil_append]
    rw [value_array _ _ hstart, hread, Option.map_some, container_of_pos hpos]
  | .object [] => exact congrArg (fun j => some (j, rest)) (container_of_pos hroom _)
  | .object ((key, j) :: es) =>
    obtain ⟨hj, hes⟩ := Bool.and_eq_true_iff.mp hwordy
    have hpos : 0 < room := Nat.lt_of_lt_of_le (Nat.succ_pos _) hroom
    simp only [depth, depthEntries] at hroom
    simp only [prettyChars, List.length_append, List.length_cons, length_lineBreak] at hfuel
    obtain ⟨fuel, rfl⟩ : ∃ n, fuel = n + 1 := ⟨fuel - 1, by omega⟩
    have hfirst := value_prettyChars j hj fuel (room - 1) (level + 1) (by omega) (by omega)
      (prettyEntries (level + 1) es ++ (lineBreak level ++ '\x7d' :: rest))
    have hread := entries_prettyEntries es hes fuel (room - 1) (level + 1) level (by omega)
      (by omega) key hfirst
    have hstart : ∀ tail, skipSpace (lineBreak (level + 1) ++ (quote key ++ ':' :: ' ' ::
        (prettyChars (level + 1) j ++ (prettyEntries (level + 1) es ++
          (lineBreak level ++ '\x7d' :: rest))))) ≠ '\x7d' :: tail := by
      rw [skipSpace_key]
      simp
    simp only [prettyChars, List.append_assoc, List.cons_append, List.nil_append]
    rw [value_object _ _ hstart, hread, Option.map_some, container_of_pos hpos]
    rfl

theorem elements_prettyElements (js : List Json) (hwordy : areWordy js = true)
    (fuel room level outer : Nat) (hroom : depthElements js ≤ room)
    (hfuel : (prettyElements level js).length ≤ fuel) {s rest : List Char} {j : Json}
    (h : value fuel room s =
      some (j, prettyElements level js ++ (lineBreak outer ++ ']' :: rest))) :
    elements (fuel + 1) room s = some (j :: js, rest) := by
  match js with
  | [] => exact elements_last h
  | k :: ks =>
    obtain ⟨hk, hks⟩ := Bool.and_eq_true_iff.mp hwordy
    simp only [depthElements] at hroom
    simp only [prettyElements, List.length_append, List.length_cons, length_lineBreak] at hfuel
    obtain ⟨fuel, rfl⟩ : ∃ n, fuel = n + 1 := ⟨fuel - 1, by omega⟩
    have hfirst := value_prettyChars k hk fuel room level (by omega) (by omega)
      (prettyElements level ks ++ (lineBreak outer ++ ']' :: rest))
    have hskip := value_congr fuel room (skipSpace_lineBreak level (prettyChars level k ++
      (prettyElements level ks ++ (lineBreak outer ++ ']' :: rest))))
    have hread := elements_prettyElements ks hks fuel room level outer (by omega) (by omega)
      (hskip.trans hfirst)
    simp only [prettyElements, List.append_assoc, List.cons_append] at h
    rw [elements_next h, hread, Option.map_some]

theorem entries_prettyEntries (es : List (String × Json)) (hwordy : areEntriesWordy es = true)
    (fuel room level outer : Nat) (hroom : depthEntries es ≤ room)
    (hfuel : (prettyEntries level es).length ≤ fuel) {s rest : List Char} (key : String) {j : Json}
    (h : value fuel room s =
      some (j, prettyEntries level es ++ (lineBreak outer ++ '\x7d' :: rest))) :
    entries (fuel + 1) room (lineBreak level ++ (quote key ++ ':' :: ' ' :: s)) =
      some (some ((key, j) :: es), rest) := by
  match es with
  | [] => exact entries_last key h
  | (other, k) :: es =>
    obtain ⟨hk, hes⟩ := Bool.and_eq_true_iff.mp hwordy
    simp only [depthEntries] at hroom
    simp only [prettyEntries, List.length_append, List.length_cons, length_lineBreak] at hfuel
    obtain ⟨fuel, rfl⟩ : ∃ n, fuel = n + 1 := ⟨fuel - 1, by omega⟩
    have hfirst := value_prettyChars k hk fuel room level (by omega) (by omega)
      (prettyEntries level es ++ (lineBreak outer ++ '\x7d' :: rest))
    have hread := entries_prettyEntries es hes fuel room level outer (by omega) (by omega) other
      hfirst
    simp only [prettyEntries, List.append_assoc, List.cons_append, List.nil_append] at h
    rw [entries_next key h, hread, Option.map_some]
    rfl
end

end Reader

/-- Reading the text of a value gives the value back. -/
theorem scan?_pretty {j : Json} (hwordy : j.isWordy = true)
    (hdepth : j.depth ≤ Reader.nestingLimit) :
    scan? j.pretty = some j := by
  have hread := Reader.value_prettyChars j hwordy (2 * (prettyChars 0 j).length + 2)
    Reader.nestingLimit 0 hdepth (by omega) []
  rw [List.append_nil] at hread
  rw [scan?, pretty, String.toList_ofList, hread]
  rfl

end TypeScribe.Json
