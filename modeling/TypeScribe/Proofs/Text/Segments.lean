import TypeScribe.Text.Segment

/-!
# Cutting and joining

To cut a text at a character is to split it, and `joinWith` is the `intercalate` of strings. So each
undoes the other: the segments of a text join to the text, and segments without the character can be
read off their join. Empty segments are kept both ways.
-/
namespace TypeScribe.Text
set_option autoImplicit false

variable {c : Char}

theorem cut_eq_splitOnP (isSep : Char → Bool) (cs : List Char) :
    (cut isSep cs).1 :: (cut isSep cs).2 = cs.splitOnP isSep := by
  induction cs with
  | nil => rfl
  | cons c cs ih =>
    rw [cut, List.splitOnP_cons_eq_if_modifyHead, ← ih]
    split <;> rfl

theorem segments_eq_splitOn (c : Char) (s : String) :
    segments (· == c) s = (s.toList.splitOn c).map String.ofList := by
  rw [List.splitOn, ← cut_eq_splitOnP]
  rfl

theorem segments_eq_split (c : Char) (s : String) :
    segments (· == c) s = (s.split c).toList.map String.Slice.copy := by
  rw [String.toList_split_char, segments_eq_splitOn]

theorem joinWith_eq_intercalate (sep : String) (texts : List String) :
    joinWith sep texts = sep.intercalate texts := by
  induction texts with
  | nil => rfl
  | cons first rest ih =>
    cases rest with
    | nil => exact String.intercalate_singleton.symm
    | cons next rest => rw [joinWith, ih, String.intercalate_cons_cons]

theorem joinWith_concat (sep first : String) (rest : List String) (last : String) :
    joinWith sep (first :: rest ++ [last]) = joinWith sep (first :: rest) ++ sep ++ last := by
  rw [joinWith_eq_intercalate, joinWith_eq_intercalate,
    String.intercalate_append_of_ne_nil (List.cons_ne_nil _ _) (List.cons_ne_nil _ _),
    String.intercalate_singleton]

theorem joinWith_append_cons (sep before first : String) (rest : List String) :
    joinWith sep ((before ++ first) :: rest) = before ++ joinWith sep (first :: rest) := by
  rw [joinWith_eq_intercalate, joinWith_eq_intercalate, String.intercalate_cons_append]

theorem joinWith_cons_eq_join (sep first : String) (rest : List String) :
    joinWith sep (first :: rest) = first ++ String.join (rest.map (sep ++ ·)) := by
  induction rest generalizing first with
  | nil => simp [joinWith]
  | cons next rest ih =>
    rw [joinWith, ih, List.map_cons, String.join_cons, String.append_assoc, String.append_assoc]

theorem notMem_joinWith {d : Char} (hne : d ≠ c) {names : List String}
    (h : ∀ s ∈ names, d ∉ s.toList) : d ∉ (joinWith (String.singleton c) names).toList := by
  induction names with
  | nil => simp [joinWith]
  | cons first rest ih =>
    obtain ⟨hfirst, hrest⟩ := List.forall_mem_cons.mp h
    cases rest with
    | nil => exact hfirst
    | cons next rest => simp [joinWith, hfirst, hne, ih hrest]

theorem segments_of_notMem {s : String} (h : c ∉ s.toList) : segments (· == c) s = [s] := by
  rw [segments_eq_splitOn, List.splitOn_eq_singleton h, List.map_singleton, String.ofList_toList]

theorem segments_concat (before : String) {last : String} (h : c ∉ last.toList) :
    segments (· == c) (before ++ String.singleton c ++ last) = segments (· == c) before ++ [last] := by
  have hchars : (before ++ String.singleton c ++ last).toList =
      before.toList ++ c :: last.toList := by simp
  rw [← segments_of_notMem h, segments_eq_splitOn, hchars, List.splitOn_append_cons_self,
    List.map_append, segments_eq_splitOn, segments_eq_splitOn]

/-- Segments that were joined can be read off the text again. -/
theorem segments_joinWith {first : String} {rest : List String}
    (h : ∀ s ∈ first :: rest, c ∉ s.toList) :
    segments (· == c) (joinWith (String.singleton c) (first :: rest)) = first :: rest := by
  rw [segments_eq_split, joinWith_eq_intercalate]
  exact (String.toList_split_intercalate h).trans (if_neg (List.cons_ne_nil _ _))

theorem joinWith_segments (c : Char) (s : String) :
    joinWith (String.singleton c) (segments (· == c) s) = s := by
  refine String.toList_inj.mp ?_
  have hchars : (segments (· == c) s).map String.toList = s.toList.splitOn c := by
    rw [segments_eq_splitOn, List.map_map]
    exact List.map_id'' (fun _ => String.toList_ofList) _
  rw [joinWith_eq_intercalate, String.toList_intercalate, hchars, String.toList_singleton,
    List.intercalate_splitOn]

theorem cut_infix (isSep : Char → Bool) (cs : List Char) :
    (cut isSep cs).1 <+: cs ∧ ∀ segment ∈ (cut isSep cs).2, segment <:+: cs := by
  induction cs with
  | nil => exact ⟨List.prefix_rfl, List.forall_mem_nil _⟩
  | cons c rest ih =>
    have hrest {segment : List Char} (h : segment <:+: rest) : segment <:+: c :: rest :=
      h.trans (List.suffix_cons c rest).isInfix
    rw [cut]
    split
    · refine ⟨List.nil_prefix, List.forall_mem_cons.mpr ⟨hrest ih.1.isInfix, ?_⟩⟩
      exact fun segment hsegment => hrest (ih.2 segment hsegment)
    · refine ⟨(List.prefix_cons_inj c).mpr ih.1, ?_⟩
      exact fun segment hsegment => hrest (ih.2 segment hsegment)

theorem infix_of_mem_segments {isSep : Char → Bool} {s t : String} (h : t ∈ segments isSep s) :
    t.toList <:+: s.toList := by
  obtain ⟨hfirst, hothers⟩ := cut_infix isSep s.toList
  rcases List.mem_cons.mp h with rfl | ht
  · rw [String.toList_ofList]
    exact hfirst.isInfix
  · obtain ⟨segment, hsegment, rfl⟩ := List.mem_map.mp ht
    rw [String.toList_ofList]
    exact hothers segment hsegment

/-- A word without separators is its own only part; any other ends with a separator and its last
part. -/
theorem cut_cases (isSep : Char → Bool) (cs : List Char) :
    (cut isSep cs = (cs, []) ∧ ∀ c ∈ cs, isSep c = false) ∨
      ∃ first rest last before sep, cut isSep cs = (first, rest ++ [last]) ∧ isSep sep = true ∧
        cs = before ++ sep :: last ∧ ∀ c ∈ last, isSep c = false := by
  induction cs with
  | nil => exact .inl ⟨rfl, fun c hc => nomatch hc⟩
  | cons c cs ih =>
    rw [cut]
    rcases ih with ⟨hcut, hfree⟩ | ⟨first, rest, last, before, sep, hcut, hsep, rfl, hfree⟩
    · rw [hcut]
      split
      · next hc => exact .inr ⟨[], [], cs, [], c, rfl, hc, rfl, hfree⟩
      · next hc => exact .inl ⟨rfl, List.forall_mem_cons.mpr ⟨(Bool.not_eq_true _).mp hc, hfree⟩⟩
    · rw [hcut]
      refine .inr ?_
      split
      · exact ⟨[], first :: rest, last, c :: before, sep, rfl, hsep, rfl, hfree⟩
      · exact ⟨c :: first, rest, last, c :: before, sep, rfl, hsep, rfl, hfree⟩

theorem lastSegment_cases (isSep : Char → Bool) (s : String) :
    (∀ c ∈ (lastSegment isSep s).toList, isSep c = false) ∧
      ∃ qualifier : String, (∀ c ∈ qualifier.toList.getLast?, isSep c = true) ∧
        s = qualifier ++ lastSegment isSep s := by
  rcases cut_cases isSep s.toList with
    ⟨hcut, hfree⟩ | ⟨first, rest, last, before, sep, hcut, hsep, hsplit, hfree⟩
  · have hlast : lastSegment isSep s = s := by simp [lastSegment, segments, hcut]
    rw [hlast]
    exact ⟨hfree, "", nofun, by simp⟩
  · have hlast : lastSegment isSep s = String.ofList last := by
      rw [lastSegment, segments, hcut, List.getLastD_cons, List.map_append]
      exact List.getLastD_concat
    rw [hlast]
    refine ⟨by simpa using hfree, String.ofList (before ++ [sep]), by simpa using hsep, ?_⟩
    refine String.toList_inj.mp ?_
    simp [hsplit]

end TypeScribe.Text
