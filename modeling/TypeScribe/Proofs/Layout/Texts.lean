import TypeScribe.Proofs.Script.TypeNames

/-!
# Documents of texts

A document that consists of texts is written on one line, in one piece. So its text is settled by its
characters, and two such documents have the same text if and only if they have the same characters.
-/
namespace TypeScribe
set_option autoImplicit false

def Piece.chars : Piece → List Char
  | .text s => s.toList
  | _ => []

namespace Doc

/-- The document consists of texts. -/
def IsPlain (d : Doc) : Prop := ∀ p ∈ d, ∃ s, p = .text s

/-- The characters of the texts in a document. -/
def chars (d : Doc) : List Char := d.flatMap Piece.chars

variable {d e : Doc}

theorem isPlain_nil : IsPlain [] := List.forall_mem_nil _

theorem isPlain_text (s : String) : IsPlain (text s) := List.forall_mem_singleton.mpr ⟨s, rfl⟩

theorem IsPlain.append (hd : d.IsPlain) (he : e.IsPlain) : IsPlain (d ++ e) :=
  List.forall_mem_append.mpr ⟨hd, he⟩

@[simp] theorem chars_nil : chars [] = [] := rfl

@[simp] theorem chars_text (s : String) : chars (text s) = s.toList := List.append_nil _

@[simp] theorem chars_append (d e : Doc) : chars (d ++ e) = d.chars ++ e.chars := List.flatMap_append

/-- Texts in order are written as one text. -/
theorem IsPlain.writesAs (hd : d.IsPlain) : d.WritesAs (text (String.ofList d.chars)) := by
  induction d with
  | nil => exact fun config w => rfl
  | cons p rest ih =>
    obtain ⟨⟨s, rfl⟩, hrest⟩ := List.forall_mem_cons.mp hd
    intro config w
    have hjoined : String.ofList (chars (.text s :: rest)) = s ++ String.ofList (chars rest) := by
      rw [← String.toList_inj]
      simp [chars, Piece.chars]
    rw [hjoined]
    change typeset config (w.write s) rest = .ok (w.write (s ++ _))
    rw [ih hrest config, ← Writer.write_write]
    rfl

theorem IsPlain.textAt_eq (hd : d.IsPlain) (config : Config) (level : Nat) :
    d.textAt config level =
      .ok ((config.writerAt level).write (String.ofList d.chars)).written := by
  rw [hd.writesAs.textAt]
  rfl

theorem IsPlain.textAt_zero (hd : d.IsPlain) (config : Config) :
    d.textAt config 0 = .ok (String.ofList d.chars) := by
  rw [hd.textAt_eq]
  by_cases hchars : String.ofList d.chars = ""
  · rw [hchars]
    rfl
  · rw [Writer.written_write _ hchars]
    exact congrArg Except.ok String.empty_append

end Doc

theorem Writer.eq_empty_of_written_write (w : Writer) {s : String}
    (h : (w.write s).written = w.written) : s = "" := by
  by_contra hs
  have hadded : w.written ++ (w.pad ++ s) = w.written ++ "" := by
    rw [String.append_empty, ← String.append_assoc, ← w.written_write hs, h]
  exact hs (String.append_eq_empty_iff.mp ((String.append_right_inj _).mp hadded)).2

theorem Writer.written_write_injective (w : Writer) {s t : String}
    (h : (w.write s).written = (w.write t).written) : s = t := by
  by_cases hs : s = ""
  · subst hs
    exact (w.eq_empty_of_written_write h.symm).symm
  · by_cases ht : t = ""
    · subst ht
      exact w.eq_empty_of_written_write h
    · rw [w.written_write hs, w.written_write ht] at h
      exact (String.append_right_inj _).mp h

/-- The text of a document of texts tells its characters. -/
theorem Doc.IsPlain.textAt_eq_iff {d e : Doc} (hd : d.IsPlain) (he : e.IsPlain) (config : Config)
    (level : Nat) : d.textAt config level = e.textAt config level ↔ d.chars = e.chars := by
  rw [hd.textAt_eq, he.textAt_eq]
  constructor
  · intro h
    exact String.ofList_injective (Writer.written_write_injective _ (Except.ok.inj h))
  · intro h
    rw [h]

end TypeScribe
