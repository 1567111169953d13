import TypeScribe.Proofs.ClassIndex.DeclaredTypes
import TypeScribe.Proofs.Text.Segments

/-!
# How binary names end

A binary name is a qualifier and a last segment, where the qualifier is empty or ends with a
separator. A plain name behind such a qualifier is the last segment. Writing nesting signs as dots
changes the separators and leaves the last segment as it is.
-/
namespace TypeScribe
set_option autoImplicit false
open TypeDescriptor

/-- Whether the character divides the segments of a binary name. -/
def isSeparator (c : Char) : Bool := c == '.' || isNestingSign c

/-- The last segment of a binary name. -/
def lastName (binaryName : String) : String := Text.lastSegment isSeparator binaryName

theorem isSeparator_iff {c : Char} : isSeparator c = true ↔ c = '.' ∨ c = nestingSign := by
  rw [isSeparator, Bool.or_eq_true, beq_iff_eq, isNestingSign, beq_iff_eq]

theorem isPlainName_lastName (text : String) : IsPlainName (lastName text) := by
  have hfree := (Text.lastSegment_cases isSeparator text).1
  exact ⟨fun h => absurd (hfree _ h) (by decide), fun h => absurd (hfree _ h) (by decide)⟩

/-- The text is the name behind a qualifier that is empty or ends with a separator. -/
def EndsIn (name text : String) : Prop :=
  ∃ qualifier : String, EndsApart qualifier.toList ∧ text = qualifier ++ name

theorem endsIn_lastName (text : String) : EndsIn (lastName text) text := by
  obtain ⟨-, qualifier, hqualifier, htext⟩ := Text.lastSegment_cases isSeparator text
  exact ⟨qualifier, fun c hc => isSeparator_iff.mp (hqualifier c hc), htext⟩

/-- A text that ends in a plain name has it as its last segment. -/
theorem EndsIn.lastName_eq {name text : String} (h : EndsIn name text) (hname : IsPlainName name) :
    lastName text = name := by
  obtain ⟨qualifier, hqualifier, htext⟩ := h
  obtain ⟨other, hother, hlast⟩ := endsIn_lastName text
  have hchars : other.toList ++ (lastName text).toList = qualifier.toList ++ name.toList := by
    rw [← String.toList_append, ← String.toList_append, ← hlast, htext]
  exact String.toList_inj.mp
    (plain_suffix_eq hchars hother hqualifier (isPlainName_lastName text) hname).2

theorem endsIn_behind (sep : Char) (hsep : isSeparator sep = true) (before name : String) :
    EndsIn name (before.push sep ++ name) := by
  refine ⟨before.push sep, fun c hc => ?_, rfl⟩
  rw [String.toList_push, List.getLast?_concat] at hc
  cases hc
  exact isSeparator_iff.mp hsep

/-- The dotted form of a text that ends in a name is that of the name behind a dot, if anything
stands before it. -/
theorem EndsIn.map_dotted {name text : String} (h : EndsIn name text) :
    ∃ qualifier, IsTopQualifier qualifier ∧ text.map dotted = qualifier ++ name.map dotted := by
  obtain ⟨qualifier, hqualifier, rfl⟩ := h
  refine ⟨qualifier.map dotted, fun c hc => ?_, map_dotted_append qualifier name⟩
  rw [String.toList_map, List.getLast?_map] at hc
  obtain ⟨sign, hsign, rfl⟩ := Option.map_eq_some_iff.mp hc
  rcases hqualifier sign hsign with rfl | rfl <;> rfl

theorem IsTopQualifier.endsIn {qualifier : String} (h : IsTopQualifier qualifier) (name : String) :
    EndsIn name (qualifier ++ name) :=
  ⟨qualifier, fun c hc => .inl (h c hc), rfl⟩

theorem IsTopQualifier.eq_empty_or_dot {qualifier : String} (h : IsTopQualifier qualifier) :
    qualifier = "" ∨ ∃ before, qualifier = before ++ "." := by
  rcases List.eq_nil_or_concat' qualifier.toList with hnil | ⟨before, c, hchars⟩
  · exact .inl (String.toList_inj.mp hnil)
  · have hdot : c = '.' := by
      apply h
      rw [hchars, List.getLast?_concat]
      rfl
    refine .inr ⟨String.ofList before, String.toList_inj.mp ?_⟩
    simp [hchars, hdot]

theorem sign_notMem_map_dotted (text : String) : nestingSign ∉ (text.map dotted).toList := by
  rw [String.toList_map]
  intro hsign
  obtain ⟨c, -, hc⟩ := List.mem_map.mp hsign
  unfold dotted at hc
  split at hc
  · cases hc
  · next hother =>
    rw [hc] at hother
    exact hother rfl

theorem map_dotted_map_dotted (text : String) : (text.map dotted).map dotted = text.map dotted :=
  map_dotted_eq (sign_notMem_map_dotted text)

theorem lastName_map_dotted (text : String) : lastName (text.map dotted) = lastName text := by
  have hplain := isPlainName_lastName text
  obtain ⟨qualifier, hqualifier, htext⟩ := (endsIn_lastName text).map_dotted
  rw [map_dotted_eq hplain.2] at htext
  rw [htext]
  exact (hqualifier.endsIn _).lastName_eq hplain

theorem TypeDescriptor.lastName_qualifiedName (d : TypeDescriptor) :
    lastName d.qualifiedName = lastName d.binaryName :=
  lastName_map_dotted d.binaryName

end TypeScribe
