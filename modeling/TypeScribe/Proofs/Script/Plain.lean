import TypeScribe.Proofs.Script.Compose

/-!
# Properties of all pieces of a document

A property of pieces that holds of texts, layout steps, comments and markers is passed on by every
way of putting documents together: what is made of documents whose pieces all have it is such a
document again. Nothing is asked of the texts, so their alphabet is that of all characters.
-/
namespace TypeScribe
set_option autoImplicit false
open Text

/-- Every piece of the document has the property. -/
def Doc.Every (P : Piece → Prop) (d : Doc) : Prop := ∀ p ∈ d, P p

/-- The property holds of the pieces that any node may write. -/
structure HoldsPlainly (P : Piece → Prop) : Prop where
  text : ∀ s, P (.text s)
  newline : P .newline
  indent : P .indent
  outdent : P .outdent
  comment : ∀ c, P (.comment c)
  unsupported : ∀ c, P (.unsupported c)

namespace Doc

variable {P : Piece → Prop} {d e : Doc}

@[simp] theorem every_nil : Every P [] := by
  intro p hp
  cases hp

@[simp] theorem every_cons {p : Piece} : Every P (p :: d) ↔ P p ∧ Every P d :=
  List.forall_mem_cons

@[simp] theorem every_append : Every P (d ++ e) ↔ Every P d ∧ Every P e :=
  List.forall_mem_append

end Doc

/-- The alphabet of all characters. -/
def anyLetter (_ : Char) : Bool := true

theorem over_anyLetter (s : String) : Over anyLetter s := over_iff.mpr fun _ _ => rfl

/-- The spelling that admits every text. -/
abbrev anySpelling : Spelling := .over anyLetter

namespace HoldsPlainly

variable {P : Piece → Prop} (hP : HoldsPlainly P)

include hP

theorem textDoc (s : String) : Doc.Every P (Doc.text s) := by simp [Doc.text, hP.text]

theorem newlineDoc : Doc.Every P Doc.newline := by simp [Doc.newline, hP.newline]

theorem line (s : String) : Doc.Every P (Doc.line s) := by simp [Doc.line, hP.text, hP.newline]

theorem uniform : Uniform anySpelling (Doc.Every P) where
  letter _ _ := rfl
  nil := Doc.every_nil
  append hd he := Doc.every_append.mpr ⟨hd, he⟩
  text _ _ := hP.textDoc _
  value _ := hP.textDoc _
  newline := hP.newlineDoc
  comment _ := Doc.every_cons.mpr ⟨hP.comment _, Doc.every_nil⟩
  unsupported _ := Doc.every_cons.mpr ⟨hP.unsupported _, Doc.every_nil⟩
  indented h := by simp [Doc.indented, hP.indent, hP.outdent, h]
  enclosed _ _ h := by simp [Doc.between, hP.textDoc, h]
  applied _ _ h := by simp [Doc.between, hP.textDoc, h]
  switched hd he := by simp [hP.textDoc, hd, he]

theorem composes : Composes anySpelling (Doc.Every P) (Doc.Every P) (Doc.Every P) :=
  hP.uniform.composes

end HoldsPlainly
end TypeScribe
