import TypeScribe.Convert
import TypeScribe.Proofs.Layout.Typeset

/-!
# What a writer writes

A text is written behind what stands there already, with the indentation in front of it at the start
of a line. So a writer only ever adds to its text, and what it adds does not depend on the text
before.
-/
namespace TypeScribe
set_option autoImplicit false

theorem pushed_eq (text unit : String) (n : Nat) : pushed text unit n = text ++ repeated unit n := by
  induction n generalizing text with
  | zero => exact String.append_empty.symm
  | succ n ih => rw [pushed, ih, repeated, String.append_assoc]

namespace Writer

/-- What comes before the next text. -/
def pad (w : Writer) : String := if w.atLineStart then repeated w.margins.indent w.level else ""

theorem write_empty (w : Writer) : w.write "" = w := rfl

theorem write_of_ne (w : Writer) {s : String} (hs : s ≠ "") :
    w.write s = { w with written := w.written ++ w.pad ++ s, atLineStart := false } := by
  cases hstart : w.atLineStart <;> simp [write, beginLine, pad, hs, hstart, pushed_eq]

theorem level_write (w : Writer) (s : String) : (w.write s).level = w.level := by
  by_cases hs : s = ""
  · rw [hs, write_empty]
  · rw [w.write_of_ne hs]

theorem margins_write (w : Writer) (s : String) : (w.write s).margins = w.margins := by
  by_cases hs : s = ""
  · rw [hs, write_empty]
  · rw [w.write_of_ne hs]

theorem written_write (w : Writer) {s : String} (hs : s ≠ "") :
    (w.write s).written = w.written ++ w.pad ++ s := by
  rw [w.write_of_ne hs]

theorem written_newline {config : Config} {w : Writer} (h : w.margins = config.margins) :
    w.newline.written = w.written ++ config.endOfLine := by
  rw [newline, h]
  rfl

theorem write_write (w : Writer) (s t : String) : (w.write s).write t = w.write (s ++ t) := by
  by_cases hs : s = ""
  · rw [hs, write_empty, String.empty_append]
  · by_cases ht : t = ""
    · rw [ht, write_empty, String.append_empty]
    · have hst : s ++ t ≠ "" := by simp [hs]
      rw [write_of_ne _ ht, w.write_of_ne hs, w.write_of_ne hst]
      simp [pad, String.append_assoc]

/-- The second writer has come from the first by writing. -/
structure Extends (w w' : Writer) : Prop where
  margins : w'.margins = w.margins
  written : ∃ added, w'.written = w.written ++ added

theorem extends_refl (w : Writer) : w.Extends w := ⟨rfl, "", String.append_empty.symm⟩

theorem extends_invariant (w : Writer) : Sheet.Invariant w.Extends where
  write := by
    rintro w' ⟨hmargins, added, hwritten⟩ s
    refine ⟨(w'.margins_write s).trans hmargins, ?_⟩
    change ∃ more, (w'.write s).written = _
    by_cases hs : s = ""
    · exact ⟨added, by rw [hs, write_empty, hwritten]⟩
    · exact ⟨added ++ w'.pad ++ s, by rw [w'.written_write hs, hwritten]; simp [String.append_assoc]⟩
  newline := by
    rintro w' ⟨hmargins, added, hwritten⟩
    refine ⟨hmargins, added ++ w'.margins.endOfLine, ?_⟩
    change w'.written ++ w'.margins.endOfLine = _
    rw [hwritten, String.append_assoc]
  indent h := ⟨h.margins, h.written⟩
  outdent h := ⟨h.margins, h.written⟩

theorem Extends.of_typeset {config : Config} {w w' : Writer} {d : Doc}
    (h : typeset config w d = .ok w') : w.Extends w' :=
  w.extends_invariant.typeset w.extends_refl h

theorem margins_typesetPiece {config : Config} {w w' : Writer} {p : Piece}
    (h : typesetPiece config w p = .ok w') : w'.margins = w.margins := by
  have hsingle : typeset config w [p] = .ok w' := by
    rw [typeset, h]
    rfl
  exact (Extends.of_typeset hsingle).margins

/-- The writer with a text before what it has written. -/
def behind (past : String) (w : Writer) : Writer := { w with written := past ++ w.written }

theorem behind_simulation (past : String) :
    Sheet.Simulation fun w v : Writer => v = w.behind past where
  write := by
    rintro w _ rfl s
    change (w.behind past).write s = (w.write s).behind past
    by_cases hs : s = ""
    · rw [hs, write_empty, write_empty]
    · have hpad : (w.behind past).pad = w.pad := rfl
      rw [write_of_ne _ hs, write_of_ne _ hs, hpad]
      simp [behind, String.append_assoc]
  newline := by
    rintro w _ rfl
    change (w.behind past).newline = w.newline.behind past
    simp [behind, newline, String.append_assoc]
  indent := by
    rintro w _ rfl
    rfl
  outdent := by
    rintro w _ rfl
    rfl

theorem typeset_behind (config : Config) (past : String) (w : Writer) (d : Doc) :
    typeset config (w.behind past) d = (typeset config w d).map (behind past) := by
  have hend := (behind_simulation past).typeset (a := w) rfl config d
  generalize typeset config (w.behind past) d = second at hend
  generalize typeset config w d = first at hend
  cases hend with
  | ok h => exact congrArg Except.ok h
  | error e => rfl

end Writer

variable {u : CompilationUnit} {config : Config} {classPath : ClassIndex}

theorem convert_ok {s : String} (h : convert u config classPath = .ok s) :
    ∃ w, typeset config config.writer (u.script config.wrapPackageNamespace classPath) = .ok w ∧
      w.written = s := by
  unfold convert at h
  cases hw : typeset config config.writer (u.script config.wrapPackageNamespace classPath) with
  | error e => simp [hw, Except.map] at h
  | ok w => exact ⟨w, rfl, by simpa [hw, Except.map] using h⟩

theorem convert_error {e : EmitError} :
    convert u config classPath = .error e ↔
      typeset config config.writer (u.script config.wrapPackageNamespace classPath) = .error e := by
  unfold convert
  cases typeset config config.writer (u.script config.wrapPackageNamespace classPath) <;>
    simp [Except.map]

end TypeScribe
