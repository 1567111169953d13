import TypeScribe.Proofs.Layout.Lines

/-!
# Margins

The margins lay out the lines of a text and decide nothing else. A page keeps the lines, with their
levels, and knows no margins. A writer with any margins goes along with the page step by step: it
stands where the page stands, and its text is the page as it is rendered with these margins. So one
page is behind the texts of a unit with all margins.
-/
namespace TypeScribe
set_option autoImplicit false

theorem repeated_eq_join (unit : String) (n : Nat) :
    repeated unit n = String.join (List.replicate n unit) := by
  induction n with
  | zero => rfl
  | succ n ih => rw [repeated, ih, List.replicate_succ, String.join_cons]

namespace Page

variable (margins : Margins)

theorem renderLines_eq_join (lines : List Line) :
    renderLines margins lines =
      String.join (lines.map fun line => line.render margins ++ margins.endOfLine) := by
  induction lines with
  | nil => rfl
  | cons line rest ih => rw [renderLines, ih, List.map_cons, String.join_cons]

theorem renderLines_append (lines more : List Line) :
    renderLines margins (lines ++ more) = renderLines margins lines ++ renderLines margins more := by
  rw [renderLines_eq_join, renderLines_eq_join, renderLines_eq_join, List.map_append,
    String.join_append]

theorem render_of_current_none {page : Page} (h : page.current = none) :
    page.render margins = renderLines margins page.lines := by
  rw [render, h]
  exact String.append_empty

theorem render_newline (page : Page) :
    page.newline.render margins = page.render margins ++ margins.endOfLine := by
  have hempty : Line.render margins { level := 0, text := "" } = "" := rfl
  have hcurrent : page.newline.current = none := rfl
  rw [render_of_current_none margins hcurrent, lines, newline, List.reverse_cons, renderLines_append,
    render, lines]
  cases page.current <;> simp [renderLines, hempty, String.append_assoc]

/-- The first text of a line comes with the indentation. -/
theorem render_write_first {page : Page} (h : page.current = none) {s : String} (hs : s ≠ "") :
    (page.write s).render margins =
      page.render margins ++ repeated margins.indent page.level ++ s := by
  simp [write, hs, h, render, lines, Line.render, String.append_assoc]

theorem render_write_next {page : Page} {line : Line} (h : page.current = some line)
    (hline : line.text ≠ "") {s : String} (hs : s ≠ "") :
    (page.write s).render margins = page.render margins ++ s := by
  simp [write, hs, h, render, lines, Line.render, hline, String.append_assoc]

end Page

/-- The writer stands where the page stands, and its text is the page as it is rendered. -/
structure Writer.Follows (margins : Margins) (w : Writer) (page : Page) : Prop where
  written : w.written = page.render margins
  margins : w.margins = margins
  level : w.level = page.level
  atLineStart : w.atLineStart = page.current.isNone
  /-- A line is begun with a text. -/
  begun : ∀ line ∈ page.current, line.text ≠ ""

namespace Writer.Follows

variable {margins : Margins} {w : Writer} {page : Page}

theorem start (margins : Margins) : Follows margins { margins := margins } {} where
  written := rfl
  margins := rfl
  level := rfl
  atLineStart := rfl
  begun := by rintro _ ⟨⟩

variable (h : Follows margins w page)

include h

theorem write (s : String) : Follows margins (w.write s) (page.write s) := by
  by_cases hs : s = ""
  · simpa [Writer.write, Page.write, hs] using h
  · rw [w.write_of_ne hs]
    cases hcurrent : page.current with
    | none =>
      have hpad : w.pad = repeated margins.indent page.level := by
        simp [pad, h.atLineStart, hcurrent, h.margins, h.level]
      have hpage : page.write s =
          { page with current := some { level := page.level, text := s } } := by
        simp [Page.write, hs, hcurrent]
      refine ⟨?_, h.margins, ?_, ?_, ?_⟩
      · rw [Page.render_write_first margins hcurrent hs, hpad, h.written]
      · rw [hpage, h.level]
      · rw [hpage, Option.isNone_some]
      · rw [hpage]
        rintro line ⟨⟩
        exact hs
    | some line =>
      have hline : line.text ≠ "" := h.begun line hcurrent
      have hpad : w.pad = "" := by simp [pad, h.atLineStart, hcurrent]
      have hpage : page.write s =
          { page with current := some { line with text := line.text ++ s } } := by
        simp [Page.write, hs, hcurrent]
      refine ⟨?_, h.margins, ?_, ?_, ?_⟩
      · rw [Page.render_write_next margins hcurrent hline hs, hpad, h.written, String.append_empty]
      · rw [hpage, h.level]
      · rw [hpage, Option.isNone_some]
      · rw [hpage]
        rintro _ ⟨⟩
        simp [hline]

theorem newline : Follows margins w.newline page.newline where
  written := by rw [Page.render_newline, Writer.newline, h.written, h.margins]
  margins := h.margins
  level := h.level
  atLineStart := rfl
  begun := by rintro _ ⟨⟩

theorem indent : Follows margins w.indent page.indent where
  written := h.written
  margins := h.margins
  level := congrArg (· + 1) h.level
  atLineStart := h.atLineStart
  begun := h.begun

theorem outdent : Follows margins w.outdent page.outdent where
  written := h.written
  margins := h.margins
  level := congrArg (· - 1) h.level
  atLineStart := h.atLineStart
  begun := h.begun

omit h

theorem simulation (margins : Margins) : Sheet.Simulation (Follows margins) where
  write h := h.write
  newline h := h.newline
  indent h := h.indent
  outdent h := h.outdent

end Writer.Follows

/-- The same configuration with other margins. -/
def Config.withMargins (config : Config) (indent endOfLine : String) : Config :=
  { config with indent := indent, endOfLine := endOfLine }

theorem typesetPiece_withMargins (config : Config) (indent endOfLine : String) (page : Page)
    (p : Piece) :
    typesetPiece (config.withMargins indent endOfLine) page p = typesetPiece config page p := by
  cases p <;> rfl

theorem typeset_withMargins (config : Config) (indent endOfLine : String) (page : Page) (d : Doc) :
    typeset (config.withMargins indent endOfLine) page d = typeset config page d := by
  induction d generalizing page with
  | nil => rfl
  | cons p rest ih =>
    rw [typeset, typeset, typesetPiece_withMargins]
    cases typesetPiece config page p with
    | error e => rfl
    | ok next => exact ih next

/-- With any margins, the run of a writer ends as the run of a page does. -/
theorem typeset_withMargins_alike (config : Config) (indent endOfLine : String) (d : Doc) :
    Sheet.EndAlike (Writer.Follows ⟨indent, endOfLine⟩)
      (typeset (config.withMargins indent endOfLine) (config.withMargins indent endOfLine).writer d)
      (typeset config ({} : Page) d) := by
  rw [← typeset_withMargins config indent endOfLine]
  exact (Writer.Follows.simulation _).typeset (Writer.Follows.start _) _ d

theorem Writer.Follows.written_eq_lines {margins : Margins} {w : Writer} {page : Page}
    (h : Follows margins w page) (hw : w.atLineStart = true) :
    w.written = String.join (page.lines.map fun line =>
      (if line.text = "" then ""
        else String.join (List.replicate line.level margins.indent) ++ line.text)
        ++ margins.endOfLine) := by
  have hcurrent : page.current = none := Option.isNone_iff_eq_none.mp (h.atLineStart.symm.trans hw)
  rw [h.written, Page.render_of_current_none _ hcurrent, Page.renderLines_eq_join]
  simp [Line.render, repeated_eq_join]

/-- Whatever the other options are, the margins only lay out: either conversion fails in the same
way for all margins, or one list of lines is written with each of them. A line with a text has its
indentation before it, a line without one is empty, and every line is ended. -/
theorem convert_lays_out_lines (u : CompilationUnit) (config : Config) (classPath : ClassIndex) :
    (∃ e, ∀ indent endOfLine,
      convert u (config.withMargins indent endOfLine) classPath = .error e) ∨
    ∃ lines : List Line, ∀ indent endOfLine,
      convert u (config.withMargins indent endOfLine) classPath =
        .ok (String.join (lines.map fun line =>
          (if line.text = "" then ""
            else String.join (List.replicate line.level indent) ++ line.text)
            ++ endOfLine)) := by
  have halike := fun indent endOfLine => typeset_withMargins_alike config indent endOfLine
    (u.script config.wrapPackageNamespace classPath)
  cases hpage : typeset config ({} : Page) (u.script config.wrapPackageNamespace classPath) with
  | error e =>
    refine .inl ⟨e, ?_⟩
    intro indent endOfLine
    have hend := halike indent endOfLine
    rw [hpage] at hend
    rw [convert_error]
    exact hend.eq_error
  | ok page =>
    refine .inr ⟨page.lines, ?_⟩
    intro indent endOfLine
    have hend := halike indent endOfLine
    rw [hpage] at hend
    obtain ⟨w, hw, hfollows⟩ := hend.exists_ok
    have hstart : w.atLineStart = true := u.endsLines_script _ classPath _ _ w rfl hw
    have hconvert : convert u (config.withMargins indent endOfLine) classPath = .ok w.written :=
      congrArg (Except.map Writer.written) hw
    rw [hconvert, hfollows.written_eq_lines hstart]

end TypeScribe
