import TypeScribe.Proofs.Layout.Writer

/-!
# Ended lines

A script ends every line that it begins, those of comments and imports as well as those of blocks. So
what is written for a unit ends at the start of a line.
-/
namespace TypeScribe
set_option autoImplicit false

theorem Sheet.put_append {σ : Type} [Sheet σ] (sheet : σ) (d e : Doc) :
    put sheet (d ++ e) = put (put sheet d) e :=
  List.foldl_append

namespace Doc

/-- Begun at the start of a line, the document ends at the start of a line. -/
def EndsLines (d : Doc) : Prop :=
  ∀ (config : Config) (w w' : Writer), w.atLineStart = true →
    typeset config w d = .ok w' → w'.atLineStart = true

theorem endsLines_nil : EndsLines [] := by
  intro config w w' hw h
  cases h
  exact hw

theorem EndsLines.append {d e : Doc} (hd : EndsLines d) (he : EndsLines e) :
    EndsLines (d ++ e) := by
  intro config w w' hw h
  obtain ⟨next, hnext, h⟩ := typeset_append_ok h
  exact he config next w' (hd config w next hw hnext) h

theorem endsLines_newline (d : Doc) : EndsLines (d ++ newline) := by
  intro config w w' _ h
  obtain ⟨next, -, h⟩ := typeset_append_ok h
  cases h
  rfl

theorem endsLines_line (s : String) : EndsLines (line s) := endsLines_newline (text s)

theorem endsLines_indent : EndsLines [.indent] := by
  intro config w w' hw h
  cases h
  exact hw

theorem endsLines_outdent : EndsLines [.outdent] := by
  intro config w w' hw h
  cases h
  exact hw

theorem endsLines_flatMap {α : Type} {as : List α} {f : α → Doc} (h : ∀ a ∈ as, EndsLines (f a)) :
    EndsLines (as.flatMap f) := by
  induction as with
  | nil => exact endsLines_nil
  | cons a rest ih =>
    obtain ⟨ha, hrest⟩ := List.forall_mem_cons.mp h
    exact ha.append (ih hrest)

end Doc

/-- A comment ends its last line. -/
theorem Comment.exists_doc_eq (c : Comment) : ∃ d, c.doc = d ++ Doc.newline := by
  unfold Comment.doc
  split
  · refine ⟨.text "/**" :: javadocLines (Text.segments (· == '\n') c.content) ++ Doc.text "*/", ?_⟩
    simp [Doc.line, Doc.text, Doc.newline]
  · exact ⟨.text "//" :: Doc.text _, rfl⟩
  · exact ⟨[.text "/*", .text _, .text "*/"], rfl⟩

theorem Doc.endsLines_comment (c : Option Comment) : EndsLines (comment c) := by
  cases c with
  | none => exact endsLines_nil
  | some c =>
    intro config w w' hw h
    obtain ⟨d, hd⟩ := c.exists_doc_eq
    cases h
    split
    · rw [hd, Sheet.put_append]
      rfl
    · exact hw

theorem Doc.endsLines_comments (cs : List Comment) : EndsLines (comments cs) := by
  induction cs with
  | nil => exact endsLines_nil
  | cons c rest ih => exact (endsLines_comment (some c)).append ih

namespace CompilationUnit

open Doc

theorem endsLines_import (i : Import) : EndsLines i.doc := by
  refine (endsLines_comment i.comment).append ?_
  split
  · exact endsLines_newline _
  · exact endsLines_line _

theorem endsLines_openNamespace (cx : Context) (package : Package) :
    EndsLines (openNamespace cx package) := by
  refine (EndsLines.append ?_ (endsLines_line _)).append endsLines_indent
  exact endsLines_flatMap fun d _ => endsLines_newline d

theorem endsLines_header (u : CompilationUnit) (wrap : Bool) (cx : Context) :
    EndsLines (u.header wrap cx) := by
  have himports : EndsLines (u.imports.flatMap Import.doc) :=
    endsLines_flatMap fun i _ => endsLines_import i
  refine (((endsLines_comment u.comment).append ?_).append himports).append ?_
  · split
    · exact endsLines_openNamespace cx _
    · exact endsLines_nil
  · split
    · exact endsLines_nil
    · exact endsLines_newline []

theorem endsLines_stacked (ds : List Doc) : EndsLines (stacked ds) := by
  induction ds with
  | nil => exact endsLines_nil
  | cons d rest ih =>
    cases rest with
    | nil => exact endsLines_newline d
    | cons e rest => exact (endsLines_newline _).append ih

theorem endsLines_footer (u : CompilationUnit) (wrap : Bool) : EndsLines (u.footer wrap) := by
  refine (endsLines_comments u.trailing).append ?_
  split
  · exact endsLines_outdent.append (endsLines_line _)
  · exact endsLines_nil

theorem endsLines_script (u : CompilationUnit) (wrap : Bool) (classPath : ClassIndex) :
    EndsLines (u.script wrap classPath) :=
  ((endsLines_header u wrap _).append (endsLines_stacked _)).append (endsLines_footer u wrap)

end CompilationUnit

end TypeScribe
