import Mathlib.Data.List.Forall2
import TypeScribe.Proofs.Layout.Lines
import TypeScribe.Proofs.Layout.Modules
import TypeScribe.Proofs.Script.Every

/-!
# Parts of a text

What is written does not look at the text before it. So a document that begins at the start of a line
has a text of its own, which depends on the level alone, and a text is made of the texts of its
parts. A declaration with its modules ends on the level on which it begins.
-/
namespace TypeScribe
set_option autoImplicit false

/-- A writer at the start of a line, on a level. -/
def Config.writerAt (config : Config) (level : Nat) : Writer :=
  { margins := config.margins, level := level }

/-- The text of a document that begins at the start of a line on a level. -/
def Doc.textAt (config : Config) (level : Nat) (d : Doc) : Except EmitError String :=
  (typeset config (config.writerAt level) d).map Writer.written

namespace Doc

variable {config : Config} {level : Nat} {d e : Doc} {s : String}

/-- What follows a document that ends its lines has the text that it has by itself. -/
theorem textAt_append_eq_ok (hends : d.EndsLines) {after : Nat}
    (hlevel : ∀ w, typeset config (config.writerAt level) d = .ok w →
      w.level = after) :
    textAt config level (d ++ e) = .ok s ↔
      ∃ a b, d.textAt config level = .ok a ∧ e.textAt config after = .ok b ∧ s = a ++ b := by
  rw [textAt, typeset_append]
  cases hd : typeset config (config.writerAt level) d with
  | error err => simp [textAt, hd, Except.bind, Except.map]
  | ok w =>
    have hmargins : w.margins = config.margins := (Writer.Extends.of_typeset hd).margins
    have hstart : w.atLineStart = true := hends config _ w rfl hd
    have hw : w = (config.writerAt after).behind w.written := by
      simp [Writer.behind, Config.writerAt, ← hlevel w hd, ← hmargins, ← hstart]
    change (typeset config w e).map _ = _ ↔ _
    rw [hw, Writer.typeset_behind]
    cases he : typeset config (config.writerAt after) e with
    | error err => simp [textAt, he, Except.map]
    | ok next => simp [textAt, hd, he, Except.map, Writer.behind, eq_comm]

theorem textAt_newline_eq_ok :
    textAt config level (d ++ newline) = .ok s ↔
      ∃ a, d.textAt config level = .ok a ∧ s = a ++ config.endOfLine := by
  rw [textAt, typeset_append]
  cases hd : typeset config (config.writerAt level) d with
  | error err => simp [textAt, hd, Except.bind, Except.map]
  | ok w =>
    have hmargins : w.margins = config.margins := (Writer.Extends.of_typeset hd).margins
    have hline : typeset config w newline = .ok w.newline := rfl
    simp [textAt, hd, Except.bind, hline, Except.map, Writer.written_newline hmargins, eq_comm]

end Doc

namespace Writer

variable (w : Writer)

theorem put_text (s : String) (d : Doc) : Sheet.put w (.text s :: d) = Sheet.put (w.write s) d := rfl

theorem level_put_javadocLines (lines : List String) :
    (Sheet.put w (javadocLines lines)).level = w.level := by
  induction lines generalizing w with
  | nil => rfl
  | cons l rest ih =>
    cases rest with
    | nil => simp [javadocLines, Sheet.put, Sheet.step, Sheet.write, level_write]
    | cons next rest =>
      rw [javadocLines, Sheet.put_append, ih]
      · split <;> simp [Sheet.put, Sheet.step, Sheet.write, Sheet.newline, level_write, newline]
      · exact List.cons_ne_nil _ _

theorem level_put_line (s : String) : (Sheet.put w (Doc.line s)).level = w.level :=
  w.level_write s

theorem level_put_comment (c : Comment) : (Sheet.put w c.doc).level = w.level := by
  unfold Comment.doc
  split
  · rw [Sheet.put_append, level_put_line]
    rw [put_text, level_put_javadocLines, level_write]
  · rw [put_text, level_put_line, level_write]
  · simp [Sheet.put, Sheet.step, Sheet.write, Sheet.newline, level_write, newline]

end Writer

namespace Doc

/-- The document ends on the level on which it begins. -/
def KeepsLevel (d : Doc) : Prop :=
  ∀ (config : Config) (w w' : Writer), typeset config w d = .ok w' →
    w'.level = w.level

end Doc

/-- A moved declaration keeps the level, and so does everything that it moves. -/
inductive Piece.Levelled : Piece → Prop where
  | written {p : Piece} (h : ∀ route names body, p ≠ .moved route names body) : Levelled p
  | moved {route : Route} {names : List String} {body : Doc} (hkeeps : body.KeepsLevel)
      (hbody : ∀ p ∈ body, Levelled p) : Levelled (.moved route names body)

/-- The document keeps the level, and so does everything that it moves. -/
structure Doc.IsLevelled (d : Doc) : Prop where
  keeps : d.KeepsLevel
  moved : d.Every Piece.Levelled

namespace Doc

variable {d e : Doc}

theorem isLevelled_nil : IsLevelled [] := by
  refine ⟨fun config w w' h => ?_, every_nil⟩
  cases h
  rfl

theorem IsLevelled.append (hd : d.IsLevelled) (he : e.IsLevelled) : IsLevelled (d ++ e) := by
  refine ⟨fun config w w' h => ?_, every_append.mpr ⟨hd.moved, he.moved⟩⟩
  obtain ⟨middle, hmiddle, hlast⟩ := typeset_append_ok h
  exact (he.keeps config middle w' hlast).trans (hd.keeps config w middle hmiddle)

theorem isLevelled_singleton {p : Piece}
    (h : ∀ config (w w' : Writer), typesetPiece config w p = .ok w' → w'.level = w.level)
    (hp : p.Levelled) : IsLevelled [p] := by
  refine ⟨fun config w w' hw => ?_, every_cons.mpr ⟨hp, every_nil⟩⟩
  obtain ⟨next, hnext, hw⟩ := typeset_cons_ok hw
  cases hw
  exact h config w w' hnext

theorem isLevelled_text (s : String) : IsLevelled (text s) := by
  refine isLevelled_singleton (fun config w w' h => ?_) (.written nofun)
  cases h
  exact w.level_write s

theorem IsLevelled.indented (hd : d.IsLevelled) : IsLevelled (indented d) := by
  refine ⟨fun config w w' h => ?_, ?_⟩
  · obtain ⟨last, hlast, hw⟩ := typeset_append_ok h
    obtain ⟨first, hfirst, hlast⟩ := typeset_cons_ok hlast
    cases hfirst
    cases hw
    have hlevel := hd.keeps config _ last hlast
    exact congrArg (· - 1) hlevel
  · have hindent : Piece.Levelled .indent := .written nofun
    have houtdent : Piece.Levelled .outdent := .written nofun
    simp [Doc.indented, hindent, houtdent, hd.moved]

theorem isLevelled_uniform : Uniform anySpelling IsLevelled where
  letter _ _ := rfl
  nil := isLevelled_nil
  append := IsLevelled.append
  text _ _ := isLevelled_text _
  value _ := isLevelled_text _
  newline := isLevelled_singleton (fun _ _ _ h => by cases h; rfl) (.written nofun)
  comment _ := by
    refine isLevelled_singleton (fun config w w' h => ?_) (.written nofun)
    cases h
    split
    · exact w.level_put_comment _
    · rfl
  unsupported _ := by
    refine isLevelled_singleton (fun config w w' h => ?_) (.written nofun)
    obtain rfl : w' = w.write _ := typesetPiece_unsupported_ok h
    exact w.level_write _
  indented := IsLevelled.indented
  enclosed _ _ h := ((isLevelled_text _).append h).append (isLevelled_text _)
  applied _ _ h := ((isLevelled_text _).append h).append (isLevelled_text _)
  switched hd he :=
    ((((isLevelled_text _).append hd).append (isLevelled_text _)).append he).append
      (isLevelled_text _)

theorem isLevelled_composes : Composes anySpelling IsLevelled IsLevelled IsLevelled :=
  isLevelled_uniform.composes

end Doc

theorem Node.script_isLevelled {c : Category} (n : Node c) (cx : Context) :
    Script.All anySpelling Doc.IsLevelled Doc.IsLevelled Doc.IsLevelled c (n.script cx) := by
  refine n.script_all Doc.isLevelled_uniform Context.inherited_true ?_ ?_ cx
    ⟨fun _ => trivial, n.any_misspells_any, cx.speaks_anyLetter⟩
  · intro cx _ _ f
    exact Doc.isLevelled_singleton nofun (.written nofun)
  · intro cx _ names body _ hbody
    refine Doc.isLevelled_singleton (fun config w w' h => ?_) (.moved hbody.keeps hbody.moved)
    cases h
    rfl

namespace CompilationUnit

theorem block_isLevelled (cx : Context) (decl : TypeDecl) : (block cx decl).IsLevelled := by
  have hroot := Doc.isLevelled_composes.rootDecl decl.spelledBy_any (decl.script_isLevelled cx)
  refine Doc.isLevelled_uniform.withModules (fun d hd entry hentry => ?_) hroot
  cases hd.moved _ (mem_moves.mp hentry) with
  | written h => exact absurd rfl (h _ _ _)
  | moved hkeeps hbody => exact ⟨fun _ _ => over_anyLetter _, hkeeps, hbody⟩

/-- The level on which the top-level declarations are written. -/
def bodyLevel (u : CompilationUnit) (wrap : Bool) : Nat :=
  if (u.namespace? wrap).isSome then 1 else 0

theorem level_header {u : CompilationUnit} {wrap : Bool} {cx : Context} {config : Config}
    {w w' : Writer} (h : typeset config w (u.header wrap cx) = .ok w') :
    w'.level = w.level + u.bodyLevel wrap := by
  have huniform := Doc.isLevelled_uniform
  have hcommentDoc : (Doc.comment u.comment).IsLevelled :=
    huniform.composes.commentDoc fun c _ => Spelling.remark_any c.content
  unfold header at h
  rw [List.append_assoc] at h
  obtain ⟨opened, hopened, himports⟩ := typeset_append_ok h
  obtain ⟨first, hfirst, hopened⟩ := typeset_append_ok hopened
  have hcomment := hcommentDoc.keeps config w first hfirst
  rw [(huniform.importDocs u.spells_anyLetter).keeps config opened w' himports, bodyLevel,
    ← hcomment]
  cases hnamespace : u.namespace? wrap with
  | none =>
    rw [hnamespace] at hopened
    cases hopened
    rfl
  | some package =>
    rw [hnamespace] at hopened
    obtain ⟨last, hlast, hindent⟩ := typeset_append_ok hopened
    have hlines := huniform.packageLines (fun a _ => a.script_isLevelled cx)
      (package_of_namespace? hnamespace)
    have hline := huniform.composes.line (Doc.isLevelled_text ("namespace " ++ package.name ++ " \x7b"))
    cases hindent
    exact congrArg (· + 1) ((hlines.append hline).keeps config first last hlast)

end CompilationUnit
end TypeScribe
