import TypeScribe.Proofs.ClassIndex.Resolved
import TypeScribe.Proofs.Layout.Modules
import TypeScribe.Proofs.Layout.Writer
import TypeScribe.Proofs.Script.Every
import TypeScribe.Samples

/-!
# Nesting of brackets and levels

At every place of a script some brackets and some levels of indentation are open. A document that
comes from a tree without brackets in its texts closes the brackets that it opens and leaves the
levels that it enters, so the text of a unit is well nested and ends at the level of its start.
-/
namespace TypeScribe
set_option autoImplicit false
open Text

/-- What is open at a place: brackets, innermost first, and levels of indentation. -/
structure Nesting where
  opened : List Bracket := []
  level : Nat := 0

/-- What is open after a piece; none if it closes a bracket that is not the innermost one, or leaves
a level where none is open. -/
def Piece.nest : Piece → Nesting → Option Nesting
  | .text s, n => (openAfter s.toList n.opened).map fun opened => { n with opened := opened }
  | .indent, n => some { n with level := n.level + 1 }
  | .outdent, n => if n.level = 0 then none else some { n with level := n.level - 1 }
  | _, n => some n

theorem Piece.level_of_nest_outdent {n n' : Nesting} (h : Piece.outdent.nest n = some n') :
    0 < n.level ∧ n' = { n with level := n.level - 1 } := by
  rw [nest] at h
  split at h
  · cases h
  · next hlevel =>
    cases h
    exact ⟨Nat.pos_of_ne_zero hlevel, rfl⟩

namespace Doc

def nest : Doc → Nesting → Option Nesting
  | [], n => some n
  | p :: rest, n => (p.nest n).bind (nest rest)

theorem nest_append (d e : Doc) (n : Nesting) : nest (d ++ e) n = (nest d n).bind (nest e) := by
  induction d generalizing n with
  | nil => rfl
  | cons p rest ih =>
    rw [List.cons_append, nest, nest]
    cases p.nest n with
    | none => rfl
    | some next => exact ih next

/-- Whatever is open around them, the document closes the brackets `before` and opens the brackets
`after`, and it ends at the level of its start. -/
def Turns (before after : List Bracket) (d : Doc) : Prop :=
  ∀ outer level, nest d ⟨before ++ outer, level⟩ = some ⟨after ++ outer, level⟩

/-- What is open before the document is open behind it. -/
def IsNeutral (d : Doc) : Prop := Turns [] [] d

theorem IsNeutral.turns {d : Doc} (h : IsNeutral d) (opened : List Bracket) :
    Turns opened opened d :=
  fun outer level => h (opened ++ outer) level

theorem Turns.append {before between after : List Bracket} {d e : Doc}
    (hd : Turns before between d) (he : Turns between after e) : Turns before after (d ++ e) := by
  intro outer level
  rw [nest_append, hd]
  exact he outer level

theorem turns_text {before after : List Bracket} {s : String}
    (h : openAfter s.toList before = some after) : Turns before after (text s) := by
  intro outer level
  change (Option.map _ (openAfter s.toList (before ++ outer))).bind some = _
  rw [openAfter_frame outer h]
  rfl

theorem IsNeutral.indented {d : Doc} (h : IsNeutral d) : IsNeutral (indented d) := by
  intro outer level
  change nest (d ++ [.outdent]) ⟨[] ++ outer, level + 1⟩ = _
  rw [nest_append, h]
  rfl

/-- A text may hold a word without brackets. -/
theorem openAfter_around {a s b : String} (hs : IsBracketless s) (opened : List Bracket) :
    openAfter (a ++ s ++ b).toList opened = openAfter (a.toList ++ b.toList) opened := by
  rw [String.toList_append, String.toList_append, openAfter_append, openAfter_append,
    openAfter_append]
  congr 1
  cases openAfter a.toList opened with
  | none => rfl
  | some inner => exact hs.openAfter_eq inner

end Doc

/-- What is written for the piece opens and closes no bracket, unless it is a text; and a moved
declaration has names without brackets and is neutral. -/
inductive Piece.Steady : Piece → Prop where
  | text (s : String) : Steady (.text s)
  | newline : Steady .newline
  | indent : Steady .indent
  | outdent : Steady .outdent
  | comment {c : Comment} (h : IsBracketless c.content) : Steady (.comment c)
  | unsupported {c : Construct} (h : ∀ s ∈ c.name?, IsBracketless s) : Steady (.unsupported c)
  | flaw (f : Flaw) : Steady (.flaw f)
  | moved {route : Route} {names : List String} {body : Doc}
      (hnames : ∀ name ∈ names, IsBracketless name) (hneutral : body.IsNeutral)
      (hbody : ∀ p ∈ body, Steady p) : Steady (.moved route names body)

/-- The document closes what it opens, and so does everything that it moves. -/
structure Doc.Nests (d : Doc) : Prop where
  neutral : d.IsNeutral
  steady : d.Every Piece.Steady

theorem Doc.nests_singleton {p : Piece} (hneutral : ∀ n, p.nest n = some n) (h : p.Steady) :
    Doc.Nests [p] where
  neutral outer level := by
    change (p.nest _).bind some = _
    rw [hneutral]
    rfl
  steady := Doc.every_cons.mpr ⟨h, Doc.every_nil⟩

/-- A document between texts that close what they open. -/
theorem Doc.Nests.between {s t : String} {inner : List Bracket} {d : Doc} (hd : d.Nests)
    (hopen : openAfter s.toList [] = some inner) (hclose : openAfter t.toList inner = some []) :
    (Doc.between s t d).Nests := by
  refine ⟨((Doc.turns_text hopen).append (hd.neutral.turns inner)).append
    (Doc.turns_text hclose), ?_⟩
  simp [Doc.between, Doc.text, Piece.Steady.text, hd.steady]

theorem nests_uniform : Uniform (.over fun c => !isBracket c) Doc.Nests where
  letter c h := by
    change (!isBracket c) = true
    rw [h]
    rfl
  nil := ⟨fun _ _ => rfl, Doc.every_nil⟩
  append hd he := ⟨hd.neutral.append he.neutral, Doc.every_append.mpr ⟨hd.steady, he.steady⟩⟩
  text h hs := ⟨Doc.turns_text ((Doc.openAfter_around hs []).trans h),
    Doc.every_cons.mpr ⟨.text _, Doc.every_nil⟩⟩
  value hv := ⟨Doc.turns_text (IsBracketless.openAfter_eq (of_decide_eq_true hv) []),
    Doc.every_cons.mpr ⟨.text _, Doc.every_nil⟩⟩
  newline := Doc.nests_singleton (fun _ => rfl) .newline
  comment h := Doc.nests_singleton (fun _ => rfl) (.comment (of_decide_eq_true h))
  unsupported h := Doc.nests_singleton (fun _ => rfl) (.unsupported h)
  indented h := ⟨h.neutral.indented, by
    simp [Doc.indented, Piece.Steady.indent, Piece.Steady.outdent, h.steady]⟩
  enclosed hpair hs h := by
    obtain ⟨b, hopen, hclose, -, -⟩ := isPair_iff.mp hpair
    exact h.between ((Doc.openAfter_around hs []).trans hopen) hclose
  applied ht hs h := by
    have hopen := (Doc.openAfter_around (a := "((") (b := ") => ") hs []).trans rfl
    rcases ht with rfl | rfl <;> exact h.between hopen rfl
  switched hd he := by
    have hfirst : openAfter "switch(".toList [] = some [.round] := rfl
    have hsecond : openAfter ") \x7b".toList [.round] = some [.curly] := rfl
    have hclose : openAfter "\x7d".toList [.curly] = some [] := rfl
    have hd' := (Doc.turns_text hfirst).append (hd.neutral.turns _)
    have he' := (hd'.append (Doc.turns_text hsecond)).append (he.neutral.turns _)
    refine ⟨he'.append (Doc.turns_text hclose), ?_⟩
    simp [Doc.text, Piece.Steady.text, hd.steady, he.steady]

/-- A document of lines without brackets, all on one level. -/
def Doc.IsFlat (d : Doc) : Prop := ∀ p ∈ d, p = .newline ∨ ∃ s, p = .text s ∧ IsBracketless s

namespace Doc

variable {d e : Doc}

theorem isFlat_nil : IsFlat [] := fun _ hp => nomatch hp

theorem IsFlat.append (hd : IsFlat d) (he : IsFlat e) : IsFlat (d ++ e) :=
  List.forall_mem_append.mpr ⟨hd, he⟩

theorem IsFlat.afterText {s : String} (hs : IsBracketless s) (h : IsFlat d) :
    IsFlat (.text s :: d) :=
  List.forall_mem_cons.mpr ⟨.inr ⟨s, rfl, hs⟩, h⟩

theorem IsFlat.afterNewline (h : IsFlat d) : IsFlat (.newline :: d) :=
  List.forall_mem_cons.mpr ⟨.inl rfl, h⟩

theorem isFlat_line {s : String} (hs : IsBracketless s) : IsFlat (line s) :=
  .afterText hs (.afterNewline isFlat_nil)

end Doc

theorem isFlat_javadocLines {lines : List String} (h : ∀ l ∈ lines, IsBracketless l) :
    Doc.IsFlat (javadocLines lines) := by
  have hblank : IsBracketless " " := by decide
  induction lines with
  | nil => exact Doc.isFlat_nil
  | cons l rest ih =>
    obtain ⟨hl, hrest⟩ := List.forall_mem_cons.mp h
    have htrim : IsBracketless (trim l) := over_trim hl
    cases rest with
    | nil => exact .afterText hblank (.afterText htrim Doc.isFlat_nil)
    | cons m rest =>
      refine Doc.IsFlat.append ?_ (ih hrest)
      split
      · exact .afterNewline Doc.isFlat_nil
      · exact .afterText hblank (.afterText htrim (.afterNewline Doc.isFlat_nil))

theorem Comment.isFlat_doc {c : Comment} (h : IsBracketless c.content) : c.doc.IsFlat := by
  unfold Comment.doc
  split
  · exact .append (.afterText (by decide) (isFlat_javadocLines (over_segments (· == '\n') h)))
      (Doc.isFlat_line (by decide))
  · refine .afterText (by decide) (Doc.isFlat_line (over_map ?_ h))
    intro ch hch
    split
    · rfl
    · exact hch
  · exact .afterText (by decide) (.afterText h (Doc.isFlat_line (by decide)))

/-- The reason for a construct is over an alphabet that lacks brackets and the slash at most, if the
name that it gives is. -/
theorem Construct.over_reason {letters : Char → Bool}
    (hletters : ∀ c, isBracket c = false → c ≠ '/' → letters c = true) {c : Construct}
    (h : ∀ s ∈ c.name?, Over letters s) : Over letters c.reason := by
  have hfixed {s : String} (hs : Over (fun c => !isBracket c && c != '/') s) : Over letters s := by
    refine over_iff.mpr fun ch hch => ?_
    obtain ⟨hbracket, hslash⟩ := Bool.and_eq_true_iff.mp (over_iff.mp hs ch hch)
    exact hletters ch (by simpa using hbracket) (by simpa using hslash)
  have hquoted {before name after : String}
      (hbefore : Over (fun c => !isBracket c && c != '/') before) (hname : Over letters name)
      (hafter : Over (fun c => !isBracket c && c != '/') after) :
      Over letters (before ++ name ++ after) :=
    over_append.mpr ⟨over_append.mpr ⟨hfixed hbefore, hname⟩, hfixed hafter⟩
  cases c with
  | modifiers ms =>
    refine hquoted (by decide) (over_joinWith (hfixed (by decide)) ?_) (by decide)
    intro t ht
    obtain ⟨m, -, rfl⟩ := List.mem_map.mp ht
    exact hfixed (by cases m <;> decide)
  | wildcardImport name => exact hquoted (by decide) (h name rfl) (by decide)
  | localType name => exact hquoted (by decide) (h name rfl) (by decide)
  | qualifiedSuper name => exact hquoted (by decide) (h name rfl) (by decide)
  | qualifiedAnonymousClass name => exact hquoted (by decide) (h name rfl) (by decide)
  | _ => exact hfixed (by decide)

/-- The configuration has no bracket in its texts. -/
structure Config.IsBracketless (config : Config) : Prop where
  indent : Text.IsBracketless config.indent
  endOfLine : Text.IsBracketless config.endOfLine
  notSupportedText : Text.IsBracketless config.notSupportedText

namespace Writer

theorem over_repeated {letters : Char → Bool} {indent : String} (h : Over letters indent)
    (level : Nat) : Over letters (repeated indent level) := by
  induction level with
  | zero => rfl
  | succ level ih => exact over_append.mpr ⟨h, ih⟩

/-- A text may get an indentation in front of it, at the start of a line. -/
theorem exists_written_write {letters : Char → Bool} {w : Writer}
    (h : Over letters w.margins.indent) (s : String) :
    ∃ pad, Over letters pad ∧ (w.atLineStart = false → pad = "") ∧
      (w.write s).written = w.written ++ pad ++ s := by
  by_cases hs : s = ""
  · exact ⟨"", rfl, fun _ => rfl, by simp [hs, write_empty]⟩
  · refine ⟨w.pad, ?_, fun hbegun => by simp [pad, hbegun], w.written_write hs⟩
    unfold pad
    split
    · exact over_repeated h w.level
    · rfl

/-- What is open at the end of what is written. -/
def nesting (w : Writer) : Option Nesting :=
  (openAfter w.written.toList []).map fun opened => ⟨opened, w.level⟩

variable {w : Writer}

theorem nesting_write (h : IsBracketless w.margins.indent) (s : String) :
    (w.write s).nesting = w.nesting.bind (Piece.text s).nest := by
  obtain ⟨pad, hpad, -, hwritten⟩ := exists_written_write h s
  rw [nesting, hwritten, level_write, String.toList_append, String.toList_append, openAfter_append,
    openAfter_append, nesting]
  cases openAfter w.written.toList [] with
  | none => rfl
  | some opened =>
    change Option.map _ ((openAfter pad.toList opened).bind _) = _
    rw [IsBracketless.openAfter_eq hpad]
    rfl

theorem nesting_write_bracketless (h : IsBracketless w.margins.indent) {s : String}
    (hs : IsBracketless s) : (w.write s).nesting = w.nesting := by
  rw [nesting_write h]
  cases w.nesting with
  | none => rfl
  | some n =>
    change Option.map _ (openAfter s.toList n.opened) = some n
    rw [hs.openAfter_eq]
    rfl

theorem nesting_newline (h : IsBracketless w.margins.endOfLine) :
    w.newline.nesting = w.nesting := by
  rw [nesting, newline, String.toList_append, openAfter_append, nesting]
  cases openAfter w.written.toList [] with
  | none => rfl
  | some opened =>
    change Option.map _ (openAfter w.margins.endOfLine.toList opened) = _
    rw [h.openAfter_eq]

theorem nesting_put (hindent : IsBracketless w.margins.indent)
    (hend : IsBracketless w.margins.endOfLine) {d : Doc} (h : d.IsFlat) :
    (Sheet.put w d).nesting = w.nesting := by
  induction d generalizing w with
  | nil => rfl
  | cons p rest ih =>
    obtain ⟨hp, hrest⟩ := List.forall_mem_cons.mp h
    rcases hp with rfl | ⟨s, rfl, hs⟩
    · exact (ih (w := w.newline) hindent hend hrest).trans (nesting_newline hend)
    · have hmargins := w.margins_write s
      have hrest := ih (w := w.write s) (hmargins ▸ hindent) (hmargins ▸ hend) hrest
      exact hrest.trans (nesting_write_bracketless hindent hs)

end Writer

section

variable {config : Config} (hconfig : config.IsBracketless) {w w' : Writer}

include hconfig

theorem Config.isBracketless_marker {reason : String} (h : Text.IsBracketless reason) :
    Text.IsBracketless (config.marker reason) := by
  unfold Config.marker
  refine over_append.mpr ⟨over_append.mpr ⟨over_append.mpr ⟨over_append.mpr ⟨?_, ?_⟩, ?_⟩, h⟩, ?_⟩
  · decide
  · exact hconfig.notSupportedText
  · decide
  · decide

/-- A piece that is written changes what is open in the text as it changes what is open at its place
in the script. -/
theorem nesting_typesetPiece (hw : w.margins = config.margins) {p : Piece} (hp : p.Steady)
    {n n' : Nesting} (hn : w.nesting = some n) (hnest : p.nest n = some n')
    (h : typesetPiece config w p = .ok w') : w'.nesting = some n' := by
  have hindent : Text.IsBracketless w.margins.indent := hw ▸ hconfig.indent
  have hend : Text.IsBracketless w.margins.endOfLine := hw ▸ hconfig.endOfLine
  cases hp with
  | text s =>
    cases h
    change (w.write s).nesting = some n'
    rw [Writer.nesting_write hindent, hn]
    exact hnest
  | newline =>
    cases h
    cases hnest
    exact (Writer.nesting_newline hend).trans hn
  | indent =>
    cases h
    cases hnest
    obtain ⟨opened, hopened, rfl⟩ := Option.map_eq_some_iff.mp hn
    exact Option.map_eq_some_iff.mpr ⟨opened, hopened, rfl⟩
  | outdent =>
    cases h
    obtain ⟨opened, hopened, rfl⟩ := Option.map_eq_some_iff.mp hn
    obtain ⟨-, rfl⟩ := Piece.level_of_nest_outdent hnest
    exact Option.map_eq_some_iff.mpr ⟨opened, hopened, rfl⟩
  | comment hc =>
    cases h
    cases hnest
    split
    · rw [Writer.nesting_put hindent hend (Comment.isFlat_doc hc), hn]
    · exact hn
  | @unsupported c hc =>
    cases hnest
    have hreason := Construct.over_reason (fun c h _ => by simp [h]) hc
    have hmarker := Config.isBracketless_marker hconfig hreason
    obtain rfl : w' = w.write _ := typesetPiece_unsupported_ok h
    rw [Writer.nesting_write_bracketless hindent hmarker, hn]
  | flaw f => cases h
  | moved hnames hneutral hbody =>
    cases h
    cases hnest
    exact hn

theorem nesting_typeset (hw : w.margins = config.margins) {d : Doc} (hd : d.Every Piece.Steady)
    {n n' : Nesting} (hn : w.nesting = some n) (hnest : d.nest n = some n')
    (h : typeset config w d = .ok w') : w'.nesting = some n' := by
  induction d generalizing w n with
  | nil =>
    cases h
    cases hnest
    exact hn
  | cons p rest ih =>
    obtain ⟨hp, hrest⟩ := Doc.every_cons.mp hd
    obtain ⟨next, hpiece, htail⟩ := typeset_cons_ok h
    obtain ⟨m, hm, hnest⟩ := Option.bind_eq_some_iff.mp hnest
    have hnext : next.margins = config.margins := (Writer.margins_typesetPiece hpiece).trans hw
    exact ih hnext hrest (nesting_typesetPiece hconfig hw hp hn hm hpiece) hnest htail

theorem level_pos_of_outdent {d before after : Doc} (hd : d.Nests)
    (hsplit : d = before ++ .outdent :: after) (h : typeset config config.writer before = .ok w) :
    0 < w.level := by
  subst hsplit
  have hneutral := hd.neutral [] 0
  rw [Doc.nest_append] at hneutral
  obtain ⟨n, hn, hrest⟩ := Option.bind_eq_some_iff.mp hneutral
  have hw := nesting_typeset hconfig rfl (Doc.every_append.mp hd.steady).1 rfl hn h
  obtain ⟨opened, -, rfl⟩ := Option.map_eq_some_iff.mp hw
  obtain ⟨m, hm, -⟩ := Option.bind_eq_some_iff.mp hrest
  exact (Piece.level_of_nest_outdent hm).1

end

/-- No text of the unit has a bracket. -/
structure CompilationUnit.IsBracketless (u : CompilationUnit) : Prop where
  own : u.Spells fun c => !isBracket c
  annotations : ∀ a ∈ u.packageAnnotations, a.straysWithin (fun c => !isBracket c) = false
  types : ∀ decl ∈ u.types, decl.straysWithin (fun c => !isBracket c) = false

theorem Node.script_nests {c : Category} (n : Node c) (cx : Context)
    (h : n.straysWithin (fun c => !isBracket c) = false)
    (hcx : cx.Speaks fun c => !isBracket c) :
    Script.All (.over fun c => !isBracket c) Doc.Nests Doc.Nests Doc.Nests c (n.script cx) := by
  rw [Node.straysWithin, ← Node.misspells_over_eq] at h
  refine n.script_all nests_uniform Context.inherited_true ?_ ?_ cx ⟨fun _ => trivial, h, hcx⟩
  · intro cx _ _ f
    exact Doc.nests_singleton (fun _ => rfl) (.flaw f)
  · intro cx _ names body hnames hbody
    exact Doc.nests_singleton (fun _ => rfl) (.moved hnames hbody.neutral hbody.steady)

theorem CompilationUnit.script_nests {u : CompilationUnit} (hu : u.IsBracketless) (wrap : Bool)
    {classPath : ClassIndex} (hclassPath : ∀ d ∈ classPath.types, Text.IsBracketless d.binaryName) :
    (u.script wrap classPath).Nests := by
  have hcx := Context.speaks_ofUnit nests_uniform.composes.letter hu.own.package
    (fun decl hdecl => by
      rw [Node.misspells_over_eq]
      exact hu.types decl hdecl) hclassPath
  refine script_all nests_uniform hu.own wrap classPath ?_ ?_
  · intro a ha
    exact a.script_nests _ (hu.annotations a ha) hcx
  · intro decl hdecl place
    have hstrays := hu.types decl hdecl
    have hshape := decl.script_nests (Context.child { resolver := .ofUnit u classPath } place)
      hstrays ⟨hcx.resolved, hcx.scope, hcx.frames⟩
    rw [Node.straysWithin, ← Node.misspells_over_eq] at hstrays
    refine nests_uniform.withModules ?_
      (nests_uniform.composes.rootDecl (decl.spelledBy hstrays) hshape)
    intro d hd entry hentry
    cases hd.steady _ (mem_moves.mp hentry) with
    | moved hnames hneutral hbody => exact ⟨hnames, hneutral, hbody⟩

/-- If no text of the unit, the configuration or the class path has a bracket, what is written is
well nested. On the way no level is left that was not entered, and the last line is written at the
level of the first. -/
theorem convert_wellNested (u : CompilationUnit) (config : Config) (classPath : ClassIndex)
    (hu : u.IsBracketless) (hconfig : config.IsBracketless)
    (hclassPath : ∀ d ∈ classPath.types, Text.IsBracketless d.binaryName) :
    (∀ s, convert u config classPath = .ok s → WellNested s.toList) ∧
    (∀ before after, u.script config.wrapPackageNamespace classPath = before ++ .outdent :: after →
      ∀ w, typeset config config.writer before = .ok w → 0 < w.level) ∧
    ∀ w, typeset config config.writer (u.script config.wrapPackageNamespace classPath) = .ok w →
      w.level = 0 := by
  have hnests := u.script_nests hu config.wrapPackageNamespace hclassPath
  have hend : ∀ w,
      typeset config config.writer (u.script config.wrapPackageNamespace classPath) = .ok w →
      w.nesting = some {} :=
    fun w hw => nesting_typeset hconfig rfl hnests.steady rfl (hnests.neutral [] 0) hw
  refine ⟨?_, ?_, ?_⟩
  · intro s hs
    obtain ⟨w, hw, rfl⟩ := convert_ok hs
    obtain ⟨opened, hopened, hempty⟩ := Option.map_eq_some_iff.mp (hend w hw)
    obtain rfl : opened = [] := congrArg Nesting.opened hempty
    exact IsNested.wellNested hopened
  · intro before after hsplit w hw
    exact level_pos_of_outdent hconfig hnests hsplit hw
  · intro w hw
    obtain ⟨opened, -, hempty⟩ := Option.map_eq_some_iff.mp (hend w hw)
    exact congrArg Nesting.level hempty

/-- Interfaces that are moved out of a class, and anonymous classes in closures. -/
theorem nestedInterfaces_wellNested :
    Samples.nestedInterfaces.IsBracketless ∧ Config.IsBracketless {} ∧
      ∃ s, convert Samples.nestedInterfaces {} .empty = .ok s ∧ WellNested s.toList := by
  have hu : Samples.nestedInterfaces.IsBracketless :=
    ⟨⟨by decide, by decide, by decide, by decide, by decide⟩, by decide, by decide⟩
  have hconfig : Config.IsBracketless {} := ⟨by decide, by decide, by decide⟩
  have hnested := convert_wellNested Samples.nestedInterfaces {} .empty hu hconfig
    fun _ hd => nomatch hd
  have hok : (convert Samples.nestedInterfaces {} .empty).isOk = true := by decide +kernel
  refine ⟨hu, hconfig, ?_⟩
  cases hconvert : convert Samples.nestedInterfaces {} .empty with
  | error e =>
    rw [hconvert] at hok
    cases hok
  | ok s => exact ⟨s, rfl, hnested.1 s hconvert⟩

end TypeScribe
