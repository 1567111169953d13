import TypeScribe.Proofs.Layout.Nesting
import TypeScribe.Proofs.Layout.Parts
import TypeScribe.Proofs.Statements.Reader

/-!
# Documents, written and read

A document takes a reader from one state to another if it can be written and what it adds is read that
way. Indentation is added where a line begins, so the writer and the reader have to meet: blanks leave
the reader where it is, or no indentation will be added.
-/
namespace TypeScribe
set_option autoImplicit false
open Text

/-- What a configuration writes of its own is read as blanks and comments, and a construct without a
counterpart is not refused. -/
structure Config.IsReadable (config : Config) : Prop where
  tolerant : config.failureMode = .tolerant
  indent : Over isBlank config.indent
  endOfLine : Over isBlank config.endOfLine
  endsLine : config.endOfLine.toList.any isLineEnd = true
  notSupportedText : closesComment config.notSupportedText = false

theorem Config.isReadable_default : Config.IsReadable {} where
  tolerant := rfl
  indent := by decide
  endOfLine := by decide
  endsLine := by decide
  notSupportedText := by decide

/-- The writer has the margins of the configuration, and a text is read as it is if this writer writes
it. -/
structure Writer.Meets (config : Config) (w : Writer) (r : Reader) : Prop where
  margins : w.margins = config.margins
  unpadded : r.Rests ∨ w.atLineStart = false

/-- Every writer that meets the reader can write the document, and what it adds takes the reader from
the one state to the other. -/
def Doc.Takes (config : Config) (d : Doc) (r r' : Reader) : Prop :=
  ∀ w : Writer, w.Meets config r → ∃ w' added, typeset config w d = .ok w' ∧
    w'.written = w.written ++ added ∧ feed added.toList r = some r' ∧ w'.Meets config r'

namespace Doc.Takes

variable {config : Config} {d e : Doc} {r r' r'' : Reader}

theorem nil : Takes config [] r r := by
  intro w hw
  exact ⟨w, "", rfl, by simp, rfl, hw⟩

theorem append (hd : Takes config d r r') (he : Takes config e r' r'') :
    Takes config (d ++ e) r r'' := by
  intro w hw
  obtain ⟨middle, first, hmiddle, hfirst, hread, hmeets⟩ := hd w hw
  obtain ⟨w', second, hw', hsecond, hread', hmeets'⟩ := he middle hmeets
  refine ⟨w', first ++ second, ?_, ?_, ?_, hmeets'⟩
  · rw [typeset_append, hmiddle]
    exact hw'
  · rw [hsecond, hfirst, String.append_assoc]
  · rw [String.toList_append, feed_append, hread]
    exact hread'

end Doc.Takes

theorem Writer.atLineStart_write (w : Writer) {s : String} (hs : s ≠ "") :
    (w.write s).atLineStart = false := by
  rw [w.write_of_ne hs]

/-- What is put before a text that is written is passed over. -/
theorem Writer.Meets.exists_feed {config : Config} (hconfig : config.IsReadable) {w : Writer}
    {r : Reader} (hw : w.Meets config r) (s : String) :
    ∃ pad, (w.write s).written = w.written ++ (pad ++ s) ∧ feed pad.toList r = some r := by
  have hindent : Over isBlank w.margins.indent := hw.margins ▸ hconfig.indent
  obtain ⟨pad, hblank, hbegun, hwritten⟩ := exists_written_write hindent s
  refine ⟨pad, hwritten.trans String.append_assoc, ?_⟩
  rcases hw.unpadded with hrests | hstarted
  · exact hrests.feed (over_iff.mp hblank)
  · rw [hbegun hstarted]
    rfl

namespace Doc

variable {config : Config} (hconfig : config.IsReadable) {d : Doc} {r r' : Reader}

include hconfig

theorem takes_text {s : String} (h : feed s.toList r = some r') : Takes config (text s) r r' := by
  intro w hw
  obtain ⟨pad, hwritten, hpad⟩ := hw.exists_feed hconfig s
  refine ⟨w.write s, pad ++ s, rfl, hwritten, ?_, ?_⟩
  · rw [String.toList_append, feed_append, hpad]
    exact h
  · by_cases hs : s = ""
    · subst hs
      cases h
      exact hw
    · exact ⟨(w.margins_write s).trans hw.margins, .inr (w.atLineStart_write hs)⟩

omit hconfig in
theorem takes_newline_of {added : Reader} (h : feed config.endOfLine.toList r = some added)
    (hrests : added.Rests) : Takes config newline r added := by
  intro w hw
  exact ⟨w.newline, config.endOfLine, rfl, Writer.written_newline hw.margins, h, hw.margins,
    .inl hrests⟩

/-- A line end is read as one blank. -/
theorem takes_newline (h : ∀ c, isBlank c = true → r.step c = some r') (hrests : r'.Rests) :
    Takes config newline r r' := by
  refine takes_newline_of ?_ hrests
  have hblank := over_iff.mp hconfig.endOfLine
  have hends := hconfig.endsLine
  cases heol : config.endOfLine.toList with
  | nil =>
    rw [heol] at hends
    cases hends
  | cons c rest =>
    rw [heol] at hblank
    obtain ⟨hc, hrest⟩ := List.forall_mem_cons.mp hblank
    rw [feed, h c hc]
    exact hrests.feed hrest

omit hconfig in
theorem Takes.indented (h : Takes config d r r') : Takes config (indented d) r r' := by
  have hindent (r : Reader) : Takes config [.indent] r r :=
    fun w hw => ⟨w.indent, "", rfl, by simp [Writer.indent], rfl, hw.margins, hw.unpadded⟩
  have houtdent (r : Reader) : Takes config [.outdent] r r :=
    fun w hw => ⟨w.outdent, "", rfl, by simp [Writer.outdent], rfl, hw.margins, hw.unpadded⟩
  exact ((hindent r).append h).append (houtdent r')

omit hconfig in
theorem takes_moved (route : Route) (names : List String) (body : Doc) (r : Reader) :
    Takes config [.moved route names body] r r :=
  fun w hw => ⟨w, "", rfl, by simp, rfl, hw⟩

end Doc

theorem trim_within (s : String) : (trim s).toList <:+: s.toList := by
  rw [trim, String.toList_ofList, trimmed]
  have hfront : s.toList.dropWhile isBlank <:+: s.toList := (List.dropWhile_suffix _).isInfix
  refine List.IsInfix.trans ?_ hfront
  rw [← List.reverse_infix, List.reverse_reverse]
  exact (List.dropWhile_suffix _).isInfix

/-- A comment of the text ends where it is meant to. -/
def isRemark (s : String) : Bool :=
  !closesComment s && s.toList.all fun c => c != '\u2028' && c != '\u2029'

theorem typeset_put {config : Config} {d : Doc}
    (h : ∀ p ∈ d, p = .newline ∨ ∃ s, p = .text s) (w : Writer) :
    typeset config w d = .ok (Sheet.put w d) := by
  induction d generalizing w with
  | nil => rfl
  | cons p rest ih =>
    obtain ⟨hp, hrest⟩ := List.forall_mem_cons.mp h
    rcases hp with rfl | ⟨s, rfl⟩ <;> exact ih hrest _

theorem javadocLines_written (lines : List String) :
    ∀ p ∈ javadocLines lines, p = .newline ∨ ∃ s, p = .text s := by
  induction lines with
  | nil => exact List.forall_mem_nil _
  | cons l rest ih =>
    cases rest with
    | nil => simp [javadocLines]
    | cons next rest =>
      rw [javadocLines]
      · refine List.forall_mem_append.mpr ⟨?_, ih⟩
        split <;> simp
      · exact List.cons_ne_nil _ _

theorem Comment.doc_written (c : Comment) : ∀ p ∈ c.doc, p = .newline ∨ ∃ s, p = .text s := by
  unfold Comment.doc
  split
  · refine List.forall_mem_cons.mpr ⟨.inr ⟨_, rfl⟩, List.forall_mem_append.mpr ⟨?_, ?_⟩⟩
    · exact javadocLines_written _
    · simp [Doc.line]
  · simp [Doc.line]
  · simp

namespace Doc

variable {config : Config} (hconfig : config.IsReadable) {r : Reader}

include hconfig

theorem takes_block {starred : Bool} {s : String} (h : endsComment starred s.toList = false) :
    ∃ starred', Takes config (text s) { r with look := .block starred }
      { r with look := .block starred' } := by
  obtain ⟨starred', hfeed⟩ := @Reader.feed_block r starred s.toList h
  exact ⟨starred', takes_text hconfig hfeed⟩

theorem takes_newline_block (starred : Bool) :
    Takes config newline { r with look := .block starred } { r with look := .block false } := by
  refine takes_newline hconfig (fun c hc => ?_) (Reader.rests_block r)
  have hslash : c ≠ '/' := by
    rintro rfl
    exact absurd hc (by decide)
  have hstar : c ≠ '*' := by
    rintro rfl
    exact absurd hc (by decide)
  simp [Reader.step, Look.pass, hslash, hstar]

/-- The lines of a documentation comment do not end it. -/
theorem takes_javadocLines {lines : List String} (h : ∀ l ∈ lines, endsComment false l.toList = false)
    (starred : Bool) :
    ∃ starred', Takes config (javadocLines lines) { r with look := .block starred }
      { r with look := .block starred' } := by
  have hline (starred : Bool) {l : String} (hl : endsComment false l.toList = false) :
      ∃ starred', Takes config (text " " ++ text (trim l)) { r with look := .block starred }
        { r with look := .block starred' } := by
    have hblank : Takes config (text " ") { r with look := .block starred }
        { r with look := .block false } := by
      refine takes_text hconfig ?_
      cases starred <;> rfl
    have htrim := endsComment_of_infix (trim_within l) hl
    obtain ⟨starred', htext⟩ := takes_block hconfig htrim
    exact ⟨starred', hblank.append htext⟩
  induction lines generalizing starred with
  | nil => exact ⟨starred, .nil⟩
  | cons l rest ih =>
    obtain ⟨hl, hrest⟩ := List.forall_mem_cons.mp h
    cases rest with
    | nil => exact hline starred hl
    | cons next rest =>
      obtain ⟨starred', hnext⟩ := ih hrest false
      refine ⟨starred', ?_⟩
      rw [javadocLines]
      · refine Takes.append ?_ hnext
        split
        · exact takes_newline_block hconfig starred
        · obtain ⟨middle, hmiddle⟩ := hline starred hl
          exact hmiddle.append (takes_newline_block hconfig middle)
      · exact List.cons_ne_nil _ _

theorem takes_newline_steady (hr : r.IsSteady) : Takes config newline r r :=
  takes_newline hconfig hr.rests hr.rests

theorem takes_commentDoc {c : Comment} (h : isRemark c.content = true) (hr : r.IsSteady) :
    Takes config c.doc r r := by
  obtain ⟨hcloses, hlines⟩ := Bool.and_eq_true_iff.mp h
  have hcontent : endsComment false c.content.toList = false := (Bool.not_eq_true' _).mp hcloses
  have hclosing (starred : Bool) : Takes config (text "*/") { r with look := .block starred } r :=
    takes_text hconfig (hr.feed_closing starred)
  have hend (starred : Bool) : Takes config (line "*/") { r with look := .block starred } r :=
    (hclosing starred).append (takes_newline_steady hconfig hr)
  unfold Comment.doc
  split
  · have hopening : Takes config (text "/**") r { r with look := .block true } := by
      refine takes_text hconfig ?_
      change feed (['/', '*'] ++ ['*']) r = _
      rw [feed_append, hr.feed_opening]
      rfl
    obtain ⟨starred, hbody⟩ := takes_javadocLines hconfig (fun l hl =>
      endsComment_of_infix (infix_of_mem_segments hl) hcontent) true
    exact hopening.append (hbody.append (hend starred))
  · have hopening : Takes config (text "//") r { r with look := .line } :=
      takes_text hconfig hr.feed_slashes
    have hbody : Takes config (text (c.content.map fun ch => if ch == '\r' || ch == '\n' then ' ' else ch))
        { r with look := .line } { r with look := .line } := by
      refine takes_text hconfig (Reader.feed_line ?_)
      rw [String.toList_map]
      intro ch hch
      obtain ⟨b, hb, rfl⟩ := List.mem_map.mp hch
      have hother := List.all_eq_true.mp hlines b hb
      split
      · rfl
      · simp_all [isLineEnd]
    have hlast : Takes config newline { r with look := .line } r :=
      takes_newline_of (hr.feed_lineEnd (over_iff.mp hconfig.endOfLine) hconfig.endsLine) hr.rests
    exact hopening.append (hbody.append hlast)
  · have hopening : Takes config (text "/*") r { r with look := .block false } :=
      takes_text hconfig hr.feed_opening
    obtain ⟨starred, hbody⟩ := takes_block hconfig hcontent
    exact hopening.append (hbody.append (hend starred))

theorem takes_comment {c : Comment} (h : isRemark c.content = true) (hr : r.IsSteady) :
    Takes config [.comment c] r r := by
  intro w hw
  by_cases hprints : config.prints c.kind = true
  · obtain ⟨w', added, htypeset, hrest⟩ := takes_commentDoc hconfig h hr w hw
    refine ⟨w', added, ?_, hrest⟩
    rw [typeset_put c.doc_written] at htypeset
    simpa [typeset, typesetPiece, hprints] using htypeset
  · exact ⟨w, "", by simp [typeset, typesetPiece, hprints], by simp, rfl, hw⟩

/-- A marker is a comment, if the name that its reason gives has no slash. -/
theorem takes_unsupported {c : Construct} (h : ∀ s ∈ c.name?, Over (· != '/') s)
    (hr : r.IsSteady) : Takes config (unsupported c) r r := by
  have hslashes {s : String} (hs : Over (· != '/') s) (starred : Bool) :
      endsComment starred s.toList = false :=
    endsComment_of_forall fun ch hch => by simpa using over_iff.mp hs ch hch
  have hreason : Over (· != '/') (" : " ++ c.reason ++ " ") := by
    have hown := @Construct.over_reason (· != '/') (fun _ _ hne => by simpa using hne) c h
    exact over_append.mpr ⟨over_append.mpr ⟨by decide, hown⟩, by decide⟩
  have hbody : endsComment false
      (" ".toList ++ config.notSupportedText.toList ++ (" : " ++ c.reason ++ " ").toList) = false :=
    endsComment_append hconfig.notSupportedText (hslashes hreason)
  have hmarker : feed (config.marker c.reason).toList r = some r := by
    have hread := hr.feed_comment hbody
    simpa [Config.marker] using hread
  intro w hw
  obtain ⟨w', added, htypeset, hrest⟩ := takes_text hconfig hmarker w hw
  have hpiece : typeset config w (unsupported c) =
      typeset config w (text (config.marker c.reason)) := by
    simp [unsupported, text, typeset, typesetPiece, Config.judge, hconfig.tolerant, Sheet.step]
  exact ⟨w', added, hpiece.trans htypeset, hrest⟩

end Doc
end TypeScribe
