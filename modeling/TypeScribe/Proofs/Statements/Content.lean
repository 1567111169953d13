import TypeScribe.Proofs.Comments.Annotations
import TypeScribe.Proofs.Script.Flaws
import TypeScribe.Proofs.Statements.Written

/-!
# The content of statements

What is written for an expression, a type or a block does not end the statement that it stands in,
and what is written for a statement does not close the bracket that it stands in. That holds of trees
whose names have no signs, whose values are escaped, and whose comments and annotations end where
they are meant to.
-/
namespace TypeScribe
set_option autoImplicit false
open Text

/-- Names without brackets, signs, blanks and colons, escaped values, comments that end where they
are meant to, and annotations that are one comment each. -/
def statementSpelling : Spelling where
  letters c := !isBracket c && !isSign c && !isBlank c && c != ':'
  quotable quote value := quote.toList.all fun c => staysQuoted c false value.toList
  remark := isRemark
  usable a := !a.any Node.leavesComment && a.nestedUses == 0

theorem statementSpelling.letter_iff {c : Char} : statementSpelling.letters c = true ↔
    isBracket c = false ∧ isSign c = false ∧ isBlank c = false ∧ c ≠ ':' := by
  simp [statementSpelling, and_assoc]

theorem isBlank_of_isNameChar {c : Char} (h : isNameChar c = true) : isBlank c = false := by
  have hrange : 36 ≤ c.toNat ∧ c.toNat ≤ 122 := by
    delta isNameChar Char.isAlphanum Char.isAlpha Char.isUpper Char.isLower Char.isDigit at h
    simp only [Bool.or_eq_true, Bool.and_eq_true, decide_eq_true_eq, beq_iff_eq, ge_iff_le,
      UInt32.le_iff_toNat_le] at h
    change 36 ≤ c.val.toNat ∧ c.val.toNat ≤ 122
    rcases h with (((h | h) | rfl) | rfl) | rfl
    · rcases h with h | h <;> exact ⟨Nat.le_trans (by decide) h.1, Nat.le_trans h.2 (by decide)⟩
    · exact ⟨Nat.le_trans (by decide) h.1, Nat.le_trans h.2 (by decide)⟩
    all_goals decide
  refine List.any_eq_false.mpr fun range hmem => ?_
  simp only [blankRanges, List.mem_cons, List.not_mem_nil, or_false] at hmem
  simp only [Bool.and_eq_true, decide_eq_true_eq]
  rcases hmem with rfl | rfl | rfl | rfl | rfl | rfl | rfl | rfl | rfl | rfl <;> omega

theorem statementSpelling.letter (c : Char) (hc : isNameChar c = true) :
    statementSpelling.letters c = true := by
  have hsign : isSign c = false := by
    rw [← Bool.not_eq_true]
    intro hsign
    simp only [isSign, Bool.or_eq_true, beq_iff_eq] at hsign
    rcases hsign with ((rfl | rfl) | rfl) | rfl <;> cases hc
  have hcolon : c ≠ ':' := by
    rintro rfl
    cases hc
  exact letter_iff.mpr ⟨isBracket_of_isNameChar hc, hsign, isBlank_of_isNameChar hc, hcolon⟩

section

variable {s : String} (h : Over statementSpelling.letters s)

include h

theorem statementSpelling.no_sign : s.toList.any isSign = false := by
  refine List.any_eq_false.mpr fun c hc => ?_
  rw [(letter_iff.mp (over_iff.mp h c hc)).2.1]
  exact Bool.false_ne_true

theorem statementSpelling.openAfter_eq (opened : List Bracket) :
    openAfter s.toList opened = some opened :=
  openAfter_of_bracketless (fun c hc => (letter_iff.mp (over_iff.mp h c hc)).1) opened

theorem statementSpelling.over_slash : Over (· != '/') s := by
  refine over_iff.mpr fun c hc => ?_
  have hsign := (letter_iff.mp (over_iff.mp h c hc)).2.1
  rw [bne_iff_ne]
  rintro rfl
  cases hsign

theorem statementSpelling.no_lineEnd : ∀ c ∈ s.toList, isLineEnd c = false := by
  intro c hc
  have hblank := (letter_iff.mp (over_iff.mp h c hc)).2.2.1
  rw [← Bool.not_eq_true]
  intro hend
  simp only [isLineEnd, Bool.or_eq_true, beq_iff_eq] at hend
  rcases hend with ((rfl | rfl) | rfl) | rfl <;> exact absurd hblank (by decide)

end

theorem no_sign_of_isCalm {cs : List Char} (h : isCalm cs = true) : cs.any isSign = false := by
  unfold isCalm at h
  split at h
  · simpa using h
  · cases h

/-- The closure that a text begins with is still open behind it. -/
theorem openAfter_closure {s : String} (hs : Over statementSpelling.letters s) :
    openAfter ("((" ++ s ++ ") => ").toList [] = some [.round] := by
  rw [String.toList_append, String.toList_append, openAfter_append, openAfter_append]
  change ((openAfter s.toList [.round, .round]).bind _) = _
  rw [statementSpelling.openAfter_eq hs]
  rfl

theorem no_sign_closure {s : String} (hs : Over statementSpelling.letters s) :
    ("((" ++ s ++ ") => ").toList.any isSign = false := by
  rw [String.toList_append, String.toList_append, List.any_append, List.any_append,
    statementSpelling.no_sign hs]
  rfl

/-- Inside a simple statement or brackets, the document leaves the reader where it is. -/
def Doc.Stays (config : Config) (d : Doc) : Prop := ∀ r : Reader, r.IsHeld → Takes config d r r

/-- Inside of brackets, the document leaves the reader where it is. -/
def Doc.StaysInside (config : Config) (d : Doc) : Prop :=
  ∀ r : Reader, r.IsHeld → r.opened ≠ [] → Takes config d r r

/-- Inside of brackets, the document leaves the reader where it is, or in a line comment there. -/
def Doc.StaysOnLine (config : Config) (d : Doc) : Prop :=
  ∀ r : Reader, r.IsHeld → r.opened ≠ [] →
    Takes config d r r ∨ Takes config d r { r with look := .line }

namespace Doc

variable {config : Config} (hconfig : config.IsReadable) {d e : Doc}

theorem Stays.append (hd : Stays config d) (he : Stays config e) : Stays config (d ++ e) :=
  fun r hr => (hd r hr).append (he r hr)

theorem StaysInside.append (hd : StaysInside config d) (he : StaysInside config e) :
    StaysInside config (d ++ e) :=
  fun r hr hopened => (hd r hr hopened).append (he r hr hopened)

include hconfig

/-- Texts in order are read as one. -/
theorem takes_plain {r r' : Reader} (hd : d.IsPlain) (h : feed d.chars r = some r') :
    Takes config d r r' := by
  have htext : Takes config (text (String.ofList d.chars)) r r' := by
    refine takes_text hconfig ?_
    rwa [String.toList_ofList]
  intro w hw
  obtain ⟨w', added, htypeset, hrest⟩ := htext w hw
  exact ⟨w', added, (hd.writesAs config w).trans htypeset, hrest⟩

theorem stays_text {s : String} (hsigns : s.toList.any isSign = false) (h : IsNested s.toList) :
    Stays config (text s) :=
  fun _ hr => takes_text hconfig (hr.feed_nested hsigns h)

theorem stays_calm {s : String} (h : isCalm s.toList = true) : Stays config (text s) :=
  stays_text hconfig (no_sign_of_isCalm h) (isNested_of_isCalm h)

theorem stays_word {s : String} (h : Over statementSpelling.letters s) : Stays config (text s) :=
  stays_text hconfig (statementSpelling.no_sign h) (statementSpelling.openAfter_eq h [])

/-- A slash between blanks does not begin a comment. -/
theorem stays_symbol {symbol : String}
    (h : isCalm symbol.toList = true ∨ symbol = "/" ∨ symbol = "/=") :
    Stays config (text " " ++ text symbol ++ text " ") := by
  have hblank : Stays config (text " ") := stays_calm hconfig rfl
  have hplain : IsPlain (text " " ++ text symbol ++ text " ") :=
    ((isPlain_text _).append (isPlain_text _)).append (isPlain_text _)
  rcases h with h | rfl | rfl
  · exact (hblank.append (stays_calm hconfig h)).append hblank
  · refine fun r hr => takes_plain hconfig hplain ?_
    have hread : feed [' '] r = some r := hr.feed_nested rfl rfl
    change feed ([' '] ++ ['/', ' ']) r = some r
    rw [feed_append, hread]
    exact hr.feed_division rfl rfl (by decide)
  · refine fun r hr => takes_plain hconfig hplain ?_
    have hread : feed [' '] r = some r := hr.feed_nested rfl rfl
    change feed ([' '] ++ (['/', '='] ++ [' '])) r = some r
    rw [feed_append, hread, Option.bind_some, feed_append, hr.feed_division rfl rfl (by decide)]
    exact hread

theorem stays_quoted {q v : String} (hq : q = "'" ∨ q = "\"")
    (hv : statementSpelling.quotable q v = true) : Stays config (between q q (text v)) := by
  intro r hr
  have hcode : { r with look := .code } = r := by rw [← hr.code]
  have hquote {c : Char} (hc : c = '\'' ∨ c = '"') :
      feed [c] r = some { r with look := .quoted c false } ∧
        feed [c] { r with look := .quoted c false } = some r := by
    have htake : Reader.take { r with look := .quoted c false } c =
        some { r with look := .quoted c false } := by
      refine Reader.take_held (r := { r with look := .quoted c false }) hr.held ?_ ?_
      · rcases hc with rfl | rfl <;> decide
      · rcases hc with rfl | rfl <;> rfl
    constructor
    · rw [feed, Reader.step, hr.code]
      rcases hc with rfl | rfl <;> exact congrArg (Option.bind · (feed [])) htake
    · rcases hc with rfl | rfl <;> exact congrArg some hcode
  rcases hq with rfl | rfl
  · obtain ⟨hopening, hclosing⟩ := hquote (.inl rfl)
    have hvalue := Reader.feed_quoted (r := r) (Bool.and_eq_true_iff.mp hv).1
    exact ((takes_text hconfig (s := "'") hopening).append (takes_text hconfig hvalue)).append
      (takes_text hconfig (s := "'") hclosing)
  · obtain ⟨hopening, hclosing⟩ := hquote (.inr rfl)
    have hvalue := Reader.feed_quoted (r := r) (Bool.and_eq_true_iff.mp hv).1
    exact ((takes_text hconfig (s := "\"") hopening).append (takes_text hconfig hvalue)).append
      (takes_text hconfig (s := "\"") hclosing)

/-- What stands between brackets is inside of them. -/
theorem stays_between {a t : String} {b : Bracket} {inner : List Bracket}
    (ha : openAfter a.toList [] = some (b :: inner)) (hasigns : a.toList.any isSign = false)
    (ht : openAfter t.toList (b :: inner) = some []) (htsigns : t.toList.any isSign = false)
    (hd : StaysInside config d) : Stays config (between a t d) := by
  intro r hr
  have hopening := takes_text hconfig (hr.feed_calm hasigns [] ha)
  have hclosing := takes_text hconfig (hr.feed_calm htsigns (b :: inner) ht)
  have hinside := hd _ (hr.opens (b :: inner)) (List.cons_ne_nil _ _)
  exact (hopening.append hinside).append hclosing

theorem stays_enclosed {a t : String} (h : isCalmPair a.toList t.toList = true)
    (hd : StaysInside config d) : Stays config (between a t d) := by
  obtain ⟨b, ha, ht, -⟩ := isPair_iff.mp (isPair_of_isCalmPair h)
  simp only [isCalmPair, Bool.and_eq_true, Bool.not_eq_true'] at h
  exact stays_between hconfig ha h.1.2 ht h.2 hd

omit hconfig in
theorem Stays.inside (hd : Stays config d) : StaysInside config d := fun r hr _ => hd r hr

theorem stays_switched (hd : Stays config d) (he : StaysInside config e) :
    Stays config (text "switch(" ++ d ++ text ") \x7b" ++ e ++ text "\x7d") := by
  intro r hr
  have hselector := takes_text hconfig (s := "switch(") (hr.feed_calm rfl [] rfl)
  have hentries := takes_text hconfig (s := ") \x7b") (hr.feed_calm rfl [.round] rfl)
  have hend := takes_text hconfig (s := "\x7d") (hr.feed_calm rfl [.curly] rfl)
  exact (((hselector.append (hd _ (hr.opens [.round]))).append hentries).append
    (he _ (hr.opens [.curly]) (List.cons_ne_nil _ _))).append hend

/-- Whether no sign stands in the text but semicolons, which do not matter inside of brackets. -/
def isLoose (cs : List Char) : Bool := cs.all fun c => !isSign c || c == ';'

omit hconfig in
theorem sign_of_isLoose {cs : List Char} (h : isLoose cs = true) {r : Reader} (hr : r.opened ≠ []) :
    ∀ c ∈ cs, isSign c = false ∨ c = ';' ∧ r.opened ≠ [] := by
  intro c hc
  have hloose := List.all_eq_true.mp h c hc
  simp only [Bool.or_eq_true, Bool.not_eq_true', beq_iff_eq] at hloose
  exact hloose.imp_right fun hsemicolon => ⟨hsemicolon, hr⟩

theorem staysInside_between {a t : String} {inner : List Bracket}
    (ha : openAfter a.toList [] = some inner) (hasigns : a.toList.any isSign = false)
    (ht : openAfter t.toList inner = some [])
    (htsigns : isLoose t.toList = true) (hd : Stays config d) :
    StaysInside config (between a t d) := by
  intro r hr hopened
  have hopening := takes_text hconfig (hr.feed_calm hasigns [] ha)
  have hclosing := takes_text hconfig (hr.feed_brackets (sign_of_isLoose htsigns hopened) inner ht)
  exact (hopening.append (hd _ (hr.opens inner))).append hclosing

theorem staysInside_text {s : String} (hsigns : isLoose s.toList = true) (h : IsNested s.toList) :
    StaysInside config (text s) := by
  intro r hr hopened
  exact takes_text hconfig (hr.feed_brackets (sign_of_isLoose hsigns hopened) [] h)

omit hconfig in
theorem StaysInside.indented (hd : StaysInside config d) : StaysInside config (indented d) :=
  fun r hr hopened => (hd r hr hopened).indented

theorem StaysOnLine.placed (hd : StaysOnLine config d) :
    StaysInside config (newline ++ d ++ newline) := by
  intro r hr hopened
  have hnewline := takes_newline_steady hconfig hr.isSteady
  rcases hd r hr hopened with hd | hd
  · exact (hnewline.append hd).append hnewline
  · have hend : Takes config newline { r with look := .line } r :=
      takes_newline_of (hr.isSteady.feed_lineEnd (over_iff.mp hconfig.endOfLine) hconfig.endsLine)
        hr.isSteady.rests
    exact (hnewline.append hd).append hend

omit hconfig in
theorem toList_placeholder (s : String) : (Script.placeholder s).toList =
    ['/', '/'] ++ (" class or interface '".toList ++ s.toList
      ++ "' is export in module after root class".toList) := by
  have hstart : "// class or interface '".toList = ['/', '/'] ++ " class or interface '".toList := by
    decide
  unfold Script.placeholder
  rw [String.toList_append, String.toList_append, hstart, List.append_assoc, List.append_assoc,
    List.append_assoc]

/-- A placeholder is a line comment. -/
theorem staysOnLine_placeholder {s : String} (hd : Stays config d)
    (hs : Over statementSpelling.letters s) :
    StaysOnLine config (d ++ text (Script.placeholder s)) := by
  intro r hr _
  have hfixed {t : String} (ht : t.toList.all (fun c => !isLineEnd c) = true) :
      ∀ c ∈ t.toList, isLineEnd c = false :=
    fun c hc => by simpa using List.all_eq_true.mp ht c hc
  have hline := List.forall_mem_append.mpr
    ⟨List.forall_mem_append.mpr ⟨hfixed (t := " class or interface '") (by decide),
      statementSpelling.no_lineEnd hs⟩,
      hfixed (t := "' is export in module after root class") (by decide)⟩
  refine .inr ((hd r hr).append (takes_text hconfig ?_))
  rw [toList_placeholder, feed_append, hr.isSteady.feed_slashes, Option.bind_some]
  exact Reader.feed_line hline

theorem stays_composes :
    Composes statementSpelling (Stays config) (StaysInside config) (StaysOnLine config) where
  letter := statementSpelling.letter
  nil _ _ := .nil
  append := Stays.append
  literal := stays_calm hconfig
  word := stays_word hconfig
  assigned op := stays_symbol hconfig (by cases op <;> decide)
  related op := stays_symbol hconfig (by cases op <;> decide)
  quoted := stays_quoted hconfig
  newline _ hr := takes_newline_steady hconfig hr.isSteady
  comment h _ hr := takes_comment hconfig h hr.isSteady
  unsupported h _ hr := takes_unsupported hconfig
    (fun s hs => statementSpelling.over_slash (h s hs)) hr.isSteady
  enclosed := stays_enclosed hconfig
  applied hs hd := stays_between hconfig (openAfter_closure hs) (no_sign_closure hs) rfl rfl hd.inside
  switched := stays_switched hconfig
  solid := Stays.inside
  join := StaysInside.append
  indented := StaysInside.indented
  stop hs := by
    rcases hs with rfl | rfl | rfl <;> exact staysInside_text hconfig rfl rfl
  repeated hd := staysInside_between hconfig rfl rfl rfl rfl hd
  appliedLast hs hd :=
    staysInside_between hconfig (openAfter_closure hs) (no_sign_closure hs) rfl rfl hd
  named hs := by
    refine stays_text hconfig ?_ ?_
    · rw [String.toList_append, String.toList_append, List.any_append, List.any_append,
        statementSpelling.no_sign hs]
      rfl
    · rw [String.toList_append, String.toList_append, IsNested, openAfter_append, openAfter_append]
      change ((openAfter _ []).bind _) = _
      rw [statementSpelling.openAfter_eq hs]
      rfl
  member hd r hr hopened := .inl (hd r hr hopened)
  placed := StaysOnLine.placed hconfig
  placeholder := staysOnLine_placeholder hconfig

end Doc

theorem closings_eq_zero_iff {starred : Bool} {cs : List Char} :
    closings starred cs = 0 ↔ endsComment starred cs = false := by
  induction cs generalizing starred with
  | nil => exact ⟨fun _ => rfl, fun _ => rfl⟩
  | cons c rest ih =>
    rw [closings, endsComment, Nat.add_eq_zero_iff, Bool.or_eq_false_iff, ih]
    cases starred && c == '/' <;> simp

/-- An annotation without others among its arguments is read as one comment. -/
theorem AnnotationUse.takes_script {config : Config} (hconfig : config.IsReadable)
    {a : AnnotationUse} {cx : Context} (ha : statementSpelling.usable a = true)
    (hcx : cx.Speaks statementSpelling.letters) {r : Reader} (hr : r.IsSteady) :
    Doc.Takes config (a.script cx) r r := by
  simp only [statementSpelling, Bool.and_eq_true, Bool.not_eq_true', beq_iff_eq] at ha
  obtain ⟨hconstant, hnested⟩ := ha
  have hnames {name : String} {scope : Scope} {d : TypeDescriptor}
      (hd : cx.resolver.resolveSimple name scope = .ok d) : commentEnds d.qualifiedName = 0 := by
    refine closings_eq_zero_iff.mpr (endsComment_of_forall fun c hc => ?_)
    simpa using over_iff.mp (statementSpelling.over_slash (hcx.resolved hd)) c hc
  have hscript : Doc.Closes (a.script cx) a.uses := a.script_closes hnames cx rfl hconstant
  obtain ⟨cs, hcs⟩ := a.exists_chars cx
  refine Doc.takes_plain hconfig hscript.1 ?_
  have hinner : endsComment true cs = false := by
    refine closings_eq_zero_iff.mp ?_
    have hcount := hscript.2
    rw [hcs, a.uses_eq, hnested, List.append_assoc, closings_append, closings_append] at hcount
    change 0 + (closings true cs + closings _ ['*', '/']) = 1 at hcount
    have hend (starred : Bool) : closings starred ['*', '/'] = 1 := by cases starred <;> rfl
    rw [hend] at hcount
    omega
  rw [hcs]
  exact hr.feed_comment (endsComment_of_starred hinner)

/-- What is written for a node does not end the statement that it stands in. -/
theorem Node.script_stays {config : Config} (hconfig : config.IsReadable) {c : Category} (n : Node c)
    (cx : Context) (h : cx.Admits statementSpelling Context.IsInside
      (n.any Node.isDeclaring) (n.any (Node.misspells statementSpelling))) :
    Script.All statementSpelling (Doc.Stays config) (Doc.StaysInside config)
      (Doc.StaysOnLine config) c (n.script cx) := by
  refine n.script_composes (Doc.stays_composes hconfig) Context.isInside_inherited ?_ ?_ ?_ cx h
  · intro a cx ha hcx _ r hr
    have husable : statementSpelling.usable a = true := Node.usable_ownUse ha a (by cases a <;> rfl)
    exact a.takes_script hconfig husable hcx hr.isSteady
  · intro cx hcx hscope
    exact absurd hscope hcx
  · intro cx _ names body _ _ r _
    exact Doc.takes_moved cx.route names body r

end TypeScribe
