import TypeScribe.Proofs.Statements.Content

/-!
# How statements open

A reader knows a statement by its first word. What is written for an expression opens a simple
statement, unless a name in it reads as the first word of another kind of statement, or makes a label
with a colon behind it. Which text stands first is settled by the leftmost operand.
-/
namespace TypeScribe
set_option autoImplicit false
open Text

/-- A reader of code outside of all brackets. -/
abbrev Reader.placed (place : Position) (count : Nat) : Reader := { place := place, count := count }

namespace Reader

/-- A simple statement has begun, if it has, with a word that is no control word. -/
inductive Begun (roles : List Role) (count : Nat) : Reader → Prop where
  | start : Begun roles count (placed (.start roles) count)
  | first {word : List Char} (h : isControlWord word = false) :
      Begun roles count (placed (.first word roles) count)
  | simple : Begun roles count (placed (.simple roles) count)

variable {roles : List Role} {count : Nat} {r : Reader} {c : Char}

theorem isHeld_simple (roles : List Role) (count : Nat) : IsHeld (placed (.simple roles) count) :=
  ⟨rfl, .inr ⟨roles, rfl⟩⟩

theorem isSteady_start (roles : List Role) (count : Nat) : IsSteady (placed (.start roles) count) :=
  ⟨rfl, fun _ => rfl⟩

/-- A word that is no control word ends where another character follows. -/
theorem step_first {word : List Char} (h : isControlWord word = false) (hsign : isSign c = false)
    (hword : isWordChar c = false) (hcolon : c ≠ ':') :
    step (placed (.first word roles) count) c = step (placed (.simple roles) count) c := by
  rw [step_of_not_isSign rfl hsign, step_of_not_isSign rfl hsign, take_outside rfl, take_outside rfl,
    outside, outside, hword]
  change endFirst _ word roles c = _
  rw [endFirst, if_neg (fun hlabel => hcolon hlabel.1),
    Position.afterFirst_of_not_isControlWord h]
  rfl

theorem Begun.feed_blank (hr : Begun roles count r) :
    ∃ r', Begun roles count r' ∧ r'.IsSteady ∧ feed [' '] r = some r' := by
  cases hr with
  | start => exact ⟨_, .start, isSteady_start roles count, rfl⟩
  | simple => exact ⟨_, .simple, (isHeld_simple roles count).isSteady, rfl⟩
  | first h =>
    refine ⟨_, .simple, (isHeld_simple roles count).isSteady, ?_⟩
    rw [feed, step_first h rfl rfl (by decide)]
    rfl

theorem Begun.feed_semicolon (hr : Begun roles count r) :
    feed [';'] r = some (placed (.ended false roles) count) := by
  cases hr with
  | start => rfl
  | simple => rfl
  | first h =>
    rw [feed, step, takeCode]
    change (endFirst _ _ roles ';').bind _ = _
    rw [endFirst, if_neg (fun hlabel => absurd hlabel.1 (by decide)),
      Position.afterFirst_of_not_isControlWord h]
    rfl

end Reader

/-- Behind whatever has begun, the text is read as behind a simple statement. -/
def IsGlue (cs : List Char) : Prop :=
  ∀ (roles : List Role) (count : Nat) (r : Reader), r.Begun roles count → ∃ r',
    feed cs r = some r' ∧ feed cs (.placed (.simple roles) count) = some r'

theorem isGlue_of_head {c : Char} {cs : List Char} (hsign : isSign c = false)
    (hword : isWordChar c = false) (hcolon : c ≠ ':')
    (h : ∀ roles count, ∃ r', feed (c :: cs) (.placed (.start roles) count) = some r' ∧
      feed (c :: cs) (.placed (.simple roles) count) = some r') : IsGlue (c :: cs) := by
  intro roles count r hr
  obtain ⟨r', hstart, hsimple⟩ := h roles count
  refine ⟨r', ?_, hsimple⟩
  cases hr with
  | start => exact hstart
  | simple => exact hsimple
  | first hfirst =>
    rw [feed, Reader.step_first hfirst hsign hword hcolon]
    exact hsimple

/-- Whether the text begins with a control word. -/
def isAstray (s : String) : Bool := isControlWord (s.toList.takeWhile isWordChar)

section

variable {roles : List Role} {count : Nat} {cs : List Char}

theorem feed_letters (hcs : ∀ c ∈ cs, statementSpelling.letters c = true) {r : Reader}
    (hr : r.IsHeld) : feed cs r = some r := by
  refine hr.feed_nested (List.any_eq_false.mpr fun c hc => ?_)
    (openAfter_of_bracketless (fun c hc => (statementSpelling.letter_iff.mp (hcs c hc)).1) [])
  simp [(statementSpelling.letter_iff.mp (hcs c hc)).2.1]

theorem feed_first {word : List Char}
    (hcs : ∀ c ∈ cs, statementSpelling.letters c = true)
    (h : isControlWord (word ++ cs.takeWhile isWordChar) = false) :
    ∃ r, r.Begun roles count ∧ feed cs (.placed (.first word roles) count) = some r := by
  induction cs generalizing word with
  | nil => exact ⟨_, .first (by simpa using h), rfl⟩
  | cons c rest ih =>
    obtain ⟨hc, hrest⟩ := List.forall_mem_cons.mp hcs
    obtain ⟨hbracket, hsign, hblank, hcolon⟩ := statementSpelling.letter_iff.mp hc
    cases hword : isWordChar c with
    | true =>
      rw [List.takeWhile_cons_of_pos hword] at h
      obtain ⟨r, hr, hread⟩ := @ih (word ++ [c]) hrest (by simpa using h)
      refine ⟨r, hr, ?_⟩
      rw [feed, Reader.step_of_not_isSign rfl hsign, Reader.take_outside rfl, Reader.outside, hword]
      exact hread
    | false =>
      rw [List.takeWhile_cons_of_neg (by simp [hword]), List.append_nil] at h
      refine ⟨_, .simple, ?_⟩
      have hread := feed_letters hcs (Reader.isHeld_simple roles count)
      rwa [feed, ← Reader.step_first h hsign hword hcolon] at hread

/-- A name that is not astray begins a simple statement. -/
theorem feed_start (hcs : ∀ c ∈ cs, statementSpelling.letters c = true)
    (h : isControlWord (cs.takeWhile isWordChar) = false) :
    ∃ r, r.Begun roles count ∧ feed cs (.placed (.start roles) count) = some r := by
  cases cs with
  | nil => exact ⟨_, .start, rfl⟩
  | cons c rest =>
    obtain ⟨hc, hrest⟩ := List.forall_mem_cons.mp hcs
    obtain ⟨hbracket, hsign, hblank, hcolon⟩ := statementSpelling.letter_iff.mp hc
    cases hword : isWordChar c with
    | true =>
      rw [List.takeWhile_cons_of_pos hword] at h
      obtain ⟨r, hr, hread⟩ := @feed_first roles count rest [c] hrest h
      refine ⟨r, hr, ?_⟩
      rw [feed, Reader.step_of_not_isSign rfl hsign, Reader.take_outside rfl, Reader.outside, hword]
      exact hread
    | false =>
      refine ⟨_, .simple, ?_⟩
      have hread := feed_letters hcs (Reader.isHeld_simple roles count)
      have hbrace : c ≠ '\x7b' := by
        rintro rfl
        cases hbracket
      have hstep : Reader.step (.placed (.start roles) count) c =
          Reader.step (.placed (.simple roles) count) c := by
        rw [Reader.step_of_not_isSign rfl hsign, Reader.step_of_not_isSign rfl hsign,
          Reader.take_outside rfl, Reader.take_outside rfl, Reader.outside, Reader.outside, hword]
        simp [Reader.punctuate, Reader.atStart, hblank, hbrace]
        rfl
      rwa [feed, ← hstep] at hread

end

namespace Doc.Takes

variable {config : Config} {d e : Doc} {q r r' r'' : Reader}

/-- Two readers that a document brings to one state go on alike. -/
theorem merge (hq : Takes config d q r') (hr : Takes config d r r') (hrests : r.Rests)
    (h : Takes config (d ++ e) r r'') : Takes config (d ++ e) q r'' := by
  intro w hw
  obtain ⟨w₁, first, hfirst, hwritten₁, hread, -⟩ := hq w hw
  obtain ⟨w₂, second, hsecond, hwritten₂, hread', -⟩ := hr w ⟨hw.margins, .inl hrests⟩
  obtain ⟨w', added, hwhole, hwritten, hadded, hmeets⟩ := h w ⟨hw.margins, .inl hrests⟩
  have hwriters : w₁ = w₂ := Except.ok.inj (hfirst.symm.trans hsecond)
  have hsame : second = first := by
    rw [hwriters, hwritten₂] at hwritten₁
    exact String.append_right_inj _ |>.mp hwritten₁
  have hrest : typeset config w₁ e = .ok w' := by
    rw [typeset_append, hfirst] at hwhole
    exact hwhole
  obtain ⟨more, hmore⟩ := (Writer.Extends.of_typeset hrest).written
  have hsplit : added = first ++ more := by
    rw [hmore, hwritten₁, String.append_assoc] at hwritten
    exact (String.append_right_inj _ |>.mp hwritten).symm
  refine ⟨w', added, hwhole, hwritten, ?_, hmeets⟩
  rw [hsplit, String.toList_append, feed_append] at hadded ⊢
  rw [← hsame, hread'] at hadded
  rw [hread]
  exact hadded

end Doc.Takes

/-- Outside of comments, quotes and words, the document leaves the reader where it is. -/
def Doc.IsPassedOver (config : Config) (d : Doc) : Prop :=
  ∀ r : Reader, r.IsSteady → Takes config d r r

/-- Behind whatever has begun, the document leads into a simple statement. -/
def Doc.Settles (config : Config) (d : Doc) : Prop :=
  ∀ {roles : List Role} {count : Nat} {r : Reader}, r.Begun roles count →
    Takes config d r (.placed (.simple roles) count)

/-- A simple statement may begin with the document. -/
structure Doc.Opens (config : Config) (d : Doc) : Prop where
  begins : ∀ roles count, ∃ r, r.Begun roles count ∧
    Takes config d (.placed (.start roles) count) r
  stays : Stays config d

namespace Doc

variable {config : Config} (hconfig : config.IsReadable) {d e f g : Doc} {ds : List Doc}

theorem IsPassedOver.append (hd : IsPassedOver config d) (he : IsPassedOver config e) :
    IsPassedOver config (d ++ e) :=
  fun r hr => (hd r hr).append (he r hr)

theorem IsPassedOver.flatMap {α : Type} {as : List α} {f : α → Doc}
    (h : ∀ a ∈ as, IsPassedOver config (f a)) : IsPassedOver config (as.flatMap f) := by
  induction as with
  | nil => exact fun _ _ => .nil
  | cons a rest ih =>
    obtain ⟨ha, hrest⟩ := List.forall_mem_cons.mp h
    exact ha.append (ih hrest)

theorem opens_nil : Opens config [] := ⟨fun _ _ => ⟨_, .start, .nil⟩, fun _ _ => .nil⟩

theorem IsPassedOver.opens (hd : IsPassedOver config d) (he : Opens config e) :
    Opens config (d ++ e) where
  begins roles count := by
    obtain ⟨r, hr, hread⟩ := he.begins roles count
    exact ⟨r, hr, (hd _ (Reader.isSteady_start roles count)).append hread⟩
  stays r hr := (hd r hr.isSteady).append (he.stays r hr)

theorem IsPassedOver.opens_alone (hd : IsPassedOver config d) : Opens config d := by
  have h := hd.opens opens_nil
  rwa [List.append_nil] at h

theorem Opens.settled (hd : Opens config d) (he : Settles config e) (hstays : Stays config (d ++ e)) :
    Opens config (d ++ e) where
  begins roles count := by
    obtain ⟨r, hr, hread⟩ := hd.begins roles count
    exact ⟨_, .simple, hread.append (he hr)⟩
  stays := hstays

include hconfig

theorem passedOver_blank : IsPassedOver config (text " ") := by
  have hblank : ∀ c ∈ [' '], isBlank c = true := List.forall_mem_singleton.mpr rfl
  exact fun _ hr => takes_text hconfig (s := " ") (hr.rests.feed hblank)

theorem passedOver_newline : IsPassedOver config newline :=
  fun _ hr => takes_newline_steady hconfig hr

theorem passedOver_unsupported {c : Construct} (h : ∀ s ∈ c.name?, Over (· != '/') s) :
    IsPassedOver config (unsupported c) :=
  fun _ hr => takes_unsupported hconfig h hr

theorem passedOver_nameless (c : Construct) (h : c.name? = none) : IsPassedOver config (unsupported c) := by
  refine passedOver_unsupported hconfig ?_
  rw [h]
  exact fun _ hs => nomatch hs

theorem passedOver_comment {comment : Option Comment}
    (h : ∀ c ∈ comment, isRemark c.content = true) : IsPassedOver config (Doc.comment comment) := by
  cases comment with
  | none => exact fun _ _ => .nil
  | some c => exact fun _ hr => takes_comment hconfig (h c rfl) hr

theorem passedOver_inlineAnnotations (h : ∀ d ∈ ds, IsPassedOver config d) :
    IsPassedOver config (Script.inlineAnnotations ds) :=
  .flatMap fun d hd => (h d hd).append (passedOver_blank hconfig)

theorem passedOver_levelAnnotations (h : ∀ d ∈ ds, IsPassedOver config d) :
    IsPassedOver config (Script.levelAnnotations ds) :=
  .flatMap fun d hd => ((passedOver_blank hconfig).append (h d hd)).append (passedOver_blank hconfig)

theorem opens_word {s : String} (h : Over statementSpelling.letters s) (hs : isAstray s = false) :
    Opens config (text s) where
  begins _ _ := by
    obtain ⟨r, hr, hread⟩ := feed_start (over_iff.mp h) hs
    exact ⟨r, hr, takes_text hconfig hread⟩
  stays := stays_word hconfig h

/-- Where a document that stays begins with texts that are read alike at the start of a statement and
in it, it opens a statement. -/
theorem opens_of_head (hg : g.IsPlain)
    (h : ∀ roles count, ∃ r, feed g.chars (.placed (.start roles) count) = some r ∧
      feed g.chars (.placed (.simple roles) count) = some r)
    (hd : g <+: d) (hstays : Stays config d) : Opens config d where
  begins roles count := by
    obtain ⟨e, rfl⟩ := hd
    obtain ⟨r, hstart, hsimple⟩ := h roles count
    have hheld := Reader.isHeld_simple roles count
    exact ⟨_, .simple, (takes_plain hconfig hg hstart).merge (takes_plain hconfig hg hsimple)
      hheld.isSteady.rests (hstays _ hheld)⟩
  stays := hstays

/-- So does one that begins with another one that opens a statement, and goes on with glue. -/
theorem Opens.glued (hd : Opens config d) (hg : g.IsPlain) (h : IsGlue g.chars) (he : d ++ g <+: e)
    (hstays : Stays config e) : Opens config e where
  begins roles count := by
    obtain ⟨f, rfl⟩ := he
    obtain ⟨r, hr, hread⟩ := hd.begins roles count
    obtain ⟨r', hglue, hsimple⟩ := h roles count r hr
    have hheld := Reader.isHeld_simple roles count
    exact ⟨_, .simple, (hread.append (takes_plain hconfig hg hglue)).merge
      ((hd.stays _ hheld).append (takes_plain hconfig hg hsimple)) hheld.isSteady.rests
      (hstays _ hheld)⟩
  stays := hstays

theorem Opens.glued_text {s : String} (hd : Opens config d) (h : IsGlue s.toList)
    (he : d ++ text s <+: e) (hstays : Stays config e) : Opens config e := by
  refine hd.glued hconfig (isPlain_text s) ?_ he hstays
  rwa [chars_text]

end Doc

theorem isGlue_dot : IsGlue ['.'] := isGlue_of_head rfl rfl (by decide) fun _ _ => ⟨_, rfl, rfl⟩

theorem isGlue_round : IsGlue ['('] := isGlue_of_head rfl rfl (by decide) fun _ _ => ⟨_, rfl, rfl⟩

/-- The sign of an operation, between blanks. -/
def isOperation (symbol : String) : Prop := IsGlue (' ' :: symbol.toList ++ [' '])

theorem isOperation_assign (op : AssignOp) : isOperation op.symbol := by
  cases op <;> exact isGlue_of_head rfl rfl (by decide) fun _ _ => ⟨_, rfl, rfl⟩

theorem isOperation_binary (op : BinaryOp) : isOperation op.scriptSymbol := by
  cases op <;> exact isGlue_of_head rfl rfl (by decide) fun _ _ => ⟨_, rfl, rfl⟩

theorem isOperation_instanceof : isOperation "instanceof" :=
  isGlue_of_head rfl rfl (by decide) fun _ _ => ⟨_, rfl, rfl⟩

namespace Doc

variable {config : Config} (hconfig : config.IsReadable) {d e f : Doc} {ds : List Doc}

include hconfig

/-- The levels of an array type close the word before them. -/
theorem settles_level (h : ∀ d ∈ ds, IsPassedOver config d) : Settles config (Script.level ds) := by
  induction ds with
  | nil =>
    intro roles count r hr
    have hglue : IsGlue ['[', ']'] :=
      isGlue_of_head rfl rfl (by decide) fun _ _ => ⟨_, rfl, rfl⟩
    obtain ⟨r', hread, hsimple⟩ := hglue roles count r hr
    cases hsimple
    exact takes_text hconfig hread
  | cons d rest ih =>
    obtain ⟨hd, hrest⟩ := List.forall_mem_cons.mp h
    intro roles count r hr
    obtain ⟨r', hr', hsteady, hblank⟩ := hr.feed_blank
    have hannotation := ((takes_text hconfig (s := " ") hblank).append (hd r' hsteady)).append
      (passedOver_blank hconfig r' hsteady)
    have hlevel := hannotation.append (ih hrest hr')
    simpa [Script.level, Script.levelAnnotations] using hlevel

theorem Opens.separated {s : String} (hd : Opens config d) (hs : IsGlue s.toList)
    (hstays : Stays config (Doc.separated s (d :: ds))) :
    Opens config (Doc.separated s (d :: ds)) := by
  cases ds with
  | nil => exact hd
  | cons e rest => exact hd.glued_text hconfig hs (List.prefix_append _ _) hstays

theorem Opens.angled (hd : Opens config d) (hstays : Stays config (d ++ Script.angled ds)) :
    Opens config (d ++ Script.angled ds) := by
  revert hstays
  unfold Script.angled
  split
  · intro _
    rwa [List.append_nil]
  · intro hstays
    refine hd.glued_text hconfig (s := "<")
      (isGlue_of_head rfl rfl (by decide) fun _ _ => ⟨_, rfl, rfl⟩) ?_ hstays
    refine (List.prefix_append_right_inj d).mpr ?_
    exact (List.prefix_append _ _).trans (List.prefix_append _ _)

theorem Opens.infixed {symbol : String} (hd : Opens config d) (hs : isOperation symbol)
    (hstays : Stays config (Script.infixed d symbol e)) :
    Opens config (Script.infixed d symbol e) := by
  have hplain : IsPlain (text " " ++ text symbol ++ text " ") :=
    ((isPlain_text _).append (isPlain_text _)).append (isPlain_text _)
  refine hd.glued hconfig hplain ?_ ⟨e, by simp [Script.infixed]⟩ hstays
  simpa [isOperation] using hs

theorem Opens.underScope (hd : Opens config d)
    (hstays : Stays config (Script.underScope (some d) e)) :
    Opens config (Script.underScope (some d) e) :=
  hd.glued_text hconfig (s := ".") isGlue_dot (List.prefix_append _ _) hstays

theorem Opens.arrayAccess (hd : Opens config d) (hstays : Stays config (Script.arrayAccess d e)) :
    Opens config (Script.arrayAccess d e) := by
  refine hd.glued_text hconfig (s := "[")
    (isGlue_of_head rfl rfl (by decide) fun _ _ => ⟨_, rfl, rfl⟩) ?_ hstays
  exact (List.prefix_append _ _).trans (List.prefix_append _ _)

theorem Opens.conditional (hd : Opens config d) (hstays : Stays config (Script.conditional d e f)) :
    Opens config (Script.conditional d e f) := by
  refine hd.glued_text hconfig (s := " ? ")
    (isGlue_of_head rfl rfl (by decide) fun _ _ => ⟨_, rfl, rfl⟩) ?_ hstays
  exact ((List.prefix_append _ _).trans (List.prefix_append _ _)).trans (List.prefix_append _ _)

theorem opens_text {s : String}
    (h : ∀ roles count, ∃ r, feed s.toList (.placed (.start roles) count) = some r ∧
      feed s.toList (.placed (.simple roles) count) = some r)
    (hd : text s <+: d) (hstays : Stays config d) : Opens config d := by
  refine opens_of_head hconfig (isPlain_text s) ?_ hd hstays
  rwa [chars_text]

theorem opens_between {a t : String}
    (h : ∀ roles count, ∃ r, feed a.toList (.placed (.start roles) count) = some r ∧
      feed a.toList (.placed (.simple roles) count) = some r)
    (hstays : Stays config (between a t d)) : Opens config (between a t d) :=
  opens_text hconfig h ((List.prefix_append _ _).trans (List.prefix_append _ _)) hstays

theorem Opens.unary (op : UnaryOp) (hd : Opens config d)
    (hstays : Stays config (Script.unary op d)) : Opens config (Script.unary op d) := by
  revert hstays
  unfold Script.unary
  split
  · intro hstays
    refine hd.glued_text hconfig ?_ List.prefix_rfl hstays
    cases op <;> exact isGlue_of_head rfl rfl (by decide) fun _ _ => ⟨_, rfl, rfl⟩
  · intro hstays
    refine opens_text hconfig ?_ (List.prefix_append _ _) hstays
    cases op <;> exact fun _ _ => ⟨_, rfl, rfl⟩

theorem opens_cast (isIntegral : Bool) (hstays : Stays config (Script.cast isIntegral d e)) :
    Opens config (Script.cast isIntegral d e) := by
  revert hstays
  unfold Script.cast
  split
  · exact opens_between hconfig fun _ _ => ⟨_, rfl, rfl⟩
  · intro hstays
    refine opens_text hconfig (s := "<") (fun _ _ => ⟨_, rfl, rfl⟩) ?_ hstays
    exact ((List.prefix_append _ _).trans (List.prefix_append _ _)).trans (List.prefix_append _ _)

theorem opens_arrayCreation {sizes : List (Option Doc)} {values : Option (List Doc)}
    (hstays : Stays config (Script.arrayCreation d sizes values)) :
    Opens config (Script.arrayCreation d sizes values) := by
  cases values with
  | some values => exact opens_between hconfig (fun _ _ => ⟨_, rfl, rfl⟩) hstays
  | none =>
    refine opens_text hconfig (s := "new Array<") (fun _ _ => ⟨_, rfl, rfl⟩) ?_ hstays
    exact ((((List.prefix_append _ _).trans (List.prefix_append _ _)).trans
      (List.prefix_append _ _)).trans (List.prefix_append _ _)).trans (List.prefix_append _ _)

theorem opens_methodCall {scope : Option Doc} {ts : List TypeShape} {name : String}
    (hscope : ∀ d ∈ scope, Opens config d) (hname : Opens config (text (escapeIdentifier name)))
    (hts : ∀ t ∈ ts, t.All (Stays config))
    (hstays : Stays config (Script.methodCall scope ts name ds)) :
    Opens config (Script.methodCall scope ts name ds) := by
  have hP := stays_composes hconfig
  cases scope with
  | some d =>
    refine (hscope d rfl).glued_text hconfig (s := ".") isGlue_dot ?_ hstays
    exact ((List.prefix_append _ _).trans (List.prefix_append _ _)).trans (List.prefix_append _ _)
  | none =>
    have htyped := hname.angled hconfig (hP.append hname.stays (hP.angled (hP.typeDocs hts)))
    refine htyped.glued_text hconfig (s := "(") isGlue_round ?_ hstays
    refine (List.prefix_append_right_inj _).mpr ?_
    exact (List.prefix_append _ _).trans (List.prefix_append _ _)

omit hconfig in
/-- A closure is read alike at the start of a statement and in it. -/
theorem feed_closure {s : String} (hs : Over statementSpelling.letters s) (roles : List Role)
    (count : Nat) : ∃ r, feed ("((" ++ s ++ ") => ").toList (.placed (.start roles) count) = some r ∧
      feed ("((" ++ s ++ ") => ").toList (.placed (.simple roles) count) = some r := by
  have hheld := Reader.isHeld_simple roles count
  have hread := hheld.feed_calm (no_sign_closure hs) [] (openAfter_closure hs)
  refine ⟨_, ?_, hread⟩
  have hlist : ("((" ++ s ++ ") => ").toList = '(' :: '(' :: (s.toList ++ ") => ".toList) := by
    rw [String.toList_append, String.toList_append]
    rfl
  rw [hlist] at hread ⊢
  exact hread

theorem opens_anonymousClass {cx : Context} {type : ClassType} {ms : List MemberShape}
    {isStatic : Bool} (hstays : Stays config (Script.anonymousClass cx type d ds ms isStatic)) :
    Opens config (Script.anonymousClass cx type d ds ms isStatic) := by
  have hcapture := over_of_all statementSpelling.letter cx.over_captureName
  cases isStatic with
  | false =>
    refine opens_text hconfig (feed_closure hcapture) ?_ hstays
    simp [Script.anonymousClass, Context.outerThis]
  | true =>
    refine opens_text hconfig
      (s := if cx.isInterface type then "new class implements " else "new class extends ") ?_ ?_ hstays
    · split <;> exact fun _ _ => ⟨_, rfl, rfl⟩
    · simp [Script.anonymousClass, Context.outerThis]

theorem opens_objectCreation {cx : Context} {type : ClassType} {scope : Option Doc}
    {body : Option (List MemberShape)} {isStatic : Bool} (hscope : ∀ d ∈ scope, Opens config d)
    (hname : Over statementSpelling.letters type.name)
    (hclass : ∀ ms ∈ body, Stays config (Script.anonymousClass cx type d ds ms isStatic))
    (hstays : Stays config (Script.objectCreation cx scope type d ds body isStatic)) :
    Opens config (Script.objectCreation cx scope type d ds body isStatic) := by
  cases body with
  | some ms =>
    refine IsPassedOver.opens ?_ (opens_anonymousClass hconfig (hclass ms rfl))
    split
    · refine passedOver_unsupported hconfig ?_
      rintro s ⟨⟩
      exact statementSpelling.over_slash hname
    · exact fun _ _ => .nil
  | none =>
    cases scope with
    | some d => exact (hscope d rfl).underScope hconfig hstays
    | none =>
      refine opens_text hconfig (s := "new ") (fun _ _ => ⟨_, rfl, rfl⟩) ?_ hstays
      exact (List.prefix_append _ _).trans (List.prefix_append _ _)

theorem opens_lambda (isEnclosed : Bool) (h : isEnclosed = false → ∀ d ∈ ds, Opens config d)
    (hstays : Stays config (Script.lambda ds isEnclosed e)) :
    Opens config (Script.lambda ds isEnclosed e) := by
  have hP := stays_composes hconfig
  cases isEnclosed with
  | true =>
    refine opens_text hconfig (s := "(") (fun _ _ => ⟨_, rfl, rfl⟩) ?_ hstays
    exact (((List.prefix_append _ _).trans (List.prefix_append _ _)).trans
      (List.prefix_append _ _)).trans (List.prefix_append _ _)
  | false =>
    cases ds with
    | nil =>
    exact opens_text hconfig (s := " => ") (fun _ _ => ⟨_, rfl, rfl⟩) (List.prefix_append _ _) hstays
    | cons d rest =>
      have hds := h rfl
      have hlisting := hP.listing fun d hd => (hds d hd).stays
      have hfirst := (hds d List.mem_cons_self).separated hconfig (s := ", ")
        (isGlue_of_head rfl rfl (by decide) fun _ _ => ⟨_, rfl, rfl⟩) hlisting
      exact hfirst.glued_text hconfig (s := " => ")
        (isGlue_of_head rfl rfl (by decide) fun _ _ => ⟨_, rfl, rfl⟩) (List.prefix_append _ _) hstays

theorem opens_classType {cx : Context} {segments : List String} {scope : Option Doc} {name : String}
    {ts : Option (List TypeShape)} (hscope : ∀ d ∈ scope, Opens config d)
    (hname : Opens config (text (cx.typeName name))) (hds : ∀ d ∈ ds, IsPassedOver config d)
    (hstays : Stays config (Script.classType cx segments scope name ts ds)) :
    Opens config (Script.classType cx segments scope name ts ds) := by
  revert hstays
  unfold Script.classType
  split
  · next builtin hbuiltin =>
    intro _
    unfold builtinUnder? builtinType? at hbuiltin
    split at hbuiltin
    · split at hbuiltin <;> cases hbuiltin <;> exact opens_word hconfig (by decide) (by decide)
    · cases hbuiltin
  · cases scope with
    | some d =>
      intro hstays
      refine (hscope d rfl).glued_text hconfig (s := ".") isGlue_dot ?_ hstays
      exact ((List.prefix_append _ _).trans (List.prefix_append _ _)).trans (List.prefix_append _ _)
    | none =>
      exact ((passedOver_inlineAnnotations hconfig hds).opens hname).angled hconfig

end Doc

/-- The modifiers that are written begin with a keyword. -/
theorem ModifierProjection.exists_lead (p : ModifierProjection) :
    p.lead = "" ∨ ∃ (m : Modifier) (cs : List Char), p.lead.toList = m.keyword.toList ++ ' ' :: cs := by
  unfold lead
  cases p.kept with
  | nil => exact .inl rfl
  | cons m rest =>
    refine .inr ⟨m, ?_⟩
    cases rest with
    | nil => exact ⟨[], by simp [joinWith]⟩
    | cons next rest =>
      exact ⟨(joinWith " " (next.keyword :: rest.map Modifier.keyword)).toList ++ [' '],
        by simp [joinWith]⟩

theorem Modifier.feed_keyword (m : Modifier) (roles : List Role) (count : Nat) :
    feed (m.keyword.toList ++ [' ']) (.placed (.start roles) count) =
      some (.placed (.simple roles) count) := by
  cases m <;> rfl

theorem ModifierSet.feed_declaration (mods : ModifierSet) (roles : List Role) (count : Nat) :
    feed (mods.project.lead.toList ++ (Script.declarationWord mods).toList)
      (.placed (.start roles) count) = some (.placed (.simple roles) count) := by
  have hheld := Reader.isHeld_simple roles count
  have hword (place : Position) (hplace : place = .start roles ∨ place = .simple roles) :
      feed (Script.declarationWord mods).toList (.placed place count) =
        some (.placed (.simple roles) count) := by
    unfold Script.declarationWord
    split <;> rcases hplace with rfl | rfl <;> rfl
  rcases mods.project.exists_lead with hlead | ⟨m, cs, hlead⟩
  · rw [hlead]
    exact hword _ (.inl rfl)
  · have hcalm := mods.project.lead_isCalm
    have hread := hheld.feed_nested (no_sign_of_isCalm hcalm) (isNested_of_isCalm hcalm)
    have hsplit : mods.project.lead.toList = (m.keyword.toList ++ [' ']) ++ cs := by simp [hlead]
    have hkeyword : feed (m.keyword.toList ++ [' ']) (.placed (.simple roles) count) =
        some (.placed (.simple roles) count) := by cases m <;> rfl
    rw [hsplit, feed_append, hkeyword, Option.bind_some] at hread
    rw [hsplit, feed_append, feed_append, m.feed_keyword, Option.bind_some, hread]
    exact hword _ (.inr rfl)

/-- A declaration of variables is its first word and what is passed over before it. -/
theorem Doc.exists_variableGroup {config : Config} (hconfig : config.IsReadable) (mods : ModifierSet)
    {annotations : List Doc} (h : ∀ d ∈ annotations, IsPassedOver config d) (base : Option Doc)
    (ds : List DeclaratorShape) : ∃ d, IsPassedOver config d ∧
      Script.variableGroup mods annotations base ds = d ++ (text mods.project.lead
        ++ text (Script.declarationWord mods) ++ Script.declarators base ds) := by
  have hmarker : IsPassedOver config (if mods.project.rejected.isEmpty then []
      else unsupported (.modifiers mods.project.rejected) ++ text " ") := by
    split
    · exact fun _ _ => .nil
    · exact (passedOver_nameless hconfig _ rfl).append (passedOver_blank hconfig)
  exact ⟨_, (passedOver_inlineAnnotations hconfig h).append hmarker,
    by simp [Script.variableGroup, Script.modifiers]⟩

theorem Doc.opens_variableGroup {config : Config} (hconfig : config.IsReadable) {mods : ModifierSet}
    {annotations : List Doc} {base : Option Doc} {ds : List DeclaratorShape}
    (h : ∀ d ∈ annotations, IsPassedOver config d)
    (hds : Stays config (Script.declarators base ds)) :
    Opens config (Script.variableGroup mods annotations base ds) := by
  have hP := stays_composes hconfig
  have hstays := hP.append (hP.append (hP.literal mods.project.lead_isCalm) (hP.declarationWord mods)) hds
  have hplain : IsPlain (text mods.project.lead ++ text (Script.declarationWord mods)) :=
    (isPlain_text _).append (isPlain_text _)
  obtain ⟨d, hd, heq⟩ := exists_variableGroup hconfig mods h base ds
  rw [heq]
  refine hd.opens ⟨fun roles count => ⟨_, .simple, ?_⟩, hstays⟩
  refine (takes_plain hconfig hplain ?_).append (hds _ (Reader.isHeld_simple roles count))
  rw [chars_append, chars_text, chars_text]
  exact mods.feed_declaration roles count

/-- A simple statement may begin with the type. -/
structure TypeShape.Opens (config : Config) (t : TypeShape) : Prop where
  element : Doc.Opens config t.element
  levels : t.levels = [] ∨ Doc.Settles config t.levels

theorem TypeShape.Opens.doc {config : Config} {t : TypeShape} (h : t.Opens config)
    (hstays : Doc.Stays config t.doc) : Doc.Opens config t.doc := by
  obtain ⟨element, levels⟩ := t
  rcases h.levels with hnil | hsettles
  · cases hnil
    change Doc.Opens config (element ++ [])
    rw [List.append_nil]
    exact h.element
  · exact h.element.settled hsettles hstays

theorem TypeShape.opens_plain {config : Config} {d : Doc} (h : Doc.Opens config d) :
    (Script.plainType d).Opens config :=
  ⟨h, .inl rfl⟩

section

variable {config : Config} (hconfig : config.IsReadable)

include hconfig

theorem TypeShape.opens_separated {s : String} {ts : List TypeShape} (hglue : IsGlue s.toList)
    (hs : isCalm s.toList = true) (h : ∀ t ∈ ts, t.Opens config)
    (hstays : ∀ t ∈ ts, t.All (Doc.Stays config)) :
    Doc.Opens config (Doc.separated s (ts.map TypeShape.doc)) := by
  have hP := Doc.stays_composes hconfig
  have hwhole := hP.separated (hP.literal hs) (hP.typeDocs hstays)
  cases ts with
  | nil => exact Doc.opens_nil
  | cons t rest =>
    have hfirst := (h t List.mem_cons_self).doc (hP.typeDoc (hstays t List.mem_cons_self))
    exact hfirst.separated hconfig hglue hwhole

theorem TypeShape.opens_boundOrAny {lower upper : Option TypeShape}
    (hlower : ∀ t ∈ lower, t.Opens config) (hupper : ∀ t ∈ upper, t.Opens config)
    (hstays : Doc.Stays config (Script.boundOrAny lower upper)) :
    Doc.Opens config (Script.boundOrAny lower upper) := by
  revert hstays
  unfold Script.boundOrAny
  split
  · next bound hbound =>
    rcases Option.or_eq_some_iff.mp hbound with hbound | ⟨-, hbound⟩
    · exact (hlower bound hbound).doc
    · exact (hupper bound hbound).doc
  · exact fun _ => Doc.opens_word hconfig (by decide) (by decide)

end

/-- Whether the text is an identifier that may stand before a colon. -/
def isLabel (s : String) : Bool :=
  !s.isEmpty && s.toList.all isWordChar && !isControlWord s.toList

/-- Whether the node is a parameter that consists of a name. -/
def Node.isBareParameter : {c : Category} → Node c → Bool
  | _, .parameter _ type modifiers annotations isVarArgs _ =>
    TypeUse.isUnknown type && modifiers.toList.isEmpty && annotations.toList.isEmpty && !isVarArgs
  | _, _ => false

/-- Whether a text of the node's own reads as a control word where it may stand first in a statement,
or the node is a label or a lambda expression of which the parser knows no such form. -/
def Node.misleads : {c : Category} → Node c → Bool
  | _, .labeled label _ => !isLabel label
  | _, .nameExpr name => isAstray name
  | _, .integerLiteral value => isAstray value
  | _, .longLiteral value => isAstray (stripLongSuffix value)
  | _, .doubleLiteral value => isAstray (stripDoubleSuffix value)
  | _, .thisExpr qualifier => qualifier.any isAstray
  | _, .methodCall _ _ name _ => isAstray name
  | _, .classType _ name _ _ => isAstray name
  | _, .lambda parameters isEnclosed _ =>
    !isEnclosed && parameters.toList.any fun p => !p.isBareParameter
  | _, .parameter name _ _ _ _ _ => isAstray name
  | _, _ => false

/-- No name that the context brings in reads as a control word. -/
def Context.Guides (cx : Context) : Prop :=
  (∀ (name : String) (scope : Scope) (d : TypeDescriptor),
    cx.resolver.resolveSimple name scope = .ok d → isAstray d.qualifiedName = false) ∧
  ∀ f ∈ cx.frames, ∀ s ∈ f.outerThis, isAstray s = false

theorem Context.Guides.after {c : Category} {cx : Context} (h : cx.Guides) (head : Node c) :
    (cx.after head).Guides := by
  unfold Context.after
  split <;> exact h

theorem Context.Guides.typeName {cx : Context} (h : cx.Guides) {name : String}
    (hname : isAstray name = false) : isAstray (cx.typeName name) = false := by
  unfold Context.typeName
  split
  · next hresolved => exact h.1 _ _ _ hresolved
  · exact hname

theorem isControlWord_of_mem {word : List Char} (h : '_' ∈ word) : isControlWord word = false := by
  have hplain : ∀ w ∈ controlWords, '_' ∉ w := by decide
  rw [← Bool.not_eq_true]
  intro hcontrol
  exact hplain word (List.contains_iff_mem.mp hcontrol) h

theorem isAstray_escapeIdentifier {name : String} (h : isAstray name = false) :
    isAstray (escapeIdentifier name) = false := by
  unfold escapeIdentifier
  split
  · rw [isAstray, String.toList_append]
    exact isControlWord_of_mem (List.mem_cons_self (l := name.toList.takeWhile isWordChar))
  · exact h

theorem isAstray_append_this {name : String} (h : isAstray name = false) :
    isAstray (name ++ "_this") = false := by
  rw [isAstray, String.toList_append, List.takeWhile_append]
  split
  · exact isControlWord_of_mem (List.mem_append_right _ (by decide))
  · exact h

theorem Context.Guides.thisText {cx : Context} (h : cx.Guides) {qualifier : Option String}
    (hq : qualifier.any isAstray = false) : isAstray (cx.thisText qualifier) = false := by
  have hthis : isAstray "this" = false := by decide
  cases qualifier with
  | none => exact hthis
  | some name =>
    rw [Context.thisText]
    split
    · unfold Context.innermostThis
      cases hfind : (cx.frames.reverse.find? fun f => f.depth == cx.scope.length).bind
          Frame.outerThis with
      | none => exact hthis
      | some s =>
        obtain ⟨f, hf, hs⟩ := Option.bind_eq_some_iff.mp hfind
        exact h.2 f (List.mem_reverse.mp (List.mem_of_find?_eq_some hf)) s hs
    · exact isAstray_append_this hq

/-- The script opens a statement where it may stand first in one. -/
def Script.Opens (config : Config) : (c : Category) → Script c → Prop
  | .many c => fun (ss : List (Script c)) => ∀ s ∈ ss, Script.Opens config c s
  | .optional c => fun (s : Option (Script c)) => ∀ t ∈ s, Script.Opens config c t
  | .annotationUse => Doc.IsPassedOver config
  | .typeUse => TypeShape.Opens config
  | .classType => Doc.Opens config
  | .variableGroup => Doc.Opens config
  | .expr => Doc.Opens config
  | _ => fun _ => True

/-- Parameters that consist of names open a statement. -/
theorem Doc.opens_parameters {config : Config} (hconfig : config.IsReadable)
    (ps : List (Node .parameter)) (cx : Context)
    (h : cx.Admits statementSpelling Context.IsInside ((Node.ofList ps).any Node.isDeclaring)
      ((Node.ofList ps).any (Node.misspells statementSpelling)))
    (hleads : Lacks ((Node.ofList ps).any Node.misleads)) (hbare : ∀ p ∈ ps, p.isBareParameter = true) :
    ∀ d ∈ (show List Doc from (Node.ofList ps).script cx), Doc.Opens config d := by
  have hI := Context.isInside_inherited
  induction ps generalizing cx with
  | nil => exact fun d hd => absurd hd List.not_mem_nil
  | cons p rest ih =>
    obtain ⟨hp, hrest⟩ := List.forall_mem_cons.mp hbare
    refine List.forall_mem_cons.mpr ⟨?_, ih _ (h.right.after hI p) hleads.right hrest⟩
    have hnames := h.left.right.names
    have hown := Node.eq_false_of_lacks (p := Node.misleads) hleads.left.right
    cases p with
    | parameter name type modifiers annotations isVarArgs varArgsAnnotations =>
      simp only [Node.isBareParameter, Bool.and_eq_true, List.isEmpty_iff, Bool.not_eq_true'] at hp
      obtain ⟨⟨⟨htype, hmodifiers⟩, hannotations⟩, rfl⟩ := hp
      have hempty : modifiers = .ofList [] := by rw [← hmodifiers, ModifierSet.ofList_toList]
      obtain ⟨as, rfl⟩ := annotations.exists_ofList
      rw [Node.toList_ofList] at hannotations
      have hname := Doc.opens_word hconfig
        (over_escapeIdentifier statementSpelling.letter (hnames name List.mem_cons_self))
        (isAstray_escapeIdentifier hown)
      have hnothing : IsPassedOver config (text "") := fun _ _ => takes_text hconfig rfl
      subst hempty hannotations
      cases type with
      | unknown =>
        change Opens config (([] ++ ([] ++ text "") ++ [] ++ text _ ++ []) ++ [])
        simpa using hnothing.opens hname
      | _ => cases htype

/-- What is written for an expression opens a simple statement. -/
theorem Node.script_opens {config : Config} (hconfig : config.IsReadable) {c : Category} (n : Node c)
    (cx : Context) (h : cx.Admits statementSpelling Context.IsInside (n.any Node.isDeclaring)
      (n.any (Node.misspells statementSpelling)))
    (hleads : Lacks (n.any Node.misleads)) (hcx : cx.Guides) :
    Script.Opens config c (n.script cx) := by
  have hI := Context.isInside_inherited
  have hP := Doc.stays_composes hconfig
  have hletter := statementSpelling.letter
  have hown {c : Category} {n : Node c} (hleads : Lacks (n.any Node.misleads)) : n.misleads = false :=
    eq_false_of_lacks (p := Node.misleads) hleads
  induction n generalizing cx with
  | nil => exact fun s hs => absurd hs List.not_mem_nil
  | cons head tail ihHead ihTail =>
    exact List.forall_mem_cons.mpr ⟨ihHead _ (h.left.right.child hI 0) hleads.left.right hcx,
      ihTail _ (h.right.after hI head) hleads.right (hcx.after head)⟩
  | absent => exact fun s hs => nomatch hs
  | present node ih =>
    rintro s ⟨⟩
    exact ih _ (h.right.content hI) hleads.right hcx
  | annotationMarker name =>
    exact fun r hr => AnnotationUse.takes_script hconfig (Node.usable_ownUse h.spelled _ rfl) h.speaks hr
  | annotationSingle name value =>
    exact fun r hr => AnnotationUse.takes_script hconfig (Node.usable_ownUse h.spelled _ rfl) h.speaks hr
  | annotationNormal name elements =>
    exact fun r hr => AnnotationUse.takes_script hconfig (Node.usable_ownUse h.spelled _ rfl) h.speaks hr
  -- Types
  | primitive base annotations ih =>
    have hannotations := ih _ (h.right.child hI 0) hleads.right hcx
    refine TypeShape.opens_plain ((Doc.passedOver_levelAnnotations hconfig hannotations).opens ?_)
    cases base <;> exact Doc.opens_word hconfig (by decide) (by decide)
  | classUse type ih =>
    exact TypeShape.opens_plain (ih _ (h.right.child hI 0) hleads.right hcx)
  | array component annotations ihComponent ihAnnotations =>
    have hcomponent := ihComponent _ (h.left.right.child hI 0) hleads.left.right hcx
    have hannotations := ihAnnotations _ (h.right.child hI 1) hleads.right hcx
    have hstays : TypeShape.All (Doc.Stays config) (component.script (cx.child 0)) :=
      Node.script_stays hconfig _ _ (h.left.right.child hI 0)
    refine ⟨hcomponent.element, .inr ?_⟩
    intro roles count r hr
    exact (Doc.settles_level hconfig hannotations hr).append
      (hstays.2 _ (Reader.isHeld_simple roles count))
  | void annotations => exact TypeShape.opens_plain (Doc.opens_word hconfig (by decide) (by decide))
  | intersection elements ih =>
    refine TypeShape.opens_plain (TypeShape.opens_separated hconfig
      (isGlue_of_head rfl rfl (by decide) fun _ _ => ⟨_, rfl, rfl⟩) rfl
      (ih _ (h.right.child hI 0) hleads.right hcx) ?_)
    exact Node.script_stays hconfig _ _ (h.right.child hI 0)
  | union elements ih =>
    refine TypeShape.opens_plain (TypeShape.opens_separated hconfig
      (isGlue_of_head rfl rfl (by decide) fun _ _ => ⟨_, rfl, rfl⟩) rfl
      (ih _ (h.right.child hI 0) hleads.right hcx) ?_)
    exact Node.script_stays hconfig _ _ (h.right.child hI 0)
  | wildcard extendsBound superBound annotations ihExtends ihSuper =>
    have hstays := Node.script_stays hconfig _ cx h
    exact TypeShape.opens_plain (TypeShape.opens_boundOrAny hconfig
      (ihExtends _ (h.left.left.right.child hI 0) hleads.left.left.right hcx)
      (ihSuper _ (h.left.right.child hI 1) hleads.left.right hcx) hstays.1)
  | unknown => exact TypeShape.opens_plain Doc.opens_nil
  | classType scope name typeArguments annotations ihScope ihArguments ihAnnotations =>
    have hname : Over statementSpelling.letters name := h.names _ List.mem_cons_self
    exact Doc.opens_classType hconfig
      (ihScope _ (h.left.left.right.child hI 0) hleads.left.left.right hcx)
      (Doc.opens_word hconfig (h.speaks.typeName hname) (hcx.typeName (hown hleads)))
      (ihAnnotations _ (h.right.child hI 2) hleads.right hcx) (Node.script_stays hconfig _ cx h)
  | variableGroup modifiers annotations base declarators ihAnnotations =>
    have hannotations := ihAnnotations _ (h.left.left.right.child hI 0) hleads.left.left.right hcx
    have hbase := hP.knownType base (Node.script_stays hconfig base _ (h.left.right.child hI 1))
    have hdeclarators := Node.script_stays hconfig declarators _
      ((h.right.declarators hI false).child hI 2)
    exact Doc.opens_variableGroup hconfig hannotations (hP.declarators hbase hdeclarators)
  -- Expressions
  | nameExpr name =>
    exact Doc.opens_word hconfig (over_escapeIdentifier hletter (h.names _ List.mem_cons_self))
      (isAstray_escapeIdentifier (hown hleads))
  | fieldAccess scope name ih =>
    exact (ih _ (h.right.child hI 0) hleads.right hcx).underScope hconfig
      (Node.script_stays hconfig _ cx h)
  | arrayAccess base index ihBase =>
    exact (ihBase _ (h.left.right.child hI 0) hleads.left.right hcx).arrayAccess hconfig
      (Node.script_stays hconfig _ cx h)
  | arrayCreation elementType levels initial =>
    exact Doc.opens_arrayCreation hconfig (Node.script_stays hconfig _ cx h)
  | arrayInitializer values =>
    exact Doc.opens_between hconfig (a := "[") (fun _ _ => ⟨_, rfl, rfl⟩)
      (Node.script_stays hconfig _ cx h)
  | assign target op value ihTarget =>
    exact (ihTarget _ (h.left.right.child hI 0) hleads.left.right hcx).infixed hconfig
      (isOperation_assign op) (Node.script_stays hconfig _ cx h)
  | binary left op right ihLeft =>
    exact (ihLeft _ (h.left.right.child hI 0) hleads.left.right hcx).infixed hconfig
      (isOperation_binary op) (Node.script_stays hconfig _ cx h)
  | unary op expr ih =>
    exact (ih _ (h.right.child hI 0) hleads.right hcx).unary hconfig op
      (Node.script_stays hconfig _ cx h)
  | cast type expr => exact Doc.opens_cast hconfig _ (Node.script_stays hconfig _ cx h)
  | classLiteral type ih =>
    have hstays := Node.script_stays hconfig type _ (h.right.child hI 0)
    have htype := (ih _ (h.right.child hI 0) hleads.right hcx).doc (hP.typeDoc hstays)
    exact htype.glued_text hconfig (s := ".class")
      (isGlue_of_head rfl rfl (by decide) fun _ _ => ⟨_, rfl, rfl⟩) List.prefix_rfl
      (Node.script_stays hconfig _ cx h)
  | conditional condition consequent alternative ihCondition =>
    exact (ihCondition _ (h.left.left.right.child hI 0) hleads.left.left.right hcx).conditional hconfig
      (Node.script_stays hconfig _ cx h)
  | enclosed inner =>
    exact Doc.opens_between hconfig (a := "(") (fun _ _ => ⟨_, rfl, rfl⟩)
      (Node.script_stays hconfig _ cx h)
  | instanceOf expr type ihExpr =>
    exact (ihExpr _ (h.left.right.child hI 0) hleads.left.right hcx).infixed hconfig
      isOperation_instanceof (Node.script_stays hconfig _ cx h)
  | integerLiteral value =>
    exact Doc.opens_word hconfig (h.names _ List.mem_cons_self) (hown hleads)
  | longLiteral value =>
    exact Doc.opens_word hconfig (over_dropSuffix _ (h.names _ List.mem_cons_self)) (hown hleads)
  | doubleLiteral value =>
    exact Doc.opens_word hconfig (over_dropSuffix _ (h.names _ List.mem_cons_self)) (hown hleads)
  | charLiteral value =>
    exact Doc.opens_between hconfig (a := "'") (fun _ _ => ⟨_, rfl, rfl⟩)
      (Node.script_stays hconfig _ cx h)
  | stringLiteral value =>
    exact Doc.opens_between hconfig (a := "\"") (fun _ _ => ⟨_, rfl, rfl⟩)
      (Node.script_stays hconfig _ cx h)
  | booleanLiteral value => cases value <;> exact Doc.opens_word hconfig (by decide) (by decide)
  | nullLiteral => exact Doc.opens_word hconfig (s := "null") (by decide) (by decide)
  | thisExpr qualifier =>
    exact Doc.opens_word hconfig
      (h.speaks.thisText hletter fun s hs => h.names s (Option.mem_toList.mpr hs))
      (hcx.thisText (hown hleads))
  | superExpr qualifier =>
    have hsuper := Doc.opens_word hconfig (s := "super") (by decide) (by decide)
    cases qualifier with
    | none => exact hsuper
    | some name =>
      refine (Doc.passedOver_unsupported hconfig ?_).opens hsuper
      rintro s ⟨⟩
      exact statementSpelling.over_slash (h.names name List.mem_cons_self)
  | methodCall scope typeArguments name arguments ihScope =>
    have hname := Doc.opens_word hconfig
      (over_escapeIdentifier hletter (h.names name List.mem_cons_self))
      (isAstray_escapeIdentifier (hown hleads))
    exact Doc.opens_methodCall hconfig
      (ihScope _ (h.left.left.right.child hI 0) hleads.left.left.right hcx) hname
      (Node.script_stays hconfig typeArguments _ (h.left.right.child hI 1))
      (Node.script_stays hconfig _ cx h)
  | objectCreation scope type typeArguments arguments anonymousBody ihScope =>
    have hmembers := Node.script_stays hconfig anonymousBody _
      ((h.right.enterAnonymous hI hletter (cx.createsStatic scope)).child hI 3)
    refine Doc.opens_objectCreation hconfig
      (ihScope _ (h.left.left.left.left.right.child hI 0) hleads.left.left.left.left.right hcx)
      (ClassType.over_name h.left.left.left.right.names) ?_ (Node.script_stays hconfig _ cx h)
    intro ms hms
    exact hP.anonymousClass type _ (hP.bare cx.over_captureName)
      (Node.script_stays hconfig type _ (h.left.left.left.right.child hI 1))
      (Node.script_stays hconfig arguments _ (h.left.right.child hI 2)) (hmembers ms hms)
  | lambda parameters isEnclosed body =>
    refine Doc.opens_lambda hconfig isEnclosed ?_ (Node.script_stays hconfig _ cx h)
    rintro rfl
    obtain ⟨ps, rfl⟩ := parameters.exists_ofList
    refine Doc.opens_parameters hconfig ps _ (h.left.right.child hI 0) hleads.left.right ?_
    simpa [Node.misleads] using hown hleads
  | methodReference scope typeArguments identifier ih =>
    have hscope := ih _ (h.left.right.child hI 0) hleads.left.right hcx
    have hidentifier := hP.identifier (h.names identifier List.mem_cons_self)
    refine (Doc.passedOver_nameless hconfig _ rfl).opens (hscope.underScope hconfig ?_)
    refine hP.underScope ?_ hidentifier
    rintro d ⟨⟩
    exact hscope.stays
  | typeExpr type ih =>
    have hstays := Node.script_stays hconfig type _ (h.right.child hI 0)
    exact (ih _ (h.right.child hI 0) hleads.right hcx).doc (hP.typeDoc hstays)
  | variableDeclaration decl ih => exact ih _ (h.right.child hI 0) hleads.right hcx
  | annotationExpr use ih =>
    exact Doc.IsPassedOver.opens_alone (ih _ (h.right.child hI 0) hleads.right hcx)
  | _ => trivial

end TypeScribe
