import TypeScribe.Proofs.Statements.Outcomes

/-!
# Statements in the bodies of others

A body stands without braces around it, so it has to be one statement: if it is none, what stands
behind it becomes the body, and if it is several, all but the first escape it. An assertion and a local
declaration other than a class are written as comments, and resources as declarations before the
block that they belong to. All other statements are written as one, if the bodies that end them are.
-/
namespace TypeScribe
set_option autoImplicit false
open Text

namespace Doc

variable {config : Config} (hconfig : config.IsReadable) {d e : Doc} {ds : List Doc}

/-- What may follow a block that goes on with clauses. -/
def IsClause (config : Config) (d : Doc) : Prop :=
  ∀ roles count, Takes config d (.placed (.ended true roles) count) (.placed (.ended true roles) count)

/-- Behind the body of a loop that has to be closed, the document stops the reader. -/
def Strands (config : Config) (d : Doc) : Prop :=
  ∀ roles, areClosed roles = false → ∀ clauses count,
    Stops config d (.placed (.ended clauses roles) count)

/-- Behind a statement, a statement is read as the next one. -/
theorem Takes.follow {clauses clauses' : Bool} {roles roles' : List Role} {count : Nat}
    (hroles : areClosed roles = true)
    (h : Takes config d (.placed (.start []) (count + 1))
      (.placed (.ended clauses' roles') (count + 1))) :
    Takes config d (.placed (.ended clauses roles) count)
      (.placed (.ended clauses' roles') (count + 1)) := by
  intro w hw
  obtain ⟨w', added, htypeset, hwritten, hread, hmeets⟩ :=
    h w ⟨hw.margins, .inl (Reader.isSteady_start [] (count + 1)).rests⟩
  obtain ⟨r, hr, rfl | hfollows⟩ := (Reader.Follows.blank .code count clauses hroles).feed hread
  · exact ⟨w', added, htypeset, hwritten, hr, hmeets⟩
  · cases hfollows

include hconfig

/-- A semicolon ends a simple statement. -/
theorem Opens.ended (hd : Opens config d) : IsReadAs config (d ++ text ";") true := by
  refine isReadAs_of_takes fun roles count => ⟨false, ?_⟩
  obtain ⟨r, hr, hread⟩ := hd.begins roles count
  exact hread.append (takes_text hconfig (s := ";") hr.feed_semicolon)

/-- What stands between the texts is inside of the bracket that they open and close. -/
theorem takes_between {a t : String} {b : Bracket} {place : Position} {count : Nat} {r r' : Reader}
    (ha : feed a.toList r = some (.inside b place count))
    (ht : feed t.toList (.inside b place count) = some r') (hd : StaysInside config d) :
    Takes config (text a ++ d ++ text t) r r' := by
  have hinside := hd _ (Reader.isHeld_inside b place count) (List.cons_ne_nil _ _)
  exact ((takes_text hconfig ha).append hinside).append (takes_text hconfig ht)

theorem isClause_catch {name : String} (hname : Over statementSpelling.letters name)
    (hd : Embraces config d) : IsClause config (Script.catchClause name d) := by
  intro roles count
  have hword := stays_word hconfig (over_escapeIdentifier statementSpelling.letter hname)
  have hhead : Takes config (text " catch (" ++ text (escapeIdentifier name) ++ text ") ")
      (.placed (.ended true roles) count) (.placed (.before .curly (.ended true roles)) count) :=
    takes_between hconfig rfl rfl hword.inside
  exact hhead.append (hd _ (.ended true roles) count rfl)

theorem takes_finally (hd : Embraces config d) (roles : List Role) (count : Nat) :
    Takes config (text " finally " ++ d) (.placed (.ended true roles) count)
      (.placed (.ended false roles) count) := by
  have hhead : Takes config (text " finally ") (.placed (.ended true roles) count)
      (.placed (.before .curly (.ended false roles)) count) := takes_text hconfig rfl
  exact hhead.append (hd _ (.ended false roles) count rfl)

theorem strands_text {s : String} (word : List Char) (hs : word ++ [' '] <+: s.toList)
    (hread : ∀ clauses roles count, feed word (.placed (.ended clauses roles) count) =
      some (.placed (.next word clauses roles) count))
    (hword : ∀ clauses roles, Position.afterNext clauses roles word = none) :
    Strands config (text s) := by
  intro roles hroles clauses count
  obtain ⟨cs, hcs⟩ := hs
  refine stops_text hconfig ?_
  rw [← hcs, feed_append, Reader.feed_strands hroles (hread clauses roles count) (hword clauses roles)]
  rfl

omit hconfig in
theorem Strands.append (hd : Strands config d) (he : IsWritable config e) :
    Strands config (d ++ e) :=
  fun roles hroles clauses count => (hd roles hroles clauses count).append he

omit hconfig in
theorem IsPassedOver.strands (hd : IsPassedOver config d) (he : Strands config e) :
    Strands config (d ++ e) :=
  fun roles hroles clauses count =>
    (hd _ (Reader.isSteady_ended _ _ _)).stops (he roles hroles clauses count)

theorem strands_lead (p : ModifierProjection) : p.lead = "" ∨ Strands config (text p.lead) := by
  rcases p.exists_lead with hlead | ⟨m, cs, hlead⟩
  · exact .inl hlead
  · refine .inr (strands_text hconfig m.keyword.toList ⟨cs, by simp [hlead]⟩ ?_ ?_)
    · intro clauses roles count
      cases m <;> rfl
    · intro clauses roles
      cases m <;> rfl

theorem strands_declarationWord (mods : ModifierSet) :
    Strands config (text (Script.declarationWord mods)) := by
  unfold Script.declarationWord
  split
  · exact strands_text hconfig "const".toList List.prefix_rfl (fun _ _ _ => rfl) fun _ _ => rfl
  · exact strands_text hconfig "let".toList List.prefix_rfl (fun _ _ _ => rfl) fun _ _ => rfl

theorem strands_variableGroup {mods : ModifierSet} {annotations : List Doc} {base : Option Doc}
    {vs : List DeclaratorShape} (h : ∀ d ∈ annotations, IsPassedOver config d)
    (hvs : Stays config (Script.declarators base vs)) :
    Strands config (Script.variableGroup mods annotations base vs) := by
  have hP := stays_composes hconfig
  have hword := strands_declarationWord hconfig mods
  obtain ⟨d, hd, heq⟩ := exists_variableGroup hconfig mods h base vs
  rw [heq]
  refine hd.strands (Strands.append ?_ hvs.inside.isWritable)
  rcases strands_lead hconfig mods.project with hlead | hlead
  · rw [hlead]
    exact IsPassedOver.strands (fun _ _ => takes_text hconfig rfl) hword
  · exact hlead.append (hP.declarationWord mods).inside.isWritable

section

variable (hds : ∀ d ∈ ds, Opens config d)
  (he : ∀ roles count, ∃ clauses,
    Takes config e (.placed (.start roles) count) (.placed (.ended clauses roles) count))

/-- Declarations, one a line. -/
def declared (ds : List Doc) : Doc := ds.flatMap fun d => d ++ line ";"

theorem takes_declared (hd : Opens config d) (roles : List Role) (count : Nat) :
    Takes config (d ++ line ";") (.placed (.start roles) count) (.placed (.ended false roles) count) := by
  obtain ⟨r, hr, hread⟩ := hd.begins roles count
  have hend := takes_text hconfig (s := ";") hr.feed_semicolon
  exact hread.append (hend.append (takes_newline_steady hconfig (Reader.isSteady_ended _ _ count)))

include hds he

/-- Behind a statement that is closed, each declaration is one more. -/
theorem exists_takes_declared {roles : List Role} (hroles : areClosed roles = true) (clauses : Bool)
    (count : Nat) : ∃ clauses' count', count < count' ∧ Takes config (declared ds ++ e)
      (.placed (.ended clauses roles) count) (.placed (.ended clauses' []) count') := by
  induction ds generalizing roles clauses count with
  | nil =>
    obtain ⟨clauses', hread⟩ := he [] (count + 1)
    exact ⟨clauses', count + 1, Nat.lt_succ_self count, hread.follow hroles⟩
  | cons d rest ih =>
    obtain ⟨hd, hrest⟩ := List.forall_mem_cons.mp hds
    have hfirst : Takes config (d ++ line ";") (.placed (.ended clauses roles) count)
        (.placed (.ended false []) (count + 1)) :=
      (takes_declared hconfig hd [] (count + 1)).follow hroles
    have hnone : areClosed [] = true := rfl
    obtain ⟨clauses', count', hcount, hread⟩ := ih hrest hnone false (count + 1)
    refine ⟨clauses', count', Nat.lt_of_succ_lt hcount, ?_⟩
    change Takes config ((d ++ line ";") ++ declared rest ++ e) _ _
    rw [List.append_assoc]
    exact hfirst.append hread

theorem strands_declared (hstrands : ∀ d ∈ ds, Strands config d) (hlast : Strands config e) :
    Strands config (declared ds ++ e) := by
  cases ds with
  | nil => exact hlast
  | cons d rest =>
    have hP := stays_composes hconfig
    have hnone : areClosed [] = true := rfl
    obtain ⟨_, _, _, hread⟩ :=
      exists_takes_declared hconfig (List.forall_mem_cons.mp hds).2 he hnone false 0
    have hrest := hread.isWritable (Reader.isSteady_ended _ _ _).rests
    have hend : StaysInside config (text ";" ++ newline) :=
      hP.join (hP.stop (.inl rfl)) (hP.solid hP.newline)
    change Strands config ((d ++ line ";") ++ declared rest ++ e)
    rw [List.append_assoc]
    exact ((List.forall_mem_cons.mp hstrands).1.append hend.isWritable).append hrest

/-- Declarations before a statement make several of it. -/
theorem isReadAs_resources (hstrands : ∀ d ∈ ds, Strands config d) (hlast : Strands config e) :
    IsReadAs config (Script.resources ds ++ e) ds.isEmpty := by
  cases ds with
  | nil => exact isReadAs_of_takes he
  | cons d rest =>
    intro roles count
    obtain ⟨hd, hrest⟩ := List.forall_mem_cons.mp hds
    have hmarker : IsPassedOver config (unsupported .tryWithResources ++ newline) :=
      (passedOver_nameless hconfig _ rfl).append (passedOver_newline hconfig)
    have hfirst := (hmarker _ (Reader.isSteady_start roles count)).append
      (takes_declared hconfig hd roles count)
    have hsplit : Script.resources (d :: rest) ++ e =
        (unsupported .tryWithResources ++ newline ++ (d ++ line ";")) ++ (declared rest ++ e) := by
      simp [Script.resources, declared]
    rw [hsplit]
    cases hroles : areClosed roles with
    | true =>
      obtain ⟨clauses, count', hcount, hread⟩ :=
        exists_takes_declared hconfig hrest he hroles false count
      exact .inr ⟨_, .several clauses hroles hcount, hfirst.append hread⟩
    | false =>
      have hstops := strands_declared hconfig hrest he (List.forall_mem_cons.mp hstrands).2 hlast
      exact .inl (hfirst.stops (hstops roles hroles false count))

end

/-- A block with its clauses is one statement, unless declarations stand before it. -/
theorem isReadAs_tryStmt {catches : List Doc} {finallyBlock : Option Doc} (hd : Embraces config d)
    (hds : ∀ d ∈ ds, Opens config d) (hstrands : ∀ d ∈ ds, Strands config d)
    (hcatches : ∀ e ∈ catches, IsClause config e) (hfinally : ∀ e ∈ finallyBlock, Embraces config e) :
    IsReadAs config (Script.tryStmt ds d catches finallyBlock) ds.isEmpty := by
  have hclauses (roles : List Role) (count : Nat) : Takes config (concat catches)
      (.placed (.ended true roles) count) (.placed (.ended true roles) count) := by
    induction catches with
    | nil => exact .nil
    | cons e rest ih =>
      obtain ⟨he, hrest⟩ := List.forall_mem_cons.mp hcatches
      exact (he roles count).append (ih hrest)
  have hbody (roles : List Role) (count : Nat) : ∃ clauses, Takes config
      (d ++ (concat catches ++ (finallyBlock.elim [] fun e => text " finally " ++ e)))
      (.placed (.before .curly (.ended true roles)) count) (.placed (.ended clauses roles) count) := by
    have hblock := hd (.placed (.before .curly (.ended true roles)) count) (.ended true roles) count rfl
    cases finallyBlock with
    | none => exact ⟨true, hblock.append ((hclauses roles count).append .nil)⟩
    | some e =>
      exact ⟨false, hblock.append ((hclauses roles count).append
        (takes_finally hconfig (hfinally e rfl) roles count))⟩
  have hsplit : Script.tryStmt ds d catches finallyBlock = Script.resources ds ++ (text "try "
      ++ (d ++ (concat catches ++ (finallyBlock.elim [] fun e => text " finally " ++ e)))) := by
    cases finallyBlock <;> simp [Script.tryStmt]
  rw [hsplit]
  refine isReadAs_resources hconfig hds (fun roles count => ?_) hstrands ?_
  · have hword : Takes config (text "try ") (.placed (.start roles) count)
        (.placed (.before .curly (.ended true roles)) count) := takes_text hconfig rfl
    obtain ⟨clauses, hread⟩ := hbody roles count
    exact ⟨clauses, hword.append hread⟩
  · obtain ⟨_, hread⟩ := hbody [] 0
    have hsteady : Reader.IsSteady (.placed (.before .curly (.ended true [])) 0) := ⟨rfl, fun _ => rfl⟩
    exact (strands_text hconfig "try".toList List.prefix_rfl (fun _ _ _ => rfl) fun _ _ => rfl).append
      (hread.isWritable hsteady.rests)

theorem opens_phrase {word : String} (hcalm : isCalm word.toList = true)
    (h : ∀ roles count, ∃ r, feed (word.toList ++ [' ']) (.placed (.start roles) count) = some r ∧
      feed (word.toList ++ [' ']) (.placed (.simple roles) count) = some r)
    (hd : Stays config d) : Opens config (text word ++ text " " ++ d) := by
  have hP := stays_composes hconfig
  have hstays := hP.append (hP.append (hP.literal hcalm) (hP.literal (s := " ") rfl)) hd
  refine opens_of_head hconfig ((isPlain_text word).append (isPlain_text " ")) ?_
    (List.prefix_append _ _) hstays
  rwa [chars_append, chars_text, chars_text]

theorem isReadAs_returnStmt {value : Option Doc} (h : ∀ d ∈ value, Stays config d) :
    IsReadAs config (Script.returnStmt value) true := by
  cases value with
  | none => exact (opens_word hconfig (s := "return") (by decide) (by decide)).ended hconfig
  | some d => exact (opens_phrase hconfig rfl (fun _ _ => ⟨_, rfl, rfl⟩) (h d rfl)).ended hconfig

theorem isReadAs_jump {word : String} (hword : word = "break" ∨ word = "continue")
    {label : Option String} (h : ∀ s ∈ label, Over statementSpelling.letters s) :
    IsReadAs config (Script.jump word label) true := by
  cases label with
  | none =>
    rcases hword with rfl | rfl <;> exact (opens_word hconfig (by decide) (by decide)).ended hconfig
  | some name =>
    have hname := stays_word hconfig (h name rfl)
    rcases hword with rfl | rfl <;>
      exact (opens_phrase hconfig rfl (fun _ _ => ⟨_, rfl, rfl⟩) hname).ended hconfig

theorem isReadAs_throwStmt (hd : Stays config d) : IsReadAs config (between "throw " ";" d) true := by
  have hP := stays_composes hconfig
  have hopens : Opens config (text "throw " ++ d) :=
    opens_text hconfig (s := "throw ") (fun _ _ => ⟨_, rfl, rfl⟩) (List.prefix_append _ _)
      (hP.append (hP.literal rfl) hd)
  exact hopens.ended hconfig

theorem isReadAs_constructorCall (isThis : Bool) {scope : Option Doc}
    (hs : ∀ d ∈ scope, Opens config d) (hds : ∀ d ∈ ds, Stays config d) :
    IsReadAs config (Script.constructorCall isThis scope ds) true := by
  have hP := stays_composes hconfig
  have hsuper := opens_word hconfig (s := "super") (by decide) (by decide)
  have hcallee : Opens config
      (if isThis then text "this" else Script.underScope scope (text "super")) := by
    split
    · exact opens_word hconfig (by decide) (by decide)
    · cases scope with
      | none => exact hsuper
      | some d =>
        refine (hs d rfl).underScope hconfig (hP.underScope ?_ hsuper.stays)
        rintro e ⟨⟩
        exact (hs d rfl).stays
  refine Opens.ended hconfig (hcallee.glued_text hconfig (s := "(") isGlue_round ?_
    (hcallee.stays.append (hP.parenthesized hds)))
  refine (List.prefix_append_right_inj _).mpr ?_
  exact (List.prefix_append _ _).trans (List.prefix_append _ _)

/-- A class in a body is a constant that a closure gives its value. -/
theorem isReadAs_localClass {name enclosing : String} (hd : IsPassedOver config d)
    (hname : Over statementSpelling.letters name)
    (henclosing : Over statementSpelling.letters enclosing) (he : Stays config e) :
    IsReadAs config (d ++ text ("const " ++ name ++ " = ") ++ Script.closure enclosing e) true := by
  refine isReadAs_of_takes fun roles count => ⟨false, ?_⟩
  have hheld := Reader.isHeld_simple roles count
  have hparameter : Over statementSpelling.letters (enclosing ++ "_this") :=
    over_append.mpr ⟨henclosing, by decide⟩
  have hconst : feed ("const " ++ name ++ " = ").toList (.placed (.start roles) count) =
      some (.placed (.simple roles) count) := by
    have hword : feed "const ".toList (.placed (.start roles) count) =
        some (.placed (.simple roles) count) := rfl
    rw [String.toList_append, String.toList_append, feed_append, feed_append, hword, Option.bind_some,
      feed_letters (over_iff.mp hname) hheld]
    rfl
  have hopening := hheld.feed_calm (no_sign_closure hparameter) [] (openAfter_closure hparameter)
  have hend : feed ")(this);".toList (.inside .round (.simple roles) count) =
      some (.placed (.ended false roles) count) := rfl
  rw [Script.closure_eq]
  exact ((hd _ (Reader.isSteady_start roles count)).append (takes_text hconfig hconst)).append
    (((takes_text hconfig hopening).append (he _ (hheld.opens [.round]))).append
      (takes_text hconfig hend))

omit hconfig in
theorem feed_word {roles : List Role} {count : Nat} {word cs : List Char}
    (hletters : ∀ c ∈ cs, statementSpelling.letters c = true) (hcs : cs.all isWordChar = true) :
    feed cs (.placed (.first word roles) count) = some (.placed (.first (word ++ cs) roles) count) := by
  induction cs generalizing word with
  | nil =>
    rw [List.append_nil]
    rfl
  | cons c rest ih =>
    obtain ⟨hletter, hrest⟩ := List.forall_mem_cons.mp hletters
    obtain ⟨hc, hwords⟩ := Bool.and_eq_true_iff.mp hcs
    have hstep : Reader.step (.placed (.first word roles) count) c =
        some (.placed (.first (word ++ [c]) roles) count) := by
      rw [Reader.step_of_not_isSign rfl (statementSpelling.letter_iff.mp hletter).2.1,
        Reader.take_outside rfl, Reader.outside, hc]
      rfl
    rw [feed, hstep, Option.bind_some, ih hrest hwords, List.append_assoc]
    rfl

theorem IsReadAs.labeled {b : Bool} {label : String} (hletters : Over statementSpelling.letters label)
    (hlabel : isLabel label = true) (hd : IsReadAs config d b) :
    IsReadAs config (text label ++ text ": " ++ d) b := by
  simp only [isLabel, Bool.and_eq_true, Bool.not_eq_true'] at hlabel
  obtain ⟨⟨hnonempty, hwords⟩, hcontrol⟩ := hlabel
  refine hd.behind (y := [.body]) rfl fun roles count => ?_
  have hword : feed label.toList (.placed (.start roles) count) =
      some (.placed (.first label.toList roles) count) := by
    cases hcs : label.toList with
    | nil => simp [String.toList_eq_nil_iff.mp hcs] at hnonempty
    | cons c rest =>
      rw [hcs] at hwords
      obtain ⟨hc, hrest⟩ := Bool.and_eq_true_iff.mp hwords
      obtain ⟨hletter, hothers⟩ := List.forall_mem_cons.mp (hcs ▸ over_iff.mp hletters)
      rw [feed, Reader.step_of_not_isSign rfl (statementSpelling.letter_iff.mp hletter).2.1,
        Reader.take_outside rfl, Reader.outside, hc]
      exact feed_word hothers hrest
  have hcolon : feed ": ".toList (.placed (.first label.toList roles) count) =
      some (.placed (.start (.body :: roles)) count) := by
    change (Reader.endFirst _ label.toList roles ':').bind (feed [' ']) = _
    rw [Reader.endFirst, if_pos ⟨rfl, hcontrol⟩]
    rfl
  exact (takes_text hconfig hword).append (takes_text hconfig hcolon)

theorem IsReadAs.inLoop {b : Bool} {a : String} (ha : a = "while (" ∨ a = "for (")
    (hd : StaysInside config d) (he : IsReadAs config e b) :
    IsReadAs config (text a ++ d ++ text ") " ++ e) b := by
  refine he.behind (y := [.body]) rfl fun roles count => ?_
  rcases ha with rfl | rfl <;> exact takes_between hconfig rfl rfl hd

/-- The head of a branch, and its consequent. -/
theorem exists_consequent {b : Bool} {s : StmtShape} (hd : Stays config d)
    (hs : IsReadAs config s.doc b) : ∃ head body,
      text "if (" ++ d ++ Script.consequent s = head ++ body ∧ IsReadAs config body b ∧
      ∀ roles count, Takes config head (.placed (.start roles) count)
        (.placed (.start (.consequent :: roles)) count) := by
  unfold Script.consequent
  split
  · refine ⟨text "if (" ++ d ++ text ") ", s.doc, by simp, hs, fun roles count => ?_⟩
    exact takes_between hconfig rfl rfl hd.inside
  · refine ⟨text "if (" ++ d ++ text ")" ++ newline, indented s.doc, ?_, hs.indented, ?_⟩
    · simp [line, text, newline]
    · intro roles count
      exact (takes_between hconfig rfl rfl hd.inside).append
        (takes_newline_steady hconfig (Reader.isSteady_start _ count))

omit hconfig in
theorem exists_alternative {b : Bool} {s : StmtShape} (hs : IsReadAs config s.doc b)
    (hinside : StaysInside config s.doc) : ∃ word body, Script.alternative s = word ++ body ∧
      IsElse word ∧ IsReadAs config body b ∧ IsWritable config body := by
  unfold Script.alternative
  split
  · exact ⟨_, _, rfl, .inl rfl, hs, hinside.isWritable⟩
  · exact ⟨_, _, rfl, .inr rfl, hs.indented, hinside.indented.isWritable⟩

theorem IsReadAs.ifStmt {b b' : Bool} {consequent : StmtShape} {alternative : Option StmtShape}
    (hd : Stays config d) (hconsequent : IsReadAs config consequent.doc b)
    (halternative : ∀ s ∈ alternative, IsReadAs config s.doc b')
    (hinside : ∀ s ∈ alternative, StaysInside config s.doc) (habsent : alternative = none → b' = true) :
    IsReadAs config (Script.ifStmt d consequent alternative) (b && b') := by
  obtain ⟨head, body, hsplit, hbody, hhead⟩ := exists_consequent hconfig hd hconsequent
  unfold Script.ifStmt
  rw [hsplit]
  cases alternative with
  | none =>
    rw [habsent rfl, Bool.and_true]
    change IsReadAs config (head ++ body ++ []) b
    rw [List.append_nil]
    exact hbody.behind (y := [.consequent]) rfl hhead
  | some s =>
    obtain ⟨word, last, heq, hword, hlast, hwritable⟩ :=
      exists_alternative (halternative s rfl) (hinside s rfl)
    have hgap : IsPassedOver config (if consequent.form = .block then text " " else newline) := by
      split
      · exact passedOver_blank hconfig
      · exact passedOver_newline hconfig
    have hwhole := hbody.orElse hconfig hhead hgap hword hlast hwritable
    simpa [heq] using hwhole

theorem IsReadAs.doStmt {b : Bool} {s : StmtShape} (hs : IsReadAs config s.doc b)
    (hd : Stays config d) : IsReadAs config (Script.doStmt s d) b := by
  simpa [Script.doStmt] using hs.doWhile hconfig hd

theorem IsReadAs.forEachStmt {b : Bool} (mods : ModifierSet) {names : List String} {s : StmtShape}
    (hnames : ∀ name ∈ names, Over statementSpelling.letters name) (hd : Stays config d)
    (hs : IsReadAs config s.doc b) : IsReadAs config (Script.forEachStmt mods names d s) b := by
  have hhead := (stays_composes hconfig).forEachHead mods hnames hd
  simpa [Script.forEachStmt] using hs.inLoop hconfig (.inr rfl) hhead.inside

theorem IsReadAs.forStmt {b : Bool} {init update : List Doc} {compare : Option Doc} {s : StmtShape}
    (hinit : ∀ d ∈ init, Stays config d) (hcompare : ∀ d ∈ compare, Stays config d)
    (hupdate : ∀ d ∈ update, Stays config d) (hs : IsReadAs config s.doc b) :
    IsReadAs config (Script.forStmt init compare update s) b := by
  have hhead := (stays_composes hconfig).forHead hinit hcompare hupdate
  simpa [Script.forStmt] using hs.inLoop hconfig (.inr rfl) hhead

end Doc
end TypeScribe
