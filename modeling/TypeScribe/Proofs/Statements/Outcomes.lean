import TypeScribe.Proofs.Statements.Openings

/-!
# What reading a statement comes to

Read from its start, a document that is one statement leaves the roles of the statements around it as
they were. Otherwise reading goes amiss: the reader waits for a statement, has a loop open that should
be closed, has passed several statements, or stops. A statement that others end is one if they are,
since only an alternative and the condition of a loop look at the roles again.
-/
namespace TypeScribe
set_option autoImplicit false
open Text

theorem areClosed_append (x roles : List Role) :
    areClosed (x ++ roles) = (areClosed x && areClosed roles) :=
  List.all_append

/-- Behind a whole consequent an alternative belongs to a branch in it or to the one around it. -/
theorem branchOf_closed {x : List Role} (hx : areClosed x = true) (roles : List Role) :
    ∃ y, areClosed y = true ∧ branchOf (x ++ .consequent :: roles) = some (y ++ roles) := by
  induction x with
  | nil => exact ⟨[], rfl, rfl⟩
  | cons role rest ih =>
    obtain ⟨hrole, hrest⟩ := Bool.and_eq_true_iff.mp hx
    cases role with
    | doBody => cases hrole
    | body => exact ih hrest
    | consequent =>
      refine ⟨rest ++ [.consequent], ?_, by simp [branchOf]⟩
      rw [areClosed_append]
      exact Bool.and_eq_true_iff.mpr ⟨hrest, rfl⟩

theorem branchOf_unclosed {x : List Role} (hx : areClosed x = false) (roles : List Role) :
    branchOf (x ++ roles) = none ∨
      ∃ y, areClosed y = false ∧ branchOf (x ++ roles) = some (y ++ roles) := by
  induction x with
  | nil => cases hx
  | cons role rest ih =>
    cases role with
    | doBody => exact .inl rfl
    | body => exact ih hx
    | consequent => exact .inr ⟨rest, hx, rfl⟩

theorem loopOf_closed {x : List Role} (hx : areClosed x = true) (roles : List Role) :
    loopOf (x ++ .doBody :: roles) = some roles := by
  induction x with
  | nil => rfl
  | cons role rest ih =>
    obtain ⟨hrole, hrest⟩ := Bool.and_eq_true_iff.mp hx
    cases role with
    | doBody => cases hrole
    | body => exact ih hrest
    | consequent => exact ih hrest

theorem loopOf_unclosed {x : List Role} (hx : areClosed x = false) (roles : List Role) :
    ∃ y, loopOf (x ++ roles) = some (y ++ roles) := by
  induction x with
  | nil => cases hx
  | cons role rest ih =>
    cases role with
    | doBody => exact ⟨rest, rfl⟩
    | body => exact ih hx
    | consequent => exact ih hx

/-- A reader of code inside of one bracket. -/
abbrev Reader.inside (b : Bracket) (place : Position) (count : Nat) : Reader :=
  { opened := [b], place := place, count := count }

namespace Reader

variable {clauses : Bool} {roles : List Role} {count : Nat} {c : Char}

theorem isHeld_inside (b : Bracket) (place : Position) (count : Nat) :
    IsHeld (inside b place count) :=
  ⟨rfl, .inl (List.cons_ne_nil _ _)⟩

theorem isSteady_ended (clauses : Bool) (roles : List Role) (count : Nat) :
    IsSteady (placed (.ended clauses roles) count) :=
  ⟨rfl, fun _ => rfl⟩

theorem step_blank_next (hc : isBlank c = true) (word : List Char) :
    step (placed (.next word clauses roles) count) c =
      endNext (placed (.next word clauses roles) count) word clauses roles c := by
  rw [step_of_not_isSign rfl (isSign_of_isBlank hc), take_outside rfl, outside,
    isWordChar_of_isBlank hc]
  rfl

/-- No statement begins with an alternative. -/
theorem endFirst_else {r : Reader} (hc : isBlank c = true) : endFirst r "else".toList roles c = none := by
  have hcolon : c ≠ ':' := by
    rintro rfl
    exact absurd hc (by decide)
  have hafter : Position.afterFirst roles "else".toList = none := rfl
  rw [endFirst, if_neg fun hlabel => hcolon hlabel.1, hafter]
  rfl

/-- An alternative goes on with a branch that is open, or reading stops. -/
theorem step_next_else (hc : isBlank c = true) :
    step (placed (.next "else".toList clauses roles) count) c =
      (branchOf roles).map fun outer => placed (.start (.body :: outer)) count := by
  have hafter : Position.afterNext clauses roles "else".toList =
      (branchOf roles).map fun outer => .start (.body :: outer) := rfl
  rw [step_blank_next hc, endNext, hafter]
  cases branchOf roles with
  | none =>
    change (if _ then endFirst _ "else".toList [] c else none) = none
    rw [endFirst_else hc]
    exact ite_self none
  | some outer => simp [punctuate, atStart, hc]

theorem step_first_else (hc : isBlank c = true) :
    step (placed (.first "else".toList roles) count) c = none := by
  rw [step_of_not_isSign rfl (isSign_of_isBlank hc), take_outside rfl, outside,
    isWordChar_of_isBlank hc]
  exact endFirst_else hc

/-- The condition behind a body belongs to the innermost loop that is open. -/
theorem feed_while (clauses : Bool) (count : Nat) {outer : List Role} (h : loopOf roles = some outer) :
    feed " while (".toList (placed (.ended clauses roles) count) =
      some (.inside .round (.simple outer) count) := by
  have hafter : Position.afterNext clauses roles "while".toList =
      (loopOf roles).map fun outer => .before .round (.simple outer) := rfl
  have hnext : step (placed (.next "while".toList clauses roles) count) ' ' =
      some (placed (.before .round (.simple outer)) count) := by
    rw [step_blank_next rfl, endNext, hafter, h]
    rfl
  change (step (placed (.next "while".toList clauses roles) count) ' ').bind (feed ['(']) = _
  rw [hnext]
  rfl

/-- A first word other than those that go on with a statement does not stand behind a body of a
loop. -/
theorem feed_strands {word : List Char} (hroles : areClosed roles = false)
    (h : feed word (placed (.ended clauses roles) count) =
      some (placed (.next word clauses roles) count))
    (hword : Position.afterNext clauses roles word = none) :
    feed (word ++ [' ']) (placed (.ended clauses roles) count) = none := by
  rw [feed_append, h, Option.bind_some, feed, step_blank_next rfl, endNext, hword]
  simp [hroles]

end Reader

/-- Every writer that meets the reader can write the document, and the reader stops in what it adds. -/
def Doc.Stops (config : Config) (d : Doc) (r : Reader) : Prop :=
  ∀ w : Writer, w.Meets config r → ∃ w' added, typeset config w d = .ok w' ∧
    w'.written = w.written ++ added ∧ feed added.toList r = none

/-- Every writer with the margins of the configuration can write the document. -/
def Doc.IsWritable (config : Config) (d : Doc) : Prop :=
  ∀ w : Writer, w.margins = config.margins → ∃ w', typeset config w d = .ok w'

namespace Doc

variable {config : Config} {d e : Doc} {r r' : Reader}

theorem Takes.isWritable (h : Takes config d r r') (hr : r.Rests) : IsWritable config d := by
  intro w hw
  obtain ⟨w', -, htypeset, -⟩ := h w ⟨hw, .inl hr⟩
  exact ⟨w', htypeset⟩

theorem StaysInside.isWritable (h : StaysInside config d) : IsWritable config d := by
  have hr := Reader.isHeld_inside .curly (.start []) 0
  exact (h _ hr (List.cons_ne_nil _ _)).isWritable hr.isSteady.rests

theorem Stops.append (hd : Stops config d r) (he : IsWritable config e) :
    Stops config (d ++ e) r := by
  intro w hw
  obtain ⟨middle, first, hmiddle, hfirst, hread⟩ := hd w hw
  obtain ⟨w', hw'⟩ := he middle ((Writer.Extends.of_typeset hmiddle).margins.trans hw.margins)
  obtain ⟨second, hsecond⟩ := (Writer.Extends.of_typeset hw').written
  refine ⟨w', first ++ second, ?_, ?_, ?_⟩
  · rw [typeset_append, hmiddle]
    exact hw'
  · rw [hsecond, hfirst, String.append_assoc]
  · rw [String.toList_append, feed_append, hread]
    rfl

theorem Takes.stops (hd : Takes config d r r') (he : Stops config e r') :
    Stops config (d ++ e) r := by
  intro w hw
  obtain ⟨middle, first, hmiddle, hfirst, hread, hmeets⟩ := hd w hw
  obtain ⟨w', second, hw', hsecond, hstop⟩ := he middle hmeets
  refine ⟨w', first ++ second, ?_, ?_, ?_⟩
  · rw [typeset_append, hmiddle]
    exact hw'
  · rw [hsecond, hfirst, String.append_assoc]
  · rw [String.toList_append, feed_append, hread]
    exact hstop

theorem Stops.indented (h : Stops config d r) : Stops config (indented d) r := by
  intro w hw
  obtain ⟨w', added, htypeset, hadded, hread⟩ := h w.indent ⟨hw.margins, hw.unpadded⟩
  refine ⟨w'.outdent, added, ?_, hadded, hread⟩
  change typeset config w.indent (d ++ [.outdent]) = _
  rw [typeset_append, htypeset]
  rfl

theorem stops_text (hconfig : config.IsReadable) {s : String} (h : feed s.toList r = none) :
    Stops config (text s) r := by
  intro w hw
  obtain ⟨pad, hwritten, hpad⟩ := hw.exists_feed hconfig s
  refine ⟨w.write s, pad ++ s, rfl, hwritten, ?_⟩
  rw [String.toList_append, feed_append, hpad]
  exact h

theorem stops_newline (hconfig : config.IsReadable) (h : ∀ c, isBlank c = true → r.step c = none) :
    Stops config newline r := by
  intro w hw
  refine ⟨w.newline, config.endOfLine, rfl, Writer.written_newline hw.margins, ?_⟩
  have hblank := over_iff.mp hconfig.endOfLine
  have hends := hconfig.endsLine
  cases heol : config.endOfLine.toList with
  | nil =>
    rw [heol] at hends
    cases hends
  | cons c rest =>
    rw [heol] at hblank
    rw [feed, h c (hblank c List.mem_cons_self)]
    rfl

end Doc

/-- Where a reader may be that has read something other than one statement. -/
inductive Reader.Amiss (roles : List Role) (count : Nat) : Reader → Prop where
  /-- A statement has still to come. -/
  | awaiting (x : List Role) : Amiss roles count (placed (.start (x ++ roles)) count)
  /-- The condition of a loop has still to come. -/
  | unclosed (clauses : Bool) {x : List Role} (h : areClosed x = false) :
      Amiss roles count (placed (.ended clauses (x ++ roles)) count)
  /-- A statement has followed another one, and so none of the roles is left. -/
  | several (clauses : Bool) {count' : Nat} (h : areClosed roles = true) (hcount : count < count') :
      Amiss roles count (placed (.ended clauses []) count')

theorem Reader.Amiss.outer {y roles : List Role} {count : Nat} {r : Reader}
    (h : r.Amiss (y ++ roles) count) : r.Amiss roles count := by
  cases h with
  | awaiting x =>
    rw [← List.append_assoc]
    exact .awaiting (x ++ y)
  | @unclosed clauses x hx =>
    rw [← List.append_assoc]
    refine .unclosed clauses ?_
    rw [areClosed_append, hx]
    rfl
  | several clauses hclosed hcount =>
    rw [areClosed_append] at hclosed
    exact .several clauses (Bool.and_eq_true_iff.mp hclosed).2 hcount

namespace Doc

/-- Read from its start, the document is one statement, and its roles are as they were. -/
def IsWhole (config : Config) (d : Doc) (roles : List Role) (count : Nat) : Prop :=
  ∃ clauses x, areClosed x = true ∧
    Takes config d (.placed (.start roles) count) (.placed (.ended clauses (x ++ roles)) count)

def GoesAmiss (config : Config) (d : Doc) (roles : List Role) (count : Nat) : Prop :=
  Stops config d (.placed (.start roles) count) ∨
    ∃ r, r.Amiss roles count ∧ Takes config d (.placed (.start roles) count) r

/-- The document is read as one statement, or as none, wherever it stands. -/
def IsReadAs (config : Config) (d : Doc) : (isOne : Bool) → Prop
  | true => ∀ roles count, d.IsWhole config roles count
  | false => ∀ roles count, d.GoesAmiss config roles count

variable {config : Config} {d e f : Doc} {b b' : Bool}

theorem IsWhole.behind {y roles : List Role} {count : Nat} (hy : areClosed y = true)
    (hd : Takes config d (.placed (.start roles) count) (.placed (.start (y ++ roles)) count))
    (he : IsWhole config e (y ++ roles) count) : IsWhole config (d ++ e) roles count := by
  obtain ⟨clauses, x, hx, hread⟩ := he
  refine ⟨clauses, x ++ y, ?_, ?_⟩
  · rw [areClosed_append, hx, hy]
    rfl
  · rw [List.append_assoc]
    exact hd.append hread

theorem GoesAmiss.behind {y roles : List Role} {count : Nat}
    (hd : Takes config d (.placed (.start roles) count) (.placed (.start (y ++ roles)) count))
    (he : GoesAmiss config e (y ++ roles) count) : GoesAmiss config (d ++ e) roles count := by
  rcases he with hstops | ⟨r, hr, hread⟩
  · exact .inl (hd.stops hstops)
  · exact .inr ⟨r, hr.outer, hd.append hread⟩

/-- A statement whose body ends it is one if its body is. -/
theorem IsReadAs.behind {y : List Role} (hy : areClosed y = true)
    (hd : ∀ roles count,
      Takes config d (.placed (.start roles) count) (.placed (.start (y ++ roles)) count))
    (he : IsReadAs config e b) : IsReadAs config (d ++ e) b := by
  cases b with
  | true => exact fun roles count => (he (y ++ roles) count).behind hy (hd roles count)
  | false => exact fun roles count => (he (y ++ roles) count).behind (hd roles count)

theorem IsReadAs.indented (hd : IsReadAs config d b) : IsReadAs config (Doc.indented d) b := by
  cases b with
  | true =>
    intro roles count
    obtain ⟨clauses, x, hx, hread⟩ := hd roles count
    exact ⟨clauses, x, hx, hread.indented⟩
  | false =>
    intro roles count
    rcases hd roles count with hstops | ⟨r, hr, hread⟩
    · exact .inl hstops.indented
    · exact .inr ⟨r, hr, hread.indented⟩

/-- A document that ends a statement and has no roles of its own. -/
theorem isReadAs_of_takes (h : ∀ roles count, ∃ clauses, Takes config d
    (.placed (.start roles) count) (.placed (.ended clauses roles) count)) :
    IsReadAs config d true := by
  intro roles count
  obtain ⟨clauses, hread⟩ := h roles count
  exact ⟨clauses, [], rfl, hread⟩

theorem IsPassedOver.isReadAs (h : IsPassedOver config d) : IsReadAs config d false :=
  fun roles count => .inr ⟨_, .awaiting [], h _ (Reader.isSteady_start roles count)⟩

/-- The word before an alternative, with a blank or a line end behind it. -/
def IsElse (d : Doc) : Prop := d = text "else " ∨ d = line "else"

section

variable (hconfig : config.IsReadable) (hd : IsElse d) {roles : List Role} {count : Nat}

include hconfig hd

theorem IsElse.takes {outer : List Role} (clauses : Bool) (h : branchOf roles = some outer) :
    Takes config d (.placed (.ended clauses roles) count)
      (.placed (.start (.body :: outer)) count) := by
  have hword : feed "else".toList (.placed (.ended clauses roles) count) =
      some (.placed (.next "else".toList clauses roles) count) := rfl
  have hblank (c : Char) (hc : isBlank c = true) :
      Reader.step (.placed (.next "else".toList clauses roles) count) c =
        some (.placed (.start (.body :: outer)) count) := by
    rw [Reader.step_next_else hc, h]
    rfl
  rcases hd with rfl | rfl
  · refine takes_text hconfig ?_
    change feed ("else".toList ++ [' ']) _ = _
    rw [feed_append, hword, Option.bind_some, feed, hblank ' ' rfl]
    rfl
  · exact (takes_text hconfig hword).append
      (takes_newline hconfig hblank (Reader.isSteady_start _ count).rests)

theorem IsElse.stops_of {r s : Reader} (hword : feed "else".toList r = some s)
    (h : ∀ c, isBlank c = true → s.step c = none) : Stops config d r := by
  rcases hd with rfl | rfl
  · refine stops_text hconfig ?_
    change feed ("else".toList ++ [' ']) _ = _
    rw [feed_append, hword, Option.bind_some, feed, h ' ' rfl]
    rfl
  · exact (takes_text hconfig hword).stops (stops_newline hconfig h)

theorem IsElse.stops_ended (clauses : Bool) (h : branchOf roles = none) :
    Stops config d (.placed (.ended clauses roles) count) := by
  refine hd.stops_of hconfig (s := .placed (.next "else".toList clauses roles) count) rfl ?_
  intro c hc
  rw [Reader.step_next_else hc, h]
  rfl

theorem IsElse.stops_start : Stops config d (.placed (.start roles) count) :=
  hd.stops_of hconfig (s := .placed (.first "else".toList roles) count) rfl
    fun _ hc => Reader.step_first_else hc

theorem IsElse.isWritable : IsWritable config d := by
  have hP := stays_composes hconfig
  rcases hd with rfl | rfl
  · exact (hP.literal rfl : Stays config (text "else ")).inside.isWritable
  · exact (hP.line (hP.literal rfl) : Stays config (line "else")).inside.isWritable

end

theorem IsPassedOver.isWritable (h : IsPassedOver config d) : IsWritable config d :=
  have hr := Reader.isSteady_start [] 0
  (h _ hr).isWritable hr.rests

/-- A branch with an alternative is one statement if both of its bodies are. -/
theorem IsReadAs.orElse {head word : Doc} (hconfig : config.IsReadable) (hd : IsReadAs config d b)
    (hhead : ∀ roles count, Takes config head (.placed (.start roles) count)
      (.placed (.start (.consequent :: roles)) count))
    (hf : IsPassedOver config f) (hword : IsElse word) (he : IsReadAs config e b')
    (hwritable : IsWritable config e) : IsReadAs config (head ++ d ++ f ++ word ++ e) (b && b') := by
  cases b with
  | true =>
    have hread (roles : List Role) (count : Nat) : ∃ y, areClosed y = true ∧
        Takes config (head ++ d ++ f ++ word) (.placed (.start roles) count)
          (.placed (.start (.body :: y ++ roles)) count) := by
      obtain ⟨clauses, x, hx, hbody⟩ := hd (.consequent :: roles) count
      obtain ⟨y, hy, hbranch⟩ := branchOf_closed hx roles
      refine ⟨y, hy, ?_⟩
      exact (((hhead roles count).append hbody).append (hf _ (Reader.isSteady_ended _ _ count))).append
        (hword.takes hconfig clauses hbranch)
    cases b' with
    | true =>
      intro roles count
      obtain ⟨y, hy, htakes⟩ := hread roles count
      exact (he (.body :: y ++ roles) count).behind (y := .body :: y) hy htakes
    | false =>
      intro roles count
      obtain ⟨y, -, htakes⟩ := hread roles count
      exact (he (.body :: y ++ roles) count).behind (y := .body :: y) htakes
  | false =>
    intro roles count
    have hwrite := hword.isWritable hconfig
    rcases hd (.consequent :: roles) count with hstops | ⟨r, hr, hbody⟩
    · exact .inl (((((hhead roles count).stops hstops).append hf.isWritable).append hwrite).append
        hwritable)
    · have hbefore := (hhead roles count).append hbody
      cases hr with
      | awaiting x =>
        have hsep := hbefore.append (hf _ (Reader.isSteady_start _ count))
        exact .inl ((hsep.stops (hword.stops_start hconfig)).append hwritable)
      | several clauses hclosed hcount =>
        have hsep := hbefore.append (hf _ (Reader.isSteady_ended _ _ _))
        exact .inl ((hsep.stops (hword.stops_ended hconfig clauses rfl)).append hwritable)
      | @unclosed clauses x hx =>
        have hsep := hbefore.append (hf _ (Reader.isSteady_ended _ _ _))
        rcases branchOf_unclosed hx (.consequent :: roles) with hnone | ⟨y, hy, hbranch⟩
        · exact .inl ((hsep.stops (hword.stops_ended hconfig clauses hnone)).append hwritable)
        · -- the alternative belongs to a branch inside a loop that is still open
          have htakes := hsep.append (hword.takes hconfig clauses hbranch)
          have hsplit : Role.body :: (y ++ .consequent :: roles) =
              (.body :: y ++ [.consequent]) ++ roles := by simp
          rw [hsplit] at htakes
          cases b' with
          | false => exact (he _ count).behind htakes
          | true =>
            obtain ⟨clauses', z, -, hlast⟩ := he ((.body :: y ++ [.consequent]) ++ roles) count
            refine .inr ⟨_, ?_, htakes.append hlast⟩
            rw [← List.append_assoc]
            refine .unclosed clauses' ?_
            have hopen : areClosed (.body :: y ++ [.consequent]) = false := by
              rw [areClosed_append]
              change (areClosed y && _) = false
              rw [hy]
              rfl
            rw [areClosed_append, hopen, Bool.and_false]

/-- A loop with its condition behind its body is one statement if its body is. -/
theorem IsReadAs.doWhile (hconfig : config.IsReadable) (hd : IsReadAs config d b)
    (he : Stays config e) :
    IsReadAs config (text "do " ++ d ++ (text " while (" ++ e ++ text ");")) b := by
  have hhead (roles : List Role) (count : Nat) : Takes config (text "do ")
      (.placed (.start roles) count) (.placed (.start (.doBody :: roles)) count) :=
    takes_text hconfig rfl
  have hcondition {r : Reader} {place : Position} (behind : Position) {count : Nat}
      (hr : feed " while (".toList r = some (.inside .round place count))
      (hbehind : feed ");".toList (.inside .round place count) =
        some (.placed behind count)) :
      Takes config (text " while (" ++ e ++ text ");") r (.placed behind count) := by
    have hheld := Reader.isHeld_inside .round place count
    exact ((takes_text hconfig hr).append (he _ hheld)).append (takes_text hconfig hbehind)
  have hunclosed (x roles : List Role) (count : Nat) : Reader.Amiss roles count
      (.placed (.ended false (x ++ .doBody :: roles)) count) := by
    have hopen : areClosed (x ++ [.doBody]) = false := by
      rw [areClosed_append]
      exact Bool.and_false _
    have hsplit : x ++ .doBody :: roles = (x ++ [.doBody]) ++ roles := by simp
    rw [hsplit]
    exact .unclosed false hopen
  cases b with
  | true =>
    intro roles count
    obtain ⟨clauses, x, hx, hbody⟩ := hd (.doBody :: roles) count
    have htail := hcondition (.ended false roles)
      (Reader.feed_while clauses count (loopOf_closed hx roles)) rfl
    exact ⟨false, [], rfl, ((hhead roles count).append hbody).append htail⟩
  | false =>
    intro roles count
    rcases hd (.doBody :: roles) count with hstops | ⟨r, hr, hbody⟩
    · have hP := stays_composes hconfig
      have hwritable := StaysInside.isWritable (hP.repeated he)
      exact .inl (((hhead roles count).stops hstops).append hwritable)
    · have hbefore := (hhead roles count).append hbody
      cases hr with
      | awaiting x =>
        have htail := hcondition (r := .placed (.start (x ++ .doBody :: roles)) count)
          (.ended false (.body :: x ++ .doBody :: roles)) rfl rfl
        exact .inr ⟨_, hunclosed (.body :: x) roles count, hbefore.append htail⟩
      | @unclosed clauses x hx =>
        obtain ⟨y, hloop⟩ := loopOf_unclosed hx (.doBody :: roles)
        have htail := hcondition (.ended false (y ++ .doBody :: roles))
          (Reader.feed_while clauses count hloop) rfl
        exact .inr ⟨_, hunclosed y roles count, hbefore.append htail⟩
      | several clauses hclosed hcount => cases hclosed

/-- Where a brace may open, the document is what stands in braces. -/
def Embraces (config : Config) (d : Doc) : Prop :=
  ∀ (r : Reader) (place : Position) (count : Nat),
    r.step '\x7b' = some (.inside .curly place count) →
    Takes config d r (.placed place count)

theorem embraces_block (hconfig : config.IsReadable) (hd : StaysInside config d) :
    Embraces config (line "\x7b" ++ indented d ++ text "\x7d") := by
  intro r place count hr
  have hheld := Reader.isHeld_inside .curly place count
  have hopening : feed "\x7b".toList r =
      some (.inside .curly place count) := by
    change (r.step '\x7b').bind (feed []) = _
    rw [hr]
    rfl
  have hline := (takes_text hconfig hopening).append (takes_newline_steady hconfig hheld.isSteady)
  exact (hline.append (hd _ hheld (List.cons_ne_nil _ _)).indented).append (takes_text hconfig rfl)

theorem Embraces.isReadAs (h : Embraces config d) : IsReadAs config d true :=
  isReadAs_of_takes fun roles count => ⟨false, h _ (.ended false roles) count rfl⟩

theorem takes_switch (hconfig : config.IsReadable) (hd : Stays config d) (he : StaysInside config e) :
    IsReadAs config (text "switch(" ++ d ++ line ") \x7b" ++ indented e ++ text "\x7d") true := by
  refine isReadAs_of_takes fun roles count => ⟨false, ?_⟩
  have hselected := Reader.isHeld_inside .round (.before .curly (.ended false roles)) count
  have hinside := Reader.isHeld_inside .curly (.ended false roles) count
  have hhead : Takes config (text "switch(") (.placed (.start roles) count)
      (.inside .round (.before .curly (.ended false roles)) count) := takes_text hconfig rfl
  have hopening : Takes config (text ") \x7b")
      (.inside .round (.before .curly (.ended false roles)) count)
      (.inside .curly (.ended false roles) count) := takes_text hconfig rfl
  have hbrace := hopening.append (takes_newline_steady hconfig hinside.isSteady)
  have hentries := (he _ hinside (List.cons_ne_nil _ _)).indented
  exact (((hhead.append (hd _ hselected)).append hbrace).append hentries).append
    (takes_text hconfig rfl)

end Doc
end TypeScribe
