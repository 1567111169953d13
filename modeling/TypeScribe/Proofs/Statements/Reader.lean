import TypeScribe.Proofs.Script.Compose

/-!
# A reader of statements

Printed code is read character by character. Comments and what stands between quotes are passed
over. Inside brackets only the brackets matter; outside of them the reader follows where a statement
ends, and so counts how many statements a text is made of. What stands inside a statement is not its
business: it knows a statement by its first word and by the brackets and the semicolon that end it.
-/
namespace TypeScribe
set_option autoImplicit false
open Text

/-- The role of a statement in the statement around it. -/
inductive Role where
  /-- The consequent of a branch; an alternative may stand behind it. -/
  | consequent
  /-- The body of a loop whose condition stands behind it. -/
  | doBody
  /-- Every other body: nothing of the statement around it stands behind it. -/
  | body
  deriving DecidableEq

/-- A place outside of all brackets. The roles are those of the statement at hand and of the
statements around it, innermost first. -/
inductive Position where
  | start (roles : List Role)
  /-- In the first word of a statement. -/
  | first (word : List Char) (roles : List Role)
  /-- In a statement that a semicolon ends. -/
  | simple (roles : List Role)
  /-- Where a bracket of the kind has to open. -/
  | before (b : Bracket) (behind : Position)
  /-- Behind a statement, which may be one that goes on with clauses. -/
  | ended (clauses : Bool) (roles : List Role)
  /-- In the first word behind a statement. -/
  | next (word : List Char) (clauses : Bool) (roles : List Role)
  deriving DecidableEq

/-- Whether a character is read as code. -/
inductive Look where
  | code
  /-- Behind a slash that may begin a comment. -/
  | slash
  | line
  | block (starred : Bool)
  | quoted (quote : Char) (escaped : Bool)
  deriving DecidableEq

structure Reader where
  look : Look := .code
  opened : List Bracket := []
  place : Position := .start []
  /-- How many statements others have followed. -/
  count : Nat := 0
  deriving DecidableEq

-- Words

def isWordChar (c : Char) : Bool :=
  !isBlank c && (c.isAlphanum || c == '_' || c == '$' || decide (128 ≤ c.toNat))

/-- The words that a statement other than a simple one begins with, or goes on with. -/
def controlWords : List (List Char) :=
  [['i', 'f'], ['w', 'h', 'i', 'l', 'e'], ['f', 'o', 'r'], ['s', 'w', 'i', 't', 'c', 'h'],
    ['t', 'r', 'y'], ['d', 'o'], ['e', 'l', 's', 'e'], ['c', 'a', 't', 'c', 'h'],
    ['f', 'i', 'n', 'a', 'l', 'l', 'y']]

def isControlWord (word : List Char) : Bool := controlWords.contains word

/-- The roles of the innermost branch without an alternative. -/
def branchOf : List Role → Option (List Role)
  | .consequent :: roles => some roles
  | .body :: roles => branchOf roles
  | _ => none

/-- The roles of the innermost loop without a condition. -/
def loopOf : List Role → Option (List Role)
  | .doBody :: roles => some roles
  | _ :: roles => loopOf roles
  | [] => none

/-- Whether nothing has to follow. -/
def areClosed (roles : List Role) : Bool := roles.all (· != .doBody)

namespace Position

/-- The place behind the first word of a statement. -/
def afterFirst (roles : List Role) : List Char → Option Position
  | ['i', 'f'] => some (.before .round (.start (.consequent :: roles)))
  | ['w', 'h', 'i', 'l', 'e'] => some (.before .round (.start (.body :: roles)))
  | ['f', 'o', 'r'] => some (.before .round (.start (.body :: roles)))
  | ['s', 'w', 'i', 't', 'c', 'h'] => some (.before .round (.before .curly (.ended false roles)))
  | ['t', 'r', 'y'] => some (.before .curly (.ended true roles))
  | ['d', 'o'] => some (.start (.doBody :: roles))
  | ['e', 'l', 's', 'e'] => none
  | ['c', 'a', 't', 'c', 'h'] => none
  | ['f', 'i', 'n', 'a', 'l', 'l', 'y'] => none
  | _ => some (.simple roles)

/-- The place behind a word with which a statement goes on. -/
def afterNext (clauses : Bool) (roles : List Role) : List Char → Option Position
  | ['e', 'l', 's', 'e'] => (branchOf roles).map fun outer => .start (.body :: outer)
  | ['w', 'h', 'i', 'l', 'e'] => (loopOf roles).map fun outer => .before .round (.simple outer)
  | ['c', 'a', 't', 'c', 'h'] =>
    if clauses then some (.before .round (.before .curly (.ended true roles))) else none
  | ['f', 'i', 'n', 'a', 'l', 'l', 'y'] =>
    if clauses then some (.before .curly (.ended false roles)) else none
  | _ => none

/-- Whether a word is being read. -/
def isPending : Position → Bool
  | .first _ _ => true
  | .next _ _ _ => true
  | _ => false

end Position

-- Characters

namespace Reader

def inSimple (r : Reader) (roles : List Role) (c : Char) : Option Reader :=
  if c = ';' then some { r with place := .ended false roles }
  else (bracketStep c []).map fun opened => { r with opened := opened, place := .simple roles }

def atStart (r : Reader) (roles : List Role) (c : Char) : Option Reader :=
  if isBlank c then some { r with place := .start roles }
  else if c = '\x7b' then some { r with opened := [.curly], place := .ended false roles }
  else r.inSimple roles c

/-- A character outside of words. -/
def punctuate (r : Reader) (c : Char) : Option Reader :=
  match r.place with
  | .start roles => r.atStart roles c
  | .simple roles => r.inSimple roles c
  | .before b behind =>
    if isBlank c then some r
    else if opening? c = some b then some { r with opened := [b], place := behind }
    else none
  | .ended _ roles =>
    if isBlank c then some r
    else if areClosed roles then ({ r with count := r.count + 1 }).atStart [] c
    else none
  | .first _ _ => none
  | .next _ _ _ => none

/-- A character behind the first word of a statement; a colon makes the word a label. -/
def endFirst (r : Reader) (word : List Char) (roles : List Role) (c : Char) : Option Reader :=
  if c = ':' ∧ isControlWord word = false then some { r with place := .start (.body :: roles) }
  else (Position.afterFirst roles word).bind fun place => ({ r with place := place }).punctuate c

/-- A character behind the first word after a statement. -/
def endNext (r : Reader) (word : List Char) (clauses : Bool) (roles : List Role) (c : Char) :
    Option Reader :=
  match Position.afterNext clauses roles word with
  | some place => ({ r with place := place }).punctuate c
  | none =>
    if areClosed roles then ({ r with count := r.count + 1 }).endFirst word [] c else none

/-- A character of a word. -/
def letter (r : Reader) (c : Char) : Option Reader :=
  match r.place with
  | .start roles => some { r with place := .first [c] roles }
  | .first word roles => some { r with place := .first (word ++ [c]) roles }
  | .simple _ => some r
  | .before _ _ => none
  | .ended clauses roles => some { r with place := .next [c] clauses roles }
  | .next word clauses roles => some { r with place := .next (word ++ [c]) clauses roles }

/-- A character outside of all brackets. -/
def outside (r : Reader) (c : Char) : Option Reader :=
  if isWordChar c then r.letter c
  else match r.place with
    | .first word roles => r.endFirst word roles c
    | .next word clauses roles => r.endNext word clauses roles c
    | _ => r.punctuate c

/-- A character of code. -/
def take (r : Reader) (c : Char) : Option Reader :=
  match r.opened with
  | [] => r.outside c
  | _ :: _ => (bracketStep c r.opened).map fun opened => { r with opened := opened }

/-- A character that is neither in a comment nor between quotes. -/
def takeCode (r : Reader) (c : Char) : Option Reader :=
  if c = '/' then some { r with look := .slash }
  else if c = '"' ∨ c = '\'' then ({ r with look := .quoted c false }).take c
  else r.take c

end Reader

def isLineEnd (c : Char) : Bool :=
  c == '\n' || c == '\r' || c == '\u2028' || c == '\u2029'

/-- How a character in a block comment or between quotes is passed over. A line end does not stand
between quotes. -/
def Look.pass : Look → Char → Option Look
  | .block starred, c => some (if starred && c == '/' then .code else .block (c == '*'))
  | .quoted quote true, _ => some (.quoted quote false)
  | .quoted quote false, c =>
    if c = '\\' then some (.quoted quote true)
    else if c = quote then some .code
    else if c = '\n' ∨ c = '\r' then none
    else some (.quoted quote false)
  | look, _ => some look

namespace Reader

/-- A comment is read as a blank, and what stands between quotes as the quote before it. -/
def step (r : Reader) (c : Char) : Option Reader :=
  match r.look with
  | .code => r.takeCode c
  | .slash =>
    if c = '/' then ({ r with look := .line }).take ' '
    else if c = '*' then ({ r with look := .block false }).take ' '
    else (({ r with look := .code }).take '/').bind fun next => next.takeCode c
  | .line => if isLineEnd c then ({ r with look := .code }).take c else some r
  | look => (look.pass c).map fun next => { r with look := next }

/-- How many statements have been read, if the text may end here. -/
def statements? (r : Reader) : Option Nat :=
  if (r.look = .code ∨ r.look = .line) ∧ r.opened = [] then
    match r.place with
    | .start [] => some r.count
    | .ended _ roles => if areClosed roles then some (r.count + 1) else none
    | _ => none
  else none

end Reader

def feed : List Char → Reader → Option Reader
  | [], r => some r
  | c :: cs, r => (r.step c).bind (feed cs)

/-- How many statements the text is made of; none if it ends inside of one, or does not close what it
opens. -/
def countStatements (text : String) : Option Nat := (feed text.toList {}).bind Reader.statements?

example : countStatements "/* none */ // at all\n" = some 0 := by decide +kernel

example : countStatements "if (a) for (;;) f(\";\"); else \x7b g(); h(); \x7d do x; while (y);" =
    some 2 := by decide +kernel

example : countStatements "while (c) /* nothing */" = none := by decide +kernel

theorem feed_append (cs ds : List Char) (r : Reader) :
    feed (cs ++ ds) r = (feed cs r).bind (feed ds) := by
  induction cs generalizing r with
  | nil => rfl
  | cons c rest ih =>
    rw [List.cons_append, feed, feed]
    cases r.step c with
    | none => rfl
    | some next => exact ih next

-- Blanks

theorem isWordChar_of_isBlank {c : Char} (h : isBlank c = true) : isWordChar c = false := by
  rw [isWordChar, h]
  rfl

theorem isBracket_of_isBlank {c : Char} (h : isBlank c = true) : isBracket c = false :=
  isBracket_eq_false (by decide) h

theorem isSign_of_isBlank {c : Char} (h : isBlank c = true) : isSign c = false := by
  rw [← Bool.not_eq_true]
  intro hsign
  simp only [isSign, Bool.or_eq_true, beq_iff_eq] at hsign
  rcases hsign with ((rfl | rfl) | rfl) | rfl <;> exact absurd h (by decide)

theorem isBracket_of_isWordChar {c : Char} (h : isWordChar c = true) : isBracket c = false :=
  isBracket_eq_false (by decide) h

theorem bracketStep_of_not_isBracket {c : Char} (h : isBracket c = false) (opened : List Bracket) :
    bracketStep c opened = some opened := by
  have hone := @openAfter_of_bracketless [c] (by simpa using h) opened
  rw [openAfter] at hone
  cases hstep : bracketStep c opened with
  | none =>
    rw [hstep] at hone
    cases hone
  | some next =>
    rw [hstep] at hone
    exact hone

namespace Reader

/-- The reader is outside of comments, quotes and words. -/
structure IsSteady (r : Reader) : Prop where
  code : r.look = .code
  settled : r.opened = [] → r.place.isPending = false

variable {r : Reader} {c : Char}

theorem step_of_not_isSign (hcode : r.look = .code) (hc : isSign c = false) : r.step c = r.take c := by
  simp only [isSign, Bool.or_eq_false_iff, beq_eq_false_iff_ne] at hc
  obtain ⟨⟨⟨hdouble, hsingle⟩, hslash⟩, -⟩ := hc
  rw [step, hcode]
  change r.takeCode c = _
  rw [takeCode, if_neg hslash, if_neg (by simp [hdouble, hsingle])]

theorem take_inside {b : Bracket} {outer : List Bracket} (h : r.opened = b :: outer) (c : Char) :
    r.take c = (bracketStep c r.opened).map fun opened => { r with opened := opened } := by
  rw [take, h]

theorem take_outside (h : r.opened = []) (c : Char) : r.take c = r.outside c := by rw [take, h]

theorem take_blank (hr : r.opened = [] → r.place.isPending = false) (hc : isBlank c = true) :
    r.take c = some r := by
  cases hopened : r.opened with
  | cons b outer =>
    rw [take_inside hopened, bracketStep_of_not_isBracket (isBracket_of_isBlank hc)]
    rfl
  | nil =>
    have hsettled := hr hopened
    rw [take_outside hopened, outside, isWordChar_of_isBlank hc]
    obtain ⟨look, opened, place, count⟩ := r
    cases place with
    | start roles => simp [punctuate, atStart, hc]
    | simple roles =>
      have hsemicolon : c ≠ ';' := by
        rintro rfl
        exact absurd hc (by decide)
      cases hopened
      simp [punctuate, inSimple, hsemicolon,
        bracketStep_of_not_isBracket (isBracket_of_isBlank hc)]
    | before b behind => simp [punctuate, hc]
    | ended clauses roles => simp [punctuate, hc]
    | first word roles => cases hsettled
    | next word clauses roles => cases hsettled

/-- Blanks leave the reader where it is. -/
def Rests (r : Reader) : Prop := ∀ c, isBlank c = true → r.step c = some r

theorem Rests.feed (hr : r.Rests) {cs : List Char} (h : ∀ c ∈ cs, isBlank c = true) :
    feed cs r = some r := by
  induction cs with
  | nil => rfl
  | cons c rest ih =>
    obtain ⟨hc, hrest⟩ := List.forall_mem_cons.mp h
    rw [TypeScribe.feed, hr c hc]
    exact ih hrest

theorem IsSteady.rests (hr : r.IsSteady) : r.Rests := by
  intro c hc
  rw [step_of_not_isSign hr.code (isSign_of_isBlank hc), take_blank hr.settled hc]

theorem rests_block (r : Reader) : Rests { r with look := .block false } := by
  intro c hc
  have hstar : (c == '*') = false := by
    rw [beq_eq_false_iff_ne]
    rintro rfl
    exact absurd hc (by decide)
  simp [step, Look.pass, hstar]

-- Text in which only brackets matter

/-- The reader is in a simple statement or inside of brackets. -/
structure IsHeld (r : Reader) : Prop where
  code : r.look = .code
  held : r.opened ≠ [] ∨ ∃ roles, r.place = .simple roles

theorem IsHeld.isSteady (hr : r.IsHeld) : r.IsSteady where
  code := hr.code
  settled h := by
    obtain hopened | ⟨roles, hroles⟩ := hr.held
    · exact absurd h hopened
    · rw [hroles]
      rfl

theorem take_bracket (h : r.opened ≠ []) {opened : List Bracket}
    (hstep : bracketStep c r.opened = some opened) : r.take c = some { r with opened := opened } := by
  obtain ⟨b, outer, hopened⟩ := List.exists_cons_of_ne_nil h
  rw [take_inside hopened, hstep]
  rfl

theorem take_held (hr : r.opened ≠ [] ∨ ∃ roles, r.place = .simple roles) (hc : c ≠ ';')
    {opened : List Bracket} (hstep : bracketStep c r.opened = some opened) :
    r.take c = some { r with opened := opened } := by
  by_cases hopened : r.opened = []
  · obtain hne | ⟨roles, hroles⟩ := hr
    · exact absurd hopened hne
    · obtain ⟨look, _, _, count⟩ := r
      cases hopened
      cases hroles
      rw [take_outside rfl, outside]
      split
      · next hword =>
        rw [bracketStep_of_not_isBracket (isBracket_of_isWordChar hword)] at hstep
        cases hstep
        rfl
      · simp [punctuate, inSimple, hc, hstep]
  · exact take_bracket hopened hstep

theorem IsHeld.opens (hr : r.IsHeld) (inner : List Bracket) :
    IsHeld { r with opened := inner ++ r.opened } where
  code := hr.code
  held := by
    refine hr.held.imp_left fun hne hnil => hne ?_
    exact (List.append_eq_nil_iff.mp hnil).2

/-- A text without signs opens and closes brackets and changes nothing else. Inside of brackets a
semicolon does not matter. -/
theorem IsHeld.feed_brackets (hr : r.IsHeld) {cs : List Char}
    (hsigns : ∀ c ∈ cs, isSign c = false ∨ c = ';' ∧ r.opened ≠ [])
    (inner : List Bracket) {inner' : List Bracket} (h : openAfter cs inner = some inner') :
    feed cs { r with opened := inner ++ r.opened } =
      some { r with opened := inner' ++ r.opened } := by
  induction cs generalizing inner with
  | nil =>
    cases h
    rfl
  | cons c rest ih =>
    obtain ⟨hc, hrest⟩ := List.forall_mem_cons.mp hsigns
    obtain ⟨middle, hstep, hmiddle⟩ := Option.bind_eq_some_iff.mp h
    have hframed := bracketStep_frame r.opened hstep
    have htake : step { r with opened := inner ++ r.opened } c =
        some { r with opened := middle ++ r.opened } := by
      rcases hc with hc | ⟨rfl, hopened⟩
      · have hsemicolon : c ≠ ';' := by
          rintro rfl
          cases hc
        have hheld := hr.opens inner
        rw [step_of_not_isSign hheld.code hc, take_held hheld.held hsemicolon hframed]
      · have hinside : inner ++ r.opened ≠ [] := fun hnil =>
          hopened (List.append_eq_nil_iff.mp hnil).2
        rw [step, hr.code]
        exact take_bracket hinside hframed
    rw [feed, htake]
    exact ih hrest middle hmiddle

theorem IsHeld.feed_calm (hr : r.IsHeld) {cs : List Char} (hsigns : cs.any isSign = false)
    (inner : List Bracket) {inner' : List Bracket} (h : openAfter cs inner = some inner') :
    feed cs { r with opened := inner ++ r.opened } =
      some { r with opened := inner' ++ r.opened } :=
  hr.feed_brackets (fun c hc => .inl (by simpa using List.any_eq_false.mp hsigns c hc)) inner h

theorem IsHeld.feed_nested (hr : r.IsHeld) {cs : List Char} (hsigns : cs.any isSign = false)
    (h : IsNested cs) : feed cs r = some r :=
  hr.feed_calm hsigns [] h

-- Comments and quotes

end Reader

/-- Whether a comment that the text is in ends in it. -/
def endsComment : (starred : Bool) → List Char → Bool
  | _, [] => false
  | starred, c :: cs => (starred && c == '/') || endsComment (c == '*') cs

/-- Whether the text ends a comment that it begins in. -/
def closesComment (s : String) : Bool := endsComment false s.toList

/-- Whether a text between quotes stays there, and the quote behind it ends it. -/
def staysQuoted (quote : Char) : (escaped : Bool) → List Char → Bool
  | escaped, [] => !escaped
  | true, _ :: cs => staysQuoted quote false cs
  | false, c :: cs =>
    if c = '\\' then staysQuoted quote true cs
    else !(c == quote) && !(c == '\n') && !(c == '\r') && staysQuoted quote false cs

theorem endsComment_append_left {starred : Bool} {cs ds : List Char}
    (h : endsComment starred (cs ++ ds) = false) : endsComment starred cs = false := by
  induction cs generalizing starred with
  | nil => rfl
  | cons c rest ih =>
    obtain ⟨hc, hrest⟩ := Bool.or_eq_false_iff.mp h
    exact Bool.or_eq_false_iff.mpr ⟨hc, ih hrest⟩

theorem endsComment_of_starred {starred : Bool} {cs : List Char}
    (h : endsComment starred cs = false) : endsComment false cs = false := by
  cases cs with
  | nil => rfl
  | cons c rest => exact (Bool.or_eq_false_iff.mp h).2

theorem endsComment_append_right {starred : Bool} {cs ds : List Char}
    (h : endsComment starred (cs ++ ds) = false) : endsComment false ds = false := by
  induction cs generalizing starred with
  | nil => exact endsComment_of_starred h
  | cons c rest ih => exact ih (Bool.or_eq_false_iff.mp h).2

theorem endsComment_of_infix {cs ds : List Char} (hwithin : cs <:+: ds)
    (h : endsComment false ds = false) : endsComment false cs = false := by
  obtain ⟨before, behind, rfl⟩ := hwithin
  exact endsComment_append_right (endsComment_append_left h)

theorem endsComment_append {starred : Bool} {cs ds : List Char}
    (hcs : endsComment starred cs = false) (hds : ∀ starred, endsComment starred ds = false) :
    endsComment starred (cs ++ ds) = false := by
  induction cs generalizing starred with
  | nil => exact hds starred
  | cons c rest ih =>
    obtain ⟨hc, hrest⟩ := Bool.or_eq_false_iff.mp hcs
    exact Bool.or_eq_false_iff.mpr ⟨hc, ih hrest⟩

theorem endsComment_of_forall {starred : Bool} {cs : List Char} (h : ∀ c ∈ cs, c ≠ '/') :
    endsComment starred cs = false := by
  induction cs generalizing starred with
  | nil => rfl
  | cons c rest ih =>
    obtain ⟨hc, hrest⟩ := List.forall_mem_cons.mp h
    simp [endsComment, hc, ih hrest]

namespace Reader

variable {r : Reader}

theorem feed_block {starred : Bool} {cs : List Char} (h : endsComment starred cs = false) :
    ∃ starred', feed cs { r with look := .block starred } = some { r with look := .block starred' } := by
  induction cs generalizing starred with
  | nil => exact ⟨starred, rfl⟩
  | cons c rest ih =>
    obtain ⟨hc, hrest⟩ := Bool.or_eq_false_iff.mp h
    obtain ⟨starred', hfeed⟩ := ih hrest
    refine ⟨starred', ?_⟩
    rw [feed, step]
    simp only [Look.pass, hc]
    exact hfeed

theorem IsSteady.feed_opening (hr : r.IsSteady) :
    feed ['/', '*'] r = some { r with look := .block false } := by
  have hslash : r.step '/' = some { r with look := .slash } := by
    rw [step, hr.code]
    rfl
  have hstar : step { r with look := .slash } '*' = some { r with look := .block false } :=
    @take_blank { r with look := .block false } ' ' hr.settled rfl
  rw [feed, hslash, Option.bind_some, feed, hstar]
  rfl

theorem IsSteady.feed_closing (hr : r.IsSteady) (starred : Bool) :
    feed ['*', '/'] { r with look := .block starred } = some r := by
  have hcode : { r with look := .code } = r := by rw [← hr.code]
  cases starred <;> exact congrArg some hcode

/-- A block comment changes nothing. -/
theorem IsSteady.feed_comment (hr : r.IsSteady) {cs : List Char}
    (h : endsComment false cs = false) : feed (['/', '*'] ++ cs ++ ['*', '/']) r = some r := by
  obtain ⟨starred, hblock⟩ := @feed_block r false cs h
  rw [feed_append, feed_append, hr.feed_opening, Option.bind_some, hblock, Option.bind_some,
    hr.feed_closing]

/-- A slash that begins no comment changes nothing inside a statement. -/
theorem IsHeld.feed_division (hr : r.IsHeld) {c : Char} (hsign : isSign c = false)
    (hbracket : isBracket c = false) (hstar : c ≠ '*') : feed ['/', c] r = some r := by
  have hcode : { r with look := .code } = r := by rw [← hr.code]
  have hslash : r.step '/' = some { r with look := .slash } := by
    rw [step, hr.code]
    rfl
  have hother : c ≠ '/' := by
    rintro rfl
    cases hsign
  have hsemicolon : c ≠ ';' := by
    rintro rfl
    cases hsign
  have hc : r.takeCode c = some r := by
    have hstep : r.step c = r.takeCode c := by rw [step, hr.code]
    rw [← hstep, step_of_not_isSign hr.code hsign]
    exact take_held hr.held hsemicolon (bracketStep_of_not_isBracket hbracket r.opened)
  have hnext : step { r with look := .slash } c = some r := by
    change (if c = '/' then _ else if c = '*' then _ else _) = _
    rw [if_neg hother, if_neg hstar, hcode, take_held hr.held (by decide) rfl]
    exact hc
  rw [feed, hslash, Option.bind_some, feed, hnext]
  rfl

theorem IsSteady.feed_slashes (hr : r.IsSteady) :
    feed ['/', '/'] r = some { r with look := .line } := by
  have hslash : r.step '/' = some { r with look := .slash } := by
    rw [step, hr.code]
    rfl
  have hline : step { r with look := .slash } '/' = some { r with look := .line } :=
    @take_blank { r with look := .line } ' ' hr.settled rfl
  rw [feed, hslash, Option.bind_some, feed, hline]
  rfl

/-- A line end behind a line comment, with blanks around it. -/
theorem IsSteady.feed_lineEnd (hr : r.IsSteady) {cs : List Char} (hblank : ∀ c ∈ cs, isBlank c = true)
    (hend : cs.any isLineEnd = true) : feed cs { r with look := .line } = some r := by
  induction cs with
  | nil => cases hend
  | cons c rest ih =>
    obtain ⟨hc, hrest⟩ := List.forall_mem_cons.mp hblank
    rw [feed, step]
    cases hline : isLineEnd c with
    | false =>
      rw [List.any_cons, hline] at hend
      exact ih hrest hend
    | true =>
      have hcode : { r with look := .code } = r := by rw [← hr.code]
      change (take { r with look := .code } c).bind _ = _
      rw [hcode, take_blank hr.settled hc]
      exact hr.rests.feed hrest

theorem feed_line {cs : List Char} (h : ∀ c ∈ cs, isLineEnd c = false) :
    feed cs { r with look := .line } = some { r with look := .line } := by
  induction cs with
  | nil => rfl
  | cons c rest ih =>
    obtain ⟨hc, hrest⟩ := List.forall_mem_cons.mp h
    rw [feed, step]
    simp only [hc]
    exact ih hrest

theorem feed_quoted {quote : Char} {escaped : Bool} {cs : List Char}
    (h : staysQuoted quote escaped cs = true) :
    feed cs { r with look := .quoted quote escaped } = some { r with look := .quoted quote false } := by
  induction cs generalizing escaped with
  | nil =>
    cases escaped with
    | true => cases h
    | false => rfl
  | cons c rest ih =>
    rw [feed]
    cases escaped with
    | true => exact ih h
    | false =>
      rw [staysQuoted] at h
      split at h
      · next hc =>
        subst hc
        exact ih h
      · next hc =>
        simp only [Bool.and_eq_true, Bool.not_eq_true', beq_eq_false_iff_ne] at h
        obtain ⟨⟨⟨hquote, hfeed⟩, hreturn⟩, hrest⟩ := h
        have hstep : step { r with look := .quoted quote false } c =
            some { r with look := .quoted quote false } := by
          simp [step, Look.pass, hc, hquote, hfeed, hreturn]
        rw [hstep]
        exact ih hrest

end Reader

-- One statement behind another

theorem loopOf_of_areClosed {roles : List Role} (h : areClosed roles = true) : loopOf roles = none := by
  induction roles with
  | nil => rfl
  | cons role rest ih =>
    obtain ⟨hrole, hrest⟩ := Bool.and_eq_true_iff.mp h
    cases role with
    | doBody => cases hrole
    | consequent => exact ih hrest
    | body => exact ih hrest

/-- A word that begins a statement does not go on with the one before it. -/
theorem Position.afterNext_eq_none {roles outer : List Role} (hclosed : areClosed roles = true)
    (clauses : Bool) {word : List Char} (h : afterFirst outer word ≠ none) :
    afterNext clauses roles word = none := by
  unfold afterNext
  split
  · exact absurd rfl h
  · rw [loopOf_of_areClosed hclosed]
    rfl
  · exact absurd rfl h
  · exact absurd rfl h
  · rfl

theorem Position.afterFirst_of_not_isControlWord {word : List Char} (h : isControlWord word = false)
    (roles : List Role) : afterFirst roles word = some (.simple roles) := by
  unfold afterFirst
  split
  all_goals first | exact absurd h (by decide) | rfl

namespace Reader

/-- The one reader is behind statements where the other one has counted them and is before the next
one. -/
inductive Follows : Reader → Reader → Prop where
  | blank (look : Look) (count : Nat) (clauses : Bool) {roles : List Role}
      (h : areClosed roles = true) :
      Follows ⟨look, [], .ended clauses roles, count⟩ ⟨look, [], .start [], count + 1⟩
  | word (look : Look) (count : Nat) (clauses : Bool) {roles : List Role}
      (h : areClosed roles = true) (word : List Char) :
      Follows ⟨look, [], .next word clauses roles, count⟩ ⟨look, [], .first word [], count + 1⟩

variable {r s s' : Reader} {c : Char}

theorem Follows.withLook (h : Follows r s) (look : Look) :
    Follows { r with look := look } { s with look := look } := by
  cases h with
  | blank _ count clauses hclosed => exact .blank look count clauses hclosed
  | word _ count clauses hclosed word => exact .word look count clauses hclosed word

theorem Follows.look_eq (h : Follows r s) : r.look = s.look := by cases h <;> rfl

theorem endNext_eq_endFirst {look : Look} {count : Nat} {clauses : Bool} {roles : List Role}
    (hclosed : areClosed roles = true) {word : List Char} {place : Position}
    (h : endFirst ⟨look, [], place, count + 1⟩ word [] c = some s') :
    endNext ⟨look, [], .next word clauses roles, count⟩ word clauses roles c = some s' := by
  have hfirst : Position.afterFirst [] word ≠ none := by
    intro hnone
    rw [endFirst, hnone] at h
    split at h
    · next hlabel =>
      rw [Position.afterFirst_of_not_isControlWord hlabel.2] at hnone
      cases hnone
    · cases h
  rw [endNext, Position.afterNext_eq_none hclosed clauses hfirst]
  simpa [hclosed, endFirst] using h

theorem Follows.take (h : Follows r s) (hs : s.take c = some s') :
    ∃ r', r.take c = some r' ∧ (r' = s' ∨ Follows r' s') := by
  cases h with
  | blank look count clauses hclosed =>
    rw [take_outside rfl, outside] at hs ⊢
    split at hs
    · next hword =>
      cases hs
      exact ⟨_, if_pos hword, .inr (.word look count clauses hclosed [c])⟩
    · next hword =>
      rw [if_neg hword]
      simp only [punctuate, atStart] at hs ⊢
      split at hs
      · next hblank =>
        cases hs
        exact ⟨_, if_pos hblank, .inr (.blank look count clauses hclosed)⟩
      · next hblank =>
        rw [if_neg hblank, if_pos hclosed, if_neg hblank]
        exact ⟨s', hs, .inl rfl⟩
  | word look count clauses hclosed word =>
    rw [take_outside rfl, outside] at hs ⊢
    split at hs
    · next hword =>
      cases hs
      exact ⟨_, if_pos hword, .inr (.word look count clauses hclosed (word ++ [c]))⟩
    · next hword =>
      rw [if_neg hword]
      exact ⟨s', endNext_eq_endFirst hclosed hs, .inl rfl⟩

theorem Follows.takeCode (h : Follows r s) (hs : s.takeCode c = some s') :
    ∃ r', r.takeCode c = some r' ∧ (r' = s' ∨ Follows r' s') := by
  rw [Reader.takeCode] at hs ⊢
  split at hs
  · next hslash =>
    cases hs
    exact ⟨_, if_pos hslash, .inr (h.withLook .slash)⟩
  · next hslash =>
    rw [if_neg hslash]
    split at hs
    · next hquote =>
      rw [if_pos hquote]
      exact (h.withLook (.quoted c false)).take hs
    · next hquote =>
      rw [if_neg hquote]
      exact h.take hs

theorem Follows.step (h : Follows r s) (hs : s.step c = some s') :
    ∃ r', r.step c = some r' ∧ (r' = s' ∨ Follows r' s') := by
  rw [Reader.step, h.look_eq]
  rw [Reader.step] at hs
  cases hlook : s.look with
  | code =>
    rw [hlook] at hs
    exact h.takeCode hs
  | slash =>
    simp only [hlook] at hs ⊢
    split at hs
    · next hc =>
      rw [if_pos hc]
      exact (h.withLook .line).take hs
    · next hc =>
      rw [if_neg hc]
      split at hs
      · next hstar =>
        rw [if_pos hstar]
        exact (h.withLook (.block false)).take hs
      · next hstar =>
        rw [if_neg hstar]
        obtain ⟨middle, hmiddle, hs⟩ := Option.bind_eq_some_iff.mp hs
        obtain ⟨r', hr', rfl | hfollows⟩ := (h.withLook .code).take hmiddle
        · exact ⟨s', by rw [hr']; exact hs, .inl rfl⟩
        · rw [hr']
          exact hfollows.takeCode hs
  | line =>
    simp only [hlook] at hs ⊢
    split at hs
    · next hend =>
      rw [if_pos hend]
      exact (h.withLook .code).take hs
    · next hend =>
      cases hs
      exact ⟨r, if_neg hend, .inr h⟩
  | block starred =>
    simp only [hlook] at hs ⊢
    obtain ⟨next, hnext, rfl⟩ := Option.map_eq_some_iff.mp hs
    exact ⟨{ r with look := next }, by rw [hnext]; rfl, .inr (h.withLook next)⟩
  | quoted quote escaped =>
    simp only [hlook] at hs ⊢
    obtain ⟨next, hnext, rfl⟩ := Option.map_eq_some_iff.mp hs
    exact ⟨{ r with look := next }, by rw [hnext]; rfl, .inr (h.withLook next)⟩

/-- What is read as a statement at the start is read as the next one behind others. -/
theorem Follows.feed (h : Follows r s) {cs : List Char} (hs : feed cs s = some s') :
    ∃ r', TypeScribe.feed cs r = some r' ∧ (r' = s' ∨ Follows r' s') := by
  induction cs generalizing r s with
  | nil =>
    cases hs
    exact ⟨r, rfl, .inr h⟩
  | cons c rest ih =>
    obtain ⟨middle, hmiddle, hs⟩ := Option.bind_eq_some_iff.mp hs
    obtain ⟨r', hr', rfl | hfollows⟩ := h.step hmiddle
    · exact ⟨s', by rw [TypeScribe.feed, hr']; exact hs, .inl rfl⟩
    · rw [TypeScribe.feed, hr']
      exact ih hfollows hs

-- Counts

/-- The reader, with other statements before it. -/
def counted (k : Nat) (r : Reader) : Reader := { r with count := r.count + k }

variable {k : Nat} {r : Reader} {c : Char}

theorem inSimple_counted (roles : List Role) :
    (r.counted k).inSimple roles c = (r.inSimple roles c).map (counted k) := by
  unfold inSimple
  split
  · rfl
  · cases bracketStep c [] <;> rfl

theorem atStart_counted (roles : List Role) :
    (r.counted k).atStart roles c = (r.atStart roles c).map (counted k) := by
  unfold atStart
  split
  · rfl
  · split
    · rfl
    · exact inSimple_counted roles

theorem counted_succ : ({ r with count := r.count + 1 } : Reader).counted k =
    { r.counted k with count := (r.counted k).count + 1 } := by
  simp [counted, Nat.add_right_comm]

theorem punctuate_counted : (r.counted k).punctuate c = (r.punctuate c).map (counted k) := by
  obtain ⟨look, opened, place, count⟩ := r
  cases place with
  | start roles => exact atStart_counted roles
  | simple roles => exact inSimple_counted roles
  | first word roles => rfl
  | next word clauses roles => rfl
  | before b behind =>
    change (if _ then _ else if _ then _ else none) =
      Option.map _ (if _ then _ else if _ then _ else none)
    split
    · rfl
    · split <;> rfl
  | ended clauses roles =>
    change (if _ then _ else if _ then _ else none) =
      Option.map _ (if _ then _ else if _ then _ else none)
    split
    · rfl
    · split
      · rw [← atStart_counted, counted_succ]
      · rfl

theorem endFirst_counted (word : List Char) (roles : List Role) :
    (r.counted k).endFirst word roles c = (r.endFirst word roles c).map (counted k) := by
  unfold endFirst
  split
  · rfl
  · cases Position.afterFirst roles word with
    | none => rfl
    | some place => exact punctuate_counted (r := { r with place := place })

theorem endNext_counted (word : List Char) (clauses : Bool) (roles : List Role) :
    (r.counted k).endNext word clauses roles c = (r.endNext word clauses roles c).map (counted k) := by
  unfold endNext
  cases Position.afterNext clauses roles word with
  | some place => exact punctuate_counted (r := { r with place := place })
  | none =>
    dsimp only
    split
    · rw [← endFirst_counted, counted_succ]
    · rfl

theorem letter_counted : (r.counted k).letter c = (r.letter c).map (counted k) := by
  obtain ⟨look, opened, place, count⟩ := r
  cases place <;> rfl

theorem outside_counted : (r.counted k).outside c = (r.outside c).map (counted k) := by
  unfold outside
  split
  · exact letter_counted
  · obtain ⟨look, opened, place, count⟩ := r
    cases place with
    | first word roles => exact endFirst_counted word roles
    | next word clauses roles => exact endNext_counted word clauses roles
    | _ => exact punctuate_counted

theorem take_counted : (r.counted k).take c = (r.take c).map (counted k) := by
  obtain ⟨look, opened, place, count⟩ := r
  cases opened with
  | nil => exact outside_counted
  | cons b outer =>
    change (bracketStep c (b :: outer)).map _ = ((bracketStep c (b :: outer)).map _).map _
    rw [Option.map_map]
    rfl

theorem takeCode_counted : (r.counted k).takeCode c = (r.takeCode c).map (counted k) := by
  unfold takeCode
  split
  · rfl
  · split
    · exact take_counted (r := { r with look := .quoted c false })
    · exact take_counted

theorem step_counted : (r.counted k).step c = (r.step c).map (counted k) := by
  obtain ⟨look, opened, place, count⟩ := r
  cases look with
  | code => exact takeCode_counted
  | slash =>
    unfold step
    dsimp only [counted]
    split
    · exact take_counted (r := ⟨.line, opened, place, count⟩)
    · split
      · exact take_counted (r := ⟨.block false, opened, place, count⟩)
      · have htake := take_counted (r := ⟨.code, opened, place, count⟩) (k := k) (c := '/')
        change (Reader.take (counted k ⟨.code, opened, place, count⟩) '/').bind _ = _
        rw [htake]
        cases Reader.take ⟨.code, opened, place, count⟩ '/' with
        | none => rfl
        | some next => exact takeCode_counted
  | line =>
    unfold step
    dsimp only [counted]
    split
    · exact take_counted (r := ⟨.code, opened, place, count⟩)
    · rfl
  | block starred => rfl
  | quoted quote escaped =>
    change (Look.pass _ c).map _ = ((Look.pass _ c).map _).map _
    rw [Option.map_map]
    rfl

theorem feed_counted (cs : List Char) : feed cs (r.counted k) = (feed cs r).map (counted k) := by
  induction cs generalizing r with
  | nil => rfl
  | cons c rest ih =>
    rw [feed, feed, step_counted]
    cases r.step c with
    | none => rfl
    | some next => exact ih

theorem statements?_counted : (r.counted k).statements? = r.statements?.map (· + k) := by
  by_cases hend : (r.look = .code ∨ r.look = .line) ∧ r.opened = []
  · have hcounted : ((r.counted k).look = .code ∨ (r.counted k).look = .line) ∧
        (r.counted k).opened = [] := hend
    rw [statements?, statements?, if_pos hend, if_pos hcounted]
    obtain ⟨look, opened, place, count⟩ := r
    cases place with
    | start roles => cases roles <;> rfl
    | ended clauses roles =>
      dsimp only [counted]
      split
      · exact congrArg some (Nat.add_right_comm count k 1)
      · rfl
    | _ => rfl
  · have hcounted : ¬(((r.counted k).look = .code ∨ (r.counted k).look = .line) ∧
        (r.counted k).opened = []) := hend
    rw [statements?, statements?, if_neg hend, if_neg hcounted]
    rfl

theorem Follows.statements?_eq {s : Reader} (h : Follows r s) : r.statements? = s.statements? := by
  cases h with
  | blank look count clauses hclosed => simp [statements?, hclosed]
  | word look count clauses hclosed word => rfl

end Reader

/-- Behind a statement that is closed, a text counts as it does by itself. -/
theorem countStatements_behind {first more : String} {clauses : Bool} {roles : List Role}
    (hroles : areClosed roles = true)
    (hfirst : feed first.toList {} = some ⟨.code, [], .ended clauses roles, 0⟩) {n : Nat}
    (hmore : countStatements more = some n) : countStatements (first ++ more) = some (n + 1) := by
  obtain ⟨s, hs, hn⟩ := Option.bind_eq_some_iff.mp hmore
  have hnext : feed more.toList (Reader.counted 1 {}) = some (s.counted 1) := by
    rw [Reader.feed_counted, hs]
    rfl
  obtain ⟨r, hr, hcases⟩ := (Reader.Follows.blank .code 0 clauses hroles).feed hnext
  have hcount : r.statements? = (s.counted 1).statements? := by
    rcases hcases with rfl | hfollows
    · rfl
    · exact hfollows.statements?_eq
  rw [countStatements, String.toList_append, feed_append, hfirst, Option.bind_some, hr,
    Option.bind_some, hcount, Reader.statements?_counted, hn]
  rfl

end TypeScribe
