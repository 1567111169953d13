import TypeScribe.Proofs.Layout.Texts

/-!
# A reader of formulas

A formula is an expression of names, numbers and operators, with parentheses wherever the precedence of
the operators asks for them. It is read character by character: a list of holes keeps what is open
around the operand at hand, and an operator fills those that bind at least as strongly.
-/
namespace TypeScribe
set_option autoImplicit false

def BinaryOp.precedence : BinaryOp → Nat
  | .or => 2
  | .and => 3
  | .binOr => 4
  | .xor => 5
  | .binAnd => 6
  | .equals | .notEquals => 7
  | .less | .greater | .lessEquals | .greaterEquals => 8
  | .leftShift | .signedRightShift | .unsignedRightShift => 9
  | .plus | .minus => 10
  | .multiply | .divide | .remainder => 11

def UnaryOp.precedence (op : UnaryOp) : Nat := if op.followsOperand then 13 else 12

/-- How strongly the outermost operator of an expression binds. -/
def Node.precedence : {c : Category} → Node c → Nat
  | _, .conditional _ _ _ => 1
  | _, .binary _ op _ => op.precedence
  | _, .unary op _ => op.precedence
  | _, _ => 14

/-- The characters that operators and parentheses are made of, and the blank. -/
def operatorSigns : List Char :=
  [' ', '(', ')', '+', '-', '*', '/', '%', '<', '>', '=', '!', '&', '|', '^', '~', '?', ':']

def isOperandChar (c : Char) : Bool := !operatorSigns.contains c

/-- A name that is printed as it is. -/
def isIdentifier (name : String) : Bool :=
  name.toList.all isOperandChar && name.toList.head?.any (fun c => !c.isDigit)
    && !reservedWords.contains name

def isNumeral (value : String) : Bool :=
  value.toList.all isOperandChar && value.toList.head?.any Char.isDigit

/-- An operand binds at least as strongly as its operator, and the right one of two more strongly. Only
the alternative of a conditional may be a conditional again. -/
inductive IsFormula : Expr → Prop where
  | name {name : String} (h : isIdentifier name = true) : IsFormula (.nameExpr name)
  | number {value : String} (h : isNumeral value = true) : IsFormula (.integerLiteral value)
  | enclosed {inner : Expr} (h : IsFormula inner) : IsFormula (.enclosed inner)
  | unary {op : UnaryOp} {operand : Expr} (h : IsFormula operand)
      (hle : op.precedence ≤ operand.precedence) : IsFormula (.unary op operand)
  | binary {left right : Expr} {op : BinaryOp} (hleft : IsFormula left) (hright : IsFormula right)
      (hle : op.precedence ≤ left.precedence) (hlt : op.precedence < right.precedence) :
      IsFormula (.binary left op right)
  | conditional {condition consequent alternative : Expr} (hcondition : IsFormula condition)
      (hconsequent : IsFormula consequent) (halternative : IsFormula alternative)
      (hlt : 1 < condition.precedence) :
      IsFormula (.conditional condition consequent alternative)

namespace Formula

/-- What is open around an operand, with the operands that are known already. -/
inductive Hole where
  | group
  | prefixed (op : UnaryOp)
  | right (left : Expr) (op : BinaryOp)
  | consequent (condition : Expr)
  | alternative (condition consequent : Expr)

namespace Hole

/-- How strongly the operator of the hole binds. What stands inside a group or between `?` and `:` is
held by these alone. -/
def precedence : Hole → Nat
  | group => 0
  | prefixed op => op.precedence
  | right _ op => op.precedence
  | consequent _ => 0
  | alternative _ _ => 1

def fill (e : Expr) : Hole → Expr
  | group => .enclosed e
  | prefixed op => .unary op e
  | right left op => .binary left op e
  | consequent condition => condition
  | alternative condition value => .conditional condition value e

/-- Whether the expression may stand in the hole. -/
def Admits (e : Expr) : Hole → Prop
  | prefixed op => op.precedence ≤ e.precedence
  | right _ op => op.precedence < e.precedence
  | _ => True

end Hole

inductive Place where
  | operand
  /-- In a name or a number. -/
  | word (cs : List Char)
  | behind (e : Expr)
  /-- Behind the first sign of an operator that follows its operand. -/
  | sign (e : Expr) (c : Char)
  /-- In an operator between two blanks. -/
  | symbol (e : Expr) (cs : List Char)

structure Reader where
  place : Place
  holes : List Hole

/-- The word that has been read, as an operand. -/
def atom (cs : List Char) : Expr :=
  if cs.head?.any Char.isDigit then .integerLiteral (String.ofList cs)
  else .nameExpr (String.ofList cs)

/-- Fills the holes that bind at least that strongly, from the innermost one on. -/
def fillFrom (bound : Nat) : List Hole → Expr → List Hole × Expr
  | [], e => ([], e)
  | h :: hs, e => if bound ≤ h.precedence then fillFrom bound hs (h.fill e) else (h :: hs, e)

def prefixOp? (c : Char) : Option UnaryOp :=
  if c = '+' then some .plus else if c = '-' then some .minus
  else if c = '!' then some .logicalComplement else if c = '~' then some .bitwiseComplement
  else none

def postfixOp? (c : Char) : Option UnaryOp :=
  if c = '+' then some .postfixIncrement else if c = '-' then some .postfixDecrement else none

def binaryOp? (cs : List Char) : Option BinaryOp :=
  (Keyword.all (α := BinaryOp)).find? fun op => op.scriptSymbol.toList == cs

namespace Reader

def atSymbol (hs : List Hole) (e : Expr) (cs : List Char) : Option Reader :=
  if cs = ['?'] then
    some { place := .operand, holes := .consequent (fillFrom 2 hs e).2 :: (fillFrom 2 hs e).1 }
  else if cs = [':'] then
    match fillFrom 1 hs e with
    | (.consequent condition :: outer, consequent) =>
      some { place := .operand, holes := .alternative condition consequent :: outer }
    | _ => none
  else (binaryOp? cs).map fun op =>
    { place := .operand,
      holes := .right (fillFrom op.precedence hs e).2 op :: (fillFrom op.precedence hs e).1 }

def atClosing (hs : List Hole) (e : Expr) : Option Reader :=
  match fillFrom 1 hs e with
  | (.group :: outer, inner) => some { place := .behind (.enclosed inner), holes := outer }
  | _ => none

/-- A character behind an operand. -/
def afterOperand (hs : List Hole) (e : Expr) (c : Char) : Option Reader :=
  if c = ' ' then some { place := .symbol e [], holes := hs }
  else if c = ')' then atClosing hs e
  else (postfixOp? c).map fun _ => { place := .sign e c, holes := hs }

def step (r : Reader) (c : Char) : Option Reader :=
  match r.place with
  | .operand =>
    if c = '(' then some { r with holes := .group :: r.holes }
    else if isOperandChar c then some { r with place := .word [c] }
    else (prefixOp? c).map fun op => { r with holes := .prefixed op :: r.holes }
  | .word cs =>
    if isOperandChar c then some { r with place := .word (cs ++ [c]) }
    else afterOperand r.holes (atom cs) c
  | .behind e => afterOperand r.holes e c
  | .sign e first =>
    if c = first then (postfixOp? c).map fun op => { r with place := .behind (.unary op e) } else none
  | .symbol e cs =>
    if c = ' ' then atSymbol r.holes e cs else some { r with place := .symbol e (cs ++ [c]) }

def feed : List Char → Reader → Option Reader
  | [], r => some r
  | c :: cs, r => (r.step c).bind (feed cs)

def atEnd (hs : List Hole) (e : Expr) : Option Expr :=
  match fillFrom 1 hs e with
  | ([], whole) => some whole
  | _ => none

def result? (r : Reader) : Option Expr :=
  match r.place with
  | .word cs => atEnd r.holes (atom cs)
  | .behind e => atEnd r.holes e
  | _ => none

end Reader

def read? (cs : List Char) : Option Expr :=
  (Reader.feed cs { place := .operand, holes := [] }).bind Reader.result?

end Formula

section

variable {c : Category}

theorem Node.precedence_pos (n : Node c) : 1 ≤ n.precedence := by
  unfold precedence
  split
  · exact Nat.le_refl 1
  · next op _ => cases op <;> decide
  · next op _ => cases op <;> decide
  · decide

theorem BinaryOp.one_lt_precedence (op : BinaryOp) : 1 < op.precedence := by cases op <;> decide

theorem BinaryOp.precedence_lt (op : BinaryOp) : op.precedence < 12 := by cases op <;> decide

theorem UnaryOp.le_precedence (op : UnaryOp) : 12 ≤ op.precedence := by cases op <;> decide

end

namespace Formula

/-- The holes that a formula leaves open on its right, innermost first. -/
def openHoles : {c : Category} → Node c → List Hole
  | _, .unary op operand => if op.followsOperand then [] else openHoles operand ++ [.prefixed op]
  | _, .binary left op right => openHoles right ++ [.right left op]
  | _, .conditional condition consequent alternative =>
    openHoles alternative ++ [.alternative condition consequent]
  | _, _ => []

/-- The operand on the right of a formula, which stands in the innermost of these holes. -/
def tip : {c : Category} → Node c → Node c
  | _, .unary op operand => if op.followsOperand then .unary op operand else tip operand
  | _, .binary _ _ right => tip right
  | _, .conditional _ _ alternative => tip alternative
  | _, n => n

theorem fillFrom_of_le {bound : Nat} {h : Hole} (hle : bound ≤ h.precedence) (hs : List Hole)
    (e : Expr) : fillFrom bound (h :: hs) e = fillFrom bound hs (h.fill e) := if_pos hle

/-- The innermost hole does not bind that strongly. -/
def Stops (bound : Nat) (hs : List Hole) : Prop := ∀ h ∈ hs.head?, h.precedence < bound

theorem fillFrom_of_stops {bound : Nat} {hs : List Hole} (h : Stops bound hs) (e : Expr) :
    fillFrom bound hs e = (hs, e) := by
  cases hs with
  | nil => rfl
  | cons hole rest => exact if_neg (Nat.not_le.mpr (h hole rfl))

theorem fillFrom_openHoles {e : Expr} (h : IsFormula e) {bound : Nat} (hbound : bound ≤ e.precedence)
    (hs : List Hole) : fillFrom bound (openHoles e ++ hs) (tip e) = fillFrom bound hs e := by
  induction h generalizing hs with
  | name _ => rfl
  | number _ => rfl
  | enclosed _ _ => rfl
  | @unary op operand _ hle ih =>
    by_cases hfollows : op.followsOperand = true
    · simp [openHoles, tip, hfollows]
    · simp only [openHoles, tip, hfollows, Bool.false_eq_true, if_false, List.append_assoc]
      rw [ih (Nat.le_trans hbound hle)]
      exact fillFrom_of_le hbound hs operand
  | @binary left right op _ _ _ hlt _ ihRight =>
    simp only [openHoles, tip, List.append_assoc]
    rw [ihRight (Nat.le_trans hbound (Nat.le_of_lt hlt))]
    exact fillFrom_of_le hbound hs right
  | @conditional condition consequent alternative _ _ _ _ _ _ ihAlternative =>
    simp only [openHoles, tip, List.append_assoc]
    rw [ihAlternative (Nat.le_trans hbound alternative.precedence_pos)]
    exact fillFrom_of_le hbound hs alternative

namespace Reader

theorem feed_append (cs ds : List Char) (r : Reader) :
    feed (cs ++ ds) r = (feed cs r).bind (feed ds) := by
  induction cs generalizing r with
  | nil => rfl
  | cons c rest ih =>
    rw [List.cons_append, feed, feed]
    cases r.step c with
    | none => rfl
    | some next => exact ih next

/-- The reader is behind an operand, the last word of which may go on. -/
def IsBehind (r : Reader) (e : Expr) : Prop :=
  r.place = .behind e ∨ ∃ cs, r.place = .word cs ∧ e = atom cs

variable {r : Reader} {e : Expr}

theorem IsBehind.step_eq (h : r.IsBehind e) {c : Char} (hc : isOperandChar c = false) :
    r.step c = afterOperand r.holes e c := by
  rcases h with h | ⟨cs, h, rfl⟩
  · simp [step, h]
  · simp [step, h, hc]

theorem IsBehind.result?_eq (h : r.IsBehind e) : r.result? = atEnd r.holes e := by
  rcases h with h | ⟨cs, h, rfl⟩ <;> simp [result?, h]

theorem feed_word (hs : List Hole) {cs : List Char} (h : cs.all isOperandChar = true)
    (before : List Char) :
    feed cs { place := .word before, holes := hs } =
      some { place := .word (before ++ cs), holes := hs } := by
  induction cs generalizing before with
  | nil => simp [feed]
  | cons c rest ih =>
    obtain ⟨hc, hrest⟩ := Bool.and_eq_true_iff.mp h
    rw [feed, step]
    simp only [hc, if_true, Option.bind_some]
    rw [ih hrest, List.append_assoc]
    rfl

/-- A word in the place of an operand. -/
theorem feed_operand (hs : List Hole) {cs : List Char} (h : cs.all isOperandChar = true)
    (hne : cs ≠ []) :
    feed cs { place := .operand, holes := hs } = some { place := .word cs, holes := hs } := by
  cases cs with
  | nil => exact absurd rfl hne
  | cons c rest =>
    obtain ⟨hc, hrest⟩ := Bool.and_eq_true_iff.mp h
    have hparenthesis : c ≠ '(' := by
      rintro rfl
      cases hc
    rw [feed, step]
    simp only [hparenthesis, if_false, hc, if_true, Option.bind_some]
    exact feed_word hs hrest [c]

theorem feed_symbol (hs : List Hole) (e : Expr) {cs : List Char} (h : ' ' ∉ cs)
    (before : List Char) :
    feed cs { place := .symbol e before, holes := hs } =
      some { place := .symbol e (before ++ cs), holes := hs } := by
  induction cs generalizing before with
  | nil => simp [feed]
  | cons c rest ih =>
    have hc : c ≠ ' ' := fun hc => h (hc ▸ List.mem_cons_self)
    have hrest : ' ' ∉ rest := fun hrest => h (List.mem_cons_of_mem c hrest)
    rw [feed, step]
    simp only [hc, if_false, Option.bind_some]
    rw [ih hrest, List.append_assoc]
    rfl

/-- An operator between blanks, behind an operand. -/
theorem IsBehind.feed_symbol (h : r.IsBehind e) {cs : List Char} (hcs : ' ' ∉ cs) :
    feed (' ' :: cs ++ [' ']) r = atSymbol r.holes e cs := by
  have hblank : r.step ' ' = some { place := .symbol e [], holes := r.holes } := h.step_eq rfl
  rw [List.cons_append, feed, hblank, Option.bind_some, feed_append,
    Reader.feed_symbol r.holes e hcs [], Option.bind_some, feed]
  exact Option.bind_fun_some _

/-- From before an operand, the characters lead behind the formula, with its holes open. -/
def Reads (cs : List Char) (hs : List Hole) (e : Expr) : Prop :=
  ∃ r, feed cs { place := .operand, holes := hs } = some r ∧ r.IsBehind (tip e) ∧
    r.holes = openHoles e ++ hs

theorem Reads.feed_append {cs : List Char} {hs : List Hole} (h : Reads cs hs e) :
    ∃ r : Reader, r.IsBehind (tip e) ∧ r.holes = openHoles e ++ hs ∧
      ∀ ds, feed (cs ++ ds) { place := .operand, holes := hs } = feed ds r := by
  obtain ⟨r, hfeed, hbehind, hholes⟩ := h
  refine ⟨r, hbehind, hholes, fun ds => ?_⟩
  rw [Reader.feed_append, hfeed, Option.bind_some]

end Reader

open Reader

variable {e : Expr} {hs : List Hole}

theorem Hole.Admits.mono {e' : Expr} {hole : Hole} (h : hole.Admits e)
    (hle : e.precedence ≤ e'.precedence) : hole.Admits e' := by
  cases hole with
  | prefixed op => exact Nat.le_trans h hle
  | right left op => exact Nat.lt_of_lt_of_le h hle
  | _ => trivial

theorem stops_of_admits (h : ∀ hole ∈ hs.head?, hole.Admits e) {bound : Nat}
    (hle : e.precedence ≤ bound) (hlow : 1 < bound) (hhigh : e.precedence < 12) : Stops bound hs := by
  intro hole hmem
  have hadmits := h hole hmem
  cases hole with
  | group => exact Nat.lt_trans Nat.zero_lt_one hlow
  | consequent condition => exact Nat.lt_trans Nat.zero_lt_one hlow
  | alternative condition value => exact hlow
  | right left op => exact Nat.lt_of_lt_of_le hadmits hle
  | prefixed op =>
    exact absurd (Nat.le_trans op.le_precedence hadmits) (Nat.not_le.mpr hhigh)

theorem openHoles_of_strong (h : 13 ≤ e.precedence) : openHoles e = [] ∧ tip e = e := by
  cases e with
  | unary op operand =>
    by_cases hfollows : op.followsOperand = true
    · simp [openHoles, tip, hfollows]
    · have hprecedence : op.precedence = 12 := if_neg hfollows
      change 13 ≤ op.precedence at h
      omega
  | binary left op right =>
    have hweak := op.precedence_lt
    change 13 ≤ op.precedence at h
    omega
  | conditional condition consequent alternative =>
    change 13 ≤ 1 at h
    omega
  | _ => exact ⟨rfl, rfl⟩

theorem binaryOp?_scriptSymbol (op : BinaryOp) : binaryOp? op.scriptSymbol.toList = some op := by
  cases op <;> rfl

theorem reads_word {cs : List Char} (hall : cs.all isOperandChar = true) {p : Char → Bool}
    (hfirst : cs.head?.any p = true) (hs : List Hole) : Reads cs hs (atom cs) := by
  have hne : cs ≠ [] := by
    rintro rfl
    cases hfirst
  have hatom : tip (atom cs) = atom cs ∧ openHoles (atom cs) = [] := by
    unfold atom
    split <;> exact ⟨rfl, rfl⟩
  refine ⟨{ place := .word cs, holes := hs }, feed_operand hs hall hne, .inr ⟨cs, rfl, hatom.1⟩, ?_⟩
  rw [hatom.2]
  rfl

theorem reads_name {name : String} (h : isIdentifier name = true) (hs : List Hole) :
    Reads name.toList hs (.nameExpr name) := by
  simp only [isIdentifier, Bool.and_eq_true] at h
  have hdigit : name.toList.head?.any Char.isDigit = false := by
    cases hhead : name.toList.head? with
    | none => rfl
    | some c => simpa [hhead] using h.1.2
  have hatom : atom name.toList = .nameExpr name := by simp [atom, hdigit]
  rw [← hatom]
  exact reads_word h.1.1 h.1.2 hs

theorem reads_number {value : String} (h : isNumeral value = true) (hs : List Hole) :
    Reads value.toList hs (.integerLiteral value) := by
  simp only [isNumeral, Bool.and_eq_true] at h
  have hatom : atom value.toList = .integerLiteral value := by simp [atom, h.2]
  rw [← hatom]
  exact reads_word h.1 h.2 hs

theorem reads_enclosed {cs : List Char} {inner : Expr} (hinner : IsFormula inner)
    (h : Reads cs (.group :: hs) inner) : Reads ('(' :: cs ++ [')']) hs (.enclosed inner) := by
  obtain ⟨r, hbehind, hholes, hfeed⟩ := h.feed_append
  have hfill : fillFrom 1 r.holes (tip inner) = (.group :: hs, inner) := by
    rw [hholes, fillFrom_openHoles hinner inner.precedence_pos]
    rfl
  have hclosing : r.step ')' = some { place := .behind (.enclosed inner), holes := hs } := by
    rw [hbehind.step_eq rfl]
    change atClosing r.holes (tip inner) = _
    rw [atClosing, hfill]
  refine ⟨{ place := .behind (.enclosed inner), holes := hs }, ?_, .inl rfl, rfl⟩
  change feed (cs ++ [')']) { place := .operand, holes := .group :: hs } = _
  rw [hfeed, feed, hclosing]
  rfl

theorem reads_prefixed {c : Char} {op : UnaryOp} (hop : prefixOp? c = some op) {cs : List Char}
    {operand : Expr} (h : Reads cs (.prefixed op :: hs) operand) :
    Reads (c :: cs) hs (.unary op operand) := by
  have hcases : (c = '+' ∧ op = .plus) ∨ (c = '-' ∧ op = .minus) ∨
      (c = '!' ∧ op = .logicalComplement) ∨ (c = '~' ∧ op = .bitwiseComplement) := by
    unfold prefixOp? at hop
    grind
  obtain ⟨r, hfeed, hbehind, hholes⟩ := h
  have hopened : r.holes = (openHoles operand ++ [.prefixed op]) ++ hs := by
    rw [hholes, List.append_assoc]
    rfl
  rcases hcases with ⟨rfl, rfl⟩ | ⟨rfl, rfl⟩ | ⟨rfl, rfl⟩ | ⟨rfl, rfl⟩ <;>
    exact ⟨r, hfeed, hbehind, hopened⟩

theorem reads_postfixed {c : Char} {op : UnaryOp} (hop : postfixOp? c = some op) {cs : List Char}
    {operand : Expr} (hstrong : 13 ≤ operand.precedence) (h : Reads cs hs operand) :
    Reads (cs ++ [c, c]) hs (.unary op operand) := by
  have hcases : (c = '+' ∧ op = .postfixIncrement) ∨ (c = '-' ∧ op = .postfixDecrement) := by
    unfold postfixOp? at hop
    grind
  obtain ⟨r, hbehind, hholes, hfeed⟩ := h.feed_append
  obtain ⟨hopen, htip⟩ := openHoles_of_strong hstrong
  rw [hopen] at hholes
  rw [htip] at hbehind
  refine ⟨{ place := .behind (.unary op operand), holes := hs }, ?_, ?_, ?_⟩
  · have hfirst : r.step c = some { place := .sign operand c, holes := hs } := by
      rcases hcases with ⟨rfl, rfl⟩ | ⟨rfl, rfl⟩ <;>
      · rw [hbehind.step_eq rfl, hholes]
        rfl
    have hsecond : step { place := .sign operand c, holes := hs } c =
        some { place := .behind (.unary op operand), holes := hs } := by
      rw [step]
      simp only [if_true, hop, Option.map_some]
    rw [hfeed, feed, hfirst, Option.bind_some, feed, hsecond]
    rfl
  · rcases hcases with ⟨-, rfl⟩ | ⟨-, rfl⟩ <;> exact .inl rfl
  · rcases hcases with ⟨-, rfl⟩ | ⟨-, rfl⟩ <;> rfl

/-- An operator between blanks fills the holes of the formula before it, which is then known. -/
theorem feed_operator {cs : List Char} (h : Reads cs hs e) {symbol : List Char}
    (hsymbol : ' ' ∉ symbol) (ds : List Char) :
    feed (cs ++ (' ' :: symbol ++ [' '] ++ ds)) { place := .operand, holes := hs } =
      (atSymbol (openHoles e ++ hs) (tip e) symbol).bind (feed ds) := by
  obtain ⟨r, hbehind, hholes, hfeed⟩ := h.feed_append
  rw [hfeed, feed_append, hbehind.feed_symbol hsymbol, hholes]

theorem reads_binary {left right : Expr} {op : BinaryOp} (hleft : IsFormula left)
    (hle : op.precedence ≤ left.precedence) (hstops : Stops op.precedence hs) {cs ds : List Char}
    (hcs : Reads cs hs left) (hds : Reads ds (.right left op :: hs) right) :
    Reads (cs ++ (' ' :: op.scriptSymbol.toList ++ [' '] ++ ds)) hs (.binary left op right) := by
  have hfill : fillFrom op.precedence (openHoles left ++ hs) (tip left) = (hs, left) := by
    rw [fillFrom_openHoles hleft hle, fillFrom_of_stops hstops]
  have hsymbol : atSymbol (openHoles left ++ hs) (tip left) op.scriptSymbol.toList =
      some { place := .operand, holes := .right left op :: hs } := by
    have hne : op.scriptSymbol.toList ≠ ['?'] ∧ op.scriptSymbol.toList ≠ [':'] := by
      cases op <;> decide
    simp [atSymbol, hne.1, hne.2, binaryOp?_scriptSymbol, hfill]
  obtain ⟨r, hfeed, hbehind, hholes⟩ := hds
  refine ⟨r, ?_, hbehind, ?_⟩
  · rw [feed_operator hcs (by cases op <;> decide), hsymbol]
    exact hfeed
  · rw [hholes, openHoles, List.append_assoc]
    rfl

theorem reads_conditional {condition consequent alternative : Expr} (hcondition : IsFormula condition)
    (hconsequent : IsFormula consequent) (hlt : 1 < condition.precedence) (hstops : Stops 2 hs)
    {cs ds fs : List Char} (hcs : Reads cs hs condition)
    (hds : Reads ds (.consequent condition :: hs) consequent)
    (hfs : Reads fs (.alternative condition consequent :: hs) alternative) :
    Reads (cs ++ (' ' :: ['?'] ++ [' '] ++ (ds ++ (' ' :: [':'] ++ [' '] ++ fs)))) hs
      (.conditional condition consequent alternative) := by
  have hfirst : fillFrom 2 (openHoles condition ++ hs) (tip condition) = (hs, condition) := by
    rw [fillFrom_openHoles hcondition hlt, fillFrom_of_stops hstops]
  have hsecond : fillFrom 1 (openHoles consequent ++ .consequent condition :: hs) (tip consequent) =
      (.consequent condition :: hs, consequent) := by
    rw [fillFrom_openHoles hconsequent consequent.precedence_pos]
    rfl
  obtain ⟨r, hfeed, hbehind, hholes⟩ := hfs
  refine ⟨r, ?_, hbehind, ?_⟩
  · rw [feed_operator hcs (by decide)]
    simp only [atSymbol, if_true, hfirst, Option.bind_some]
    rw [feed_operator hds (by decide)]
    simp only [atSymbol, hsecond]
    exact hfeed
  · rw [hholes, openHoles, List.append_assoc]
    rfl

end Formula

end TypeScribe
