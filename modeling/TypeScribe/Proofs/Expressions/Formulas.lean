import TypeScribe.Proofs.Expressions.Reader

/-!
# Printed formulas

What is printed for a formula is read back as the formula. Only a run of equal signs in front of an
operand has lost how it was grouped, since no blank stands between an operator and its operand: `- -x`
and `--x` are printed alike.
-/
namespace TypeScribe
set_option autoImplicit false

/-- The formula with single signs only: `++` and `--` in front of an operand stand for two of them. -/
def Node.spread : {c : Category} → Node c → Node c
  | _, .unary .prefixIncrement operand => .unary .plus (.unary .plus operand.spread)
  | _, .unary .prefixDecrement operand => .unary .minus (.unary .minus operand.spread)
  | _, .unary op operand => .unary op operand.spread
  | _, .binary left op right => .binary left.spread op right.spread
  | _, .conditional condition consequent alternative =>
    .conditional condition.spread consequent.spread alternative.spread
  | _, .enclosed inner => .enclosed inner.spread
  | _, n => n

/-- The sign that an operator in front of its operand is made of. -/
def UnaryOp.sign? : UnaryOp → Option Char
  | .plus | .prefixIncrement => some '+'
  | .minus | .prefixDecrement => some '-'
  | _ => none

/-- The sign that the expression begins with, if it is one in front of an operand. -/
def Node.sign? : {c : Category} → Node c → Option Char
  | _, .unary op _ => op.sign?
  | _, _ => none

/-- Whether a sign stands directly in front of the same sign. -/
def Node.repeatsSign : {c : Category} → Node c → Bool
  | _, .unary op operand => op.sign?.isSome && op.sign? == operand.sign?
  | _, _ => false

theorem Node.precedence_spread {c : Category} (n : Node c) : n.spread.precedence = n.precedence := by
  cases n with
  | unary op operand => cases op <;> rfl
  | _ => rfl

theorem IsFormula.spread {e : Expr} (h : IsFormula e) : IsFormula e.spread := by
  induction h with
  | name h => exact .name h
  | number h => exact .number h
  | enclosed _ ih => exact .enclosed ih
  | @unary op operand _ hle ih =>
    rw [← operand.precedence_spread] at hle
    cases op with
    | prefixIncrement => exact .unary (.unary ih hle) (Nat.le_refl 12)
    | prefixDecrement => exact .unary (.unary ih hle) (Nat.le_refl 12)
    | _ => exact .unary ih hle
  | @binary left right op _ _ hle hlt ihLeft ihRight =>
    rw [← left.precedence_spread] at hle
    rw [← right.precedence_spread] at hlt
    exact .binary ihLeft ihRight hle hlt
  | @conditional condition _ _ _ _ _ hlt ihCondition ihConsequent ihAlternative =>
    rw [← condition.precedence_spread] at hlt
    exact .conditional ihCondition ihConsequent ihAlternative hlt

section

variable (d e f : Doc)

theorem Doc.chars_between (before after : String) :
    (between before after d).chars = before.toList ++ d.chars ++ after.toList := by
  simp [between]

theorem Script.chars_unary (op : UnaryOp) :
    (unary op d).chars =
      if op.followsOperand then d.chars ++ op.symbol.toList else op.symbol.toList ++ d.chars := by
  unfold unary
  split <;> simp

theorem Script.chars_infixed (symbol : String) :
    (infixed d symbol e).chars = d.chars ++ (' ' :: symbol.toList ++ [' '] ++ e.chars) := by
  simp [infixed]

theorem Script.chars_conditional :
    (conditional d e f).chars =
      d.chars ++ (' ' :: ['?'] ++ [' '] ++ (e.chars ++ (' ' :: [':'] ++ [' '] ++ f.chars))) := by
  simp [conditional]

end

section

variable (cx : Context)

theorem chars_enclosed (inner : Expr) :
    Doc.chars (Node.script (.enclosed inner) cx) =
      '(' :: Doc.chars (inner.script (cx.child 0)) ++ [')'] :=
  Doc.chars_between _ "(" ")"

theorem chars_unary (op : UnaryOp) (operand : Expr) :
    Doc.chars (Node.script (.unary op operand) cx) =
      if op.followsOperand then Doc.chars (operand.script (cx.child 0)) ++ op.symbol.toList
      else op.symbol.toList ++ Doc.chars (operand.script (cx.child 0)) :=
  Script.chars_unary _ op

theorem chars_binary (left : Expr) (op : BinaryOp) (right : Expr) :
    Doc.chars (Node.script (.binary left op right) cx) =
      Doc.chars (left.script (cx.child 0)) ++
        (' ' :: op.scriptSymbol.toList ++ [' '] ++ Doc.chars (right.script (cx.child 1))) :=
  Script.chars_infixed _ _ op.scriptSymbol

theorem chars_conditional (condition consequent alternative : Expr) :
    Doc.chars (Node.script (.conditional condition consequent alternative) cx) =
      Doc.chars (condition.script (cx.child 0)) ++
        (' ' :: ['?'] ++ [' '] ++ (Doc.chars (consequent.script (cx.child 1)) ++
          (' ' :: [':'] ++ [' '] ++ Doc.chars (alternative.script (cx.child 2))))) :=
  Script.chars_conditional _ _ _

theorem chars_name {name : String} (h : isIdentifier name = true) :
    Doc.chars (Node.script (.nameExpr name) cx) = name.toList := by
  have hreserved : reservedWords.contains name = false := by
    simpa using (Bool.and_eq_true_iff.mp h).2
  change Doc.chars (Doc.text (escapeIdentifier name)) = _
  rw [Doc.chars_text, escapeIdentifier, hreserved]
  rfl

end

namespace IsFormula

variable {e f : Expr}

theorem isPlain (h : IsFormula e) (cx : Context) : Doc.IsPlain (e.script cx) := by
  induction h generalizing cx with
  | name _ => exact Doc.isPlain_text _
  | number _ => exact Doc.isPlain_text _
  | enclosed _ ih => exact ((Doc.isPlain_text _).append (ih _)).append (Doc.isPlain_text _)
  | @unary op operand _ _ ih =>
    change Doc.IsPlain (Script.unary op _)
    unfold Script.unary
    split
    · exact (ih _).append (Doc.isPlain_text _)
    · exact (Doc.isPlain_text _).append (ih _)
  | binary _ _ _ _ ihLeft ihRight =>
    exact ((((ihLeft _).append (Doc.isPlain_text _)).append (Doc.isPlain_text _)).append
      (Doc.isPlain_text _)).append (ihRight _)
  | conditional _ _ _ _ ihCondition ihConsequent ihAlternative =>
    exact ((((ihCondition _).append (Doc.isPlain_text _)).append (ihConsequent _)).append
      (Doc.isPlain_text _)).append (ihAlternative _)

/-- Two single signs are printed as the operator that they stand for. -/
theorem chars_spread (h : IsFormula e) (cx cx' : Context) :
    Doc.chars (e.spread.script cx') = Doc.chars (e.script cx) := by
  induction h generalizing cx cx' with
  | name _ => rfl
  | number _ => rfl
  | enclosed _ ih => rw [Node.spread, chars_enclosed, chars_enclosed, ih]
  | @unary op operand _ _ ih =>
    have hoperand (cx' : Context) := ih (cx.child 0) cx'
    cases op <;> simp only [Node.spread, chars_unary, hoperand] <;> rfl
  | binary _ _ _ _ ihLeft ihRight =>
    rw [Node.spread, chars_binary, chars_binary, ihLeft, ihRight]
  | conditional _ _ _ _ ihCondition ihConsequent ihAlternative =>
    rw [Node.spread, chars_conditional, chars_conditional, ihCondition, ihConsequent,
      ihAlternative]

open Formula Formula.Reader

theorem reads_script (h : IsFormula e) (cx : Context) {hs : List Hole}
    (hfits : ∀ hole ∈ hs.head?, hole.Admits e) : Reads (Doc.chars (e.script cx)) hs e.spread := by
  induction h generalizing cx hs with
  | name h =>
    rw [chars_name cx h]
    exact reads_name h hs
  | @number value h =>
    change Reads (Doc.chars (Doc.text value)) hs _
    rw [Doc.chars_text]
    exact reads_number h hs
  | enclosed h ih =>
    rw [chars_enclosed]
    refine reads_enclosed h.spread (ih (cx.child 0) ?_)
    rintro hole ⟨⟩
    trivial
  | @unary op operand h hle ih =>
    have hinside (sign : UnaryOp) (hsign : sign.precedence = 12) (hs : List Hole) :
        Reads (Doc.chars (operand.script (cx.child 0))) (.prefixed sign :: hs) operand.spread := by
      refine ih (cx.child 0) ?_
      rintro hole ⟨⟩
      exact Nat.le_trans (Nat.le_of_eq hsign) (Nat.le_trans op.le_precedence hle)
    have hbefore : ∀ hole ∈ hs.head?, hole.Admits operand :=
      fun hole hmem => (hfits hole hmem).mono hle
    have hstrong (hop : op.precedence = 13) : 13 ≤ operand.spread.precedence := by
      rw [operand.precedence_spread, ← hop]
      exact hle
    rw [chars_unary]
    cases op with
    | plus => exact reads_prefixed rfl (hinside .plus rfl hs)
    | minus => exact reads_prefixed rfl (hinside .minus rfl hs)
    | logicalComplement => exact reads_prefixed rfl (hinside .logicalComplement rfl hs)
    | bitwiseComplement => exact reads_prefixed rfl (hinside .bitwiseComplement rfl hs)
    | prefixIncrement => exact reads_prefixed rfl (reads_prefixed rfl (hinside .plus rfl _))
    | prefixDecrement => exact reads_prefixed rfl (reads_prefixed rfl (hinside .minus rfl _))
    | postfixIncrement => exact reads_postfixed rfl (hstrong rfl) (ih _ hbefore)
    | postfixDecrement => exact reads_postfixed rfl (hstrong rfl) (ih _ hbefore)
  | @binary left right op hleft hright hle hlt ihLeft ihRight =>
    have hfitsLeft : ∀ hole ∈ hs.head?, hole.Admits left :=
      fun hole hmem => (hfits hole hmem).mono hle
    have hstops := stops_of_admits hfits (Nat.le_refl _) op.one_lt_precedence op.precedence_lt
    rw [chars_binary]
    refine reads_binary hleft.spread ?_ hstops (ihLeft _ hfitsLeft) (ihRight _ ?_)
    · rwa [Node.precedence_spread]
    · rintro hole ⟨⟩
      exact hlt
  | @conditional condition consequent alternative hcondition hconsequent halternative hlt ihCondition
      ihConsequent ihAlternative =>
    have hfitsCondition : ∀ hole ∈ hs.head?, hole.Admits condition :=
      fun hole hmem => (hfits hole hmem).mono (Nat.le_of_lt hlt)
    have hstops : Stops 2 hs :=
      stops_of_admits hfits (Nat.le_succ 1) (Nat.lt_succ_self 1) (of_decide_eq_true rfl)
    rw [chars_conditional]
    refine reads_conditional hcondition.spread hconsequent.spread ?_ hstops
      (ihCondition _ hfitsCondition) (ihConsequent _ ?_) (ihAlternative _ ?_)
    · rwa [Node.precedence_spread]
    · rintro hole ⟨⟩
      trivial
    · rintro hole ⟨⟩
      trivial

/-- What is printed for a formula is read as the formula, with every sign by itself. -/
theorem read?_chars (h : IsFormula e) (cx : Context) :
    read? (Doc.chars (e.script cx)) = some e.spread := by
  have hread : Reads (Doc.chars (e.script cx)) [] e.spread :=
    h.reads_script cx fun hole hmem => nomatch hmem
  obtain ⟨r, hfeed, hbehind, hholes⟩ := hread
  rw [read?, hfeed, Option.bind_some, hbehind.result?_eq, hholes, atEnd,
    fillFrom_openHoles h.spread e.spread.precedence_pos]
  rfl

theorem chars_eq_iff (he : IsFormula e) (hf : IsFormula f) (cx cx' : Context) :
    Doc.chars (e.script cx) = Doc.chars (f.script cx') ↔ e.spread = f.spread := by
  constructor
  · intro h
    have hread := he.read?_chars cx
    rw [h, hf.read?_chars cx'] at hread
    exact (Option.some.inj hread).symm
  · intro h
    rw [← he.chars_spread cx cx, h, hf.chars_spread cx' cx]

end IsFormula

theorem Node.repeatsSign_of_spread {operand inner : Expr} {op : UnaryOp}
    (hop : op = .plus ∨ op = .minus) (h : operand.spread = .unary op inner) :
    Node.repeatsSign (.unary op operand) = true := by
  cases operand with
  | unary op' operand' => rcases hop with rfl | rfl <;> cases op' <;> first | rfl | cases h
  | _ => cases h

theorem Node.unary_inj_of_spread {op op' : UnaryOp} {operand operand' : Expr}
    (hsigns : Node.repeatsSign (.unary op operand) = false)
    (hsigns' : Node.repeatsSign (.unary op' operand') = false)
    (h : Node.spread (.unary op operand) = Node.spread (.unary op' operand')) :
    op = op' ∧ operand.spread = operand'.spread := by
  have hsingle {sign : UnaryOp} {x y : Expr} (hsign : sign = .plus ∨ sign = .minus)
      (hx : Node.repeatsSign (.unary sign x) = false) : x.spread ≠ .unary sign y := by
    intro hspread
    rw [repeatsSign_of_spread hsign hspread] at hx
    cases hx
  cases op <;> cases op' <;> first
    | exact ⟨rfl, (Node.unary.inj h).2⟩
    | exact ⟨rfl, (Node.unary.inj (Node.unary.inj h).2).2⟩
    | exact absurd (Node.unary.inj h).2 (hsingle (.inl rfl) hsigns)
    | exact absurd (Node.unary.inj h).2 (hsingle (.inr rfl) hsigns)
    | exact absurd (Node.unary.inj h).2.symm (hsingle (.inl rfl) hsigns')
    | exact absurd (Node.unary.inj h).2.symm (hsingle (.inr rfl) hsigns')
    | cases h

theorem Node.spread_injective {e f : Expr} (he : IsFormula e) (hf : IsFormula f)
    (hesigns : e.any Node.repeatsSign = false) (hfsigns : f.any Node.repeatsSign = false)
    (h : e.spread = f.spread) : e = f := by
  induction he generalizing f with
  | name _ =>
    cases hf with
    | name _ => exact h
    | @unary op operand _ _ => cases op <;> cases h
    | _ => cases h
  | number _ =>
    cases hf with
    | number _ => exact h
    | @unary op operand _ _ => cases op <;> cases h
    | _ => cases h
  | enclosed _ ih =>
    cases hf with
    | enclosed hinner =>
      exact congrArg Node.enclosed (ih hinner (Lacks.right hesigns) (Lacks.right hfsigns)
        (Node.enclosed.inj h))
    | @unary op operand _ _ => cases op <;> cases h
    | _ => cases h
  | @unary op operand _ _ ih =>
    cases hf with
    | @unary op' operand' hoperand _ =>
      obtain ⟨rfl, hspread⟩ := unary_inj_of_spread
        (eq_false_of_lacks (p := Node.repeatsSign) hesigns)
        (eq_false_of_lacks (p := Node.repeatsSign) hfsigns) h
      rw [ih hoperand (Lacks.right hesigns) (Lacks.right hfsigns) hspread]
    | _ => cases op <;> cases h
  | @binary left right op _ _ _ _ ihLeft ihRight =>
    cases hf with
    | binary hleft hright _ _ =>
      obtain ⟨hl, rfl, hr⟩ := Node.binary.inj h
      rw [ihLeft hleft (Lacks.right (Lacks.left hesigns)) (Lacks.right (Lacks.left hfsigns)) hl,
        ihRight hright (Lacks.right hesigns) (Lacks.right hfsigns) hr]
    | @unary op operand _ _ => cases op <;> cases h
    | _ => cases h
  | conditional _ _ _ _ ihCondition ihConsequent ihAlternative =>
    cases hf with
    | conditional hcondition hconsequent halternative _ =>
      obtain ⟨hc, ht, ha⟩ := Node.conditional.inj h
      rw [ihCondition hcondition (Lacks.right (Lacks.left (Lacks.left hesigns)))
          (Lacks.right (Lacks.left (Lacks.left hfsigns))) hc,
        ihConsequent hconsequent (Lacks.right (Lacks.left hesigns))
          (Lacks.right (Lacks.left hfsigns)) ht,
        ihAlternative halternative (Lacks.right hesigns) (Lacks.right hfsigns) ha]
    | @unary op operand _ _ => cases op <;> cases h
    | _ => cases h

/-- Two formulas are printed alike if and only if they differ in nothing but the grouping of equal signs
in front of an operand. Where no sign stands in front of the same sign, a formula is known by its
text. -/
theorem IsFormula.printed_alike_iff {e f : Expr} (he : IsFormula e) (hf : IsFormula f)
    (cx cx' : Context) (config : Config) (level : Nat) :
    ∃ s t, Doc.textAt config level (e.script cx) = .ok s ∧
      Doc.textAt config level (f.script cx') = .ok t ∧
      (s = t ↔ e.spread = f.spread) ∧
      (e.any Node.repeatsSign = false → f.any Node.repeatsSign = false → s = t → e = f) := by
  have htexts := (he.isPlain cx).textAt_eq_iff (hf.isPlain cx') config level
  rw [he.chars_eq_iff hf] at htexts
  refine ⟨_, _, (he.isPlain cx).textAt_eq config level, (hf.isPlain cx').textAt_eq config level, ?_⟩
  rw [(he.isPlain cx).textAt_eq, (hf.isPlain cx').textAt_eq, Except.ok.injEq] at htexts
  exact ⟨htexts, fun hesigns hfsigns h =>
    Node.spread_injective he hf hesigns hfsigns (htexts.mp h)⟩

/-- `- -x` is printed as `--x` is, and `a - b - c` otherwise than `a - (b - c)`. -/
theorem negations_printed_alike :
    (∃ e f : Expr, IsFormula e ∧ IsFormula f ∧ e ≠ f ∧ ∀ cx config,
      ∃ s, Doc.textAt config 0 (e.script cx) = .ok s ∧ Doc.textAt config 0 (f.script cx) = .ok s) ∧
    ∃ e f : Expr, IsFormula e ∧ IsFormula f ∧ ∀ cx config, ∃ s t,
      Doc.textAt config 0 (e.script cx) = .ok s ∧ Doc.textAt config 0 (f.script cx) = .ok t ∧
      s ≠ t := by
  constructor
  · have he : IsFormula (.unary .minus (.unary .minus (.nameExpr "x"))) :=
      .unary (.unary (.name (by decide)) (by decide)) (by decide)
    have hf : IsFormula (.unary .prefixDecrement (.nameExpr "x")) :=
      .unary (.name (by decide)) (by decide)
    refine ⟨_, _, he, hf, nofun, fun cx config => ?_⟩
    obtain ⟨s, t, hs, ht, hiff, -⟩ := he.printed_alike_iff hf cx cx config 0
    exact ⟨s, hs, hiff.mpr rfl ▸ ht⟩
  · have ha : IsFormula (.nameExpr "a") := .name (by decide)
    have hb : IsFormula (.nameExpr "b") := .name (by decide)
    have hc : IsFormula (.nameExpr "c") := .name (by decide)
    have he : IsFormula (.binary (.binary (.nameExpr "a") .minus (.nameExpr "b")) .minus
        (.nameExpr "c")) := .binary (.binary ha hb (by decide) (by decide)) hc (by decide) (by decide)
    have hf : IsFormula (.binary (.nameExpr "a") .minus
        (.enclosed (.binary (.nameExpr "b") .minus (.nameExpr "c")))) :=
      .binary ha (.enclosed (.binary hb hc (by decide) (by decide))) (by decide) (by decide)
    refine ⟨_, _, he, hf, fun cx config => ?_⟩
    obtain ⟨s, t, hs, ht, -, hinj⟩ := he.printed_alike_iff hf cx cx config 0
    refine ⟨s, t, hs, ht, fun heq => ?_⟩
    cases hinj rfl rfl heq

end TypeScribe
