import TypeScribe.Convert

/-!
# Runs of typesetting

A run writes its pieces one after the other and ends at the first piece that fails. What fails is
either a construct that the configuration refuses or a flaw of the document. The sheet has no say in
it: two sheets that answer each step alike take the same runs.
-/
namespace TypeScribe
set_option autoImplicit false

namespace Sheet

variable {σ τ : Type} {R : σ → τ → Prop}

/-- Both runs end on related sheets, or both fail in the same way. -/
inductive EndAlike (R : σ → τ → Prop) : Except EmitError σ → Except EmitError τ → Prop
  | ok {a : σ} {b : τ} (h : R a b) : EndAlike R (.ok a) (.ok b)
  | error (e : EmitError) : EndAlike R (.error e) (.error e)

theorem EndAlike.exists_ok {run : Except EmitError σ} {b : τ} (h : EndAlike R run (.ok b)) :
    ∃ a, run = .ok a ∧ R a b := by
  cases h with
  | ok hab => exact ⟨_, rfl, hab⟩

theorem EndAlike.eq_error {run : Except EmitError σ} {e : EmitError}
    (h : EndAlike R run (.error e)) : run = .error e := by
  cases h
  rfl

end Sheet

variable {σ : Type} [Sheet σ] {config : Config} {sheet : σ}

theorem typeset_cons_ok {p : Piece} {rest : Doc} {sheet' : σ}
    (h : typeset config sheet (p :: rest) = .ok sheet') :
    ∃ next, typesetPiece config sheet p = .ok next ∧ typeset config next rest = .ok sheet' := by
  rw [typeset] at h
  split at h
  · exact ⟨_, ‹_›, h⟩
  · cases h

theorem typeset_cons_error {p : Piece} {rest : Doc} {e : EmitError}
    (h : typeset config sheet (p :: rest) = .error e) :
    typesetPiece config sheet p = .error e ∨
      ∃ next, typesetPiece config sheet p = .ok next ∧ typeset config next rest = .error e := by
  rw [typeset] at h
  split at h
  · exact .inr ⟨_, ‹_›, h⟩
  · cases h
    exact .inl ‹_›

theorem typeset_append_ok {d e : Doc} {sheet' : σ}
    (h : typeset config sheet (d ++ e) = .ok sheet') :
    ∃ next, typeset config sheet d = .ok next ∧ typeset config next e = .ok sheet' := by
  induction d generalizing sheet with
  | nil => exact ⟨sheet, rfl, h⟩
  | cons p rest ih =>
    obtain ⟨first, hp, hrest⟩ := typeset_cons_ok h
    obtain ⟨next, hnext, he⟩ := ih hrest
    refine ⟨next, ?_, he⟩
    rw [typeset, hp]
    exact hnext

theorem typeset_append (config : Config) (sheet : σ) (d e : Doc) :
    typeset config sheet (d ++ e) =
      (typeset config sheet d).bind fun next => typeset config next e := by
  induction d generalizing sheet with
  | nil => rfl
  | cons p rest ih =>
    rw [List.cons_append, typeset, typeset]
    cases typesetPiece config sheet p with
    | error e => rfl
    | ok next => exact ih next

/-- A construct that does not end the run leaves its marker on the sheet. -/
theorem typesetPiece_unsupported_ok {c : Construct} {sheet' : σ}
    (h : typesetPiece config sheet (.unsupported c) = .ok sheet') :
    sheet' = Sheet.write sheet (config.marker c.reason) := by
  unfold typesetPiece Config.judge at h
  cases hmode : config.failureMode with
  | strict =>
    rw [hmode] at h
    cases h
  | tolerant =>
    rw [hmode] at h
    cases h
    rfl

theorem typesetPiece_malformed {p : Piece} {f : Flaw}
    (h : typesetPiece config sheet p = .error (.malformed f)) : p = .flaw f := by
  cases p with
  | flaw g =>
    cases h
    rfl
  | unsupported c =>
    simp only [typesetPiece] at h
    split at h <;> cases h
  | _ => cases h

/-- A flaw that ends a run stands in the document. -/
theorem flaw_mem_of_malformed {d : Doc} {f : Flaw}
    (h : typeset config sheet d = .error (.malformed f)) : Piece.flaw f ∈ d := by
  induction d generalizing sheet with
  | nil => cases h
  | cons p rest ih =>
    rcases typeset_cons_error h with hp | ⟨next, -, hrest⟩
    · rw [typesetPiece_malformed hp]
      exact List.mem_cons_self
    · exact List.mem_cons_of_mem _ (ih hrest)

namespace Sheet

variable {τ : Type} [Sheet τ] {R : σ → τ → Prop}

/-- What is done to related sheets leaves them related. -/
structure Simulation (R : σ → τ → Prop) : Prop where
  write : ∀ {a b}, R a b → ∀ s, R (write a s) (write b s)
  newline : ∀ {a b}, R a b → R (newline a) (newline b)
  indent : ∀ {a b}, R a b → R (indent a) (indent b)
  outdent : ∀ {a b}, R a b → R (outdent a) (outdent b)

namespace Simulation

variable (h : Simulation R) {a : σ} {b : τ} (hab : R a b)

include h hab

theorem step (p : Piece) : R (Sheet.step a p) (Sheet.step b p) := by
  cases p with
  | text s => exact h.write hab s
  | newline => exact h.newline hab
  | indent => exact h.indent hab
  | outdent => exact h.outdent hab
  | _ => exact hab

theorem put (d : Doc) : R (Sheet.put a d) (Sheet.put b d) := by
  induction d generalizing a b with
  | nil => exact hab
  | cons p rest ih => exact ih (h.step hab p)

theorem typesetPiece (config : Config) (p : Piece) :
    EndAlike R (typesetPiece config a p) (typesetPiece config b p) := by
  cases p with
  | comment c =>
    refine .ok ?_
    split
    · exact h.put hab c.doc
    · exact hab
  | unsupported c =>
    simp only [TypeScribe.typesetPiece]
    cases config.judge c with
    | warn marker => exact .ok (h.write hab marker)
    | fatal reason => exact .error _
  | flaw f => exact .error _
  | moved route names body => exact .ok hab
  | _ => exact .ok (h.step hab _)

/-- Runs on related sheets end alike. -/
theorem typeset (config : Config) (d : Doc) :
    EndAlike R (typeset config a d) (typeset config b d) := by
  induction d generalizing a b with
  | nil => exact .ok hab
  | cons p rest ih =>
    have hpiece := h.typesetPiece hab config p
    rw [TypeScribe.typeset, TypeScribe.typeset]
    generalize TypeScribe.typesetPiece config a p = first at hpiece
    generalize TypeScribe.typesetPiece config b p = second at hpiece
    cases hpiece with
    | ok hnext => exact ih hnext
    | error e => exact .error e

theorem typeset_ok {config : Config} {d : Doc} {a' : σ}
    (hd : TypeScribe.typeset config a d = .ok a') :
    ∃ b', TypeScribe.typeset config b d = .ok b' ∧ R a' b' := by
  have hend := h.typeset hab config d
  rw [hd] at hend
  generalize TypeScribe.typeset config b d = second at hend ⊢
  cases hend with
  | ok hnext => exact ⟨_, rfl, hnext⟩

end Simulation

/-- What is done to a sheet keeps the property. -/
structure Invariant (I : σ → Prop) : Prop where
  write : ∀ {a}, I a → ∀ s, I (write a s)
  newline : ∀ {a}, I a → I (newline a)
  indent : ∀ {a}, I a → I (indent a)
  outdent : ∀ {a}, I a → I (outdent a)

theorem Invariant.typeset {I : σ → Prop} (h : Invariant I) {a a' : σ} (ha : I a)
    {d : Doc} (hd : typeset config a d = .ok a') : I a' := by
  have hsimulation : Simulation fun a (_ : σ) => I a := ⟨h.write, h.newline, h.indent, h.outdent⟩
  obtain ⟨-, -, hnext⟩ := hsimulation.typeset_ok (b := a) ha hd
  exact hnext

end Sheet
end TypeScribe
