import TypeScribe.Proofs.Layout.Writer
import TypeScribe.Samples

/-!
# Strict and tolerant conversion

A strict configuration stops where a tolerant one leaves its first marker, and up to there the two
write the same. What is written later does not take the marker away. So the strict result is the
tolerant one unless a construct is refused, and the construct that is refused is the first about which
the tolerant run asks its configuration.
-/
namespace TypeScribe
set_option autoImplicit false

/-- The text `whole` has `part` in it. -/
def Shows (part whole : String) : Prop := ∃ before after, whole = before ++ part ++ after

/-- The same configuration in strict failure mode. -/
def Config.strictly (config : Config) : Config := { config with failureMode := .strict }

def Piece.construct? : Piece → Option Construct
  | .unsupported c => some c
  | _ => none

/-- The constructs about which a run asks its configuration, in order. -/
def asked (config : Config) (w : Writer) : Doc → List Construct
  | [] => []
  | p :: rest =>
    p.construct?.toList ++
      match typesetPiece config w p with
      | .ok next => asked config next rest
      | .error _ => []

variable {config : Config} {w w' : Writer}

theorem typesetPiece_strictly (w : Writer) {p : Piece} (hp : p.construct? = none) :
    typesetPiece config.strictly w p = typesetPiece config w p := by
  cases p with
  | unsupported c => cases hp
  | comment c =>
    cases hkind : c.kind <;> simp [typesetPiece, Config.prints, Config.strictly, hkind]
  | text s => rfl
  | newline => rfl
  | indent => rfl
  | outdent => rfl
  | flaw f => rfl
  | moved route names body => rfl

theorem typesetPiece_strictly_unsupported (w : Writer) (c : Construct) :
    typesetPiece config.strictly w (.unsupported c) = .error (.unsupported c) := rfl

theorem typesetPiece_tolerant_unsupported (h : config.failureMode = .tolerant) (w : Writer)
    (c : Construct) :
    typesetPiece config w (.unsupported c) = .ok (w.write (config.marker c.reason)) := by
  simp [typesetPiece, Config.judge, h, Sheet.write]

theorem typesetPiece_tolerant_ne (h : config.failureMode = .tolerant) (w : Writer) (p : Piece)
    (c : Construct) : typesetPiece config w p ≠ .error (.unsupported c) := by
  cases p with
  | unsupported d => simp [typesetPiece_tolerant_unsupported h]
  | _ => simp [typesetPiece]

theorem construct?_eq_some {p : Piece} {c : Construct} (h : p.construct? = some c) :
    p = .unsupported c := by
  cases p with
  | unsupported d =>
    cases h
    rfl
  | _ => cases h

theorem typeset_tolerant_ne (h : config.failureMode = .tolerant) (w : Writer) (d : Doc)
    (c : Construct) : typeset config w d ≠ .error (.unsupported c) := by
  induction d generalizing w with
  | nil => simp [typeset]
  | cons p rest ih =>
    intro herror
    rcases typeset_cons_error herror with herror | ⟨next, -, herror⟩
    · exact typesetPiece_tolerant_ne h w p c herror
    · exact ih next herror

theorem Writer.shows_of_typeset {text : String} (htext : text ≠ "") {d : Doc}
    (h : typeset config (w.write text) d = .ok w') : Shows text w'.written := by
  obtain ⟨added, hadded⟩ := (Extends.of_typeset h).written
  exact ⟨w.written ++ w.pad, added, by rw [hadded, w.written_write htext]⟩

theorem typeset_of_strictly_ok {d : Doc}
    (h : typeset config.strictly w d = .ok w') : typeset config w d = .ok w' := by
  induction d generalizing w with
  | nil => exact h
  | cons p rest ih =>
    obtain ⟨next, hp, hrest⟩ := typeset_cons_ok h
    cases hc : p.construct? with
    | none =>
      rw [typesetPiece_strictly w hc] at hp
      rw [typeset, hp]
      exact ih hrest
    | some c =>
      rw [construct?_eq_some hc, typesetPiece_strictly_unsupported] at hp
      cases hp

theorem typeset_of_strictly_malformed {f : Flaw} {d : Doc}
    (h : typeset config.strictly w d = .error (.malformed f)) :
    typeset config w d = .error (.malformed f) := by
  induction d generalizing w with
  | nil => cases h
  | cons p rest ih =>
    cases hc : p.construct? with
    | none =>
      rcases typeset_cons_error h with hp | ⟨next, hp, hrest⟩
      · rw [typesetPiece_strictly w hc] at hp
        rw [typeset, hp]
      · rw [typesetPiece_strictly w hc] at hp
        rw [typeset, hp]
        exact ih hrest
    | some c =>
      rw [construct?_eq_some hc, typeset, typesetPiece_strictly_unsupported] at h
      cases h

/-- Where the strict run gives up, the tolerant run asks for the first time and leaves a marker. -/
theorem typeset_of_strictly_unsupported (h : config.failureMode = .tolerant) {c : Construct}
    {d : Doc} (hd : typeset config.strictly w d = .error (.unsupported c)) :
    (asked config w d).head? = some c ∧
      ∀ w', typeset config w d = .ok w' → Shows (config.marker c.reason) w'.written := by
  induction d generalizing w with
  | nil => cases hd
  | cons p rest ih =>
    cases hc : p.construct? with
    | none =>
      rcases typeset_cons_error hd with hp | ⟨next, hp, hrest⟩
      · rw [typesetPiece_strictly w hc] at hp
        exact absurd hp (typesetPiece_tolerant_ne h w p c)
      · rw [typesetPiece_strictly w hc] at hp
        simpa [asked, typeset, hc, hp] using ih hrest
    | some c' =>
      obtain rfl := construct?_eq_some hc
      rw [typeset, typesetPiece_strictly_unsupported] at hd
      cases hd
      refine ⟨by simp [asked, Piece.construct?], ?_⟩
      intro w' hw
      rw [typeset, typesetPiece_tolerant_unsupported h] at hw
      exact Writer.shows_of_typeset (by simp [Config.marker]) hw

/-- Strict conversion is tolerant conversion cut off at the first construct that is refused. -/
theorem convert_strictly_cuts_tolerant (u : CompilationUnit) (config : Config)
    (classPath : ClassIndex) (h : config.failureMode = .tolerant) :
    (∀ c, convert u config classPath ≠ .error (.unsupported c)) ∧
    (∀ s, convert u config.strictly classPath = .ok s → convert u config classPath = .ok s) ∧
    (∀ f, convert u config.strictly classPath = .error (.malformed f) →
      convert u config classPath = .error (.malformed f)) ∧
    (∀ c, convert u config.strictly classPath = .error (.unsupported c) →
      (asked config config.writer (u.script config.wrapPackageNamespace classPath)).head? = some c ∧
      ((∃ f, convert u config classPath = .error (.malformed f)) ∨
        ∃ s, convert u config classPath = .ok s ∧
          Shows ("/* " ++ config.notSupportedText ++ " : " ++ c.reason ++ " */") s)) := by
  refine ⟨?_, ?_, ?_, ?_⟩
  · intro c hc
    exact typeset_tolerant_ne h _ _ c (convert_error.mp hc)
  · intro s hs
    obtain ⟨w, hw, rfl⟩ := convert_ok hs
    exact congrArg (Except.map Writer.written) (typeset_of_strictly_ok hw)
  · intro f hf
    exact convert_error.mpr (typeset_of_strictly_malformed (convert_error.mp hf))
  · intro c hc
    obtain ⟨hasked, hshows⟩ := typeset_of_strictly_unsupported h (convert_error.mp hc)
    refine ⟨hasked, ?_⟩
    cases hresult : convert u config classPath with
    | ok s =>
      obtain ⟨w, hw, rfl⟩ := convert_ok hresult
      exact .inr ⟨_, rfl, hshows w hw⟩
    | error e =>
      cases e with
      | malformed f => exact .inl ⟨f, rfl⟩
      | unsupported c => exact absurd (convert_error.mp hresult) (typeset_tolerant_ne h _ _ c)

/-- A class whose nested interface has a method that throws, which is met in a module only. -/
def Samples.throwingInterface : CompilationUnit :=
  inPackage "demo" (withMembers (.ofClass "Root")
    [.nestedType (withMembers (.ofInterface "I")
      [Member.throwing (.ofDotted "IOException") (abstractInt "f")])])

theorem throwingInterface_cut :
    convert Samples.throwingInterface (Config.strictly {}) .empty =
        .error (.unsupported .thrownExceptions) ∧
      (asked {} (Config.writer {}) (Samples.throwingInterface.script true .empty)).head? =
        some .thrownExceptions ∧
      ((∃ f, convert Samples.throwingInterface {} .empty = .error (.malformed f)) ∨
        ∃ s, convert Samples.throwingInterface {} .empty = .ok s ∧
          Shows "/* java2ts not support : not support thrown exception here */" s) := by
  have hstrict : convert Samples.throwingInterface (Config.strictly {}) .empty =
      .error (.unsupported .thrownExceptions) := rfl
  exact ⟨hstrict, (convert_strictly_cuts_tolerant Samples.throwingInterface {} .empty rfl).2.2.2
    .thrownExceptions hstrict⟩

end TypeScribe
