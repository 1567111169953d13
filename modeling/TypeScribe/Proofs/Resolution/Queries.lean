import TypeScribe.Proofs.Resolution.Endings

/-!
# What a resolver looks up

To resolve a simple name, a resolver looks up texts that end in the name: below an enclosing
declaration, behind the name of an import on demand, as an imported name, or in `java.lang`. Only a
type of the unit's own package is found in another way. The further segments of a scoped name are
looked up below what the first one denotes.
-/
namespace TypeScribe
set_option autoImplicit false

theorem Import.endsIn_identifier (i : Import) : EndsIn i.identifier i.name := by
  obtain ⟨-, qualifier, hqualifier, hname⟩ := Text.lastSegment_cases isDot i.name
  exact ⟨qualifier, fun c hc => .inl (beq_iff_eq.mp (hqualifier c hc)), hname⟩

/-- The binary name of a type nested in another, one inside the next. -/
def nestedUnder (binaryName : String) (names : List String) : String :=
  names.foldl (fun outer name => outer.push nestingSign ++ name) binaryName

theorem nestedUnder_concat (binaryName : String) (names : List String) (last : String) :
    nestedUnder binaryName (names ++ [last]) =
      (nestedUnder binaryName names).push nestingSign ++ last :=
  List.foldl_concat ..

namespace Resolver

variable {r : Resolver} {name : String} {scope : Scope} {d : TypeDescriptor}

theorem endsIn_nestedName (r : Resolver) (decl : TypeDecl) (outer : Scope) (name : String) :
    EndsIn name (r.nestedName (decl :: outer) name) :=
  endsIn_behind nestingSign rfl (qualifierOf r.packageQualifier outer ++ decl.name) name

theorem endsIn_dot (before name : String) : EndsIn name (before ++ "." ++ name) :=
  endsIn_behind '.' rfl before name

theorem endsIn_javaLang (name : String) : EndsIn name ("java.lang." ++ name) :=
  endsIn_dot "java.lang" name

theorem endsIn_nestedUnder (binaryName : String) (names : List String) (last : String) :
    EndsIn last (nestedUnder binaryName (names ++ [last])) := by
  rw [nestedUnder_concat]
  exact endsIn_behind nestingSign rfl _ last

theorem exists_of_lexicalScope? {inner : Scope} (h : lexicalScope? name scope = some inner) :
    ∃ decl outer, inner = decl :: outer := by
  induction scope with
  | nil => cases h
  | cons decl outer ih =>
    unfold lexicalScope? at h
    split at h
    · cases h
      exact ⟨decl, outer, rfl⟩
    · exact ih h

theorem resolveSimple_of_lexicalScope {inner : Scope} (hscope : lexicalScope? name scope = some inner)
    (hlookup : r.lookup (r.nestedName inner name) = some d) : r.resolveSimple name scope = .ok d := by
  simp only [resolveSimple, hscope, lookupOr, hlookup]

theorem lookup_of_lookupOr {missing : String} (h : r.lookupOr name missing = .ok d) :
    r.lookup name = some d := by
  unfold lookupOr at h
  split at h
  · next hlookup =>
    cases h
    exact hlookup
  · cases h

theorem imported?_eq_ok {imports : List Import} (h : r.imported? name imports = some (.ok d)) :
    ∃ query, EndsIn name query ∧ r.lookup query = some d := by
  induction imports with
  | nil => cases h
  | cons i rest ih =>
    unfold imported? at h
    split at h
    · split at h
      · next hlookup =>
        cases h
        exact ⟨_, endsIn_dot i.name name, hlookup⟩
      · exact ih h
    · split at h
      · next hidentifier =>
        have hends := i.endsIn_identifier
        rw [beq_iff_eq.mp hidentifier] at hends
        exact ⟨i.name, hends, lookup_of_lookupOr (Option.some.inj h)⟩
      · exact ih h

/-- A simple name denotes a type found under a text that ends in the name, or a type of the unit's
own package. -/
theorem resolveSimple_eq_ok (h : r.resolveSimple name scope = .ok d) :
    (∃ query, EndsIn name query ∧ r.lookup query = some d) ∨ r.packageSibling? name = some d := by
  unfold resolveSimple at h
  split at h
  · next inner hinner =>
    obtain ⟨decl, outer, rfl⟩ := exists_of_lexicalScope? hinner
    exact .inl ⟨_, r.endsIn_nestedName decl outer name, lookup_of_lookupOr h⟩
  · split at h
    · next himported =>
      rw [h] at himported
      exact .inl (imported?_eq_ok himported)
    · split at h
      · next hsibling =>
        cases h
        exact .inr hsibling
      · exact .inl ⟨_, endsIn_javaLang name, lookup_of_lookupOr h⟩

/-- A scoped name denotes what its first segment denotes, or a type nested in it. -/
theorem resolveSegments_eq_ok {first : String} {rest : List String}
    (h : r.resolveSegments (first :: rest) scope = .ok d) :
    ∃ root, r.resolveSimple first scope = .ok root ∧
      (d = root ∧ rest = [] ∨ r.lookup (nestedUnder root.binaryName rest) = some d) := by
  simp only [resolveSegments] at h
  split at h
  · cases h
  · next root hroot =>
    refine ⟨root, hroot, ?_⟩
    split at h
    · next hempty =>
      cases h
      exact .inl ⟨rfl, List.isEmpty_iff.mp hempty⟩
    · split at h
      · next hlookup =>
        cases h
        exact .inr hlookup
      · cases h

end Resolver
end TypeScribe
