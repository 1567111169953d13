import TypeScribe.Proofs.Resolution.Queries

/-!
# Resolvers that agree

Two resolvers of one unit may have different tables behind them. They agree on a type name if they
find the same under the texts that end in its segments, and the same types of those names in the
unit's package: then the name denotes the same, or fails to denote anything for the same reason.
-/
namespace TypeScribe.Resolver
set_option autoImplicit false

theorem resolveSegments_singleton (r : Resolver) (name : String) (scope : Scope) :
    r.resolveSegments [name] scope = r.resolveSimple name scope := by
  simp only [resolveSegments]
  split
  · next e he => rw [he]
  · next root hroot =>
    rw [hroot]
    rfl

/-- The resolvers give the same answer for every type whose segments are among the names. -/
def AgreeOn (names : String → Bool) (r r' : Resolver) : Prop :=
  ∀ segments scope, (∀ s ∈ segments, names s = true) →
    r'.resolveSegments segments scope = r.resolveSegments segments scope

theorem AgreeOn.resolveSimple {names : String → Bool} {r r' : Resolver} (h : AgreeOn names r r')
    {name : String} (hname : names name = true) (scope : Scope) :
    r'.resolveSimple name scope = r.resolveSimple name scope := by
  rw [← resolveSegments_singleton, ← resolveSegments_singleton]
  exact h [name] scope (List.forall_mem_singleton.mpr hname)

/-- The resolvers belong to one unit and find the same under the texts that end in one of the
names. -/
structure FindsAlikeOn (names : String → Bool) (r r' : Resolver) : Prop where
  packageQualifier : r'.packageQualifier = r.packageQualifier
  imports : r'.imports = r.imports
  lookup : ∀ {name query}, names name = true → EndsIn name query →
    r'.lookup query = r.lookup query
  packageSibling : ∀ {name}, names name = true → r'.packageSibling? name = r.packageSibling? name

namespace FindsAlikeOn

variable {names : String → Bool} {r r' : Resolver} (h : FindsAlikeOn names r r') {name : String}
  (hname : names name = true)

include h

theorem nestedName (scope : Scope) (name : String) :
    r'.nestedName scope name = r.nestedName scope name := by
  rw [Resolver.nestedName, h.packageQualifier, Resolver.nestedName]

include hname

theorem lookupOr {query : String} (hquery : EndsIn name query) (missing : String) :
    r'.lookupOr query missing = r.lookupOr query missing := by
  rw [Resolver.lookupOr, h.lookup hname hquery, Resolver.lookupOr]

theorem imported? (imports : List Import) :
    r'.imported? name imports = r.imported? name imports := by
  induction imports with
  | nil => rfl
  | cons i rest ih =>
    unfold Resolver.imported?
    rw [h.lookup hname (endsIn_dot i.name name), ih]
    split
    · rfl
    · split
      · next hidentifier =>
        have hends := i.endsIn_identifier
        rw [beq_iff_eq.mp hidentifier] at hends
        rw [h.lookupOr hname hends]
      · rfl

theorem resolveSimple (scope : Scope) :
    r'.resolveSimple name scope = r.resolveSimple name scope := by
  unfold Resolver.resolveSimple
  split
  · next inner hinner =>
    obtain ⟨decl, outer, rfl⟩ := exists_of_lexicalScope? hinner
    rw [h.nestedName, h.lookupOr hname (r.endsIn_nestedName decl outer name)]
  · rw [h.imports, h.imported? hname, h.packageSibling hname,
      h.lookupOr hname (endsIn_javaLang name)]

omit hname

theorem agreeOn : AgreeOn names r r' := by
  intro segments scope hsegments
  cases segments with
  | nil => rfl
  | cons first rest =>
    obtain ⟨hfirst, hrest⟩ := List.forall_mem_cons.mp hsegments
    simp only [resolveSegments, h.resolveSimple hfirst]
    cases r.resolveSimple first scope with
    | error e => rfl
    | ok root =>
      rcases List.eq_nil_or_concat' rest with rfl | ⟨before, last, rfl⟩
      · rfl
      · have hlast : names last = true := hrest last (by simp)
        have hlookup := h.lookup hlast (endsIn_nestedUnder root.binaryName before last)
        unfold nestedUnder at hlookup
        simp only [hlookup]

end FindsAlikeOn

/-- The resolvers belong to one unit and find the same. -/
structure FindsAlike (r r' : Resolver) : Prop where
  packageQualifier : r'.packageQualifier = r.packageQualifier
  imports : r'.imports = r.imports
  lookup : ∀ name, r'.lookup name = r.lookup name
  packageSibling : ∀ name, r'.packageSibling? name = r.packageSibling? name

namespace FindsAlike

variable {r r' : Resolver} (h : FindsAlike r r')

include h

theorem agreeOn (names : String → Bool) : AgreeOn names r r' := by
  have hon : FindsAlikeOn names r r' :=
    ⟨h.packageQualifier, h.imports, fun _ _ => h.lookup _, fun _ => h.packageSibling _⟩
  exact hon.agreeOn

theorem resolve (type : ClassType) (scope : Scope) : r'.resolve type scope = r.resolve type scope :=
  h.agreeOn (fun _ => true) type.segments scope fun _ _ => rfl

end FindsAlike

section

variable {u : CompilationUnit} {classPath classPath' : ClassIndex} {name : String}

theorem lookup_ofUnit_congr
    (h : (ClassIndex.ofUnit u).lookup name = none → classPath'.lookup name = classPath.lookup name) :
    (ofUnit u classPath').lookup name = (ofUnit u classPath).lookup name := by
  change ((ClassIndex.ofUnit u).lookup name).or _ = ((ClassIndex.ofUnit u).lookup name).or _
  cases hown : (ClassIndex.ofUnit u).lookup name with
  | some d => rfl
  | none => exact h hown

theorem packageSibling?_ofUnit_congr
    (h : ∀ package, ((ClassIndex.ofUnit u).packageMembers package).find?
        (fun d => d.simpleName == name) = none →
      (classPath'.packageMembers package).find? (fun d => d.simpleName == name) =
        (classPath.packageMembers package).find? fun d => d.simpleName == name) :
    (ofUnit u classPath').packageSibling? name = (ofUnit u classPath).packageSibling? name := by
  have hpackage (classPath : ClassIndex) : (ofUnit u classPath).packageName = u.packageName := rfl
  unfold packageSibling?
  rw [hpackage, hpackage]
  split
  · rfl
  · split
    · rfl
    · next package _ _ =>
      rw [List.find?_append, List.find?_append]
      change (((ClassIndex.ofUnit u).packageMembers package).find? _).or _ =
        (((ClassIndex.ofUnit u).packageMembers package).find? _).or _
      cases hown : ((ClassIndex.ofUnit u).packageMembers package).find?
          fun d => d.simpleName == name with
      | some d => rfl
      | none => exact h package hown

end

end TypeScribe.Resolver
