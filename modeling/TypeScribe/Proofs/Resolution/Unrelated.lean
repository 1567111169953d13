import TypeScribe.Proofs.ClassIndex.Layers

/-!
# Types that a unit does not name

A new type on the class path is found under its binary name and its dotted name, and both end in its
last segment. A resolver looks up only what ends in a name of the unit. So a type whose last segment
and simple name are no names of the unit is not found, nor does it hide another type from the unit.
-/
namespace TypeScribe
set_option autoImplicit false
open TypeDescriptor

namespace ClassIndex

variable {d : TypeDescriptor} {name : String}

theorem lookup_insert_of_ne (h : IndexHistory) (hbinary : d.binaryName ≠ name)
    (hdotted : d.isNestedAs name = false) :
    (h.index.insert d).lookup name = h.index.lookup name := by
  have hnamed : last? (isNamed name) [d] = none := by
    simpa [last?, isNamed] using hbinary
  have hnested : last? (isNestedAs name) [d] = none := by
    simpa [last?] using hdotted
  have hinsert : h.index.insert d = ofList (h.inserted ++ [d]) :=
    (IndexHistory.insert h d).index_eq_ofList
  rw [hinsert, lookup_ofList, last?_append, last?_append, hnamed, hnested, Option.none_or,
    Option.none_or, ← lookup_ofList, ← h.index_eq_ofList]

theorem find?_place_of_not {test : TypeDescriptor → Bool} {types : List TypeDescriptor}
    (hnew : ∀ e ∈ types, e.binaryName ≠ d.binaryName) (htest : test d = false) :
    (place d types).find? test = types.find? test := by
  induction types with
  | nil => simp [place, htest]
  | cons t rest ih =>
    obtain ⟨ht, hrest⟩ := List.forall_mem_cons.mp hnew
    unfold place
    split
    · rw [List.find?_cons, htest]
    · split
      · next _ heq => exact absurd heq.symm ht
      · rw [List.find?_cons, List.find?_cons, ih hrest]

theorem find?_packageMembers_insert {index : ClassIndex}
    (hnew : ∀ e ∈ index.types, e.binaryName ≠ d.binaryName) (hname : d.simpleName ≠ name)
    (package : String) :
    ((index.insert d).packageMembers package).find? (fun e => e.simpleName == name) =
      (index.packageMembers package).find? fun e => e.simpleName == name := by
  have htest : isMember package name d = false := by
    rw [isMember, beq_eq_false_iff_ne.mpr hname, Bool.and_false]
  rw [find?_packageMembers, find?_packageMembers]
  exact find?_place_of_not hnew htest

end ClassIndex

/-- The name is plain and the descriptor does not have it, neither as its simple name nor as its last
segment. -/
def TypeDescriptor.IsUnrelated (d : TypeDescriptor) (name : String) : Prop :=
  IsPlainName name ∧ name ≠ d.simpleName ∧ name ≠ lastName d.binaryName

instance (d : TypeDescriptor) (name : String) : Decidable (d.IsUnrelated name) :=
  inferInstanceAs (Decidable (_ ∧ _))

namespace TypeDescriptor.IsUnrelated

variable {d : TypeDescriptor} {name query : String} (h : d.IsUnrelated name)
  (hquery : EndsIn name query)

include h hquery

theorem binaryName_ne : d.binaryName ≠ query := by
  rintro rfl
  exact h.2.2 (hquery.lastName_eq h.1).symm

theorem isNestedAs_eq_false : d.isNestedAs query = false := by
  rw [Bool.eq_false_iff, ne_eq, isNestedAs_iff]
  rintro ⟨-, rfl⟩
  have hlast := d.lastName_qualifiedName
  rw [hquery.lastName_eq h.1] at hlast
  exact h.2.2 hlast

end TypeDescriptor.IsUnrelated

/-- A new type on the class path is of no account for the names that it is unrelated to. -/
theorem Resolver.findsAlikeOn_insert (u : CompilationUnit) (h : IndexHistory) {d : TypeDescriptor}
    (hnew : ∀ e ∈ h.index.types, e.binaryName ≠ d.binaryName) :
    FindsAlikeOn (fun name => decide (d.IsUnrelated name)) (.ofUnit u h.index)
      (.ofUnit u (h.index.insert d)) where
  packageQualifier := rfl
  imports := rfl
  lookup := by
    intro name query hname hquery
    have hunrelated := of_decide_eq_true hname
    apply lookup_ofUnit_congr
    intro _
    exact ClassIndex.lookup_insert_of_ne h (hunrelated.binaryName_ne hquery)
      (hunrelated.isNestedAs_eq_false hquery)
  packageSibling := by
    intro name hname
    have hunrelated := of_decide_eq_true hname
    apply packageSibling?_ofUnit_congr
    intro package _
    exact ClassIndex.find?_packageMembers_insert hnew hunrelated.2.1.symm package

/-- Every class type in the unit, scopes included, has a name that passes the test. -/
def CompilationUnit.NamesTypes (u : CompilationUnit) (test : String → Bool) : Prop :=
  (∀ a ∈ u.packageAnnotations, a.any (Node.isForeign test) = false) ∧
    ∀ decl ∈ u.types, decl.any (Node.isForeign test) = false

instance (u : CompilationUnit) (test : String → Bool) : Decidable (u.NamesTypes test) :=
  inferInstanceAs (Decidable (_ ∧ _))

/-- A new type on the class path does not change the text of a unit in which no class type has its
simple name or its last segment as a name. -/
theorem convert_insert_unrelated (u : CompilationUnit) (config : Config) (h : IndexHistory)
    (d : TypeDescriptor) (hnew : ∀ e ∈ h.index.types, e.binaryName ≠ d.binaryName)
    (hnames : u.NamesTypes fun name => decide (d.IsUnrelated name)) :
    convert u config (h.index.insert d) = convert u config h.index := by
  have hagree := (Resolver.findsAlikeOn_insert u h hnew).agreeOn
  exact convert_eq_of_agreeOn hagree hnames.1 hnames.2 config

/-- A class path with a nested type, and a type with the same dotted name. -/
def Samples.overlaid : IndexHistory := .insert .start (.ofBinaryName "test.Test5$Helper" false)

def Samples.overlay : TypeDescriptor := .ofBinaryName "test$Test5$Helper" true

theorem nestedInterfaces_overlaid :
    (∀ e ∈ Samples.overlaid.index.types, e.binaryName ≠ Samples.overlay.binaryName) ∧
      (Samples.nestedInterfaces.NamesTypes fun name => decide (Samples.overlay.IsUnrelated name)) ∧
      (Samples.overlaid.index.insert Samples.overlay).lookup "test.Test5.Helper" ≠
        Samples.overlaid.index.lookup "test.Test5.Helper" ∧
      convert Samples.nestedInterfaces {} (Samples.overlaid.index.insert Samples.overlay) =
        convert Samples.nestedInterfaces {} Samples.overlaid.index := by
  have hnew : ∀ e ∈ Samples.overlaid.index.types, e.binaryName ≠ Samples.overlay.binaryName := by
    decide
  have hnames :
      Samples.nestedInterfaces.NamesTypes fun name => decide (Samples.overlay.IsUnrelated name) := by
    decide
  exact ⟨hnew, hnames, by decide +kernel, convert_insert_unrelated _ {} _ _ hnew hnames⟩

end TypeScribe
