import TypeScribe.Proofs.ClassIndex.DeclaredTypes
import TypeScribe.Proofs.ClassIndex.History
import TypeScribe.Proofs.Script.Relocation
import TypeScribe.Samples

/-!
# A class path under the types of a unit

The resolver of a unit looks among the unit's own declarations first and on the class path second.
Merging the declarations into the class path changes nothing: a name that they answer is never
looked up on the class path, and under any other name the merged class path has what it had before.
-/
namespace TypeScribe
set_option autoImplicit false
open TypeDescriptor

/-- Whether the simple name is what follows the last separator of the binary name. -/
def TypeDescriptor.hasSegmentName (d : TypeDescriptor) : Bool :=
  d.simpleName == Text.lastSegment (fun c => c == '.' || isNestingSign c) d.binaryName

/-- Ascending lists that share the descriptors that pass a test have the same first one. -/
theorem Ascending.find?_congr {test : TypeDescriptor → Bool} {ds es : List TypeDescriptor}
    (hds : Ascending ds) (hes : Ascending es)
    (h : ∀ d, test d = true → (d ∈ ds ↔ d ∈ es)) : ds.find? test = es.find? test := by
  have hfilter : ds.filter test = es.filter test := by
    refine Ascending.ext (List.Pairwise.filter _ hds) (List.Pairwise.filter _ hes) fun d => ?_
    rw [List.mem_filter, List.mem_filter]
    exact and_congr_left (h d)
  rw [← List.head?_filter, hfilter, List.head?_filter]

namespace ClassIndex

variable {ds es : List TypeDescriptor}

theorem merge_ofList (ds : List TypeDescriptor) (other : ClassIndex) :
    (ofList ds).merge other = ofList (ds ++ other.types) :=
  List.foldl_append.symm

theorem last?_types_eq_none {test : TypeDescriptor → Bool} (h : last? test es = none) :
    last? test (ofList es).types = none :=
  last?_eq_none.mpr fun d hd => last?_eq_none.mp h d (mem_of_last? (mem_ofList.mp hd))

/-- What the merged index does not answer is looked up as before. -/
theorem lookup_merge_ofList {name : String} (h : (ofList es).lookup name = none) :
    ((ofList ds).merge (ofList es)).lookup name = (ofList ds).lookup name := by
  rw [lookup_ofList, Option.or_eq_none_iff] at h
  rw [merge_ofList, lookup_ofList, last?_append, last?_append, last?_types_eq_none h.1,
    last?_types_eq_none h.2, Option.none_or, Option.none_or, ← lookup_ofList]

/-- Whether the descriptor is a type of the package with the simple name. -/
def isMember (package name : String) (d : TypeDescriptor) : Bool :=
  (d.isTopLevel && d.package == package) && d.simpleName == name

theorem find?_packageMembers (index : ClassIndex) (package name : String) :
    (index.packageMembers package).find? (fun d => d.simpleName == name) =
      index.types.find? (isMember package name) := by
  rw [packageMembers, List.find?_filter]
  simp only [Bool.decide_and, Bool.decide_eq_true]
  rfl

/-- Types with one binary name are members of the same packages under the same names. -/
theorem isMember_congr {d e : TypeDescriptor} (h : e.binaryName = d.binaryName)
    (hd : d.hasSegmentName = true) (he : e.hasSegmentName = true) (package name : String) :
    isMember package name e = isMember package name d := by
  have hsimple : e.simpleName = d.simpleName := by
    rw [beq_iff_eq.mp hd, beq_iff_eq.mp he, h]
  have htop : e.isTopLevel = d.isTopLevel := by rw [isTopLevel, h, isTopLevel]
  have hpackage : e.package = d.package := by
    rw [TypeDescriptor.package, packageSegments, h, TypeDescriptor.package, packageSegments]
  rw [isMember, hsimple, htop, hpackage, isMember]

/-- A member that the merged index does not have is found among the members as before. -/
theorem find?_packageMembers_merge (hds : ∀ d ∈ (ofList ds).types, d.hasSegmentName = true)
    (hes : ∀ e ∈ es, e.hasSegmentName = true) {package name : String}
    (h : ((ofList es).packageMembers package).find? (fun d => d.simpleName == name) = none) :
    (((ofList ds).merge (ofList es)).packageMembers package).find?
        (fun d => d.simpleName == name) =
      ((ofList ds).packageMembers package).find? fun d => d.simpleName == name := by
  rw [find?_packageMembers] at h
  rw [find?_packageMembers, find?_packageMembers, merge_ofList]
  refine (ascending_ofList _).find?_congr (ascending_ofList _) fun d htest => ?_
  rw [mem_ofList, mem_ofList, last?_append]
  cases hlast : last? (isNamed d.binaryName) (ofList es).types with
  | none => rw [Option.none_or]
  | some e =>
    -- The merged type would be a member of the package under the same name.
    have he : e ∈ (ofList es).types := mem_of_last? hlast
    have hname : e.binaryName = d.binaryName := isNamed_iff.mp (List.find?_some hlast)
    have hfails : isMember package name e ≠ true := List.find?_eq_none.mp h e he
    constructor
    · intro hsome
      cases hsome
      exact absurd htest hfails
    · intro hd
      have hsegment := hes e (mem_of_last? (mem_ofList.mp he))
      rw [← isMember_congr hname (hds d (mem_ofList.mpr hd)) hsegment] at htest
      exact absurd htest hfails

end ClassIndex

theorem CompilationUnit.hasSegmentName_descriptors (u : CompilationUnit) :
    ∀ d ∈ u.descriptors, d.hasSegmentName = true := by
  intro d hd
  rw [u.descriptors_eq .empty] at hd
  obtain ⟨s, -, rfl⟩ := List.mem_map.mp hd
  exact beq_self_eq_true _

/-- A resolver finds the same whether or not the unit's own types are on the class path. -/
theorem Resolver.findsAlike_merge (u : CompilationUnit) (h : IndexHistory)
    (hnames : ∀ d ∈ h.index.types, d.hasSegmentName = true) :
    FindsAlike (.ofUnit u h.index) (.ofUnit u (h.index.merge (.ofUnit u))) where
  packageQualifier := rfl
  imports := rfl
  lookup := by
    intro name
    apply lookup_ofUnit_congr
    intro hown
    rw [h.index_eq_ofList]
    exact ClassIndex.lookup_merge_ofList hown
  packageSibling := by
    intro name
    rw [h.index_eq_ofList] at hnames ⊢
    apply packageSibling?_ofUnit_congr
    intro package hown
    exact ClassIndex.find?_packageMembers_merge hnames u.hasSegmentName_descriptors hown

/-- Putting the types of a unit on its class path changes neither the text of the unit nor what any
type name in it denotes. -/
theorem convert_merge_ofUnit (u : CompilationUnit) (config : Config) (h : IndexHistory)
    (hnames : ∀ d ∈ h.index.types, d.hasSegmentName = true) :
    convert u config h.index = convert u config (h.index.merge (.ofUnit u)) ∧
      ∀ (type : ClassType) (scope : Scope),
        (Resolver.ofUnit u h.index).resolve type scope =
          (Resolver.ofUnit u (h.index.merge (.ofUnit u))).resolve type scope := by
  have halike := Resolver.findsAlike_merge u h hnames
  refine ⟨(convert_eq_of_agreeOn (halike.agreeOn fun _ => true) ?_ ?_ config).symm, ?_⟩
  · exact fun a _ => a.lacks_isForeign
  · exact fun decl _ => decl.lacks_isForeign
  · exact fun type scope => (halike.resolve type scope).symm

/-- A class path with an old version of an interface that `nestedInterfaces` declares. -/
def Samples.outdated : IndexHistory :=
  .insert (.insert .start (.ofBinaryName "test.Test5$A" false)) (.ofBinaryName "test.Helper" false)

theorem nestedInterfaces_merged :
    (∀ d ∈ Samples.outdated.index.types, d.hasSegmentName = true) ∧
      (Samples.outdated.index.merge (.ofUnit Samples.nestedInterfaces)).find? "test.Test5$A" ≠
        Samples.outdated.index.find? "test.Test5$A" ∧
      convert Samples.nestedInterfaces {} Samples.outdated.index =
        convert Samples.nestedInterfaces {}
          (Samples.outdated.index.merge (.ofUnit Samples.nestedInterfaces)) := by
  have hnames : ∀ d ∈ Samples.outdated.index.types, d.hasSegmentName = true := by decide
  have hmerged := convert_merge_ofUnit Samples.nestedInterfaces {} Samples.outdated hnames
  exact ⟨hnames, by decide, hmerged.1⟩

end TypeScribe
