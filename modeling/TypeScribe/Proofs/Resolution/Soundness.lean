import TypeScribe.Proofs.ClassIndex.Layers
import TypeScribe.Proofs.ClassIndex.Resolved

/-!
# What a resolved name says

Whichever way a type is found, its dotted name is that of the text it was looked up under. So the
dotted name of what a type resolves to is the dotted type itself, behind a qualifier that may be
empty.
-/
namespace TypeScribe
set_option autoImplicit false
open TypeDescriptor

theorem ClassIndex.qualifiedName_of_lookup_ofList {ds : List TypeDescriptor} {name : String}
    {d : TypeDescriptor} (h : (ofList ds).lookup name = some d) :
    d.qualifiedName = name.map TypeDescriptor.dotted := by
  rw [lookup_ofList] at h
  rcases Option.or_eq_some_iff.mp h with h | ⟨-, h⟩
  · have hnamed : isNamed name d = true := List.find?_some h
    rw [← isNamed_iff.mp hnamed]
    rfl
  · have hnested : d.isNestedAs name = true := List.find?_some h
    rw [← (isNestedAs_iff.mp hnested).2]
    exact (map_dotted_map_dotted d.binaryName).symm

theorem map_dotted_nestedUnder (binaryName : String) {names : List String}
    (hnames : ∀ s ∈ names, nestingSign ∉ s.toList) :
    (nestedUnder binaryName names).map dotted =
      Text.joinWith "." (binaryName.map dotted :: names) := by
  induction names generalizing binaryName with
  | nil => rfl
  | cons s rest ih =>
    obtain ⟨hs, hrest⟩ := List.forall_mem_cons.mp hnames
    calc
      (nestedUnder (binaryName.push nestingSign ++ s) rest).map dotted =
          Text.joinWith "." ((binaryName.map dotted ++ "." ++ s) :: rest) := by
        rw [ih _ hrest, map_dotted_append, map_dotted_push, map_dotted_eq hs]
      _ = binaryName.map dotted ++ "." ++ Text.joinWith "." (s :: rest) :=
        Text.joinWith_append_cons ..

namespace ClassType

theorem segments_eq (type : ClassType) : ∃ outer, type.segments = outer ++ [type.name] := by
  cases type with
  | classType scope name arguments annotations => exact ⟨scope.segments, rfl⟩

theorem endsIn_dotted (type : ClassType) {qualifier : String} (h : IsTopQualifier qualifier) :
    EndsIn type.name (qualifier ++ type.dotted) := by
  obtain ⟨outer, houter⟩ := type.segments_eq
  rw [dotted, houter]
  cases outer with
  | nil => exact h.endsIn type.name
  | cons first rest =>
    rw [Text.joinWith_concat, ← String.append_assoc, ← String.append_assoc]
    exact Resolver.endsIn_dot _ type.name

end ClassType

namespace Resolver

variable {u : CompilationUnit} {h : IndexHistory} {name : String} {scope : Scope}
  {d : TypeDescriptor}

theorem qualifiedName_of_lookup (hlookup : (ofUnit u h.index).lookup name = some d) :
    d.qualifiedName = name.map dotted := by
  rcases Option.or_eq_some_iff.mp hlookup with hown | ⟨-, hpath⟩
  · exact ClassIndex.qualifiedName_of_lookup_ofList hown
  · change h.index.lookup name = some d at hpath
    rw [h.index_eq_ofList] at hpath
    exact ClassIndex.qualifiedName_of_lookup_ofList hpath

theorem qualifiedName_of_resolveSegments {first : String} {rest : List String}
    (hrest : ∀ s ∈ rest, nestingSign ∉ s.toList)
    (hok : (ofUnit u h.index).resolveSegments (first :: rest) scope = .ok d) :
    ∃ root, (ofUnit u h.index).resolveSimple first scope = .ok root ∧
      d.qualifiedName = Text.joinWith "." (root.qualifiedName :: rest) := by
  obtain ⟨root, hroot, ⟨rfl, rfl⟩ | hlookup⟩ := resolveSegments_eq_ok hok
  · exact ⟨_, hroot, rfl⟩
  · refine ⟨root, hroot, ?_⟩
    rw [qualifiedName_of_lookup hlookup, map_dotted_nestedUnder _ hrest]
    rfl

theorem simpleName_of_packageSibling? {r : Resolver} (h : r.packageSibling? name = some d) :
    d.simpleName = name := by
  unfold packageSibling? at h
  split at h
  · cases h
  · split at h
    · cases h
    · have hfound := List.find?_some h
      exact beq_iff_eq.mp hfound

variable (hnames : ∀ e ∈ h.index.types, e.hasSegmentName = true)

include hnames

theorem simpleName_of_knows (hd : (ofUnit u h.index).Knows d) :
    d.simpleName = lastName d.binaryName := by
  rcases hd with hown | hpath
  · exact beq_iff_eq.mp (u.hasSegmentName_descriptors d (ClassIndex.mem_of_mem_ofList hown))
  · exact beq_iff_eq.mp (hnames d hpath)

theorem qualifiedName_of_resolveSimple (hname : IsPlainName name)
    (hok : (ofUnit u h.index).resolveSimple name scope = .ok d) :
    ∃ qualifier, IsTopQualifier qualifier ∧ d.qualifiedName = qualifier ++ name := by
  have hdotted (text : String) (hends : EndsIn name text)
      (htext : d.qualifiedName = text.map dotted) :
      ∃ qualifier, IsTopQualifier qualifier ∧ d.qualifiedName = qualifier ++ name := by
    rw [htext, ← map_dotted_eq hname.2]
    exact hends.map_dotted
  rcases resolveSimple_eq_ok hok with ⟨query, hquery, hlookup⟩ | hsibling
  · exact hdotted query hquery (qualifiedName_of_lookup hlookup)
  · have hlast : lastName d.binaryName = name := by
      rw [← simpleName_of_knows hnames (knows_of_packageSibling? hsibling)]
      exact simpleName_of_packageSibling? hsibling
    apply hdotted d.binaryName
    · rw [← hlast]
      exact endsIn_lastName d.binaryName
    · rfl

/-- What a type resolves to has its name, and its dotted name is the dotted type or ends with it
behind a dot. -/
theorem resolve_spells_type (type : ClassType) (hplain : ∀ s ∈ type.segments, IsPlainName s)
    (hok : (ofUnit u h.index).resolve type scope = .ok d) :
    d.simpleName = type.name ∧
      (d.qualifiedName = type.dotted ∨ ∃ before, d.qualifiedName = before ++ "." ++ type.dotted) := by
  obtain ⟨outer, houter⟩ := type.segments_eq
  obtain ⟨first, rest, hsegments⟩ := List.exists_cons_of_ne_nil (List.concat_ne_nil type.name outer)
  rw [← houter] at hsegments
  rw [resolve, hsegments] at hok
  rw [hsegments] at hplain
  obtain ⟨hfirst, hrest⟩ := List.forall_mem_cons.mp hplain
  obtain ⟨root, hroot, hqualified⟩ :=
    qualifiedName_of_resolveSegments (fun s hs => (hrest s hs).2) hok
  obtain ⟨qualifier, hqualifier, hrootName⟩ := qualifiedName_of_resolveSimple hnames hfirst hroot
  have hdotted : d.qualifiedName = qualifier ++ type.dotted := by
    rw [hqualified, hrootName, Text.joinWith_append_cons, ClassType.dotted, hsegments]
  refine ⟨?_, ?_⟩
  · have hname : IsPlainName type.name := by
      apply hplain
      rw [← hsegments, houter]
      simp
    rw [simpleName_of_knows hnames (knows_of_resolveSegments hok), ← d.lastName_qualifiedName,
      hdotted]
    exact (type.endsIn_dotted hqualifier).lastName_eq hname
  · rcases hqualifier.eq_empty_or_dot with rfl | ⟨before, rfl⟩
    · left
      rw [hdotted, String.empty_append]
    · exact .inr ⟨before, hdotted⟩

end Resolver

/-- A class path with a type nested in one of another package. -/
def Samples.entries : IndexHistory :=
  .insert (.insert .start (.ofBinaryName "java.util.Map" true))
    (.ofBinaryName "java.util.Map$Entry" true)

/-- The entry of a map, whose package is imported on demand. -/
theorem entries_spelled :
    (∀ e ∈ Samples.entries.index.types, e.hasSegmentName = true) ∧
      (∀ s ∈ (ClassType.parse "Map.Entry").segments, IsPlainName s) ∧
      ∃ d : TypeDescriptor,
        (Resolver.ofUnit { imports := [{ name := "java.util", isOnDemand := true }] }
          Samples.entries.index).resolve (.parse "Map.Entry") [] = .ok d ∧
        d.simpleName = "Entry" ∧
        (d.qualifiedName = "Map.Entry" ∨ ∃ before, d.qualifiedName = before ++ "." ++ "Map.Entry") := by
  have hnames : ∀ e ∈ Samples.entries.index.types, e.hasSegmentName = true := by decide
  have hplain : ∀ s ∈ (ClassType.parse "Map.Entry").segments, IsPlainName s := by decide
  have hok : (Resolver.ofUnit { imports := [{ name := "java.util", isOnDemand := true }] }
      Samples.entries.index).resolve (.parse "Map.Entry") [] =
        .ok (.ofBinaryName "java.util.Map$Entry" true) := by
    rfl
  exact ⟨hnames, hplain, _, hok, Resolver.resolve_spells_type hnames _ hplain hok⟩

end TypeScribe
