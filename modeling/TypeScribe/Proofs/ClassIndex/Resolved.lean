import TypeScribe.Proofs.Resolution.Queries
import TypeScribe.Proofs.Script.Spelling

/-!
# What a name may resolve to

Whatever a name resolves to is a declaration of the unit or a type of the class path. So a resolved
name is spelled with the letters of the tree and of the class path.
-/
namespace TypeScribe
set_option autoImplicit false
open Text

namespace ClassIndex

theorem mem_place {d e : TypeDescriptor} {types : List TypeDescriptor} (h : e ∈ place d types) :
    e = d ∨ e ∈ types := by
  induction types with
  | nil => exact .inl (List.mem_singleton.mp h)
  | cons t rest ih =>
    unfold place at h
    split at h
    · exact List.mem_cons.mp h
    · split at h
      · exact (List.mem_cons.mp h).imp_right (List.mem_cons_of_mem _)
      · rcases List.mem_cons.mp h with rfl | h
        · exact .inr List.mem_cons_self
        · exact (ih h).imp_right (List.mem_cons_of_mem _)

theorem mem_types_insertMany {index : ClassIndex} {ds : List TypeDescriptor} {e : TypeDescriptor}
    (h : e ∈ (index.insertMany ds).types) : e ∈ index.types ∨ e ∈ ds := by
  induction ds generalizing index with
  | nil => exact .inl h
  | cons d rest ih =>
    rcases ih h with h | h
    · rcases mem_place h with rfl | h
      · exact .inr List.mem_cons_self
      · exact .inl h
    · exact .inr (List.mem_cons_of_mem _ h)

theorem mem_of_mem_ofList {ds : List TypeDescriptor} {e : TypeDescriptor}
    (h : e ∈ (ofList ds).types) : e ∈ ds := by
  rcases mem_types_insertMany h with h | h
  · cases h
  · exact h

theorem mem_types_of_lookup {index : ClassIndex} {name : String} {d : TypeDescriptor}
    (h : index.lookup name = some d) : d ∈ index.types := by
  unfold lookup at h
  split at h
  · next hfind =>
    cases h
    exact List.mem_of_find?_eq_some hfind
  · obtain ⟨binaryName, -, hfind⟩ := Option.bind_eq_some_iff.mp h
    exact List.mem_of_find?_eq_some hfind

end ClassIndex

namespace Resolver

/-- The descriptor is one of the unit's own or of the class path. -/
def Knows (r : Resolver) (d : TypeDescriptor) : Prop :=
  d ∈ r.declared.types ∨ d ∈ r.classPath.types

variable {r : Resolver} {d : TypeDescriptor}

theorem knows_of_lookup {name : String} (h : r.lookup name = some d) : r.Knows d := by
  rcases Option.or_eq_some_iff.mp h with h | ⟨-, h⟩
  · exact .inl (ClassIndex.mem_types_of_lookup h)
  · exact .inr (ClassIndex.mem_types_of_lookup h)

theorem knows_of_packageSibling? {name : String} (h : r.packageSibling? name = some d) :
    r.Knows d := by
  unfold packageSibling? at h
  split at h
  · cases h
  · split at h
    · cases h
    · exact (List.mem_append.mp (List.mem_of_find?_eq_some h)).imp
        (fun h => (List.mem_filter.mp h).1)
        fun h => (List.mem_filter.mp h).1

theorem knows_of_resolveSimple {name : String} {scope : Scope}
    (h : r.resolveSimple name scope = .ok d) : r.Knows d := by
  rcases resolveSimple_eq_ok h with ⟨query, -, hlookup⟩ | hsibling
  · exact knows_of_lookup hlookup
  · exact knows_of_packageSibling? hsibling

theorem knows_of_resolveSegments {first : String} {rest : List String} {scope : Scope}
    (h : r.resolveSegments (first :: rest) scope = .ok d) : r.Knows d := by
  obtain ⟨root, hroot, ⟨rfl, -⟩ | hlookup⟩ := resolveSegments_eq_ok h
  · exact knows_of_resolveSimple hroot
  · exact knows_of_lookup hlookup

end Resolver

section

variable {letters : Char → Bool} (hletters : ∀ c, isNameChar c = true → letters c = true)

include hletters

theorem over_push_nestingSign {s : String} (h : Over letters s) :
    Over letters (s.push nestingSign) := by
  rw [String.push_eq_append]
  exact over_append.mpr ⟨h, over_of_all hletters (by decide)⟩

theorem over_qualifiedName {d : TypeDescriptor} (h : Over letters d.binaryName) :
    Over letters d.qualifiedName := by
  refine over_map ?_ h
  intro c hc
  split
  · exact hletters '.' rfl
  · exact hc

theorem CompilationUnit.over_packageQualifier {u : CompilationUnit}
    (h : ∀ p ∈ u.package, Over letters p.name) : Over letters u.packageQualifier := by
  have hempty : Over letters "" := rfl
  unfold packageQualifier packageName
  cases hpackage : u.package with
  | none => exact hempty
  | some package =>
    simp only [Option.map_some]
    split
    · exact hempty
    · exact over_append.mpr ⟨h package hpackage, over_of_all hletters (by decide)⟩

theorem over_descriptorsUnder_singleton {qualifier name : String} {isInterface : Bool}
    {modifiers : ModifierSet} {memberNames : List String} {count : Nat} {nested : List Outline}
    (hqualifier : Over letters qualifier) (hname : Over letters name)
    (hnested : ∀ {qualifier : String}, Over letters qualifier →
      ∀ d ∈ descriptorsUnder qualifier nested, Over letters d.binaryName) :
    ∀ d ∈ descriptorsUnder qualifier [.mk name isInterface modifiers memberNames count nested],
      Over letters d.binaryName := by
  have hbinary : Over letters (qualifier ++ name) := over_append.mpr ⟨hqualifier, hname⟩
  intro d hd
  rcases List.mem_append.mp hd with hd | hd
  · rcases List.mem_cons.mp hd with rfl | hd
    · exact hbinary
    · exact hnested (over_push_nestingSign hletters hbinary) d hd
  · cases hd

end

section

variable {sp : Spelling} (hletters : ∀ c, isNameChar c = true → sp.letters c = true)

include hletters

/-- The binary names of the declarations at the top of a node, and of those inside them. -/
theorem Node.over_descriptorsUnder {c : Category} (n : Node c) {qualifier : String}
    (hqualifier : Over sp.letters qualifier) (h : n.any (Node.misspells sp) = false) :
    ∀ d ∈ descriptorsUnder qualifier n.outlines, Over sp.letters d.binaryName := by
  induction n generalizing qualifier with
  | cons head tail ihHead ihTail =>
    obtain ⟨hhead, htail⟩ := Bool.or_eq_false_iff.mp h
    intro d hd
    change d ∈ descriptorsUnder qualifier (head.outlines ++ tail.outlines) at hd
    rw [descriptorsUnder_append] at hd
    rcases List.mem_append.mp hd with hd | hd
    · exact ihHead hqualifier (Bool.or_eq_false_iff.mp hhead).2 d hd
    · exact ihTail hqualifier htail d hd
  | nestedType decl ih => exact ih hqualifier (Bool.or_eq_false_iff.mp h).2
  | classDecl name isInterface modifiers comment annotations typeParameters extended implemented
      members trailing _ _ _ _ ih =>
    have hname := Node.over_ownNames h name List.mem_cons_self
    exact over_descriptorsUnder_singleton hletters hqualifier hname fun hq =>
      ih hq (Bool.or_eq_false_iff.mp h).2
  | enumDecl name modifiers comment annotations implemented constants members _ _ _ ih =>
    have hname := Node.over_ownNames h name List.mem_cons_self
    exact over_descriptorsUnder_singleton hletters hqualifier hname fun hq =>
      ih hq (Bool.or_eq_false_iff.mp h).2
  | annotationDecl name modifiers comment annotations members _ ih =>
    have hname := Node.over_ownNames h name List.mem_cons_self
    exact over_descriptorsUnder_singleton hletters hqualifier hname fun hq =>
      ih hq (Bool.or_eq_false_iff.mp h).2
  | _ => exact fun d hd => nomatch hd

theorem CompilationUnit.over_descriptors {u : CompilationUnit}
    (hpackage : ∀ p ∈ u.package, Over sp.letters p.name)
    (htypes : ∀ decl ∈ u.types, decl.any (Node.misspells sp) = false) :
    ∀ d ∈ u.descriptors, Over sp.letters d.binaryName := by
  intro d hd
  rw [descriptors, descriptorsUnder_flatMap] at hd
  obtain ⟨decl, hdecl, hd⟩ := List.mem_flatMap.mp hd
  exact decl.over_descriptorsUnder hletters (over_packageQualifier hletters hpackage)
    (htypes decl hdecl) d hd

theorem Context.speaks_ofUnit {u : CompilationUnit} {classPath : ClassIndex}
    (hpackage : ∀ p ∈ u.package, Over sp.letters p.name)
    (htypes : ∀ decl ∈ u.types, decl.any (Node.misspells sp) = false)
    (hclassPath : ∀ d ∈ classPath.types, Over sp.letters d.binaryName) :
    Context.Speaks sp.letters { resolver := .ofUnit u classPath } where
  resolved h := by
    apply over_qualifiedName hletters
    rcases Resolver.knows_of_resolveSimple h with hd | hd
    · exact u.over_descriptors hletters hpackage htypes _ (ClassIndex.mem_of_mem_ofList hd)
    · exact hclassPath _ hd
  scope _ hd := nomatch hd
  frames _ hf := nomatch hf

end
end TypeScribe
