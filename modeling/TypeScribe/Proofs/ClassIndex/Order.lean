import TypeScribe.Proofs.ClassIndex.Agreement
import TypeScribe.Proofs.ClassIndex.DeclaredTypes
import TypeScribe.Proofs.ClassIndex.History

/-!
# The order of the declarations in a unit

The index of a unit depends on the order of insertion only where two types share a name. Types under
different top-level declarations share none, neither a binary nor a dotted one, if the top-level
names are plain and distinct. So the declarations may be listed in any order.
-/
namespace TypeScribe
set_option autoImplicit false
open TypeDescriptor

/-- At most one member of a list contributes to what is found, so the order of the list is of no
account. -/
theorem last?_flatMap_perm {α : Type} {as bs : List α} (h : as.Perm bs)
    {test : TypeDescriptor → Bool} {f : α → List TypeDescriptor}
    (hunique : ∀ a ∈ as, ∀ b ∈ as, ∀ d ∈ f a, ∀ e ∈ f b, test d = true → test e = true → a = b) :
    last? test (as.flatMap f) = last? test (bs.flatMap f) := by
  induction h with
  | nil => rfl
  | cons a _ ih =>
    rw [List.flatMap_cons, List.flatMap_cons, last?_append, last?_append,
      ih fun b hb c hc => hunique b (List.mem_cons_of_mem _ hb) c (List.mem_cons_of_mem _ hc)]
  | swap a b rest =>
    simp only [List.flatMap_cons, last?_append]
    rw [Option.or_assoc, Option.or_assoc]
    refine congrArg _ ?_
    cases ha : last? test (f a) with
    | none => simp
    | some d =>
      cases hb : last? test (f b) with
      | none => simp
      | some e =>
        have hab : a = b := hunique a (by simp) b (by simp) d (mem_of_last? ha) e (mem_of_last? hb)
          (List.find?_some ha) (List.find?_some hb)
        rw [hab, hb] at ha
        cases ha
        rfl
  | trans h₁ _ ih₁ ih₂ =>
    refine (ih₁ hunique).trans (ih₂ ?_)
    exact fun a ha b hb => hunique a (h₁.mem_iff.mpr ha) b (h₁.mem_iff.mpr hb)

/-- The type has the binary name or is nested in the type that has it. -/
def TypeDescriptor.IsWithin (outer : String) (d : TypeDescriptor) : Prop :=
  ∃ tail : List Char, d.binaryName.toList = outer.toList ++ tail ∧ ∀ c ∈ tail.head?, c = nestingSign

mutual
theorem Outline.isWithin_descriptors (binaryName : String) (outline : Outline) :
    ∀ d ∈ outline.descriptors binaryName, d.IsWithin binaryName := by
  match outline with
  | .mk _ _ _ _ _ nested =>
    refine List.forall_mem_cons.mpr ⟨⟨[], by simp [ofBinaryName], by simp⟩, fun d hd => ?_⟩
    obtain ⟨rest, hrest⟩ := binaryName_descriptorsUnder (binaryName.push nestingSign) nested d hd
    exact ⟨nestingSign :: rest, by simp [hrest], by simp⟩

theorem binaryName_descriptorsUnder (qualifier : String) (outlines : List Outline) :
    ∀ d ∈ descriptorsUnder qualifier outlines,
      ∃ rest : List Char, d.binaryName.toList = qualifier.toList ++ rest := by
  match outlines with
  | [] => exact fun d hd => nomatch hd
  | outline :: rest =>
    refine List.forall_mem_append.mpr ⟨fun d hd => ?_, binaryName_descriptorsUnder qualifier rest⟩
    obtain ⟨tail, htail, -⟩ := outline.isWithin_descriptors (qualifier ++ outline.name) d hd
    exact ⟨outline.name.toList ++ tail, by simp [htail]⟩
end

theorem TypeDecl.isWithin_descriptors (qualifier : String) (decl : TypeDecl) :
    ∀ d ∈ descriptorsUnder qualifier decl.outlines, d.IsWithin (qualifier ++ decl.name) := by
  have hsingle (outline : Outline) :
      ∀ d ∈ descriptorsUnder qualifier [outline], d.IsWithin (qualifier ++ outline.name) := by
    intro d hd
    rw [descriptorsUnder, descriptorsUnder, List.append_nil] at hd
    exact outline.isWithin_descriptors _ d hd
  cases decl <;> exact hsingle _

theorem plain_prefix_eq {sign : Char} {n m s t : List Char} (h : n ++ s = m ++ t)
    (hs : ∀ c ∈ s.head?, c = sign) (ht : ∀ c ∈ t.head?, c = sign) (hn : sign ∉ n)
    (hm : sign ∉ m) : n = m := by
  have htake {n s : List Char} (hs : ∀ c ∈ s.head?, c = sign) (hn : sign ∉ n) :
      (n ++ s).takeWhile (fun c => c != sign) = n := by
    rw [List.takeWhile_append_of_pos]
    · cases s with
      | nil => simp
      | cons c rest => simp [hs c rfl]
    · intro c hc
      simp only [bne_iff_ne, ne_eq]
      rintro rfl
      exact hn hc
  rw [← htake hs hn, h, htake ht hm]

namespace TypeDescriptor.IsWithin

variable {qualifier n m : String} {d e : TypeDescriptor} (hd : d.IsWithin (qualifier ++ n))
  (he : e.IsWithin (qualifier ++ m)) (hn : IsPlainName n) (hm : IsPlainName m)

include hd he hn hm

theorem name_eq_of_binaryName_eq (h : d.binaryName = e.binaryName) : n = m := by
  obtain ⟨s, hs, hsign⟩ := hd
  obtain ⟨t, ht, htsign⟩ := he
  rw [h, ht, String.toList_append, String.toList_append, List.append_assoc, List.append_assoc] at hs
  have hrest := List.append_cancel_left hs
  exact (String.toList_inj.mp (plain_prefix_eq hrest htsign hsign hm.2 hn.2)).symm

theorem name_eq_of_qualifiedName_eq (h : d.qualifiedName = e.qualifiedName) : n = m := by
  obtain ⟨s, hs, hsign⟩ := hd
  obtain ⟨t, ht, htsign⟩ := he
  have hhead {tail : List Char} (h : ∀ c ∈ tail.head?, c = nestingSign) :
      ∀ c ∈ (tail.map dotted).head?, c = '.' := by
    cases tail with
    | nil => simp
    | cons c rest =>
      cases h c rfl
      rintro c ⟨⟩
      rfl
  have hchars : d.binaryName.toList.map dotted = e.binaryName.toList.map dotted := by
    rw [← String.toList_map, ← String.toList_map]
    exact congrArg String.toList h
  rw [hs, ht, String.toList_append, String.toList_append, List.append_assoc, List.append_assoc,
    List.map_append, List.map_append, List.map_append, List.map_append] at hchars
  have hrest := List.append_cancel_left hchars
  rw [map_dotted_chars hn.2, map_dotted_chars hm.2] at hrest
  exact String.toList_inj.mp (plain_prefix_eq hrest (hhead hsign) (hhead htsign) hn.1 hm.1)

end TypeDescriptor.IsWithin

theorem ClassIndex.types_ofList_congr {ds es : List TypeDescriptor}
    (h : ∀ name, last? (isNamed name) ds = last? (isNamed name) es) :
    (ofList ds).types = (ofList es).types := by
  refine (ascending_ofList ds).ext (ascending_ofList es) fun d => ?_
  rw [mem_ofList, mem_ofList, h]

namespace CompilationUnit

variable {u : CompilationUnit} (hdistinct : (u.types.map TypeDecl.name).Nodup)
  (hplain : ∀ decl ∈ u.types, IsPlainName (TypeDecl.name decl)) {types : List TypeDecl}
  (hperm : types.Perm u.types)

theorem descriptors_eq_flatMap (u : CompilationUnit) :
    u.descriptors = u.types.flatMap fun decl => descriptorsUnder u.packageQualifier decl.outlines :=
  descriptorsUnder_flatMap _ _ _

include hdistinct hperm in
/-- What is found among the types of a unit does not depend on the order of its declarations, if it
is found under one of them at most. -/
theorem last?_descriptors_perm {test : TypeDescriptor → Bool}
    (htest : ∀ a ∈ u.types, ∀ b ∈ u.types, ∀ d e : TypeDescriptor,
      d.IsWithin (u.packageQualifier ++ a.name) → e.IsWithin (u.packageQualifier ++ b.name) →
      test d = true → test e = true → a.name = b.name) :
    last? test { u with types := types }.descriptors = last? test u.descriptors := by
  rw [descriptors_eq_flatMap, descriptors_eq_flatMap]
  refine last?_flatMap_perm hperm fun a ha b hb d hd e he hdtest hetest => ?_
  have ha := hperm.mem_iff.mp ha
  have hb := hperm.mem_iff.mp hb
  have hnames := htest a ha b hb d e (a.isWithin_descriptors _ d hd)
    (b.isWithin_descriptors _ e he) hdtest hetest
  exact List.inj_on_of_nodup_map hdistinct ha hb hnames

include hdistinct hplain hperm

theorem last?_isNamed_perm (name : String) :
    last? (isNamed name) { u with types := types }.descriptors =
      last? (isNamed name) u.descriptors := by
  refine last?_descriptors_perm hdistinct hperm fun a ha b hb d e hd he hdname hename => ?_
  refine hd.name_eq_of_binaryName_eq he (hplain a ha) (hplain b hb) ?_
  rw [isNamed_iff.mp hdname, isNamed_iff.mp hename]

theorem last?_isNestedAs_perm (name : String) :
    last? (isNestedAs name) { u with types := types }.descriptors =
      last? (isNestedAs name) u.descriptors := by
  refine last?_descriptors_perm hdistinct hperm fun a ha b hb d e hd he hdname hename => ?_
  refine hd.name_eq_of_qualifiedName_eq he (hplain a ha) (hplain b hb) ?_
  rw [(isNestedAs_iff.mp hdname).2, (isNestedAs_iff.mp hename).2]

theorem types_ofUnit_perm :
    (ClassIndex.ofUnit { u with types := types }).types = (ClassIndex.ofUnit u).types :=
  ClassIndex.types_ofList_congr (last?_isNamed_perm hdistinct hplain hperm)

theorem lookup_ofUnit_perm (name : String) :
    (ClassIndex.ofUnit { u with types := types }).lookup name =
      (ClassIndex.ofUnit u).lookup name := by
  rw [ClassIndex.ofUnit, ClassIndex.lookup_ofList, last?_isNamed_perm hdistinct hplain hperm,
    last?_isNestedAs_perm hdistinct hplain hperm, ← ClassIndex.lookup_ofList]
  rfl

/-- A resolver finds the same in whatever order the top-level declarations stand. -/
theorem findsAlike_perm (classPath : ClassIndex) :
    Resolver.FindsAlike (.ofUnit u classPath) (.ofUnit { u with types := types } classPath) where
  packageQualifier := rfl
  imports := rfl
  lookup name :=
    congrArg (·.or (classPath.lookup name)) (lookup_ofUnit_perm hdistinct hplain hperm name)
  packageSibling name := by
    have hmembers (package : String) :
        (Resolver.ofUnit { u with types := types } classPath).declared.packageMembers package =
          (Resolver.ofUnit u classPath).declared.packageMembers package :=
      congrArg (List.filter _) (types_ofUnit_perm hdistinct hplain hperm)
    unfold Resolver.packageSibling?
    simp only [hmembers]
    rfl

end CompilationUnit
end TypeScribe
