import Mathlib.Data.List.Dedup
import Mathlib.Data.String.Basic
import TypeScribe.Proofs.ClassIndex.Insertion
import TypeScribe.Proofs.Text.Segments

/-!
# The history of a class index

An index comes about by insertions and merges. What it lists and what it finds is settled by the
descriptors that were inserted and by their order: it lists the last one of each binary name, and a
dotted name that is no binary name denotes the nested type that was inserted last under it.
-/
namespace TypeScribe
set_option autoImplicit false

namespace TypeDescriptor

def isNamed (name : String) (d : TypeDescriptor) : Bool := d.binaryName == name

theorem isNamed_iff {name : String} {d : TypeDescriptor} :
    d.isNamed name = true ↔ d.binaryName = name :=
  beq_iff_eq

theorem isTopLevel_iff {d : TypeDescriptor} :
    d.isTopLevel = true ↔ nestingSign ∉ d.binaryName.toList := by
  rw [isTopLevel, Bool.not_eq_true', List.any_eq_false]
  constructor
  · intro h hmem
    exact h nestingSign hmem rfl
  · intro h c hc hsign
    rw [isNestingSign, beq_iff_eq] at hsign
    exact h (hsign ▸ hc)

/-- Whether a `$` stands in the binary name, and the given name is the binary name with a dot for
each of them. -/
def isNestedAs (name : String) (d : TypeDescriptor) : Bool :=
  d.binaryName.toList.contains '$' && (d.binaryName.map fun c => if c = '$' then '.' else c) == name

theorem isNestedAs_iff {name : String} {d : TypeDescriptor} :
    d.isNestedAs name = true ↔ d.isTopLevel = false ∧ d.qualifiedName = name := by
  have hdots : (fun c => if c = '$' then '.' else c) = fun c => if isNestingSign c then '.' else c := by
    funext c
    simp [isNestingSign, nestingSign]
  have hnested : d.isTopLevel = false ↔ '$' ∈ d.binaryName.toList := by
    rw [Bool.eq_false_iff, ne_eq, isTopLevel_iff, not_not]
    rfl
  rw [isNestedAs, Bool.and_eq_true, List.contains_iff_mem, beq_iff_eq, hnested, hdots, qualifiedName]

theorem isNestedAs_of_binaryName_eq {name : String} {d e : TypeDescriptor}
    (h : e.binaryName = d.binaryName) : e.isNestedAs name = d.isNestedAs name := by
  rw [isNestedAs, h]
  rfl

/-- The binary name is the package, a dot and a name without dots, or in the default package such a
name alone. -/
def LiesIn (package : String) (d : TypeDescriptor) : Prop :=
  ∃ own : String, '.' ∉ own.toList ∧
    (d.binaryName = package ++ "." ++ own ∨ package = "" ∧ d.binaryName = own)

theorem exists_liesIn (d : TypeDescriptor) : ∃ package, d.LiesIn package := by
  rcases Text.cut_cases (· == '.') d.binaryName.toList with
    ⟨-, hfree⟩ | ⟨-, -, last, before, sep, -, hsep, hsplit, hfree⟩
  · exact ⟨"", d.binaryName, fun h => absurd (hfree _ h) (by decide), .inr ⟨rfl, rfl⟩⟩
  · refine ⟨String.ofList before, String.ofList last, ?_, .inl (String.toList_inj.mp ?_)⟩
    · rw [String.toList_ofList]
      exact fun h => absurd (hfree _ h) (by decide)
    · simp [hsplit, beq_iff_eq.mp hsep]

theorem LiesIn.package_eq {d : TypeDescriptor} {package : String} (h : d.LiesIn package)
    (htop : d.isTopLevel = true) : d.package = package := by
  have houtermost : Text.firstSegment isNestingSign d.binaryName = d.binaryName :=
    (List.cons.inj (Text.segments_of_notMem (isTopLevel_iff.mp htop))).1
  rw [TypeDescriptor.package, packageSegments, houtermost]
  obtain ⟨own, hown, hname | ⟨rfl, hname⟩⟩ := h
  · have hsegments : Text.segments (· == '.') (package ++ "." ++ own) =
        Text.segments (· == '.') package ++ [own] := Text.segments_concat package hown
    rw [hname, hsegments, List.dropLast_concat]
    exact Text.joinWith_segments '.' package
  · rw [hname, Text.segments_of_notMem hown]
    rfl

theorem package_eq_iff {d : TypeDescriptor} {package : String} (htop : d.isTopLevel = true) :
    d.package = package ↔ d.LiesIn package := by
  constructor
  · rintro rfl
    obtain ⟨package, hpackage⟩ := d.exists_liesIn
    rw [hpackage.package_eq htop]
    exact hpackage
  · exact fun h => h.package_eq htop

end TypeDescriptor

open TypeDescriptor

/-- The last descriptor that passes a test. -/
def last? (test : TypeDescriptor → Bool) (ds : List TypeDescriptor) : Option TypeDescriptor :=
  ds.reverse.find? test

variable {test : TypeDescriptor → Bool} {ds : List TypeDescriptor} {d e : TypeDescriptor}

theorem last?_cons (test : TypeDescriptor → Bool) (d : TypeDescriptor) (ds : List TypeDescriptor) :
    last? test (d :: ds) = (last? test ds).or (if test d then some d else none) := by
  rw [last?, List.reverse_cons, List.find?_append]
  cases htest : test d <;> simp [last?, htest]

theorem last?_append (test : TypeDescriptor → Bool) (ds es : List TypeDescriptor) :
    last? test (ds ++ es) = (last? test es).or (last? test ds) := by
  rw [last?, List.reverse_append, List.find?_append]
  rfl

theorem mem_of_last? (h : last? test ds = some d) : d ∈ ds :=
  List.mem_reverse.mp (List.mem_of_find?_eq_some h)

theorem last?_eq_none : last? test ds = none ↔ ∀ d ∈ ds, test d = false := by
  simp [last?]

theorem exists_last? (hd : d ∈ ds) (htest : test d = true) : ∃ e, last? test ds = some e := by
  rw [← Option.isSome_iff_exists, ← Option.ne_none_iff_isSome]
  intro hnone
  rw [last?_eq_none.mp hnone d hd] at htest
  cases htest

/-- A test that reads the binary name alone is passed last by the last descriptor of some name. -/
theorem last?_isNamed (h : last? test ds = some d)
    (htest : ∀ e, e.binaryName = d.binaryName → test e = test d) :
    last? (isNamed d.binaryName) ds = some d := by
  obtain ⟨hd, before, after, hsplit, hbefore⟩ := List.find?_eq_some_iff_append.mp h
  refine List.find?_eq_some_iff_append.mpr ⟨beq_self_eq_true _, before, after, hsplit, ?_⟩
  intro e he
  have hfails := hbefore e he
  rw [Bool.not_eq_true'] at hfails ⊢
  refine beq_eq_false_iff_ne.mpr fun hname => ?_
  rw [htest e hname, hd] at hfails
  cases hfails

/-- Strictly ascending by binary name. -/
def Ascending (ds : List TypeDescriptor) : Prop :=
  ds.Pairwise fun d e => d.binaryName < e.binaryName

namespace Ascending

theorem names_nodup (h : Ascending ds) : (ds.map binaryName).Nodup := by
  refine List.pairwise_map.mpr (h.imp ?_)
  intro d e hlt heq
  rw [heq] at hlt
  exact lt_irrefl _ hlt

theorem eq_of_binaryName_eq (h : Ascending ds) (hd : d ∈ ds) (he : e ∈ ds)
    (hname : d.binaryName = e.binaryName) : d = e :=
  List.inj_on_of_nodup_map h.names_nodup hd he hname

theorem find?_isNamed (h : Ascending ds) (hd : d ∈ ds) :
    ds.find? (isNamed d.binaryName) = some d := by
  cases hfind : ds.find? (isNamed d.binaryName) with
  | none => exact absurd (beq_self_eq_true d.binaryName) (List.find?_eq_none.mp hfind d hd)
  | some e =>
    have hname : e.binaryName = d.binaryName := isNamed_iff.mp (List.find?_some hfind)
    rw [h.eq_of_binaryName_eq (List.mem_of_find?_eq_some hfind) hd hname]

/-- Ascending lists with the same members are the same. -/
theorem ext {es : List TypeDescriptor} (hds : Ascending ds) (hes : Ascending es)
    (h : ∀ d, d ∈ ds ↔ d ∈ es) : ds = es := by
  have hperm : ds.Perm es := by
    refine (List.perm_ext_iff_of_nodup ?_ ?_).mpr h
    · exact hds.names_nodup.of_map
    · exact hes.names_nodup.of_map
  refine hperm.eq_of_pairwise ?_ hds hes
  intro d e _ _ hlt hgt
  exact absurd hgt (lt_asymm hlt)

end Ascending

namespace ClassIndex

theorem lt_of_mem_place {name : String} {types : List TypeDescriptor} (hd : name < d.binaryName)
    (htypes : ∀ e ∈ types, name < e.binaryName) : ∀ e ∈ place d types, name < e.binaryName := by
  induction types with
  | nil => simpa [place] using hd
  | cons t rest ih =>
    obtain ⟨ht, hrest⟩ := List.forall_mem_cons.mp htypes
    unfold place
    split
    · exact List.forall_mem_cons.mpr ⟨hd, htypes⟩
    · split
      · exact List.forall_mem_cons.mpr ⟨hd, hrest⟩
      · exact List.forall_mem_cons.mpr ⟨ht, ih hrest⟩

theorem ascending_place (d : TypeDescriptor) {types : List TypeDescriptor} (h : Ascending types) :
    Ascending (place d types) := by
  induction types with
  | nil => exact List.pairwise_singleton _ _
  | cons t rest ih =>
    obtain ⟨ht, hrest⟩ := List.pairwise_cons.mp h
    unfold place
    split
    · next hlt =>
      refine List.pairwise_cons.mpr ⟨?_, h⟩
      exact List.forall_mem_cons.mpr ⟨hlt, fun e he => lt_trans hlt (ht e he)⟩
    · next hnlt =>
      split
      · next heq =>
        refine List.pairwise_cons.mpr ⟨?_, hrest⟩
        rw [heq]
        exact ht
      · next hne =>
        refine List.pairwise_cons.mpr ⟨?_, ih hrest⟩
        exact lt_of_mem_place (lt_of_le_of_ne (not_lt.mp hnlt) (Ne.symm hne)) ht

theorem lookup_dotted_insert (index : ClassIndex) (d : TypeDescriptor) (name : String) :
    (index.insert d).dotted.lookup name =
      if d.isNestedAs name then some d.binaryName else index.dotted.lookup name := by
  cases htop : d.isTopLevel with
  | true => simp [insert, isNestedAs_iff, htop]
  | false =>
    by_cases hname : d.qualifiedName = name
    · simp [insert, isNestedAs_iff, htop, hname]
    · have hname' : (name == d.qualifiedName) = false := beq_eq_false_iff_ne.mpr (Ne.symm hname)
      simp [insert, isNestedAs_iff, htop, hname, List.lookup_cons, hname']

theorem ascending_insertMany {index : ClassIndex} (h : Ascending index.types)
    (ds : List TypeDescriptor) : Ascending (index.insertMany ds).types := by
  induction ds generalizing index with
  | nil => exact h
  | cons d rest ih => exact ih (ascending_place d h)

theorem find?_insertMany (index : ClassIndex) (ds : List TypeDescriptor) (name : String) :
    (index.insertMany ds).find? name = (last? (isNamed name) ds).or (index.find? name) := by
  induction ds generalizing index with
  | nil => rfl
  | cons d rest ih =>
    change ((index.insert d).insertMany rest).find? name = _
    rw [ih, find?_insert, last?_cons, Option.or_assoc]
    by_cases hname : d.binaryName = name <;> simp [isNamed, hname]

theorem lookup_dotted_insertMany (index : ClassIndex) (ds : List TypeDescriptor) (name : String) :
    (index.insertMany ds).dotted.lookup name =
      ((last? (isNestedAs name) ds).map binaryName).or (index.dotted.lookup name) := by
  induction ds generalizing index with
  | nil => rfl
  | cons d rest ih =>
    change ((index.insert d).insertMany rest).dotted.lookup name = _
    rw [ih, lookup_dotted_insert, last?_cons]
    cases last? (isNestedAs name) rest <;> cases hnested : d.isNestedAs name <;> simp

theorem mem_dotted_insertMany {index : ClassIndex} {ds : List TypeDescriptor}
    {entry : String × String} (h : entry ∈ (index.insertMany ds).dotted) :
    entry ∈ index.dotted ∨ ∃ d ∈ ds, d.binaryName = entry.2 := by
  induction ds generalizing index with
  | nil => exact .inl h
  | cons d rest ih =>
    rcases ih h with h | ⟨e, he, hname⟩
    · change entry ∈ if d.isTopLevel then _ else _ at h
      split at h
      · exact .inl h
      · rcases List.mem_cons.mp h with rfl | h
        · exact .inr ⟨d, List.mem_cons_self, rfl⟩
        · exact .inl h
    · exact .inr ⟨e, List.mem_cons_of_mem _ he, hname⟩

theorem ascending_ofList (ds : List TypeDescriptor) : Ascending (ofList ds).types := by
  have hempty : Ascending empty.types := List.Pairwise.nil
  exact ascending_insertMany hempty ds

theorem find?_ofList_eq (ds : List TypeDescriptor) (name : String) :
    (ofList ds).find? name = last? (isNamed name) ds :=
  (find?_insertMany empty ds name).trans Option.or_none

theorem mem_ofList : d ∈ (ofList ds).types ↔ last? (isNamed d.binaryName) ds = some d := by
  rw [← find?_ofList_eq]
  constructor
  · exact (ascending_ofList ds).find?_isNamed
  · exact List.mem_of_find?_eq_some

theorem exists_mem_ofList (hd : d ∈ ds) :
    ∃ e ∈ (ofList ds).types, e.binaryName = d.binaryName := by
  obtain ⟨e, he⟩ := exists_last? hd (isNamed_iff.mpr rfl)
  have hname : e.binaryName = d.binaryName := isNamed_iff.mp (List.find?_some he)
  rw [← hname] at he
  exact ⟨e, mem_ofList.mpr he, hname⟩

/-- The last descriptor that passes a test of its binary name is in the index. -/
theorem mem_ofList_of_last? (h : last? test ds = some d)
    (htest : ∀ e, e.binaryName = d.binaryName → test e = test d) : d ∈ (ofList ds).types :=
  mem_ofList.mpr (last?_isNamed h htest)

theorem lookup_ofList (ds : List TypeDescriptor) (name : String) :
    (ofList ds).lookup name = (last? (isNamed name) ds).or (last? (isNestedAs name) ds) := by
  have hdotted : (ofList ds).dotted.lookup name = (last? (isNestedAs name) ds).map binaryName :=
    (lookup_dotted_insertMany empty ds name).trans Option.or_none
  unfold lookup
  rw [hdotted, find?_ofList_eq]
  cases last? (isNamed name) ds with
  | some d => rfl
  | none =>
    cases hnested : last? (isNestedAs name) ds with
    | none => rfl
    | some d =>
      have hd := mem_ofList_of_last? hnested fun e he => isNestedAs_of_binaryName_eq he
      exact (ascending_ofList ds).find?_isNamed hd

theorem mem_of_lookup_ofList {name : String} (h : (ofList ds).lookup name = some d) :
    d ∈ (ofList ds).types := by
  rw [lookup_ofList] at h
  rcases Option.or_eq_some_iff.mp h with h | ⟨-, h⟩
  · refine mem_ofList_of_last? h fun e he => ?_
    rw [isNamed, isNamed, he]
  · exact mem_ofList_of_last? h fun e he => isNestedAs_of_binaryName_eq he

theorem size_ofList (ds : List TypeDescriptor) :
    (ofList ds).size = (ds.map binaryName).dedup.length := by
  have hperm : ((ofList ds).types.map binaryName).Perm (ds.map binaryName).dedup := by
    have hnodup := (ascending_ofList ds).names_nodup
    refine (List.perm_ext_iff_of_nodup hnodup (List.nodup_dedup _)).mpr ?_
    intro name
    rw [List.mem_dedup]
    constructor
    · intro hname
      obtain ⟨d, hd, rfl⟩ := List.mem_map.mp hname
      exact List.mem_map_of_mem (mem_of_last? (mem_ofList.mp hd))
    · intro hname
      obtain ⟨d, hd, rfl⟩ := List.mem_map.mp hname
      obtain ⟨e, he, hsame⟩ := exists_mem_ofList hd
      exact List.mem_map.mpr ⟨e, he, hsame⟩
  rw [size, ← hperm.length_eq, List.length_map]

theorem exists_of_mem_dotted_ofList {entry : String × String} (h : entry ∈ (ofList ds).dotted) :
    ∃ d ∈ (ofList ds).types, d.binaryName = entry.2 := by
  rcases mem_dotted_insertMany h with h | ⟨d, hd, hname⟩
  · cases h
  · obtain ⟨e, he, hsame⟩ := exists_mem_ofList hd
    exact ⟨e, he, hsame.trans hname⟩

end ClassIndex

/-- How an index comes about: a run of insertions and merges that starts with the empty index. What
is merged in has come about in the same way. -/
inductive IndexHistory where
  | start
  | insert (before : IndexHistory) (d : TypeDescriptor)
  | merge (before other : IndexHistory)

namespace IndexHistory

def index : IndexHistory → ClassIndex
  | start => .empty
  | insert before d => before.index.insert d
  | merge before other => before.index.merge other.index

/-- The descriptors in the order of their insertion. A merge inserts what the other index lists. -/
def inserted : IndexHistory → List TypeDescriptor
  | start => []
  | insert before d => before.inserted ++ [d]
  | merge before other => before.inserted ++ other.index.types

theorem index_eq_ofList (h : IndexHistory) : h.index = .ofList h.inserted := by
  induction h with
  | start => rfl
  | insert before d ih =>
    change before.index.insert d = (before.inserted ++ [d]).foldl ClassIndex.insert .empty
    rw [List.foldl_append, ih]
    rfl
  | merge before other ih _ =>
    change other.index.types.foldl ClassIndex.insert before.index =
      (before.inserted ++ other.index.types).foldl ClassIndex.insert .empty
    rw [List.foldl_append, ih]
    rfl

/-- What an index lists and finds after any run of insertions and merges. -/
theorem index_answers (h : IndexHistory) :
    Ascending h.index.types ∧
    (∀ d, d ∈ h.index.types ↔ last? (isNamed d.binaryName) h.inserted = some d) ∧
    h.index.size = (h.inserted.map binaryName).dedup.length ∧
    (∀ package, (h.index.packageMembers package).Sublist h.index.types ∧
      ∀ d, d ∈ h.index.packageMembers package ↔
        d ∈ h.index.types ∧ '$' ∉ d.binaryName.toList ∧ d.LiesIn package) ∧
    (∀ name, h.index.lookup name =
      (last? (isNamed name) h.inserted).or (last? (isNestedAs name) h.inserted)) ∧
    (∀ name d, h.index.lookup name = some d → d ∈ h.index.types) ∧
    (∀ d ∈ h.index.types, h.index.lookup d.binaryName = some d) ∧
    ∀ entry ∈ h.index.dotted, ∃ d ∈ h.index.types, d.binaryName = entry.2 := by
  rw [index_eq_ofList]
  refine ⟨ClassIndex.ascending_ofList _, fun d => ClassIndex.mem_ofList, ClassIndex.size_ofList _,
    ?_, ClassIndex.lookup_ofList _, fun name d => ClassIndex.mem_of_lookup_ofList, ?_,
    fun entry => ClassIndex.exists_of_mem_dotted_ofList⟩
  · intro package
    refine ⟨List.filter_sublist, fun d => ?_⟩
    rw [ClassIndex.packageMembers, List.mem_filter, Bool.and_eq_true, beq_iff_eq]
    refine and_congr_right fun _ => ?_
    constructor
    · rintro ⟨htop, hpackage⟩
      exact ⟨isTopLevel_iff.mp htop, (package_eq_iff htop).mp hpackage⟩
    · rintro ⟨hsign, hlies⟩
      exact ⟨isTopLevel_iff.mpr hsign, hlies.package_eq (isTopLevel_iff.mpr hsign)⟩
  · intro d hd
    rw [ClassIndex.lookup_ofList, ClassIndex.mem_ofList.mp hd, Option.some_or]

end IndexHistory
end TypeScribe
