import TypeScribe.ClassIndex.Format
import TypeScribe.Proofs.ClassIndex.History
import TypeScribe.Proofs.Json.Reread

/-!
# The text form of a class index

An index is read back from the text that is written for it with the types that it lists. The order of
their insertion is not written. So a dotted name that several nested types share may come to denote
another one of them, the last in ascending order.
-/
namespace TypeScribe
set_option autoImplicit false
open TypeDescriptor

theorem mapM_map_of_eq_some {α β : Type} {f : α → β} {g : β → Option α}
    (h : ∀ a, g (f a) = some a) (as : List α) : (as.map f).mapM g = some as := by
  induction as with
  | nil => rfl
  | cons a rest ih => simp [h, ih]

theorem TypeDescriptor.ofJson?_toJson (d : TypeDescriptor) : ofJson? d.toJson = some d := by
  have hstring (s : String) : Json.string? (.string s) = some s := rfl
  have hnames : namesOfJson? (.ofStrings d.memberNames) = some d.memberNames :=
    mapM_map_of_eq_some hstring d.memberNames
  simp [ofJson?, toJson, Json.record?, Json.Entries.required, Json.Entries.defaulted,
    Json.Entries.field?, Json.string?, Json.bool?, hnames]

theorem ClassIndex.ofJson?_toJson (index : ClassIndex) :
    ofJson? index.toJson = some (ofList index.types) := by
  have htypes : descriptorsOfJson? (.array (index.types.map TypeDescriptor.toJson)) =
      some index.types :=
    mapM_map_of_eq_some TypeDescriptor.ofJson?_toJson index.types
  simp [ofJson?, toJson, Json.record?, Json.Entries.defaulted, Json.Entries.field?, htypes]

namespace Json

theorem areWordy_map {α : Type} {f : α → Json} (h : ∀ a, (f a).isWordy = true) (as : List α) :
    areWordy (as.map f) = true := by
  induction as with
  | nil => rfl
  | cons a rest ih => exact Bool.and_eq_true_iff.mpr ⟨h a, ih⟩

theorem depthElements_map_le {α : Type} {f : α → Json} {limit : Nat} (h : ∀ a, (f a).depth ≤ limit)
    (as : List α) : depthElements (as.map f) ≤ limit := by
  induction as with
  | nil => exact Nat.zero_le _
  | cons a rest ih => exact Nat.max_le.mpr ⟨h a, ih⟩

end Json

theorem TypeDescriptor.isWordy_toJson (d : TypeDescriptor) : d.toJson.isWordy = true := by
  have hnames : Json.areWordy (d.memberNames.map .string) = true :=
    Json.areWordy_map (fun _ => rfl) _
  simp [toJson, Json.ofStrings, Json.isWordy, Json.areEntriesWordy, hnames]

theorem TypeDescriptor.depth_toJson_le (d : TypeDescriptor) : d.toJson.depth ≤ 3 := by
  have hnames : Json.depthElements (d.memberNames.map .string) ≤ 1 :=
    Json.depthElements_map_le (fun _ => Nat.le_refl 1) _
  simp only [toJson, Json.ofStrings, Json.depth, Json.depthEntries]
  omega

namespace ClassIndex

theorem ofJsonText_toText (index : ClassIndex) :
    ofJsonText index.toText = .ok (ofList index.types) := by
  have hwordy : index.toJson.isWordy = true :=
    Bool.and_eq_true_iff.mpr ⟨Json.areWordy_map isWordy_toJson index.types, rfl⟩
  have hdepth : index.toJson.depth ≤ Json.Reader.nestingLimit := by
    have htypes := Json.depthElements_map_le depth_toJson_le index.types
    simp only [toJson, Json.depth, Json.depthEntries, Json.Reader.nestingLimit]
    omega
  have hread : (Json.scan? index.toText).bind ofJson? = some (ofList index.types) := by
    rw [toText, Json.scan?_pretty hwordy hdepth]
    exact ofJson?_toJson index
  rw [ofJsonText, hread]

end ClassIndex

namespace Ascending

variable {ds : List TypeDescriptor} {d e : TypeDescriptor} {test : TypeDescriptor → Bool}

theorem types_ofList (h : Ascending ds) : (ClassIndex.ofList ds).types = ds := by
  refine (ClassIndex.ascending_ofList ds).ext h fun d => ?_
  rw [ClassIndex.mem_ofList]
  constructor
  · exact mem_of_last?
  · intro hd
    obtain ⟨e, he⟩ := exists_last? hd (isNamed_iff.mpr rfl)
    rw [he, h.eq_of_binaryName_eq (mem_of_last? he) hd (isNamed_iff.mp (List.find?_some he))]

theorem le_of_last? (h : Ascending ds) (hlast : last? test ds = some e) (hd : d ∈ ds)
    (htest : test d = true) : d.binaryName ≤ e.binaryName := by
  obtain ⟨-, after, before, hsplit, hafter⟩ := List.find?_eq_some_iff_append.mp hlast
  obtain rfl : ds = before.reverse ++ e :: after.reverse := by
    rw [← List.reverse_reverse ds, hsplit]
    simp
  rcases List.mem_append.mp hd with hd | hd
  · exact le_of_lt ((List.pairwise_append.mp h).2.2 d hd e List.mem_cons_self)
  · rcases List.mem_cons.mp hd with rfl | hd
    · exact le_refl _
    · have hfails := hafter d (List.mem_reverse.mp hd)
      rw [htest] at hfails
      cases hfails

/-- Of the descriptors that pass a test, the greatest is the last. -/
theorem last?_eq_some (h : Ascending ds) (hd : d ∈ ds) (htest : test d = true)
    (hgreatest : ∀ e ∈ ds, test e = true → e.binaryName ≤ d.binaryName) :
    last? test ds = some d := by
  obtain ⟨e, he⟩ := exists_last? hd htest
  have hle := hgreatest e (mem_of_last? he) (List.find?_some he)
  rw [he, h.eq_of_binaryName_eq (mem_of_last? he) hd (le_antisymm hle (h.le_of_last? he hd htest))]

end Ascending

namespace ClassIndex

variable {ds : List TypeDescriptor} {d : TypeDescriptor} {name : String}

/-- Listing an index and inserting what it lists gives the same list. -/
theorem types_relisted (ds : List TypeDescriptor) :
    (ofList (ofList ds).types).types = (ofList ds).types :=
  (ascending_ofList ds).types_ofList

theorem find?_relisted (ds : List TypeDescriptor) (name : String) :
    (ofList (ofList ds).types).find? name = (ofList ds).find? name := by
  rw [find?, types_relisted]
  rfl

/-- A nested type with the dotted name is listed if one was inserted. -/
theorem last?_isNestedAs_relisted
    (hshared : ∀ d ∈ (ofList ds).types, ∀ e ∈ (ofList ds).types,
      d.isNestedAs name → e.isNestedAs name → d.binaryName = e.binaryName) :
    last? (isNestedAs name) (ofList ds).types = last? (isNestedAs name) ds := by
  cases hlast : last? (isNestedAs name) ds with
  | none =>
    refine last?_eq_none.mpr fun d hd => ?_
    exact last?_eq_none.mp hlast d (mem_of_last? (mem_ofList.mp hd))
  | some d =>
    have hd := mem_ofList_of_last? hlast fun e he => isNestedAs_of_binaryName_eq he
    have hnested := List.find?_some hlast
    refine (ascending_ofList ds).last?_eq_some hd hnested fun e he hother => ?_
    exact le_of_eq (hshared e he d hd hother hnested)

theorem lookup_relisted
    (hshared : ∀ d ∈ (ofList ds).types, ∀ e ∈ (ofList ds).types,
      d.isNestedAs name → e.isNestedAs name → d.binaryName = e.binaryName) :
    (ofList (ofList ds).types).lookup name = (ofList ds).lookup name := by
  rw [lookup_ofList, lookup_ofList, last?_isNestedAs_relisted hshared, ← find?_ofList_eq,
    find?_relisted, find?_ofList_eq]

end ClassIndex

namespace IndexHistory

open ClassIndex in
/-- The text of an index is read back as an index with the same types. A name denotes in it what it
denoted before, unless it is the dotted name of several nested types and no binary name. Then it
denotes the greatest of them. -/
theorem text_reads_back (h : IndexHistory) :
    ∃ reread, ofJsonText h.index.toText = .ok reread ∧
      reread.types = h.index.types ∧
      (∀ package, reread.packageMembers package = h.index.packageMembers package) ∧
      (∀ name, (∀ d ∈ h.index.types, ∀ e ∈ h.index.types,
          d.isNestedAs name → e.isNestedAs name → d.binaryName = e.binaryName) →
        reread.lookup name = h.index.lookup name) ∧
      (∀ d ∈ h.index.types,
        h.index.lookup d.binaryName = some d ∧ reread.lookup d.binaryName = some d) ∧
      ∀ name, (∀ e ∈ h.index.types, e.binaryName ≠ name) → ∀ d ∈ h.index.types, d.isNestedAs name →
        (∀ e ∈ h.index.types, e.isNestedAs name → e.binaryName ≤ d.binaryName) →
        reread.lookup name = some d := by
  rw [index_eq_ofList]
  have htypes := types_relisted h.inserted
  refine ⟨_, ofJsonText_toText _, htypes, ?_, fun name => lookup_relisted, ?_, ?_⟩
  · intro package
    rw [packageMembers, htypes, packageMembers]
  · intro d hd
    have hlast := mem_ofList.mp hd
    rw [lookup_ofList, lookup_ofList, ← find?_ofList_eq, ← find?_ofList_eq, find?_relisted,
      find?_ofList_eq, hlast]
    exact ⟨rfl, rfl⟩
  · intro name hmissing d hd hnested hgreatest
    have hnone : last? (isNamed name) (ofList h.inserted).types = none := by
      refine last?_eq_none.mpr fun e he => ?_
      exact beq_eq_false_iff_ne.mpr (hmissing e he)
    rw [lookup_ofList, hnone, (ascending_ofList h.inserted).last?_eq_some hd hnested hgreatest]
    rfl

/-- A top-level type and two nested types whose dotted name is its binary name. -/
def homonyms : IndexHistory :=
  ((start.insert (ofBinaryName "a.B.C" false)).insert (ofBinaryName "a.B$C" false)).insert
    (ofBinaryName "a$B$C" false)

/-- A dotted name that several nested types share need not denote the greatest of them in the index
read back: it may be the binary name of a third type. -/
theorem shared_name_not_greatest :
    ¬ ∀ (h : IndexHistory) (reread : ClassIndex), ClassIndex.ofJsonText h.index.toText = .ok reread →
      ∀ name, ∀ d ∈ h.index.types, ∀ e ∈ h.index.types,
        d.isNestedAs name → e.isNestedAs name → d.binaryName ≠ e.binaryName →
        (∀ e ∈ h.index.types, e.isNestedAs name → e.binaryName ≤ d.binaryName) →
        reread.lookup name = some d := by
  intro hall
  have hgreatest := hall homonyms _ (ClassIndex.ofJsonText_toText _) "a.B.C"
    (ofBinaryName "a.B$C" false) (by decide) (ofBinaryName "a$B$C" false) (by decide)
    (by decide +kernel) (by decide +kernel) (by decide) (by decide +kernel)
  exact absurd hgreatest (by decide)

end IndexHistory
end TypeScribe
