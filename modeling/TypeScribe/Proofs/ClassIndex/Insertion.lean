import TypeScribe.ClassIndex.Basic

/-!
# Insertion into a class index

An inserted descriptor is found under its binary name and changes nothing else. So the index of
descriptors with different binary names holds every one of them.
-/
namespace TypeScribe.ClassIndex
set_option autoImplicit false

theorem find?_place (d : TypeDescriptor) (types : List TypeDescriptor) (name : String) :
    (place d types).find? (fun t => t.binaryName == name) =
      if d.binaryName = name then some d else types.find? fun t => t.binaryName == name := by
  induction types with
  | nil =>
    by_cases hname : d.binaryName = name <;> simp [place, hname]
  | cons t rest ih =>
    by_cases hname : d.binaryName = name
    · subst hname
      rw [place, if_pos rfl]
      split
      · simp
      · split
        · simp
        · next _ hne =>
          have hother : ¬ t.binaryName = d.binaryName := fun heq => hne heq.symm
          simpa [hother] using ih
    · rw [if_neg hname] at ih ⊢
      rw [place]
      split
      · simp [hname]
      · split
        · next _ heq =>
          have hother : ¬ t.binaryName = name := fun ht => hname (heq.trans ht)
          simp [hname, hother]
        · rw [List.find?_cons, List.find?_cons, ih]

theorem find?_insert (index : ClassIndex) (d : TypeDescriptor) (name : String) :
    (index.insert d).find? name = if d.binaryName = name then some d else index.find? name :=
  find?_place d index.types name

theorem find?_insertMany_of_forall_ne (index : ClassIndex) {ds : List TypeDescriptor} {name : String}
    (h : ∀ d ∈ ds, d.binaryName ≠ name) : (index.insertMany ds).find? name = index.find? name := by
  induction ds generalizing index with
  | nil => rfl
  | cons d rest ih =>
    obtain ⟨hd, hrest⟩ := List.forall_mem_cons.mp h
    change ((index.insert d).insertMany rest).find? name = _
    rw [ih _ hrest, find?_insert, if_neg hd]

theorem find?_ofList {ds : List TypeDescriptor} (hnodup : (ds.map TypeDescriptor.binaryName).Nodup)
    {d : TypeDescriptor} (hd : d ∈ ds) : (ofList ds).find? d.binaryName = some d := by
  -- What is inserted after `d` has other names.
  obtain ⟨before, after, rfl⟩ := List.append_of_mem hd
  have hafter : ∀ e ∈ after, e.binaryName ≠ d.binaryName := by
    intro e he heq
    rw [List.map_append, List.map_cons] at hnodup
    have htail := (List.nodup_cons.mp (List.nodup_append.mp hnodup).2.1).1
    exact htail (heq ▸ List.mem_map_of_mem he)
  have hsplit : ofList (before ++ d :: after) = ((ofList before).insert d).insertMany after :=
    List.foldl_append
  rw [hsplit, find?_insertMany_of_forall_ne _ hafter, find?_insert, if_pos rfl]

theorem lookup_of_find? {index : ClassIndex} {name : String} {d : TypeDescriptor}
    (h : index.find? name = some d) : index.lookup name = some d := by
  rw [lookup, h]

end TypeScribe.ClassIndex
