import TypeScribe.Proofs.ClassIndex.BinaryNames
import TypeScribe.Proofs.Resolution.Lexical

/-!
# The index of a unit

The declarations of a unit are reached along paths. Under plain names, told apart among
neighbours, the index of the unit has one entry for each path: its binary name and its dotted name
both lead to it, and the package can be read off it again.
-/
namespace TypeScribe
set_option autoImplicit false
open TypeDescriptor

/-- The names along a path, from the top-level declaration inwards. -/
def pathNames (scope : Scope) : List String := scope.reverse.map TypeDecl.name

theorem exists_pathNames_cons (decl : TypeDecl) (outer : Scope) :
    ∃ first rest, pathNames (decl :: outer) = first :: rest ∧ (rest = [] ↔ outer = []) := by
  rcases List.eq_nil_or_concat' outer with rfl | ⟨between, top, rfl⟩
  · exact ⟨decl.name, [], rfl, by simp⟩
  · exact ⟨top.name, pathNames (decl :: between), by simp [pathNames], by simp [pathNames]⟩

namespace CompilationUnit

variable {u : CompilationUnit}

theorem packageName_sign (hpackage : ∀ name ∈ u.packageName, nestingSign ∉ name.toList) :
    nestingSign ∉ (u.packageName.getD "").toList := by
  cases hname : u.packageName with
  | none => exact List.not_mem_nil
  | some package => exact hpackage package hname

theorem packageQualifier_sign (hpackage : ∀ name ∈ u.packageName, nestingSign ∉ name.toList) :
    nestingSign ∉ u.packageQualifier.toList := by
  rw [packageQualifier_eq]
  exact packageLead_sign (packageName_sign hpackage)

/-- The package can be read off the binary name of a declaration. -/
theorem package_ofBinaryName (hpackage : ∀ name ∈ u.packageName, nestingSign ∉ name.toList)
    {first : String} {rest : List String} (hnames : ∀ s ∈ first :: rest, IsPlainName s)
    (isInterface : Bool) :
    (ofBinaryName (u.packageQualifier ++ Text.joinWith "$" (first :: rest)) isInterface).package =
      u.packageName.getD "" := by
  rw [packageQualifier_eq]
  exact package_joined (packageName_sign hpackage) hnames isInterface

theorem hasPath_of_mem_sites {classPath : ClassIndex} {s : Site} (hs : s ∈ u.sites classPath) :
    u.HasPath s.path := by
  have hwithin {t : Site} (ht : u.HasPath t.path) (hs : s ∈ t :: t.within) : u.HasPath s.path := by
    induction t using Site.inductionOn with
    | step t ih =>
      rcases List.mem_cons.mp hs with rfl | hs
      · exact ht
      · rw [Site.within_eq] at hs
        obtain ⟨e, he, hs⟩ := List.mem_flatMap.mp hs
        refine ih e he ?_ hs
        have hdecl : e.decl ∈ TypeDecl.nestedTypes t.decl := by
          rw [← t.nested_decls]
          exact List.mem_map_of_mem he
        rw [Site.path, Site.scope_of_mem_nested he]
        exact ht.nested hdecl
  obtain ⟨root, hroot, hs⟩ := List.mem_flatMap.mp hs
  refine hwithin ?_ hs
  rw [Site.path, (mem_roots hroot).2.1]
  refine .top ?_
  rw [← u.roots_decls classPath]
  exact List.mem_map_of_mem hroot

theorem HasPath.of_forall_sites {P : TypeDecl → Prop} (h : ∀ s ∈ u.sites .empty, P s.decl)
    (decl : TypeDecl) (outer : Scope) (hpath : u.HasPath (decl :: outer)) : P decl := by
  obtain ⟨s, hs, hscope⟩ := hpath.exists_site .empty
  obtain ⟨rfl, -⟩ := List.cons.inj hscope
  exact h s hs

/-- The name of the declaration that a path ends in, with a sign between nested names. -/
def nameAlong (u : CompilationUnit) (sign : String) (scope : Scope) : String :=
  u.packageQualifier ++ Text.joinWith sign (pathNames scope)

theorem binaryName_site (u : CompilationUnit) (s : Site) :
    s.binaryName u.packageQualifier = u.nameAlong "$" s.path := by
  rw [Site.binaryName, qualifierOf_append, nameAlong, pathNames, Site.path, List.reverse_cons,
    List.map_append]
  rfl

theorem qualifiedName_site (hpackage : ∀ name ∈ u.packageName, nestingSign ∉ name.toList) {s : Site}
    (hplain : ∀ name ∈ pathNames s.path, IsPlainName name) :
    (s.descriptor u.packageQualifier).qualifiedName = u.nameAlong "." s.path := by
  change (s.binaryName u.packageQualifier).map dotted = _
  rw [binaryName_site, nameAlong, map_dotted_append, map_dotted_eq (packageQualifier_sign hpackage),
    map_dotted_joinWith fun name hname => (hplain name hname).2]
  rfl

theorem isTopLevel_site (hpackage : ∀ name ∈ u.packageName, nestingSign ∉ name.toList) {s : Site}
    (hplain : ∀ name ∈ pathNames s.path, IsPlainName name) :
    (s.descriptor u.packageQualifier).isTopLevel = true ↔ s.context.scope = [] := by
  have hname : IsPlainName (TypeDecl.name s.decl) :=
    hplain _ (List.mem_map_of_mem (List.mem_reverse.mpr List.mem_cons_self))
  have hqualifier := packageQualifier_sign hpackage
  rw [isTopLevel_iff]
  change nestingSign ∉ (qualifierOf u.packageQualifier s.context.scope ++ s.decl.name).toList ↔ _
  cases s.context.scope with
  | nil => simp [qualifierOf, hqualifier, hname.2]
  | cons outer rest => simp [qualifierOf]

/-- The dotted name of a nested declaration is nobody's binary name. -/
theorem nameAlong_ne {scope scope' : Scope} (hplain : ∀ name ∈ pathNames scope, IsPlainName name)
    {decl outer : TypeDecl} {rest : Scope} (hscope' : scope' = decl :: outer :: rest)
    (hplain' : ∀ name ∈ pathNames scope', IsPlainName name) :
    u.nameAlong "$" scope ≠ u.nameAlong "." scope' := by
  intro heq
  obtain ⟨first, others, hnames, hothers⟩ := exists_pathNames_cons decl (outer :: rest)
  rw [← hscope'] at hnames
  have hjoined := (String.append_right_inj _).mp heq
  -- Cut at dots, the one text is a single segment and the other one has them all.
  have hone : Text.segments (· == '.') (Text.joinWith "$" (pathNames scope)) =
      [Text.joinWith "$" (pathNames scope)] := by
    refine Text.segments_of_notMem ?_
    exact @Text.notMem_joinWith '$' '.' (by decide) _ fun name hname => (hplain name hname).1
  rw [hnames] at hjoined hplain'
  rw [hjoined] at hone
  have hmany := @Text.segments_joinWith '.' first others fun name hname => (hplain' name hname).1
  obtain ⟨-, hnil⟩ := List.cons.inj (hmany.symm.trans hone)
  cases hothers.mp hnil

theorem pathNames_eq_of_nameAlong_eq {decl decl' : TypeDecl} {outer outer' : Scope}
    (hplain : ∀ name ∈ pathNames (decl :: outer), IsPlainName name)
    (hplain' : ∀ name ∈ pathNames (decl' :: outer'), IsPlainName name)
    (h : u.nameAlong "." (decl :: outer) = u.nameAlong "." (decl' :: outer')) :
    pathNames (decl :: outer) = pathNames (decl' :: outer') := by
  have hjoined := (String.append_right_inj _).mp h
  obtain ⟨first, rest, hnames, -⟩ := exists_pathNames_cons decl outer
  obtain ⟨first', rest', hnames', -⟩ := exists_pathNames_cons decl' outer'
  rw [hnames, hnames'] at hjoined ⊢
  rw [hnames] at hplain
  rw [hnames'] at hplain'
  have hleft := @Text.segments_joinWith '.' first rest fun name hname => (hplain name hname).1
  have hright := @Text.segments_joinWith '.' first' rest' fun name hname => (hplain' name hname).1
  exact hleft.symm.trans ((congrArg (Text.segments (· == '.')) hjoined).trans hright)

namespace WellNamed

variable {classPath : ClassIndex}

theorem pathNames_plain (h : u.WellNamed classPath) {s : Site} (hs : s ∈ u.sites classPath) :
    ∀ name ∈ pathNames s.path, IsPlainName name := by
  intro name hname
  obtain ⟨decl, hdecl, rfl⟩ := List.mem_map.mp hname
  exact h.path_plain hs (List.mem_reverse.mp hdecl)

theorem site_eq (h : u.WellNamed classPath) {s t : Site} (hs : s ∈ u.sites classPath)
    (ht : t ∈ u.sites classPath) (hnames : pathNames s.path = pathNames t.path) : s = t := by
  refine List.inj_on_of_nodup_map h.names_nodup hs ht ?_
  rw [pathNames, pathNames, List.map_reverse, List.map_reverse] at hnames
  exact List.reverse_inj.mp hnames

theorem lookup_dotted (h : u.WellNamed classPath)
    (hpackage : ∀ name ∈ u.packageName, nestingSign ∉ name.toList) {s : Site}
    (hs : s ∈ u.sites classPath) :
    (ClassIndex.ofUnit u).lookup (u.nameAlong "." s.path) =
      some (s.descriptor u.packageQualifier) := by
  cases hscope : s.context.scope with
  | nil =>
    have hname : u.nameAlong "." s.path = s.binaryName u.packageQualifier := by
      rw [binaryName_site, Site.path, hscope]
      rfl
    rw [hname]
    exact h.lookup_declared hs
  | cons outer rest =>
    have hpath : s.path = s.decl :: outer :: rest := by rw [Site.path, hscope]
    have hplain := h.pathNames_plain hs
    have hnobody : last? (isNamed (u.nameAlong "." s.path)) u.descriptors = none := by
      refine last?_eq_none.mpr ?_
      rw [u.descriptors_eq classPath]
      refine List.forall_mem_map.mpr ?_
      intro t ht
      refine beq_eq_false_iff_ne.mpr ?_
      change t.binaryName u.packageQualifier ≠ _
      rw [binaryName_site]
      exact nameAlong_ne (h.pathNames_plain ht) hpath hplain
    have hnested : (s.descriptor u.packageQualifier).isNestedAs (u.nameAlong "." s.path) = true := by
      refine isNestedAs_iff.mpr ⟨?_, qualifiedName_site hpackage hplain⟩
      rw [Bool.eq_false_iff, ne_eq, isTopLevel_site hpackage hplain, hscope]
      exact List.cons_ne_nil outer rest
    have hmem : s.descriptor u.packageQualifier ∈ u.descriptors := by
      rw [u.descriptors_eq classPath]
      exact List.mem_map_of_mem hs
    obtain ⟨d, hd⟩ := exists_last? hmem hnested
    have hdmem := mem_of_last? hd
    rw [u.descriptors_eq classPath] at hdmem
    obtain ⟨t, ht, rfl⟩ := List.mem_map.mp hdmem
    have hdotted : u.nameAlong "." t.path = u.nameAlong "." s.path := by
      rw [← qualifiedName_site hpackage (h.pathNames_plain ht)]
      exact (isNestedAs_iff.mp (List.find?_some hd)).2
    have hsame : t = s := by
      refine h.site_eq ht hs ?_
      exact pathNames_eq_of_nameAlong_eq (h.pathNames_plain ht) hplain hdotted
    rw [ClassIndex.ofUnit, ClassIndex.lookup_ofList, hnobody, hd, hsame]
    rfl

end WellNamed

/-- The index of a unit has one entry for each path to a declaration. Its binary name and its dotted
name both lead to that entry, which describes the declaration at the end of the path. -/
theorem index_enumerates_declarations (u : CompilationUnit)
    (hpackage : ∀ package ∈ u.packageName, nestingSign ∉ package.toList)
    (hplain : ∀ decl outer, u.HasPath (decl :: outer) → IsPlainName (TypeDecl.name decl))
    (htop : (u.types.map TypeDecl.name).Nodup)
    (hnested : ∀ decl outer, u.HasPath (decl :: outer) →
      ((TypeDecl.nestedTypes decl).map TypeDecl.name).Nodup) :
    ((ClassIndex.ofUnit u).types.map binaryName).Nodup ∧
    (∀ d ∈ (ClassIndex.ofUnit u).types,
      ∃! scope, u.HasPath scope ∧ d.binaryName = u.nameAlong "$" scope) ∧
    ∀ decl outer, u.HasPath (decl :: outer) →
      ∃ d ∈ (ClassIndex.ofUnit u).types,
        (ClassIndex.ofUnit u).lookup (u.nameAlong "$" (decl :: outer)) = some d ∧
        (ClassIndex.ofUnit u).lookup (u.nameAlong "." (decl :: outer)) = some d ∧
        d.binaryName = u.nameAlong "$" (decl :: outer) ∧
        d.simpleName = decl.name ∧
        d.package = u.packageName.getD "" ∧
        (d.isTopLevel = true ↔ outer = []) ∧
        d.isInterface = decl.isInterface ∧
        d.memberNames = decl.members.flatMap Member.names := by
  have h : u.WellNamed .empty := {
    plain := fun s hs => hplain s.decl s.context.scope (hasPath_of_mem_sites hs)
    top := htop
    nested := fun s hs => hnested s.decl s.context.scope (hasPath_of_mem_sites hs) }
  refine ⟨(ClassIndex.ascending_ofList _).names_nodup, ?_, ?_⟩
  · intro d hd
    have hdeclared := mem_of_last? (ClassIndex.mem_ofList.mp hd)
    rw [u.descriptors_eq .empty] at hdeclared
    obtain ⟨s, hs, rfl⟩ := List.mem_map.mp hdeclared
    refine ⟨s.path, ⟨hasPath_of_mem_sites hs, u.binaryName_site s⟩, ?_⟩
    rintro scope ⟨hscope, hname⟩
    obtain ⟨t, ht, rfl⟩ := hscope.exists_site .empty
    have hnames : t.names = s.names := by
      refine Site.names_eq_of_binaryName_eq u.packageQualifier_isTop (fun _ => h.path_plain ht)
        (fun _ => h.path_plain hs) ?_
      rw [u.binaryName_site t]
      exact hname.symm
    rw [List.inj_on_of_nodup_map h.names_nodup ht hs hnames]
  · intro decl outer hpath
    obtain ⟨s, hs, hscope⟩ := hpath.exists_site .empty
    obtain ⟨rfl, rfl⟩ := List.cons.inj hscope
    have hplain := h.pathNames_plain hs
    have hbinary := u.binaryName_site s
    have hlookup := h.lookup_declared hs
    refine ⟨s.descriptor u.packageQualifier, ClassIndex.mem_of_lookup_ofList hlookup, ?_,
      h.lookup_dotted hpackage hs, hbinary, ?_, ?_, isTopLevel_site hpackage hplain, rfl, rfl⟩
    · rw [← hlookup, hbinary]
      rfl
    · have hend : EndsIn (TypeDecl.name s.decl) (s.binaryName u.packageQualifier) :=
        ⟨_, qualifierOf_endsApart u.packageQualifier_isTop s.context.scope, rfl⟩
      exact hend.lastName_eq (h.plain s hs)
    · obtain ⟨first, rest, hnames, -⟩ := exists_pathNames_cons s.decl s.context.scope
      change (ofBinaryName (s.binaryName u.packageQualifier) s.decl.isInterface).package = _
      rw [hbinary, nameAlong]
      rw [Site.path] at hplain ⊢
      rw [hnames] at hplain ⊢
      exact package_ofBinaryName hpackage hplain _

theorem nestedInterfaces_indexed :
    Samples.nestedInterfaces.packageName = some "test" ∧
      ∃ d ∈ (ClassIndex.ofUnit Samples.nestedInterfaces).types,
        (ClassIndex.ofUnit Samples.nestedInterfaces).lookup "test.Test5$C$E" = some d ∧
        (ClassIndex.ofUnit Samples.nestedInterfaces).lookup "test.Test5.C.E" = some d ∧
        d.simpleName = "E" ∧ d.package = "test" ∧ d.isTopLevel = false ∧ d.isInterface = false ∧
        d.memberNames = ["e"] := by
  refine ⟨rfl, ?_⟩
  let s := (Samples.nestedInterfaces.sites .empty).get ⟨5, by decide⟩
  have hpath : Samples.nestedInterfaces.HasPath s.path := hasPath_of_mem_sites (List.get_mem _ _)
  obtain ⟨d, hd, hbinary, hdotted, -, hsimple, hpackage, htop, hinterface, hmembers⟩ :=
    (index_enumerates_declarations Samples.nestedInterfaces (by decide)
      (HasPath.of_forall_sites (by decide)) (by decide)
      (HasPath.of_forall_sites (by decide))).2.2 s.decl s.context.scope hpath
  refine ⟨d, hd, hbinary, hdotted, hsimple, hpackage, ?_, hinterface, hmembers⟩
  rw [Bool.eq_false_iff, ne_eq, htop]
  exact List.cons_ne_nil _ _

end CompilationUnit
end TypeScribe
