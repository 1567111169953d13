import Mathlib.Data.List.Nodup
import TypeScribe.Proofs.ClassIndex.Insertion
import TypeScribe.Proofs.Moves.Site

/-!
# The descriptors of a unit's declarations

A unit declares one descriptor for each of its sites, in source order. The binary name of a site is
the same whether it is spelled from the top down, as the index of the unit does, or from the open
declarations around a place, as the resolver does.
-/
namespace TypeScribe
set_option autoImplicit false

/-- What stands in a binary name before the name of a declaration directly inside a scope. -/
def qualifierOf (qualifier : String) (scope : Scope) : String :=
  scope.foldr (fun d outer => (outer ++ d.name).push nestingSign) qualifier

namespace Site

def binaryName (qualifier : String) (s : Site) : String :=
  qualifierOf qualifier s.context.scope ++ s.decl.name

def descriptor (qualifier : String) (s : Site) : TypeDescriptor :=
  { TypeDescriptor.ofBinaryName (s.binaryName qualifier) s.decl.isInterface with
    memberNames := (TypeDecl.members s.decl).flatMap Member.names }

end Site

theorem descriptorsUnder_append (qualifier : String) (os os' : List Outline) :
    descriptorsUnder qualifier (os ++ os') =
      descriptorsUnder qualifier os ++ descriptorsUnder qualifier os' := by
  induction os with
  | nil => rfl
  | cons o rest ih => simp [descriptorsUnder, ih]

theorem descriptorsUnder_flatMap {α : Type} (qualifier : String) (as : List α)
    (f : α → List Outline) :
    descriptorsUnder qualifier (as.flatMap f) =
      as.flatMap fun a => descriptorsUnder qualifier (f a) := by
  induction as with
  | nil => rfl
  | cons a rest ih => rw [List.flatMap_cons, List.flatMap_cons, descriptorsUnder_append, ih]

theorem outlines_ofList (l : List Member) (cx : Context) :
    (Node.ofList l).outlines =
      ((memberParts cx l).filterMap Part.site?).flatMap fun e => e.decl.outlines := by
  induction l generalizing cx with
  | nil => rfl
  | cons m rest ih =>
    change m.outlines ++ (Node.ofList rest).outlines = _
    rw [ih (cx.child 1)]
    cases m <;> rfl

namespace Site

theorem nested_outlines (s : Site) :
    (TypeDecl.memberNode s.decl).outlines = s.nested.flatMap fun e => e.decl.outlines := by
  obtain ⟨l, hl⟩ := (TypeDecl.memberNode s.decl).exists_ofList
  rw [hl, s.nested_eq hl]
  exact outlines_ofList l _

theorem descriptorsUnder_outlines (qualifier : String) (s : Site) :
    descriptorsUnder (qualifierOf qualifier s.context.scope) s.decl.outlines =
      s.descriptor qualifier ::
        descriptorsUnder (qualifierOf qualifier s.path) (TypeDecl.memberNode s.decl).outlines := by
  obtain ⟨cx, decl⟩ := s
  cases decl <;>
    exact List.append_nil _

theorem descriptors_eq (qualifier : String) (s : Site) :
    descriptorsUnder (qualifierOf qualifier s.context.scope) s.decl.outlines =
      (s :: s.within).map (descriptor qualifier) := by
  induction s using inductionOn with
  | step s ih =>
    rw [descriptorsUnder_outlines, nested_outlines, descriptorsUnder_flatMap, List.map_cons,
      within_eq, List.map_flatMap]
    refine congrArg _ (List.flatMap_congr ?_)
    intro e he
    rw [← ih e he, scope_of_mem_nested he]

end Site

theorem CompilationUnit.descriptors_eq (u : CompilationUnit) (classPath : ClassIndex) :
    u.descriptors = (u.sites classPath).map (Site.descriptor u.packageQualifier) := by
  rw [descriptors, ← u.roots_decls classPath, List.flatMap_map, descriptorsUnder_flatMap, sites,
    List.map_flatMap]
  refine List.flatMap_congr ?_
  intro root hroot
  have hscope := (mem_roots hroot).2.1
  rw [← Site.descriptors_eq, hscope]
  rfl

namespace TypeDescriptor

def dotted (c : Char) : Char := if isNestingSign c then '.' else c

theorem map_dotted_chars {cs : List Char} (h : nestingSign ∉ cs) : cs.map dotted = cs := by
  have hchars : cs.map dotted = cs.map id := by
    refine List.map_congr_left ?_
    intro c hc
    have hne : c ≠ nestingSign := ne_of_mem_of_not_mem hc h
    simp [dotted, isNestingSign, hne]
  rw [hchars, List.map_id]

theorem map_dotted_eq {s : String} (h : nestingSign ∉ s.toList) : s.map dotted = s := by
  refine String.toList_inj.mp ?_
  rw [String.toList_map, map_dotted_chars h]

theorem map_dotted_append (s t : String) : (s ++ t).map dotted = s.map dotted ++ t.map dotted := by
  refine String.toList_inj.mp ?_
  simp [String.toList_map]

theorem map_dotted_push (s : String) : (s.push nestingSign).map dotted = s.map dotted ++ "." := by
  refine String.toList_inj.mp ?_
  simp [String.toList_map, dotted, isNestingSign]

end TypeDescriptor

namespace Site

/-- The names of the declaration and of those around it, innermost first. -/
def names (s : Site) : List String := s.path.map TypeDecl.name

theorem names_of_mem_nested {s e : Site} (h : e ∈ s.nested) :
    e.names = e.decl.name :: s.names := by
  rw [names, path, scope_of_mem_nested h]
  rfl

theorem names_suffix {s e : Site} (h : e ∈ s.within) : ∃ name, name :: s.names <:+ e.names := by
  induction s using inductionOn with
  | step s ih =>
    rw [within_eq] at h
    obtain ⟨d, hd, he⟩ := List.mem_flatMap.mp h
    have hnames := names_of_mem_nested hd
    refine ⟨d.decl.name, ?_⟩
    rw [← hnames]
    rcases List.mem_cons.mp he with rfl | he
    · exact List.suffix_refl _
    · obtain ⟨name, hname⟩ := ih d hd he
      exact (List.suffix_cons _ _).trans hname

theorem siblings_nodup {es : List Site} {outer : List String}
    (hnames : ∀ e ∈ es, e.names = e.decl.name :: outer)
    (hdistinct : (es.map fun e => TypeDecl.name e.decl).Nodup)
    (hinner : ∀ e ∈ es, (e.within.map names).Nodup) :
    ((es.flatMap fun e => e :: e.within).map names).Nodup := by
  rw [List.map_flatMap, List.nodup_flatMap]
  refine ⟨?_, ?_⟩
  · intro e he
    refine List.nodup_cons.mpr ⟨?_, hinner e he⟩
    intro hmem
    obtain ⟨d, hd, hnames⟩ := List.mem_map.mp hmem
    obtain ⟨name, hname⟩ := names_suffix hd
    have hlength := hname.length_le
    rw [hnames] at hlength
    exact Nat.not_succ_le_self _ hlength
  · have hbelow {e d : Site} (he : e ∈ es) (hd : d ∈ e :: e.within) :
        e.decl.name :: outer <:+ d.names := by
      rw [← hnames e he]
      rcases List.mem_cons.mp hd with rfl | hd
      · exact List.suffix_refl _
      · exact (List.suffix_cons _ _).trans (names_suffix hd).choose_spec
    refine List.Pairwise.imp_of_mem ?_ (List.pairwise_map.mp hdistinct)
    intro e e' he he' hne way hway hway'
    obtain ⟨d, hd, rfl⟩ := List.mem_map.mp hway
    obtain ⟨d', hd', heq⟩ := List.mem_map.mp hway'
    refine not_suffix_of_ne hne (hbelow he hd) ?_
    rw [← heq]
    exact hbelow he' hd'

theorem within_names_nodup {s : Site}
    (h : ∀ e ∈ s :: s.within, ((TypeDecl.nestedTypes e.decl).map TypeDecl.name).Nodup) :
    (s.within.map names).Nodup := by
  induction s using inductionOn with
  | step s ih =>
    obtain ⟨hs, hwithin⟩ := List.forall_mem_cons.mp h
    rw [within_eq] at hwithin ⊢
    refine siblings_nodup (fun e he => names_of_mem_nested he) ?_ ?_
    · rw [← s.nested_decls, List.map_map] at hs
      exact hs
    · intro e he
      exact ih e he fun d hd => hwithin d (List.mem_flatMap.mpr ⟨e, he, hd⟩)

end Site

/-- A name that a binary name keeps in one piece. -/
def IsPlainName (name : String) : Prop := '.' ∉ name.toList ∧ nestingSign ∉ name.toList

instance (name : String) : Decidable (IsPlainName name) := inferInstanceAs (Decidable (_ ∧ _))

/-- The text is empty or ends with a sign that no plain name has. -/
def EndsApart (text : List Char) : Prop := ∀ c ∈ text.getLast?, c = '.' ∨ c = nestingSign

theorem plain_suffix_eq {a b n m : List Char} (h : a ++ n = b ++ m) (ha : EndsApart a)
    (hb : EndsApart b) (hn : '.' ∉ n ∧ nestingSign ∉ n) (hm : '.' ∉ m ∧ nestingSign ∉ m) :
    a = b ∧ n = m := by
  -- What the longer one of `a` and `b` has in excess would end with a sign and be plain.
  have hexcess {x y z w : List Char} (hx : x = y ++ z) (hapart : EndsApart x)
      (hz : '.' ∉ z ++ w ∧ nestingSign ∉ z ++ w) : z = [] := by
    cases hlast : z.getLast? with
    | none => exact List.getLast?_eq_none_iff.mp hlast
    | some c =>
      have hmem : c ∈ z ++ w := List.mem_append_left _ (List.mem_of_getLast? hlast)
      have hx' : x.getLast? = some c := by
        rw [hx, List.getLast?_append, hlast]
        rfl
      rcases hapart c hx' with rfl | rfl
      · exact absurd hmem hz.1
      · exact absurd hmem hz.2
  rcases List.append_eq_append_iff.mp h with ⟨c, rfl, rfl⟩ | ⟨c, rfl, rfl⟩
  · cases hexcess rfl hb hn
    simp
  · cases hexcess rfl ha hm
    simp

/-- A qualifier of top-level names: empty, or ending with a dot. -/
def IsTopQualifier (qualifier : String) : Prop := ∀ c ∈ qualifier.toList.getLast?, c = '.'

/-- What stands before the outermost type of a package: its name and a dot, or nothing. -/
def packageLead (package : String) : String := if package.isEmpty then "" else package ++ "."

theorem packageLead_cases (package : String) :
    (package = "" ∧ packageLead package = "") ∨ packageLead package = package ++ "." := by
  by_cases hempty : package = ""
  · subst hempty
    exact .inl ⟨rfl, rfl⟩
  · exact .inr (by simp [packageLead, hempty])

theorem packageLead_isTop (package : String) : IsTopQualifier (packageLead package) := by
  intro c hc
  rcases packageLead_cases package with ⟨-, hlead⟩ | hlead
  · rw [hlead] at hc
    cases hc
  · rw [hlead] at hc
    simpa using hc.symm

theorem CompilationUnit.packageQualifier_eq (u : CompilationUnit) :
    u.packageQualifier = packageLead (u.packageName.getD "") := by
  unfold packageQualifier
  cases u.packageName <;> rfl

theorem CompilationUnit.packageQualifier_isTop (u : CompilationUnit) :
    IsTopQualifier u.packageQualifier := by
  rw [packageQualifier_eq]
  exact packageLead_isTop _

theorem qualifierOf_endsApart {qualifier : String} (h : IsTopQualifier qualifier) (scope : Scope) :
    EndsApart (qualifierOf qualifier scope).toList := by
  intro c hc
  cases scope with
  | nil => exact .inl (h c hc)
  | cons d outer =>
    refine .inr ?_
    simpa [qualifierOf] using hc.symm

theorem qualifierOf_cons_ne {qualifier : String} (hq : IsTopQualifier qualifier) (d : TypeDecl)
    (scope : Scope) : qualifier ≠ qualifierOf qualifier (d :: scope) := by
  intro h
  have hlast : nestingSign ∈ qualifier.toList.getLast? := by
    rw [h]
    simp [qualifierOf]
  exact absurd (hq _ hlast) (by decide)

theorem qualified_eq {qualifier : String} (hq : IsTopQualifier qualifier) {name name' : String}
    {scope scope' : Scope}
    (h : qualifierOf qualifier scope ++ name = qualifierOf qualifier scope' ++ name')
    (hname : IsPlainName name) (hname' : IsPlainName name') :
    qualifierOf qualifier scope = qualifierOf qualifier scope' ∧ name = name' := by
  have hchars := congrArg String.toList h
  rw [String.toList_append, String.toList_append] at hchars
  obtain ⟨hscopes, hnames⟩ := plain_suffix_eq hchars (qualifierOf_endsApart hq scope)
    (qualifierOf_endsApart hq scope') hname hname'
  exact ⟨String.toList_inj.mp hscopes, String.toList_inj.mp hnames⟩

/-- Plain names can be read off the qualifier that they make up. -/
theorem scope_names_eq {qualifier : String} (hq : IsTopQualifier qualifier) {scope scope' : Scope}
    (h : qualifierOf qualifier scope = qualifierOf qualifier scope')
    (hplain : ∀ d ∈ scope, IsPlainName (TypeDecl.name d))
    (hplain' : ∀ d ∈ scope', IsPlainName (TypeDecl.name d)) :
    scope.map TypeDecl.name = scope'.map TypeDecl.name := by
  induction scope generalizing scope' with
  | nil =>
    cases scope' with
    | nil => rfl
    | cons d' outer' => exact absurd h (qualifierOf_cons_ne hq d' outer')
  | cons d outer ih =>
    cases scope' with
    | nil => exact absurd h.symm (qualifierOf_cons_ne hq d outer)
    | cons d' outer' =>
      obtain ⟨hd, houter⟩ := List.forall_mem_cons.mp hplain
      obtain ⟨hd', houter'⟩ := List.forall_mem_cons.mp hplain'
      have hpush : qualifierOf qualifier outer ++ d.name = qualifierOf qualifier outer' ++ d'.name := by
        have hchars := congrArg String.toList h
        simp only [qualifierOf, List.foldr_cons, String.toList_push] at hchars
        exact String.toList_inj.mp (List.append_cancel_right hchars)
      obtain ⟨hscopes, hname⟩ := qualified_eq hq hpush hd hd'
      rw [List.map_cons, List.map_cons, hname, ih hscopes houter houter']

namespace Site

theorem names_eq_of_binaryName_eq {qualifier : String} (hq : IsTopQualifier qualifier) {s t : Site}
    (hs : ∀ d ∈ s.path, IsPlainName (TypeDecl.name d))
    (ht : ∀ d ∈ t.path, IsPlainName (TypeDecl.name d))
    (h : s.binaryName qualifier = t.binaryName qualifier) : s.names = t.names := by
  obtain ⟨hname, hscope⟩ := List.forall_mem_cons.mp hs
  obtain ⟨hname', hscope'⟩ := List.forall_mem_cons.mp ht
  obtain ⟨hscopes, heq⟩ := qualified_eq hq h hname hname'
  rw [names, names, path, path, List.map_cons, List.map_cons, heq,
    scope_names_eq hq hscopes hscope hscope']

theorem mem_path_of_mem_within {s e : Site} (h : e ∈ s.within) {d : TypeDecl} (hd : d ∈ e.path) :
    d ∈ s.path ∨ ∃ t ∈ s.within, t.decl = d := by
  induction s using inductionOn with
  | step s ih =>
    rw [within_eq] at h ⊢
    obtain ⟨t, ht, he⟩ := List.mem_flatMap.mp h
    have hpath : ∀ {d}, d ∈ t.path → d ∈ s.path ∨ t.decl = d := by
      intro d hd
      rw [path, scope_of_mem_nested ht] at hd
      rcases List.mem_cons.mp hd with rfl | hd
      · exact .inr rfl
      · exact .inl hd
    have hself : t ∈ s.nested.flatMap fun e => e :: e.within :=
      List.mem_flatMap.mpr ⟨t, ht, List.mem_cons_self⟩
    have hmem : d ∈ t.path ∨ ∃ t' ∈ t.within, t'.decl = d := by
      rcases List.mem_cons.mp he with rfl | he
      · exact .inl hd
      · exact ih t ht he
    rcases hmem with hd | ⟨t', ht', rfl⟩
    · exact (hpath hd).imp_right fun heq => ⟨t, hself, heq⟩
    · exact .inr ⟨t', List.mem_flatMap.mpr ⟨t, ht, List.mem_cons_of_mem _ ht'⟩, rfl⟩

end Site

namespace CompilationUnit

/-- The declared names have no separators of binary names, and declarations that stand side by side
have different names. -/
structure WellNamed (u : CompilationUnit) (classPath : ClassIndex) : Prop where
  plain : ∀ s ∈ u.sites classPath, IsPlainName (TypeDecl.name s.decl)
  top : (u.types.map TypeDecl.name).Nodup
  nested : ∀ s ∈ u.sites classPath, ((TypeDecl.nestedTypes s.decl).map TypeDecl.name).Nodup

variable {u : CompilationUnit} {classPath : ClassIndex}

theorem mem_sites {root s : Site} (hroot : root ∈ u.roots classPath) (hs : s ∈ root :: root.within) :
    s ∈ u.sites classPath :=
  List.mem_flatMap.mpr ⟨root, hroot, hs⟩

theorem WellNamed.names_nodup (h : u.WellNamed classPath) :
    ((u.sites classPath).map Site.names).Nodup := by
  refine @Site.siblings_nodup (u.roots classPath) [] ?_ ?_ ?_
  · intro root hroot
    rw [Site.names, Site.path, (mem_roots hroot).2.1]
    rfl
  · have htop := h.top
    rw [← u.roots_decls classPath, List.map_map] at htop
    exact htop
  · intro root hroot
    exact Site.within_names_nodup fun s hs => h.nested s (mem_sites hroot hs)

theorem WellNamed.path_plain (h : u.WellNamed classPath) {s : Site} (hs : s ∈ u.sites classPath)
    {d : TypeDecl} (hd : d ∈ s.path) : IsPlainName (TypeDecl.name d) := by
  obtain ⟨root, hroot, hs⟩ := List.mem_flatMap.mp hs
  have hpath {d : TypeDecl} (hd : d ∈ root.path) : IsPlainName (TypeDecl.name d) := by
    rw [Site.path, (mem_roots hroot).2.1, List.mem_singleton] at hd
    rw [hd]
    exact h.plain root (mem_sites hroot List.mem_cons_self)
  rcases List.mem_cons.mp hs with rfl | hs
  · exact hpath hd
  · rcases Site.mem_path_of_mem_within hs hd with hd | ⟨t, ht, rfl⟩
    · exact hpath hd
    · exact h.plain t (mem_sites hroot (List.mem_cons_of_mem _ ht))

theorem WellNamed.binaryNames_nodup (h : u.WellNamed classPath) :
    (u.descriptors.map TypeDescriptor.binaryName).Nodup := by
  rw [u.descriptors_eq classPath, List.map_map]
  refine List.pairwise_map.mpr (List.Pairwise.imp_of_mem ?_ (List.pairwise_map.mp h.names_nodup))
  intro s t hs ht hne heq
  exact hne (Site.names_eq_of_binaryName_eq u.packageQualifier_isTop (fun _ => h.path_plain hs)
    (fun _ => h.path_plain ht) heq)

theorem WellNamed.lookup_declared (h : u.WellNamed classPath) {s : Site}
    (hs : s ∈ u.sites classPath) :
    (ClassIndex.ofUnit u).lookup (s.binaryName u.packageQualifier) =
      some (s.descriptor u.packageQualifier) := by
  have hmem : s.descriptor u.packageQualifier ∈ u.descriptors := by
    rw [u.descriptors_eq classPath]
    exact List.mem_map_of_mem hs
  exact ClassIndex.lookup_of_find? (ClassIndex.find?_ofList h.binaryNames_nodup hmem)

theorem WellNamed.resolver_lookup (h : u.WellNamed classPath) {s : Site}
    (hs : s ∈ u.sites classPath) :
    (Resolver.ofUnit u classPath).lookup
        ((Resolver.ofUnit u classPath).nestedName s.context.scope s.decl.name) =
      some (s.descriptor u.packageQualifier) := by
  change ((ClassIndex.ofUnit u).lookup (s.binaryName u.packageQualifier)).or _ = _
  rw [h.lookup_declared hs]
  rfl

end CompilationUnit
end TypeScribe
