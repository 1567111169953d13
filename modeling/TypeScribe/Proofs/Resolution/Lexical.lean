import TypeScribe.Proofs.ClassIndex.History
import TypeScribe.Proofs.Resolution.Queries
import TypeScribe.Samples

/-!
# Lexical scope

A simple name that an enclosing declaration nests denotes the type nested in the innermost such
declaration. The binary name that the resolver spells from the open declarations is one under which
the unit's own index has a type, so neither the imports nor the class path are asked.
-/
namespace TypeScribe
set_option autoImplicit false
open TypeDescriptor

theorem qualifierOf_append (qualifier : String) (scope : Scope) (name : String) :
    qualifierOf qualifier scope ++ name =
      qualifier ++ Text.joinWith "$" (scope.reverse.map TypeDecl.name ++ [name]) := by
  induction scope generalizing name with
  | nil => rfl
  | cons decl outer ih =>
    obtain ⟨first, rest, hnames⟩ := List.exists_cons_of_ne_nil
      (List.concat_ne_nil decl.name (outer.reverse.map TypeDecl.name))
    calc
      qualifierOf qualifier (decl :: outer) ++ name =
          qualifierOf qualifier outer ++ decl.name ++ "$" ++ name := rfl
      _ = qualifier ++ (Text.joinWith "$" (first :: rest) ++ "$" ++ name) := by
        rw [ih, hnames, String.append_assoc, String.append_assoc, String.append_assoc]
      _ = _ := by
        rw [← Text.joinWith_concat, List.reverse_cons, List.map_append, List.map_singleton, hnames]

namespace CompilationUnit

/-- The scope is a path in the unit: a top-level declaration, one nested in it, and so on inwards. -/
inductive HasPath (u : CompilationUnit) : Scope → Prop where
  | top {decl : TypeDecl} (h : decl ∈ u.types) : HasPath u [decl]
  | nested {decl outer : TypeDecl} {rest : Scope} (h : HasPath u (outer :: rest))
      (hdecl : decl ∈ outer.nestedTypes) : HasPath u (decl :: outer :: rest)

variable {u : CompilationUnit} {classPath : ClassIndex}

theorem mem_sites_of_nested {s e : Site} (hs : s ∈ u.sites classPath) (he : e ∈ s.nested) :
    e ∈ u.sites classPath := by
  have hwithin {root : Site} (hs : s ∈ root :: root.within) : e ∈ root.within := by
    induction root using Site.inductionOn with
    | step root ih =>
      rw [Site.within_eq]
      rcases List.mem_cons.mp hs with rfl | hs
      · exact List.mem_flatMap.mpr ⟨e, he, List.mem_cons_self⟩
      · rw [Site.within_eq] at hs
        obtain ⟨t, ht, hs⟩ := List.mem_flatMap.mp hs
        exact List.mem_flatMap.mpr ⟨t, ht, List.mem_cons_of_mem _ (ih t ht hs)⟩
  obtain ⟨root, hroot, hs⟩ := List.mem_flatMap.mp hs
  exact mem_sites hroot (List.mem_cons_of_mem _ (hwithin hs))

namespace HasPath

variable {scope : Scope}

theorem exists_site (h : u.HasPath scope) (classPath : ClassIndex) :
    ∃ s ∈ u.sites classPath, s.path = scope := by
  induction h with
  | top h =>
    rw [← u.roots_decls classPath] at h
    obtain ⟨root, hroot, rfl⟩ := List.mem_map.mp h
    refine ⟨root, mem_sites hroot List.mem_cons_self, ?_⟩
    rw [Site.path, (mem_roots hroot).2.1]
  | nested h hdecl ih =>
    obtain ⟨s, hs, hpath⟩ := ih
    obtain ⟨rfl, hrest⟩ := List.cons.inj hpath
    rw [← s.nested_decls] at hdecl
    obtain ⟨e, he, rfl⟩ := List.mem_map.mp hdecl
    refine ⟨e, mem_sites_of_nested hs he, ?_⟩
    rw [Site.path, Site.scope_of_mem_nested he, hpath]

theorem exists_declared {decl : TypeDecl} {outer : Scope} (h : u.HasPath (decl :: outer)) :
    ∃ d ∈ (ClassIndex.ofUnit u).types,
      d.binaryName = qualifierOf u.packageQualifier outer ++ decl.name := by
  obtain ⟨s, hs, hpath⟩ := h.exists_site .empty
  obtain ⟨rfl, rfl⟩ := List.cons.inj hpath
  apply ClassIndex.exists_mem_ofList (d := s.descriptor u.packageQualifier)
  rw [u.descriptors_eq .empty]
  exact List.mem_map_of_mem hs

theorem tail {e : TypeDecl} (h : u.HasPath (e :: scope)) (hne : scope ≠ []) : u.HasPath scope := by
  cases h with
  | top => exact absurd rfl hne
  | nested h => exact h

theorem of_append {inner outer : Scope} {decl : TypeDecl} (h : u.HasPath (inner ++ decl :: outer)) :
    u.HasPath (decl :: outer) := by
  induction inner with
  | nil => exact h
  | cons e rest ih =>
    apply ih
    apply tail h
    simp

end HasPath
end CompilationUnit

namespace Resolver

theorem nests_iff {decl : TypeDecl} {name : String} :
    nests decl name = true ↔ ∃ t ∈ TypeDecl.nestedTypes decl, t.name = name := by
  simp [nests]

theorem lexicalScope?_of_exists {name : String} {scope : Scope}
    (h : ∃ decl ∈ scope, nests decl name = true) :
    ∃ inner decl outer, scope = inner ++ decl :: outer ∧ nests decl name = true ∧
      (∀ e ∈ inner, nests e name = false) ∧ lexicalScope? name scope = some (decl :: outer) := by
  induction scope with
  | nil =>
    obtain ⟨decl, hdecl, -⟩ := h
    cases hdecl
  | cons e rest ih =>
    unfold lexicalScope?
    cases hnests : nests e name with
    | true => exact ⟨[], e, rest, rfl, hnests, List.forall_mem_nil _, rfl⟩
    | false =>
      have hrest : ∃ decl ∈ rest, nests decl name = true := by
        obtain ⟨decl, hdecl, hname⟩ := h
        rcases List.mem_cons.mp hdecl with rfl | hdecl
        · rw [hnests] at hname
          cases hname
        · exact ⟨decl, hdecl, hname⟩
      obtain ⟨inner, decl, outer, rfl, hname, hinner, hscope⟩ := ih hrest
      exact ⟨e :: inner, decl, outer, rfl, hname, List.forall_mem_cons.mpr ⟨hnests, hinner⟩, hscope⟩

end Resolver

open Resolver in
/-- A name that some declaration of a path nests resolves, under all imports and every class path,
to one and the same type of the unit: the one nested in the innermost such declaration. -/
theorem CompilationUnit.resolveSimple_on_path (u : CompilationUnit) {scope : Scope}
    (hscope : u.HasPath scope) {name : String}
    (hname : ∃ decl ∈ scope, ∃ t ∈ TypeDecl.nestedTypes decl, t.name = name) :
    ∃ (inner : Scope) (decl : TypeDecl) (outer : Scope), scope = inner ++ decl :: outer ∧
      (∃ t ∈ TypeDecl.nestedTypes decl, t.name = name) ∧
      (∀ e ∈ inner, ∀ t ∈ TypeDecl.nestedTypes e, t.name ≠ name) ∧
      ∃ d ∈ (ClassIndex.ofUnit u).types,
        d.binaryName = u.packageQualifier ++
          Text.joinWith "$" ((decl :: outer).reverse.map TypeDecl.name ++ [name]) ∧
        ∀ (imports : List Import) (classPath : ClassIndex),
          (Resolver.ofUnit { u with imports := imports } classPath).resolveSimple name scope =
            .ok d := by
  obtain ⟨inner, decl, outer, rfl, hnests, hinner, hlexical⟩ :=
    lexicalScope?_of_exists (by simpa only [nests_iff] using hname)
  obtain ⟨t, ht, rfl⟩ := nests_iff.mp hnests
  obtain ⟨d, hd, hbinary⟩ := (hscope.of_append.nested ht).exists_declared
  refine ⟨inner, decl, outer, rfl, ⟨t, ht, rfl⟩, ?_, d, hd, ?_, ?_⟩
  · intro e he t' ht' heq
    have hnone := hinner e he
    rw [nests_iff.mpr ⟨t', ht', heq⟩] at hnone
    cases hnone
  · rw [hbinary, qualifierOf_append]
  · intro imports classPath
    apply resolveSimple_of_lexicalScope hlexical
    have hfind : (ClassIndex.ofUnit u).find? d.binaryName = some d :=
      (ClassIndex.ascending_ofList u.descriptors).find?_isNamed hd
    have hown := ClassIndex.lookup_of_find? hfind
    rw [hbinary] at hown
    change ((ClassIndex.ofUnit u).lookup (qualifierOf u.packageQualifier (decl :: outer) ++ t.name)).or
      _ = some d
    rw [hown]
    rfl

/-- From inside the interface `C`, the name `E` denotes the class nested in `C` and not the interface
beside it, whatever is imported. -/
theorem nestedInterfaces_lexical :
    ∃ c test5, Samples.nestedInterfaces.HasPath [c, test5] ∧
      (∃ t ∈ TypeDecl.nestedTypes c, t.name = "E") ∧
      (∃ t ∈ TypeDecl.nestedTypes test5, t.name = "E") ∧
      ∃ d, d.binaryName = "test.Test5$C$E" ∧ ∀ classPath,
        (Resolver.ofUnit { Samples.nestedInterfaces with imports := [{ name := "java.util.E" }] }
          classPath).resolveSimple "E" [c, test5] = .ok d := by
  let test5 : TypeDecl := Samples.nestedInterfaces.types.head (by decide)
  let c : TypeDecl := (TypeDecl.nestedTypes test5).get ⟨2, by decide⟩
  have hpath : Samples.nestedInterfaces.HasPath [c, test5] :=
    .nested (.top (List.head_mem _)) (List.get_mem _ _)
  have hinner : ∃ t ∈ TypeDecl.nestedTypes c, t.name = "E" := by decide
  have houter : ∃ t ∈ TypeDecl.nestedTypes test5, t.name = "E" := by decide
  obtain ⟨inner, decl, outer, hscope, -, hnone, d, -, hbinary, hresolve⟩ :=
    Samples.nestedInterfaces.resolveSimple_on_path hpath ⟨c, List.mem_cons_self, hinner⟩
  refine ⟨c, test5, hpath, hinner, houter, d, ?_, hresolve _⟩
  cases inner with
  | nil =>
    obtain ⟨rfl, rfl⟩ := List.cons.inj hscope
    rw [hbinary]
    decide
  | cons e rest =>
    obtain ⟨rfl, -⟩ := List.cons.inj hscope
    obtain ⟨t, ht, hname⟩ := hinner
    exact absurd hname (hnone c List.mem_cons_self t ht)

end TypeScribe
