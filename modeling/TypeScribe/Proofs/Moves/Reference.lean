import TypeScribe.Proofs.ClassIndex.Agreement
import TypeScribe.Proofs.ClassIndex.DeclaredTypes
import TypeScribe.Proofs.Moves.Placement
import TypeScribe.Proofs.Script.TypeNames

/-!
# References to moved declarations

A type name is written as the binary name that it resolves to, with dots for nesting signs. A moved
declaration is written in the modules of the declarations around it, inside the namespace of the
package. Both spell the same path.
-/
namespace TypeScribe
set_option autoImplicit false

open TypeDescriptor in
theorem qualifierOf_dotted {package : String} (hpackage : nestingSign ∉ package.toList)
    {scope : Scope} (hscope : ∀ d ∈ scope, IsPlainName (TypeDecl.name d)) :
    (qualifierOf (package ++ ".") scope).map dotted =
      Text.joinWith "." (package :: scope.reverse.map TypeDecl.name) ++ "." := by
  induction scope with
  | nil =>
    have hdot : (".").map dotted = "." := map_dotted_eq (by decide)
    change (package ++ ".").map dotted = package ++ "."
    rw [map_dotted_append, map_dotted_eq hpackage, hdot]
  | cons d outer ih =>
    obtain ⟨hd, houter⟩ := List.forall_mem_cons.mp hscope
    have hname : (TypeDecl.name d).map dotted = d.name :=
      map_dotted_eq hd.2
    change ((qualifierOf (package ++ ".") outer ++ d.name).push nestingSign).map dotted = _
    rw [map_dotted_push, map_dotted_append, ih houter, hname, List.reverse_cons, List.map_append,
      List.map_singleton, ← List.cons_append, Text.joinWith_concat]

/-- The path to a declaration: the package, the declarations around it, and its name. -/
def Site.dottedPath (package : String) (s : Site) : String :=
  Text.joinWith "." (package :: s.chain.map TypeDecl.name ++ [s.decl.name])

theorem Site.qualifiedName_descriptor {package : String}
    (hpackage : nestingSign ∉ package.toList) {s : Site}
    (hs : ∀ d ∈ s.path, IsPlainName (TypeDecl.name d)) :
    (s.descriptor (package ++ ".")).qualifiedName = s.dottedPath package := by
  obtain ⟨hdecl, hscope⟩ := List.forall_mem_cons.mp hs
  have hname : (TypeDecl.name s.decl).map TypeDescriptor.dotted = s.decl.name :=
    TypeDescriptor.map_dotted_eq hdecl.2
  change (qualifierOf (package ++ ".") s.context.scope ++ s.decl.name).map TypeDescriptor.dotted = _
  rw [TypeDescriptor.map_dotted_append, qualifierOf_dotted hpackage hscope, hname, dottedPath,
    Text.joinWith_concat]
  rfl

/-- Whether the type is a name without scope, type arguments or annotations. -/
def ClassType.isBare : ClassType → Bool
  | .classType .absent _ .absent .nil => true
  | .classType .absent _ (.present .nil) .nil => true
  | _ => false

theorem ClassType.exists_of_isBare {type : ClassType} (h : type.isBare = true) :
    ∃ name typeArguments annotations,
      type = .classType .absent name typeArguments annotations ∧ type.isUnadorned = true := by
  match type with
  | .classType .absent name .absent .nil => exact ⟨_, _, _, rfl, rfl⟩
  | .classType .absent name (.present .nil) .nil => exact ⟨_, _, _, rfl, rfl⟩

theorem ClassType.segments_of_isBare {type : ClassType} (h : type.isBare = true) :
    type.segments = [type.name] := by
  obtain ⟨name, typeArguments, annotations, rfl, -⟩ := exists_of_isBare h
  rfl

theorem ClassType.resolve_of_isBare {type : ClassType} (h : type.isBare = true) (r : Resolver)
    (scope : Scope) : r.resolve type scope = r.resolveSimple type.name scope := by
  rw [Resolver.resolve, segments_of_isBare h, Resolver.resolveSegments_singleton]

theorem ClassType.script_of_isBare {type : ClassType} (hbare : type.isBare = true) {cx : Context}
    (hbuiltin : builtinType? type.name = none) {d : TypeDescriptor}
    (h : cx.resolver.resolve type cx.scope = .ok d) : type.script cx = Doc.text d.qualifiedName := by
  have hname : cx.typeName type.name = d.qualifiedName := by
    rw [Context.typeName, ← resolve_of_isBare hbare, h]
  rw [← hname]
  obtain ⟨name, typeArguments, annotations, rfl, hunadorned⟩ := exists_of_isBare hbare
  exact script_of_isUnadorned hunadorned hbuiltin cx

theorem CompilationUnit.infix_stacked {d : Doc} {ds : List Doc} (h : d ∈ ds) :
    d <:+: stacked ds := by
  induction ds with
  | nil => cases h
  | cons e rest ih =>
    cases rest with
    | nil =>
      obtain rfl := List.mem_singleton.mp h
      exact (List.prefix_append d _).isInfix
    | cons f rest =>
      rw [stacked, List.append_assoc, List.append_assoc]
      rcases List.mem_cons.mp h with rfl | h
      · exact (List.prefix_append d _).isInfix
      · refine (ih h).trans ?_
        rw [← List.append_assoc, ← List.append_assoc]
        exact (List.suffix_append _ _).isInfix

theorem Site.group_infix_block {root s : Site} (hs : s ∈ root.within) (hmoved : s.IsMoved) :
    s.group <:+: root.block := by
  have hmem : s ∈ root.moved :=
    root.moved_perm.mem_iff.mpr (List.mem_filter.mpr ⟨hs, decide_eq_true hmoved⟩)
  have hgroups : s.group <:+: root.moved.flatMap group :=
    List.infix_of_mem_flatten (List.mem_map_of_mem hmem)
  exact hgroups.trans (List.suffix_append _ _).isInfix

namespace CompilationUnit

variable {u : CompilationUnit} {classPath : ClassIndex} {package : Package}

/-- Everything behind the opening of the namespace and before its end. -/
def namespaceBody (u : CompilationUnit) (classPath : ClassIndex) : Doc :=
  u.imports.flatMap Import.doc ++ (if u.imports.isEmpty then [] else Doc.newline)
    ++ List.intercalate Doc.newline ((u.roots classPath).map fun s => s.block ++ Doc.newline)
    ++ Doc.comments u.trailing

theorem placed_eq (hpackage : u.package = some package) :
    u.placed true classPath =
      Doc.comment u.comment
        ++ List.flatMap (fun d : Doc => d ++ Doc.newline)
          (package.annotations.map fun a => a.script { resolver := .ofUnit u classPath })
        ++ Doc.line ("namespace " ++ package.name ++ " \x7b") ++ [.indent]
        ++ u.namespaceBody classPath ++ .outdent :: Doc.line "\x7d" := by
  have hnamespace : u.namespace? true = some package := hpackage
  simp [placed, header, footer, hnamespace, namespaceBody, openNamespace, Script.annotationLines]

theorem group_infix_namespaceBody {root s : Site} (hroot : root ∈ u.roots classPath)
    (hs : s ∈ root.within) (hmoved : s.IsMoved) : s.group <:+: u.namespaceBody classPath := by
  have hblock : root.block <:+:
      List.intercalate Doc.newline ((u.roots classPath).map fun s => s.block ++ Doc.newline) := by
    have hinfix := infix_stacked (List.mem_map_of_mem (f := Site.block) hroot)
    rwa [stacked_eq_intercalate, List.map_map] at hinfix
  refine (Site.group_infix_block hs hmoved).trans (hblock.trans ?_)
  rw [namespaceBody]
  exact (List.suffix_append _ _).isInfix.trans (List.prefix_append _ _).isInfix

end CompilationUnit

/-- A reference to a moved declaration spells the blocks that the declaration is written in: the
namespace of the package and the modules of its group. A name that is found in the declaration's own
scope is such a reference. -/
theorem moved_reference_eq_blocks (u : CompilationUnit) (config : Config) (classPath : ClassIndex)
    (hu : u.isRegular = true) (hnames : u.WellNamed classPath) {package : Package}
    (hpackage : u.package = some package) (hnonempty : package.name ≠ "")
    (hsign : nestingSign ∉ package.name.toList)
    (hwrap : config.wrapPackageNamespace = true) {root s : Site} (hroot : root ∈ u.roots classPath)
    (hs : s ∈ root.within) (hmoved : s.IsMoved) :
    convert u config classPath =
        (typeset config config.writer (Doc.comment u.comment
          ++ List.flatMap (fun d : Doc => d ++ Doc.newline)
            (package.annotations.map fun a => a.script { resolver := .ofUnit u classPath })
          ++ Doc.line ("namespace " ++ package.name ++ " \x7b") ++ [.indent]
          ++ u.namespaceBody classPath ++ .outdent :: Doc.line "\x7d")).map Writer.written ∧
      s.group <:+: u.namespaceBody classPath ∧
      (ClassIndex.ofUnit u).lookup (s.binaryName u.packageQualifier) =
        some (s.descriptor u.packageQualifier) ∧
      (∀ (cx : Context) (type : ClassType), type.isBare = true → builtinType? type.name = none →
        cx.resolver.resolve type cx.scope = .ok (s.descriptor u.packageQualifier) →
        type.script cx = Doc.text (s.dottedPath package.name)) ∧
      ∀ (cx : Context) (type : ClassType), cx.resolver = .ofUnit u classPath →
        type.isBare = true → type.name = s.decl.name →
        Resolver.lexicalScope? type.name cx.scope = some s.context.scope →
        cx.resolver.resolve type cx.scope = .ok (s.descriptor u.packageQualifier) := by
  have hsite : s ∈ u.sites classPath :=
    CompilationUnit.mem_sites hroot (List.mem_cons_of_mem _ hs)
  have hqualifier : u.packageQualifier = package.name ++ "." := by
    simp [CompilationUnit.packageQualifier, CompilationUnit.packageName, hpackage, hnonempty]
  refine ⟨?_, CompilationUnit.group_infix_namespaceBody hroot hs hmoved,
    hnames.lookup_declared hsite, ?_, ?_⟩
  · rw [convert, ← typeset_visible, CompilationUnit.visible_script hu, hwrap,
      CompilationUnit.placed_eq hpackage]
  · intro cx type hbare hbuiltin hresolve
    rw [ClassType.script_of_isBare hbare hbuiltin hresolve, hqualifier,
      Site.qualifiedName_descriptor hsign fun d hd => hnames.path_plain hsite hd]
  · intro cx type hcx hbare hname hscope
    rw [ClassType.resolve_of_isBare hbare]
    refine Resolver.resolveSimple_of_lexicalScope hscope ?_
    rw [hcx, hname]
    exact hnames.resolver_lookup hsite

/-- A reference, from inside the interface `C`, to the interface `D` that it nests. -/
theorem nestedInterfaces_reference :
    ∃ root ∈ Samples.nestedInterfaces.roots .empty, ∃ s ∈ root.within,
      s.names = ["D", "C", "Test5"] ∧ s.IsMoved ∧
      s.group <:+: Samples.nestedInterfaces.namespaceBody .empty ∧
      (ClassType.simple "D").script s.context = Doc.text "test.Test5.C.D" := by
  let root := (Samples.nestedInterfaces.roots .empty).head (by decide)
  let s := root.within.get ⟨3, by decide⟩
  have hroot : root ∈ Samples.nestedInterfaces.roots .empty := List.head_mem _
  have hs : s ∈ root.within := List.get_mem _ _
  have hmoved : s.IsMoved := by decide
  have hnames : Samples.nestedInterfaces.WellNamed .empty :=
    ⟨by decide, by decide, by decide⟩
  obtain ⟨-, hgroup, -, hscript, hresolve⟩ := moved_reference_eq_blocks Samples.nestedInterfaces {}
    .empty (by decide) hnames rfl (by decide) (by decide) rfl hroot hs hmoved
  have hscope : Resolver.lexicalScope? "D" s.context.scope = some s.context.scope := rfl
  have hpath : s.dottedPath "test" = "test.Test5.C.D" := by decide
  refine ⟨root, hroot, s, hs, by decide, hmoved, hgroup, ?_⟩
  rw [← hpath]
  exact hscript s.context (.simple "D") rfl rfl
    (hresolve s.context (.simple "D") rfl rfl rfl hscope)

end TypeScribe
