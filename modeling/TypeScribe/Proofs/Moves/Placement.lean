import TypeScribe.Convert
import TypeScribe.Proofs.Moves.Waves
import TypeScribe.Samples

/-!
# Where declarations are written

`CompilationUnit.placed` says where each declaration of a regular unit is written: in its place, or
in a module behind its root and then a placeholder in its place. Converting a regular unit is
typesetting that document.
-/
namespace TypeScribe
set_option autoImplicit false

namespace Site

/-- What follows the modifiers of the declaration: its own documents, and in the place of each
declaration inside it that declaration or, if it is moved, a placeholder. -/
def written (s : Site) : Doc :=
  s.layout.attach.flatMap fun
    | ⟨.own d, _⟩ => d
    | ⟨.nested e, _⟩ =>
      if e.IsMoved then e.placeholder else e.inline e.written
termination_by sizeOf s.decl
decreasing_by exact sizeOf_decl_lt (mem_nested_of_mem_layout ‹_›)

/-- The declaration in the modules of those around it, outermost first. -/
def group (s : Site) : Doc :=
  inModules (s.chain.map TypeDecl.name)
    (Doc.comment s.decl.comment ++ s.annotations ++ Doc.text "export " ++ s.written)

/-- A root and, behind it, the groups of what is moved out of it. -/
def block (s : Site) : Doc :=
  Doc.comment s.decl.comment ++ s.annotations
    ++ (if s.decl.modifiers.contains .publicAccess then Doc.text "export " else []) ++ s.written
    ++ (if s.moved.isEmpty then [] else Doc.newline) ++ s.moved.flatMap group

end Site

namespace CompilationUnit

/-- The document of the unit with every declaration where it is written, and a blank line between the
blocks of neighbouring roots. -/
def placed (u : CompilationUnit) (wrap : Bool) (classPath : ClassIndex) : Doc :=
  u.header wrap { resolver := .ofUnit u classPath }
    ++ List.intercalate Doc.newline ((u.roots classPath).map fun s => s.block ++ Doc.newline)
    ++ u.footer wrap

end CompilationUnit

namespace Site

theorem written_eq (s : Site) :
    s.written = s.layout.flatMap (Part.doc fun e =>
      if e.IsMoved then e.placeholder else e.inline e.written) := by
  conv_rhs => rw [← List.attach_map_subtype_val s.layout, List.flatMap_map]
  rw [written]
  refine List.flatMap_congr ?_
  rintro ⟨part, hpart⟩ _
  cases part <;> rfl

theorem IsRegular.visible_inline {s : Site} (h : s.IsRegular) (d : Doc) :
    (s.inline d).visible = s.inline d.visible := by
  have hannotations := h.annotations_still.visible_eq
  have hmodifiers (mods : ModifierSet) := Doc.IsStill.visible_eq (stays_plainly.composes.modifiers mods)
  unfold inline
  split
  · simp [hannotations, hmodifiers]
  · simp only [Doc.visible_append, Doc.visible_comment, Doc.visible_text, hannotations, hmodifiers]
    split <;> simp

theorem IsRegular.visible_content {s : Site} (h : s.IsRegular) : s.content.visible = s.written := by
  induction s using inductionOn with
  | step s ih =>
    rw [content, s.script_content h.frames, h.layout_ownStill.visible_flatMap, written_eq]
    refine List.flatMap_congr ?_
    intro part hpart
    cases part with
    | own d => rfl
    | nested e =>
      have he := mem_nested_of_mem_layout hpart
      change e.memberDoc.visible = _
      rw [memberDoc_eq he]
      simp only [Part.doc]
      split
      · rfl
      · rw [(h.nested he).visible_inline, ih e he (h.nested he)]

theorem IsRegular.visible_group {s : Site} (h : s.IsRegular) : s.asModule.doc.visible = s.group := by
  have hbody : s.body.visible =
      Doc.comment s.decl.comment ++ s.annotations ++ Doc.text "export " ++ s.written := by
    rw [← h.visible_content]
    simp [body, Script.moduleDecl, script_annotations, h.annotations_still.visible_eq, content]
  rw [group, ← hbody]
  simp only [Module.doc, asModule, inModules, Doc.visible_append, Doc.visible_flatMap]
  rfl

theorem IsRegular.visible_root {s : Site} (h : s.IsRegular) :
    s.root.visible = Doc.comment s.decl.comment ++ s.annotations
      ++ (if s.decl.modifiers.contains .publicAccess then Doc.text "export " else [])
      ++ s.written := by
  rw [← h.visible_content]
  simp only [root, Script.rootDecl, script_annotations, Doc.visible_append, Doc.visible_comment,
    h.annotations_still.visible_eq, content]
  split <;> rfl

theorem IsRegular.visible_block {s : Site} (h : s.IsRegular) (hs : s.level = 0) :
    (withModules s.root).visible = s.block := by
  have hgroups : (s.moved.flatMap fun e => e.asModule.doc.visible) = s.moved.flatMap group := by
    refine List.flatMap_congr ?_
    intro e he
    have hwithin := (List.mem_filter.mp (s.moved_perm.mem_iff.mp he)).1
    exact (h.within hwithin).visible_group
  have hgap : Doc.visible (if s.moved.isEmpty then [] else Doc.newline) =
      if s.moved.isEmpty then [] else Doc.newline := by
    split <;> rfl
  simp only [withModules, h.modules_root hs, Doc.visible_append, Doc.visible_flatMap,
    List.flatMap_map, hgroups, h.visible_root, List.isEmpty_map, hgap, block]

end Site

namespace CompilationUnit

theorem blocks_eq (cx : Context) (place : Nat) (types : List TypeDecl) :
    blocks cx place types =
      (types.zipIdx place).map fun (decl, place) =>
        withModules (Site.root { context := cx.child place, decl := decl }) := by
  induction types generalizing place with
  | nil => rfl
  | cons decl rest ih =>
    rw [blocks, ih, List.zipIdx_cons, List.map_cons]
    rfl

theorem visible_stacked (ds : List Doc) : (stacked ds).visible = stacked (ds.map Doc.visible) := by
  induction ds with
  | nil => rfl
  | cons d rest ih =>
    cases rest with
    | nil => simp [stacked]
    | cons e rest => simpa [stacked] using ih

theorem stacked_eq_intercalate (ds : List Doc) :
    stacked ds = List.intercalate Doc.newline (ds.map fun d => d ++ Doc.newline) := by
  induction ds with
  | nil => rfl
  | cons d rest ih =>
    cases rest with
    | nil => exact (List.append_nil _).symm
    | cons e rest =>
      rw [stacked, ih, List.append_assoc]
      rfl

variable {u : CompilationUnit} {classPath : ClassIndex}

theorem root_isRegular (hu : u.isRegular = true) {s : Site} (h : s ∈ u.roots classPath) :
    s.IsRegular := by
  obtain ⟨hdecl, -, hframes⟩ := mem_roots h
  obtain ⟨-, htypes⟩ := Bool.and_eq_true_iff.mp hu
  exact ⟨List.all_eq_true.mp htypes _ hdecl, hframes⟩

theorem level_root {s : Site} (h : s ∈ u.roots classPath) : s.level = 0 := by
  rw [Site.level, Site.path, (mem_roots h).2.1]
  rfl

theorem visible_script (hu : u.isRegular = true) (wrap : Bool) :
    (u.script wrap classPath).visible = u.placed wrap classPath := by
  have hheader : Doc.IsStill (u.header wrap { resolver := .ofUnit u classPath }) := by
    refine header_every stays_plainly u wrap _ ?_
    intro a ha
    have hall := List.all_eq_true.mp (Bool.and_eq_true_iff.mp hu).1 a ha
    exact a.script_still _ (by simpa using hall)
  have hfooter : Doc.IsStill (u.footer wrap) := footer_every stays_plainly u wrap
  have hblocks : (blocks { resolver := .ofUnit u classPath } 0 u.types).map Doc.visible =
      (u.roots classPath).map Site.block := by
    rw [blocks_eq, List.map_map]
    have hroots : ((u.roots classPath).map fun s => (withModules s.root).visible) =
        (u.roots classPath).map Site.block := by
      refine List.map_congr_left ?_
      intro s hs
      exact (root_isRegular hu hs).visible_block (level_root hs)
    rw [← hroots, roots, List.map_map]
    rfl
  have hstacked := stacked_eq_intercalate ((u.roots classPath).map Site.block)
  rw [List.map_map] at hstacked
  simp only [script, Doc.visible_append, hheader.visible_eq, hfooter.visible_eq, visible_stacked,
    hblocks, hstacked]
  rfl

end CompilationUnit

/-- The sites inside a site: one for each declaration directly inside it, each with a place of its
own in the layout, and those inside these. -/
structure Site.Nests (s : Site) : Prop where
  decls : s.nested.map Site.decl = TypeDecl.nestedTypes s.decl
  chains : ∀ e ∈ s.nested, e.chain = s.chain ++ [s.decl]
  places : s.layout.filterMap Part.site? = s.nested
  within : s.within = s.nested.flatMap fun e => e :: e.within

theorem Site.nests (s : Site) : s.Nests :=
  ⟨s.nested_decls, fun _ => chain_of_mem_nested, s.layout_sites, s.within_eq⟩

/-- A regular unit is written with every declaration in its place: behind each root stands one group
for each declaration inside it that is an interface or stands in one, the groups of a level before
those of the next, and a level holds what stands directly in the one before it. -/
theorem convert_places_declarations (u : CompilationUnit) (hu : u.isRegular = true)
    (config : Config) (classPath : ClassIndex) :
    convert u config classPath =
        (typeset config config.writer (u.placed config.wrapPackageNamespace classPath)).map
          Writer.written ∧
      (u.roots classPath).map Site.decl = u.types ∧
      ∀ root ∈ u.roots classPath,
        root.chain = [] ∧
        (root.within.map Site.route).Nodup ∧
        root.moved.Perm (root.within.filter fun e => e.IsMoved) ∧
        (∀ k, root.atLevel (k + 2) = (root.atLevel (k + 1)).flatMap Site.nested) ∧
        ∀ s ∈ root :: root.within, s.Nests := by
  refine ⟨?_, u.roots_decls classPath, ?_⟩
  · rw [convert, ← typeset_visible, CompilationUnit.visible_script hu]
  · intro root hroot
    refine ⟨?_, root.within_routes_nodup, root.moved_perm, ?_, fun s _ => s.nests⟩
    · rw [Site.chain, (CompilationUnit.mem_roots hroot).2.1]
      rfl
    · intro k
      have hlevel := CompilationUnit.level_root hroot
      rw [root.atLevel_succ (Nat.succ_pos k), if_neg (by omega), List.nil_append]

/-- Four interfaces of a class and, one level below, an interface and a class of the third. -/
theorem nestedInterfaces_placed :
    Samples.nestedInterfaces.isRegular = true ∧
      ((Samples.nestedInterfaces.roots .empty).map fun root =>
          root.moved.map fun s => (s.chain.map TypeDecl.name, s.decl.name)) =
        [[(["Test5"], "A"), (["Test5"], "B"), (["Test5"], "C"), (["Test5"], "E"),
          (["Test5", "C"], "D"), (["Test5", "C"], "E")]] ∧
      convert Samples.nestedInterfaces {} .empty =
        (typeset {} (Config.writer {}) (Samples.nestedInterfaces.placed true .empty)).map
          Writer.written := by
  have hregular : Samples.nestedInterfaces.isRegular = true := by decide
  exact ⟨hregular, by decide,
    (convert_places_declarations Samples.nestedInterfaces hregular {} .empty).1⟩

end TypeScribe
