import TypeScribe.Proofs.ClassIndex.Order
import TypeScribe.Proofs.Layout.Parts
import TypeScribe.Proofs.Script.Relocation
import TypeScribe.Samples

/-!
# The blocks of a unit

A unit is written as a header, one block for each top-level declaration and a footer. The text of a
block is settled by its declaration: neither the other declarations nor their order has a part in
it, as long as the top-level names are plain and distinct. Reordering the declarations reorders the
blocks.
-/
namespace TypeScribe
set_option autoImplicit false

/-- The documents are written alike by every writer. -/
def Doc.WritesAs (d e : Doc) : Prop :=
  ∀ (config : Config) (w : Writer), typeset config w d = typeset config w e

namespace Doc.WritesAs

variable {d d' e e' : Doc}

theorem refl (d : Doc) : d.WritesAs d := fun _ _ => rfl

theorem append (hd : d.WritesAs d') (he : e.WritesAs e') : WritesAs (d ++ e) (d' ++ e') := by
  intro config w
  rw [typeset_append, typeset_append, hd]
  exact congrArg _ (funext fun next => he config next)

theorem stacked {ds es : List Doc} (h : List.Forall₂ WritesAs ds es) :
    WritesAs (CompilationUnit.stacked ds) (CompilationUnit.stacked es) := by
  induction h with
  | nil => exact refl _
  | cons hd hrest ih =>
    cases hrest with
    | nil => exact hd.append (refl _)
    | cons => exact ((hd.append (refl _)).append (refl _)).append ih

theorem textAt (h : d.WritesAs e) (config : Config) (level : Nat) :
    d.textAt config level = e.textAt config level := by
  rw [Doc.textAt, h, Doc.textAt]

end Doc.WritesAs

/-- Texts one below the other, each followed by the end of its line, with a blank line between
neighbours. -/
def stackTexts (endOfLine : String) : List String → String
  | [] => ""
  | [s] => s ++ endOfLine
  | s :: t :: rest => s ++ endOfLine ++ endOfLine ++ stackTexts endOfLine (t :: rest)

/-- The text of a result that is one. -/
def textOf (result : Except EmitError String) : String := result.toOption.getD ""

theorem forall₂_ok_iff {α : Type} {f : α → Except EmitError String} {as : List α}
    {texts : List String} :
    List.Forall₂ (fun a t => f a = .ok t) as texts ↔
      (∀ a ∈ as, f a = .ok (textOf (f a))) ∧ texts = as.map fun a => textOf (f a) := by
  induction as generalizing texts with
  | nil => simp
  | cons a rest ih =>
    rw [List.forall₂_cons_left_iff, List.forall_mem_cons]
    constructor
    · rintro ⟨t, more, ha, hmore, rfl⟩
      obtain ⟨hrest, rfl⟩ := ih.mp hmore
      have htext : textOf (f a) = t := by rw [ha]; rfl
      rw [List.map_cons, htext]
      exact ⟨⟨ha, hrest⟩, rfl⟩
    · rintro ⟨⟨ha, hrest⟩, rfl⟩
      exact ⟨_, _, ha, ih.mpr ⟨hrest, rfl⟩, rfl⟩

namespace CompilationUnit

open Doc

variable {config : Config} {level : Nat}

theorem textAt_stacked_eq_ok {ds : List Doc} (hds : ∀ d ∈ ds, d.IsLevelled) {s : String} :
    (stacked ds).textAt config level = .ok s ↔
      ∃ texts, List.Forall₂ (fun d t => d.textAt config level = .ok t) ds texts ∧
        s = stackTexts config.endOfLine texts := by
  induction ds generalizing s with
  | nil =>
    constructor
    · rintro ⟨⟩
      exact ⟨[], .nil, rfl⟩
    · rintro ⟨texts, h, rfl⟩
      cases h
      rfl
  | cons d rest ih =>
    obtain ⟨hd, hrest⟩ := List.forall_mem_cons.mp hds
    cases rest with
    | nil =>
      rw [stacked, textAt_newline_eq_ok]
      constructor
      · rintro ⟨a, ha, rfl⟩
        exact ⟨[a], .cons ha .nil, rfl⟩
      · rintro ⟨texts, h, rfl⟩
        obtain ⟨a, more, ha, hmore, rfl⟩ := List.forall₂_cons_left_iff.mp h
        cases hmore
        exact ⟨a, ha, rfl⟩
    | cons e rest =>
      have hlines := (hd.append isLevelled_composes.newline).append isLevelled_composes.newline
      rw [stacked, textAt_append_eq_ok (endsLines_newline _) fun w => hlines.keeps config _ w]
      constructor
      · rintro ⟨block, b, hblock, hb, rfl⟩
        obtain ⟨line, hline, rfl⟩ := textAt_newline_eq_ok.mp hblock
        obtain ⟨a, ha, rfl⟩ := textAt_newline_eq_ok.mp hline
        obtain ⟨texts, htexts, rfl⟩ := (ih hrest).mp hb
        refine ⟨a :: texts, .cons ha htexts, ?_⟩
        cases htexts
        rfl
      · rintro ⟨texts, h, rfl⟩
        obtain ⟨a, texts, ha, htexts, rfl⟩ := List.forall₂_cons_left_iff.mp h
        have hstack := (ih hrest).mpr ⟨_, htexts, rfl⟩
        refine ⟨a ++ config.endOfLine ++ config.endOfLine, _, ?_, hstack, ?_⟩
        · exact textAt_newline_eq_ok.mpr ⟨_, textAt_newline_eq_ok.mpr ⟨a, ha, rfl⟩, rfl⟩
        · cases htexts
          rfl

/-- Something before and behind a stack has its own text. -/
theorem textAt_around_eq_ok {before behind : Doc} (hends : before.EndsLines) {after : Nat}
    (hlevel : ∀ w, typeset config (config.writerAt level) before = .ok w →
      w.level = after)
    {ds : List Doc} (hds : ∀ d ∈ ds, d.IsLevelled) {s : String} :
    textAt config level (before ++ (stacked ds ++ behind)) = .ok s ↔
      ∃ a texts b, before.textAt config level = .ok a ∧
        List.Forall₂ (fun d t => d.textAt config after = .ok t) ds texts ∧
        behind.textAt config after = .ok b ∧ s = a ++ (stackTexts config.endOfLine texts ++ b) := by
  have hstacked := isLevelled_uniform.stacked hds
  rw [textAt_append_eq_ok hends hlevel]
  constructor
  · rintro ⟨a, rest, ha, hrest, rfl⟩
    obtain ⟨stack, b, hstack, hb, rfl⟩ := (textAt_append_eq_ok (endsLines_stacked ds)
      fun w => hstacked.keeps config _ w).mp hrest
    obtain ⟨texts, htexts, rfl⟩ := (textAt_stacked_eq_ok hds).mp hstack
    exact ⟨a, texts, b, ha, htexts, hb, rfl⟩
  · rintro ⟨a, texts, b, ha, htexts, hb, rfl⟩
    refine ⟨a, _, ha, ?_, rfl⟩
    refine (textAt_append_eq_ok (endsLines_stacked ds)
      fun w => hstacked.keeps config _ w).mpr ⟨_, b, ?_, hb, rfl⟩
    exact (textAt_stacked_eq_ok hds).mpr ⟨texts, htexts, rfl⟩

variable (u : CompilationUnit) (config : Config) (classPath : ClassIndex)

/-- The context of the top of a unit. -/
def context : Context := { resolver := .ofUnit u classPath }

/-- The text of what comes before the blocks. -/
def headerText : Except EmitError String :=
  (u.header config.wrapPackageNamespace (u.context classPath)).textAt config 0

/-- The text of a top-level declaration with the modules of what is moved out of it. -/
def blockText (decl : TypeDecl) : Except EmitError String :=
  (block (u.context classPath) decl).textAt config (u.bodyLevel config.wrapPackageNamespace)

/-- The text of what comes after the blocks. -/
def footerText : Except EmitError String :=
  (u.footer config.wrapPackageNamespace).textAt config (u.bodyLevel config.wrapPackageNamespace)

variable {u config classPath} {types : List TypeDecl}

/-- A block is written alike wherever its declaration stands. -/
theorem blocks_writesAs
    (hr : Resolver.AgreeOn (fun _ => true) (.ofUnit u classPath)
      (.ofUnit { u with types := types } classPath)) (place : Nat) (decls : List TypeDecl) :
    List.Forall₂ WritesAs (blocks (context { u with types := types } classPath) place decls)
      (decls.map (block (u.context classPath))) := by
  induction decls generalizing place with
  | nil => exact .nil
  | cons decl rest ih =>
    refine .cons (fun config w => ?_) (ih (place + 1))
    have hblock := block_placed hr [place] (u.context classPath) decl.lacks_isForeign
    exact (congrArg (typeset config w) hblock).trans (typeset_below config [place] w _)

theorem script_writesAs (wrap : Bool)
    (hr : Resolver.AgreeOn (fun _ => true) (.ofUnit u classPath)
      (.ofUnit { u with types := types } classPath)) :
    WritesAs ({ u with types := types }.script wrap classPath)
      (u.header wrap (u.context classPath)
        ++ stacked (types.map (block (u.context classPath))) ++ u.footer wrap) := by
  refine (WritesAs.append (fun config w => ?_) ?_).append fun config w => rfl
  · have hheader := header_placed hr [] (u.context classPath) u wrap fun a _ => a.lacks_isForeign
    exact (congrArg (typeset config w) hheader).trans (typeset_below config [] w _)
  · exact WritesAs.stacked (blocks_writesAs hr 0 types)

/-- A unit with the same declarations in some order is made of the same parts. -/
theorem convert_eq_ok_iff
    (hr : Resolver.AgreeOn (fun _ => true) (.ofUnit u classPath)
      (.ofUnit { u with types := types } classPath)) {s : String} :
    convert { u with types := types } config classPath = .ok s ↔
      ∃ header footer, u.headerText config classPath = .ok header ∧
        (∀ decl ∈ types, u.blockText config classPath decl =
          .ok (textOf (u.blockText config classPath decl))) ∧
        u.footerText config = .ok footer ∧
        s = header ++ stackTexts config.endOfLine
          (types.map fun decl => textOf (u.blockText config classPath decl)) ++ footer := by
  have hlevelled : ∀ d ∈ types.map (block (u.context classPath)), d.IsLevelled := by
    intro d hd
    obtain ⟨decl, -, rfl⟩ := List.mem_map.mp hd
    exact block_isLevelled _ decl
  have hlevel : ∀ w, typeset config (config.writerAt 0)
      (u.header config.wrapPackageNamespace (u.context classPath)) = .ok w →
      w.level = u.bodyLevel config.wrapPackageNamespace := by
    intro w hw
    exact (level_header hw).trans (Nat.zero_add _)
  change textAt config 0 _ = _ ↔ _
  rw [(script_writesAs config.wrapPackageNamespace hr).textAt config 0, List.append_assoc,
    textAt_around_eq_ok (endsLines_header _ _ _) hlevel hlevelled]
  simp only [List.forall₂_map_left_iff, forall₂_ok_iff, String.append_assoc]
  constructor
  · rintro ⟨header, texts, footer, hheader, ⟨hblocks, rfl⟩, hfooter, rfl⟩
    exact ⟨header, footer, hheader, hblocks, hfooter, rfl⟩
  · rintro ⟨header, footer, hheader, hblocks, hfooter, rfl⟩
    exact ⟨header, _, footer, hheader, ⟨hblocks, rfl⟩, hfooter, rfl⟩

end CompilationUnit

open CompilationUnit in
/-- The top-level declarations may be reordered. That does not decide whether there is a text, and
if there is one, the text of each declaration with its modules goes where the declaration goes. -/
theorem convert_perm (u : CompilationUnit) (config : Config) (classPath : ClassIndex)
    (hdistinct : (u.types.map TypeDecl.name).Nodup)
    (hplain : ∀ decl ∈ u.types, IsPlainName (TypeDecl.name decl))
    (types : List TypeDecl) (hperm : types.Perm u.types) :
    ((∃ s, convert { u with types := types } config classPath = .ok s) ↔
      ∃ s, convert u config classPath = .ok s) ∧
    ∀ s, convert u config classPath = .ok s →
      ∃ (header footer : String) (text : TypeDecl → String),
        u.headerText config classPath = .ok header ∧
        (∀ decl ∈ u.types, u.blockText config classPath decl = .ok (text decl)) ∧
        u.footerText config = .ok footer ∧
        s = header ++ stackTexts config.endOfLine (u.types.map text) ++ footer ∧
        convert { u with types := types } config classPath =
          .ok (header ++ stackTexts config.endOfLine (types.map text) ++ footer) := by
  have hr := (findsAlike_perm hdistinct hplain hperm classPath).agreeOn fun _ => true
  have hself : Resolver.AgreeOn (fun _ => true) (.ofUnit u classPath)
      (.ofUnit { u with types := u.types } classPath) := fun _ _ _ => rfl
  refine ⟨⟨?_, ?_⟩, ?_⟩
  · rintro ⟨s, hs⟩
    obtain ⟨header, footer, hheader, hblocks, hfooter, -⟩ := (convert_eq_ok_iff hr).mp hs
    have hblocks := fun decl hdecl => hblocks decl (hperm.mem_iff.mpr hdecl)
    exact ⟨_, (convert_eq_ok_iff hself).mpr ⟨header, footer, hheader, hblocks, hfooter, rfl⟩⟩
  · rintro ⟨s, hs⟩
    obtain ⟨header, footer, hheader, hblocks, hfooter, -⟩ := (convert_eq_ok_iff hself).mp hs
    have hblocks := fun decl hdecl => hblocks decl (hperm.mem_iff.mp hdecl)
    exact ⟨_, (convert_eq_ok_iff hr).mpr ⟨header, footer, hheader, hblocks, hfooter, rfl⟩⟩
  · intro s hs
    obtain ⟨header, footer, hheader, hblocks, hfooter, hs⟩ := (convert_eq_ok_iff hself).mp hs
    refine ⟨header, footer, _, hheader, hblocks, hfooter, hs, (convert_eq_ok_iff hr).mpr ?_⟩
    have hblocks := fun decl hdecl => hblocks decl (hperm.mem_iff.mp hdecl)
    exact ⟨header, footer, hheader, hblocks, hfooter, rfl⟩

/-- Two declarations that name each other, one with an interface that is moved out of it. -/
def Samples.twoRoots : CompilationUnit where
  package := some { name := "demo" }
  types := [
    withMembers (.ofClass "Shape") [
      Member.ofField [] (.ofDotted "Pen") "pen" none,
      .nestedType (withMembers (.ofInterface "Visitor") [abstractInt "visit"])],
    withMembers (.ofInterface "Pen") [Member.ofMethod "last" (.ofDotted "Shape.Visitor")]]

theorem twoRoots_reordered :
    (Samples.twoRoots.types.map TypeDecl.name).Nodup ∧
      (∀ decl ∈ Samples.twoRoots.types, IsPlainName (TypeDecl.name decl)) ∧
      ∃ (header footer : String) (text : TypeDecl → String),
        convert Samples.twoRoots {} .empty =
          .ok (header ++ stackTexts "\n" (Samples.twoRoots.types.map text) ++ footer) ∧
        convert { Samples.twoRoots with types := Samples.twoRoots.types.reverse } {} .empty =
          .ok (header ++ stackTexts "\n" (Samples.twoRoots.types.reverse.map text) ++ footer) := by
  have hdistinct : (Samples.twoRoots.types.map TypeDecl.name).Nodup := by decide
  have hplain : ∀ decl ∈ Samples.twoRoots.types, IsPlainName (TypeDecl.name decl) := by decide
  have hok : (convert Samples.twoRoots {} .empty).isOk = true := by decide +kernel
  have hperm := convert_perm Samples.twoRoots {} .empty hdistinct hplain _
    (List.reverse_perm Samples.twoRoots.types)
  cases hconvert : convert Samples.twoRoots {} .empty with
  | error e =>
    rw [hconvert] at hok
    cases hok
  | ok s =>
    obtain ⟨header, footer, text, -, -, -, hs, hreordered⟩ := hperm.2 s hconvert
    exact ⟨hdistinct, hplain, header, footer, text, congrArg Except.ok hs, hreordered⟩

end TypeScribe
