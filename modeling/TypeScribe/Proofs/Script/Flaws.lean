import TypeScribe.Proofs.Layout.FailureMode
import TypeScribe.Proofs.Layout.Modules
import TypeScribe.Proofs.Script.Every
import TypeScribe.Samples

/-!
# Units without flaws

A declaration is out of place only where no declaration is open around it. Inside a declaration one
always is, also in the bodies that are moved, so the only places are the annotations of the package
and of the top-level declarations. If those declare no type, conversion meets no flaw.
-/
namespace TypeScribe
set_option autoImplicit false

/-- A piece that is no flaw and, if it is a moved declaration, holds none. -/
inductive Piece.Flawless : Piece → Prop where
  | text (s : String) : Flawless (.text s)
  | newline : Flawless .newline
  | indent : Flawless .indent
  | outdent : Flawless .outdent
  | comment (c : Comment) : Flawless (.comment c)
  | unsupported (c : Construct) : Flawless (.unsupported c)
  | moved (route : Route) (names : List String) (body : Doc) (h : ∀ p ∈ body, Flawless p) :
      Flawless (.moved route names body)

theorem Piece.flawless_plainly : HoldsPlainly Piece.Flawless where
  text := .text
  newline := .newline
  indent := .indent
  outdent := .outdent
  comment := .comment
  unsupported := .unsupported

/-- A declaration is open around the place. -/
def Context.IsInside (cx : Context) : Prop := cx.scope ≠ []

theorem Context.isInside_inherited : Context.Inherited Context.IsInside where
  child _ h := h
  content h := h
  initialValue h := h
  enter _ _ := List.cons_ne_nil _ _
  membersOf _ h := h
  declarators _ h := h
  enterAnonymous _ h := h
  detached h := h

theorem Node.script_flawless {c : Category} (n : Node c) (cx : Context)
    (h : n.declares = true → cx.IsInside) :
    Script.All anySpelling (Doc.Every Piece.Flawless) (Doc.Every Piece.Flawless)
      (Doc.Every Piece.Flawless) c (n.script cx) :=
  n.script_every Piece.flawless_plainly Context.isInside_inherited
    (fun _ hcx hscope => absurd hscope hcx) (fun _ _ names body => .moved _ names body) cx h

theorem CompilationUnit.block_flawless (cx : Context) (decl : TypeDecl)
    (h : (TypeDecl.annotations decl).declares = false) :
    Doc.Every Piece.Flawless (block cx decl) := by
  have hshape : DeclShape.All (Doc.Every Piece.Flawless) (decl.script cx) :=
    TypeDecl.script_every Piece.flawless_plainly Context.isInside_inherited
      (fun _ hcx hscope => absurd hscope hcx) (fun _ _ names body => .moved _ names body) decl cx
      (fun hdeclares => by simp [h] at hdeclares) (List.cons_ne_nil _ _)
  have huniform := Piece.flawless_plainly.uniform
  refine huniform.withModules ?_ (huniform.composes.rootDecl decl.spelledBy_any hshape)
  intro d hd entry hentry
  refine ⟨fun _ _ => over_anyLetter _, ?_⟩
  cases hd _ (mem_moves.mp hentry) with
  | moved _ _ _ hbody => exact hbody

theorem CompilationUnit.script_flawless (u : CompilationUnit) (wrap : Bool) (classPath : ClassIndex)
    (hpackage : ∀ a ∈ u.packageAnnotations, a.declares = false)
    (htypes : ∀ decl ∈ u.types, (TypeDecl.annotations decl).declares = false) :
    Doc.Every Piece.Flawless (u.script wrap classPath) := by
  apply script_all Piece.flawless_plainly.uniform u.spells_anyLetter
  · intro a ha
    exact a.script_flawless _ fun hdeclares => by simp [hpackage a ha] at hdeclares
  · intro decl hdecl place
    exact block_flawless _ decl (htypes decl hdecl)

/-- If no type is declared in the annotations of the package and of the top-level declarations, the
tree is never found malformed, and a tolerant configuration always yields a text. -/
theorem convert_yields_text (u : CompilationUnit)
    (hpackage : ∀ a ∈ u.packageAnnotations, a.declares = false)
    (htypes : ∀ decl ∈ u.types, (TypeDecl.annotations decl).declares = false)
    (classPath : ClassIndex) :
    (∀ config f, convert u config classPath ≠ .error (.malformed f)) ∧
    ∀ config, config.failureMode = .tolerant → ∃ s, convert u config classPath = .ok s := by
  have hflaw : ∀ config f, convert u config classPath ≠ .error (.malformed f) := by
    intro config f herror
    have hmem := flaw_mem_of_malformed (convert_error.mp herror)
    cases u.script_flawless config.wrapPackageNamespace classPath hpackage htypes _ hmem
  refine ⟨hflaw, ?_⟩
  intro config hconfig
  cases hresult : convert u config classPath with
  | ok s => exact ⟨s, rfl⟩
  | error e =>
    cases e with
    | malformed f => exact absurd hresult (hflaw config f)
    | unsupported c =>
      exact absurd (convert_error.mp hresult) (typeset_tolerant_ne hconfig _ _ c)

/-- An annotated class in an annotated package, with types in an anonymous class and in a body. -/
def Samples.scatteredTypes : CompilationUnit :=
  let anonymous : Expr := .anonymous (.simple "Runnable") []
    [.nestedType (TypeDecl.ofInterface "Inner"), returningZero "run"]
  let body := [
    Member.ofField [.static] (.ofDotted "Runnable") "task" (some anonymous),
    Member.ofMethod "work" intType
      |> Member.withBody (.of [.localType (TypeDecl.ofClass "Local"), .localType (TypeDecl.ofEnum "Kind")]),
    .nestedType (withMembers (.ofAnnotationType "Mark") [.nestedType (TypeDecl.ofEnum "Level")])]
  { package := some { name := "demo", annotations := [.single "Since" (.integerLiteral "3")] }
    types := [withMembers (.ofClass "Holder" |> TypeDecl.annotatedWith (.marker "Final")) body] }

theorem scatteredTypes_yields_text :
    (∀ a ∈ Samples.scatteredTypes.packageAnnotations, a.declares = false) ∧
      (∀ decl ∈ Samples.scatteredTypes.types, (TypeDecl.annotations decl).declares = false) ∧
      (∃ decl ∈ Samples.scatteredTypes.types, decl.declares = true) ∧
      ∃ s, convert Samples.scatteredTypes {} .empty = .ok s := by
  have hpackage : ∀ a ∈ Samples.scatteredTypes.packageAnnotations, a.declares = false := by decide
  have htypes : ∀ decl ∈ Samples.scatteredTypes.types,
      (TypeDecl.annotations decl).declares = false := by decide
  exact ⟨hpackage, htypes, by decide,
    (convert_yields_text Samples.scatteredTypes hpackage htypes .empty).2 {} rfl⟩

end TypeScribe
