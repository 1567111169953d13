import TypeScribe.Proofs.Script.TypeNames

/-!
# Array dimensions

The dimensions of a variable come from its type and from the variable itself, those of a parameter
also from its being variadic, and those of a new array also from the levels of its creation. In each
place the element type is written once, followed by as many pairs of brackets as there are
dimensions, whatever the neighbours are.
-/
namespace TypeScribe
set_option autoImplicit false
open Doc

/-- No array level of the type has an annotation. -/
def Node.hasPlainLevels : {c : Category} → Node c → Bool
  | _, .array component annotations => annotations.toList.isEmpty && component.hasPlainLevels
  | _, _ => true

namespace Declarator

/-- The dimensions that the variable has beside those of its type. -/
def dimensions : Node .declarator → List (Node .dimension)
  | .declarator _ dimensions _ => dimensions.toList

end Declarator

def Dimension.isPlain : Node .dimension → Bool
  | .dimension annotations => annotations.toList.isEmpty

/-- No dimension of the variable has an annotation. -/
def Declarator.isPlain (d : Node .declarator) : Bool :=
  (Declarator.dimensions d).all Dimension.isPlain

/-- Pairs of brackets, one after the other. -/
def Doc.brackets (n : Nat) : Doc := List.replicate n (.text "[]")

/-- The text of the element type, and behind it the levels of the type and `extra` more. -/
def TypeUse.withLevels (t : TypeUse) (cx : Context) (extra : Nat) : Doc :=
  TypeShape.doc (t.elementType.script cx) ++ text (repeated "[]" (t.arrayLevel + extra))

theorem Doc.WritesAs.symm {d e : Doc} (h : d.WritesAs e) : e.WritesAs d :=
  fun config w => (h config w).symm

theorem Doc.WritesAs.separated (s : String) {ds es : List Doc} (h : List.Forall₂ WritesAs ds es) :
    WritesAs (Doc.separated s ds) (Doc.separated s es) := by
  induction h with
  | nil => exact .refl _
  | cons hd hrest ih =>
    cases hrest with
    | nil => exact hd
    | cons => exact (hd.append (.refl _)).append ih

theorem Doc.brackets_writesAs (n : Nat) : (brackets n).WritesAs (text (repeated "[]" n)) := by
  induction n with
  | zero => exact fun _ _ => rfl
  | succ n ih =>
    exact ((WritesAs.refl (text "[]")).append ih).trans ((WritesAs.refl _).text_append _)

theorem Doc.brackets_add (m n : Nat) : brackets m ++ brackets n = brackets (m + n) :=
  List.replicate_append_replicate

/-- What a type is written as does not depend on the route to it. -/
theorem TypeUse.writesAs_of_route (t : TypeUse) (cx : Context) (route route' : Route) :
    (TypeShape.doc (t.script { cx with route := route })).WritesAs
      (TypeShape.doc (t.script { cx with route := route' })) := by
  have hsame : Resolver.AgreeOn (fun _ => true) cx.resolver cx.resolver := fun _ _ _ => rfl
  have hroute (base : Route) : (TypeShape.doc (t.script { cx with route := base })).WritesAs
      (TypeShape.doc (t.script { cx with route := [] })) := by
    have hplaced := Node.script_placed hsame base t { cx with route := [] } t.lacks_isForeign
    intro config w
    have hdoc := Script.typeDoc_revised hplaced
    exact (congrArg (typeset config w) hdoc).trans (typeset_below config base w _)
  exact (hroute route).trans (hroute route').symm

theorem TypeUse.levels_eq (t : TypeUse) (h : t.hasPlainLevels = true) (cx : Context) :
    TypeShape.levels (t.script cx) = brackets t.arrayLevel := by
  match t with
  | .array component annotations =>
    obtain ⟨hannotations, hcomponent⟩ := Bool.and_eq_true_iff.mp h
    have hnil : annotations = .nil := by
      rw [← annotations.ofList_toList, List.isEmpty_iff.mp hannotations]
      rfl
    subst hnil
    exact congrArg (text "[]" ++ ·) (levels_eq component hcomponent (cx.child 0))
  | .primitive .. | .classUse .. | .void .. | .intersection .. | .union .. | .wildcard ..
  | .unknown => rfl
termination_by sizeOf t

theorem TypeUse.element_writesAs (t : TypeUse) (cx : Context) (hcx : cx.isStaticValue = false) :
    (TypeShape.element (t.script cx)).WritesAs (TypeShape.doc (t.elementType.script cx)) := by
  match t with
  | .array component annotations =>
    have hchild : cx.child 0 = { cx with route := 0 :: cx.route } := by rw [Context.child, hcx]
    have hcomponent := element_writesAs component (cx.child 0) rfl
    refine hcomponent.trans ?_
    rw [hchild]
    exact writesAs_of_route component.elementType cx (0 :: cx.route) cx.route
  | .primitive .. | .classUse .. | .void .. | .intersection .. | .union .. | .wildcard ..
  | .unknown =>
    intro config w
    exact congrArg (typeset config w) (List.append_nil _).symm
termination_by sizeOf t

/-- A type with further pairs of brackets behind it. -/
theorem TypeUse.writesAs_withLevels {t : TypeUse} (h : t.hasPlainLevels = true) (cx : Context)
    (hcx : cx.isStaticValue = false) (extra : Nat) :
    (TypeShape.doc (t.script cx) ++ brackets extra).WritesAs (t.withLevels cx extra) := by
  have hdoc : TypeShape.doc (t.script cx) ++ brackets extra =
      TypeShape.element (t.script cx) ++ brackets (t.arrayLevel + extra) := by
    rw [← brackets_add, ← levels_eq t h cx, ← List.append_assoc]
    rfl
  rw [hdoc]
  exact (element_writesAs t cx hcx).append (brackets_writesAs _)

theorem Dimension.concat_eq (dimensions : Node (.many .dimension))
    (h : dimensions.toList.all Dimension.isPlain = true) (cx : Context) :
    Doc.concat (dimensions.script cx) = brackets dimensions.toList.length := by
  obtain ⟨l, rfl⟩ := dimensions.exists_ofList
  rw [Node.toList_ofList] at h ⊢
  induction l generalizing cx with
  | nil => rfl
  | cons d rest ih =>
    obtain ⟨hd, hrest⟩ := Bool.and_eq_true_iff.mp h
    cases d with
    | dimension annotations =>
      have hnil : annotations = .nil := by
        rw [← annotations.ofList_toList, List.isEmpty_iff.mp hd]
        rfl
      subst hnil
      exact congrArg (text "[]" ++ ·) (ih _ hrest)

/-- The shape of a variable has its name and its dimensions. -/
def Declarator.Shapes (d : Node .declarator) (s : DeclaratorShape) : Prop :=
  s.name = declaratorName d ∧ s.dimensions = brackets (Declarator.dimensions d).length

theorem Declarator.forall₂_shapes (ds : Node (.many .declarator))
    (h : ∀ d ∈ ds.toList, Declarator.isPlain d = true) (cx : Context) :
    List.Forall₂ Declarator.Shapes ds.toList (ds.script cx) := by
  obtain ⟨l, rfl⟩ := ds.exists_ofList
  rw [Node.toList_ofList] at h ⊢
  induction l generalizing cx with
  | nil => exact .nil
  | cons d rest ih =>
    obtain ⟨hd, hrest⟩ := List.forall_mem_cons.mp h
    refine .cons ?_ (ih _ hrest)
    cases d with
    | declarator name dimensions initial => exact ⟨rfl, Dimension.concat_eq dimensions hd _⟩

/-- A variable: its name, its type with its own dimensions, and its value. -/
def variableDoc (leveled : Nat → Doc) (d : Node .declarator) (s : DeclaratorShape) : Doc :=
  text (escapeIdentifier (declaratorName d)) ++ text ": "
    ++ leveled (Declarator.dimensions d).length ++ s.initializer

theorem concat_pairs {α : Type} (as : List α) :
    Doc.concat (as.map fun _ => text "[]") = brackets as.length := by
  induction as with
  | nil => rfl
  | cons a rest ih => exact congrArg (text "[]" ++ ·) ih

namespace Script

variable {type : TypeShape} {base : Option Doc} (hbase : base = some type.doc)
  {leveled : Nat → Doc} (h : ∀ extra, (type.doc ++ brackets extra).WritesAs (leveled extra))

include h

theorem declarator_writesAs {d : Node .declarator} {s : DeclaratorShape}
    (hs : Declarator.Shapes d s) :
    (declarator (some type.doc) s).WritesAs (variableDoc leveled d s) := by
  obtain ⟨hname, hdimensions⟩ := hs
  have hdoc : declarator (some type.doc) s =
      text (escapeIdentifier (declaratorName d)) ++ text ": "
        ++ (type.doc ++ brackets (Declarator.dimensions d).length) ++ s.initializer := by
    rw [← hname, ← hdimensions, declarator]
    simp only [List.append_assoc]
  rw [hdoc]
  exact ((Doc.WritesAs.refl _).append (h _)).append (.refl _)

theorem sizedArray_writesAs (sizes : List (Option Doc)) :
    (sizedArray type.doc sizes).WritesAs
      (text "new Array<" ++ leveled (sizes.length - 1) ++ text ">("
        ++ (sizes.head?.getD none).getD [] ++ text ")") := by
  have hdoc : sizedArray type.doc sizes =
      text "new Array<" ++ (type.doc ++ brackets (sizes.length - 1)) ++ text ">("
        ++ (sizes.head?.getD none).getD [] ++ text ")" := by
    rw [sizedArray, concat_pairs, List.length_tail]
    simp only [List.append_assoc]
  rw [hdoc]
  exact ((((Doc.WritesAs.refl _).append (h _)).append (.refl _)).append (.refl _)).append (.refl _)

include hbase

theorem declarators_writesAs {ds : List (Node .declarator)} {shapes : List DeclaratorShape}
    (hshapes : List.Forall₂ Declarator.Shapes ds shapes) :
    (declarators base shapes).WritesAs
      (Doc.separated ", " (List.zipWith (variableDoc leveled) ds shapes)) := by
  subst hbase
  refine .separated ", " ?_
  induction hshapes with
  | nil => exact .nil
  | cons hs _ ih => exact .cons (declarator_writesAs h hs) ih

theorem parameter_writesAs (name : String) (mods : ModifierSet)
    (annotations varArgsAnnotations : List Doc) :
    (parameter name base mods annotations true varArgsAnnotations).WritesAs
      (inlineAnnotations annotations ++ modifiers mods
        ++ (inlineAnnotations varArgsAnnotations ++ text "...")
        ++ text (escapeIdentifier name) ++ text ": " ++ leveled 1) := by
  subst hbase
  have hdoc : parameter name (some type.doc) mods annotations true varArgsAnnotations =
      inlineAnnotations annotations ++ modifiers mods
        ++ (inlineAnnotations varArgsAnnotations ++ text "...")
        ++ text (escapeIdentifier name) ++ text ": " ++ (type.doc ++ brackets 1) := by
    simp only [parameter, typed, if_true, List.append_assoc]
    rfl
  rw [hdoc]
  exact (Doc.WritesAs.refl _).append (h 1)

end Script

theorem knownType_eq_some {t : TypeUse} (h : TypeUse.isUnknown t = false) (shape : TypeShape) :
    knownType t shape = some shape.doc := by
  rw [knownType, h]
  rfl

theorem length_script {c : Category} (ns : Node (.many c)) (cx : Context) :
    List.length (ns.script cx : List (Script c)) = ns.toList.length := by
  obtain ⟨l, rfl⟩ := ns.exists_ofList
  rw [Node.toList_ofList]
  induction l generalizing cx with
  | nil => rfl
  | cons n rest ih => exact congrArg (· + 1) (ih _)

/-- The variables of a field and of a local declaration are written with the element type and as
many pairs of brackets as the type has levels and the variable has dimensions. A variadic parameter
has one pair more than its type has levels, and a new array one pair less than its type and its
creation have levels together. -/
theorem array_dimensions_reproduced (t : TypeUse) (hknown : TypeUse.isUnknown t = false)
    (hlevels : t.hasPlainLevels = true) (cx : Context) :
    (∀ (mods : ModifierSet) (comment : Option Comment) (annotations : Node (.many .annotationUse))
      (ds : Node (.many .declarator)), (∀ d ∈ ds.toList, Declarator.isPlain d = true) →
      (MemberShape.doc ((Node.field mods comment annotations t ds).script cx)).WritesAs
        (Doc.comment comment ++ Script.annotationLines (annotations.script (cx.child 0))
          ++ Script.memberModifiers cx mods
          ++ Doc.separated ", " (List.zipWith (variableDoc (t.withLevels (cx.child 1))) ds.toList
            (ds.script ((cx.declarators (mods.contains .static)).child 2)))
          ++ text ";")) ∧
    (∀ (mods : ModifierSet) (annotations : Node (.many .annotationUse))
      (ds : Node (.many .declarator)), (∀ d ∈ ds.toList, Declarator.isPlain d = true) →
      Doc.WritesAs ((Node.variableGroup mods annotations t ds).script cx)
        (Script.inlineAnnotations (annotations.script (cx.child 0)) ++ Script.modifiers mods
          ++ text (Script.declarationWord mods)
          ++ Doc.separated ", " (List.zipWith (variableDoc (t.withLevels (cx.child 1))) ds.toList
            (ds.script ((cx.declarators false).child 2))))) ∧
    (∀ (name : String) (mods : ModifierSet)
      (annotations varArgsAnnotations : Node (.many .annotationUse)),
      Doc.WritesAs ((Node.parameter name t mods annotations true varArgsAnnotations).script cx)
        (Script.inlineAnnotations (annotations.script (cx.child 1)) ++ Script.modifiers mods
          ++ (Script.inlineAnnotations (varArgsAnnotations.script (cx.child 2)) ++ text "...")
          ++ text (escapeIdentifier name) ++ text ": " ++ t.withLevels (cx.child 0) 1)) ∧
    ∀ levels : Node (.many .creationLevel), 1 ≤ levels.toList.length →
      Doc.WritesAs ((Node.arrayCreation t levels .absent).script cx)
        (text "new Array<" ++ t.withLevels (cx.child 0) (levels.toList.length - 1) ++ text ">("
          ++ ((List.head? (levels.script (cx.child 1) : List (Option Doc))).getD none).getD []
          ++ text ")") := by
  have hbase (place : Nat) := knownType_eq_some hknown (t.script (cx.child place))
  have hleveled (place : Nat) := TypeUse.writesAs_withLevels hlevels (cx.child place) rfl
  refine ⟨?_, ?_, ?_, ?_⟩
  · intro mods comment annotations ds hds
    have hvariables (inner : Context) := Script.declarators_writesAs (hbase 1) (hleveled 1)
      (Declarator.forall₂_shapes ds hds inner)
    exact ((Doc.WritesAs.refl _).append (hvariables _)).append (.refl _)
  · intro mods annotations ds hds
    have hvariables (inner : Context) := Script.declarators_writesAs (hbase 1) (hleveled 1)
      (Declarator.forall₂_shapes ds hds inner)
    exact (Doc.WritesAs.refl _).append (hvariables _)
  · intro name mods annotations varArgsAnnotations
    exact Script.parameter_writesAs (hbase 0) (hleveled 0) name mods _ _
  · intro levels _
    rw [← length_script levels (cx.child 1)]
    exact Script.sizedArray_writesAs (hleveled 0) _

/-- Three variables; the second and the third have dimensions of their own. -/
def gridVariables : Node (.many .declarator) :=
  .ofList [Declarator.named "a", Declarator.withDimensions 2 (Declarator.named "b"),
    Declarator.withDimensions 1 (Declarator.named "c")]

theorem gridVariables_text :
    TypeUse.isUnknown (TypeUse.arrayOf (.plain .int) 1) = false ∧
      Node.hasPlainLevels (TypeUse.arrayOf (.plain .int) 1) = true ∧
      (MemberShape.doc ((Node.field .empty none .nil (TypeUse.arrayOf (.plain .int) 1)
        gridVariables).script { resolver := .ofUnit {} {} })).textAt {} 0 =
        .ok "a: number[], b: number[][][], c: number[][];" := by
  obtain ⟨hfield, -⟩ := array_dimensions_reproduced (TypeUse.arrayOf (.plain .int) 1) rfl rfl
    { resolver := .ofUnit {} {} }
  refine ⟨rfl, rfl, ?_⟩
  exact ((hfield .empty none .nil gridVariables (by decide)).textAt {} 0).trans (by decide +kernel)

end TypeScribe
