import Mathlib.Data.List.Basic
import TypeScribe.Layout.Typeset
import TypeScribe.Proofs.Layout.Modules

/-!
# Revised documents

A revision of a document may leave out its comments and give other routes to the declarations that
it moves, as long as different routes stay different. It reaches into the moved declarations, and it
commutes with every way of putting scripts together and with the order of the modules.
-/
namespace TypeScribe
set_option autoImplicit false

structure Revision where
  keepsComments : Bool
  reroute : Route → Route
  injective : Function.Injective reroute

mutual
/-- What becomes of a piece. -/
def Revision.piece (v : Revision) : Piece → List Piece
  | .comment c => if v.keepsComments then [.comment c] else []
  | .moved route names body => [.moved (v.reroute route) names (v.pieces body)]
  | p => [p]

def Revision.pieces (v : Revision) : List Piece → List Piece
  | [] => []
  | p :: rest => v.piece p ++ v.pieces rest
end

namespace Revision
open Doc

variable (v : Revision) {d e : Doc} {ds : List Doc}

def doc (d : Doc) : Doc := v.pieces d

@[simp] theorem doc_nil : v.doc [] = [] := rfl

theorem doc_cons (p : Piece) (d : Doc) : v.doc (p :: d) = v.piece p ++ v.doc d := rfl

@[simp] theorem doc_append : v.doc (d ++ e) = v.doc d ++ v.doc e := by
  induction d with
  | nil => rfl
  | cons p rest ih => rw [List.cons_append, doc_cons, ih, doc_cons, List.append_assoc]

@[simp] theorem doc_text (s : String) : v.doc (text s) = text s := rfl

@[simp] theorem doc_newline : v.doc newline = newline := rfl

@[simp] theorem doc_line (s : String) : v.doc (line s) = line s := rfl

@[simp] theorem doc_unsupported (c : Construct) : v.doc (unsupported c) = unsupported c := rfl

@[simp] theorem doc_flaw (f : Flaw) : v.doc (flaw f) = flaw f := rfl

@[simp] theorem doc_indented : v.doc (indented d) = indented (v.doc d) := by
  change [.indent] ++ v.doc (d ++ [.outdent]) = _
  rw [doc_append]
  rfl

theorem doc_comments (cs : List Comment) :
    v.doc (comments cs) = if v.keepsComments then comments cs else [] := by
  induction cs with
  | nil => simp [comments]
  | cons c rest ih =>
    change v.piece (.comment c) ++ v.doc (comments rest) = _
    rw [ih, piece]
    split <;> rfl

theorem doc_comment (c : Option Comment) :
    v.doc (comment c) = if v.keepsComments then comment c else [] := by
  cases c with
  | none => simp [comment]
  | some c => exact v.doc_comments [c]

theorem doc_flatMap {α : Type} (as : List α) (f : α → Doc) :
    v.doc (as.flatMap f) = as.flatMap fun a => v.doc (f a) := by
  induction as with
  | nil => rfl
  | cons a rest ih => rw [List.flatMap_cons, doc_append, ih, List.flatMap_cons]

@[simp] theorem doc_concat : v.doc (concat ds) = concat (ds.map v.doc) := by
  induction ds with
  | nil => rfl
  | cons d rest ih => exact v.doc_append.trans (congrArg _ ih)

@[simp] theorem doc_separated (s : String) :
    v.doc (separated s ds) = separated s (ds.map v.doc) := by
  induction ds with
  | nil => rfl
  | cons d rest ih =>
    cases rest with
    | nil => rfl
    | cons e rest => rw [separated, doc_append, doc_append, doc_text, ih]; rfl

@[simp] theorem doc_between (s t : String) : v.doc (between s t d) = between s t (v.doc d) := by
  simp [between]

@[simp] theorem doc_endedBy (s : String) : v.doc (endedBy s d) = endedBy s (v.doc d) := by
  simp [endedBy]

-- Shapes

def typeShape (t : TypeShape) : TypeShape :=
  { element := v.doc t.element, levels := v.doc t.levels }

def declaratorShape (d : DeclaratorShape) : DeclaratorShape :=
  { d with dimensions := v.doc d.dimensions, initializer := v.doc d.initializer }

def stmtShape (s : StmtShape) : StmtShape := { s with doc := v.doc s.doc }

def memberShape (m : MemberShape) : MemberShape := { m with doc := v.doc m.doc }

def declShape (s : DeclShape) : DeclShape :=
  { annotations := v.doc s.annotations, content := v.doc s.content }

@[simp] theorem doc_typeShape (t : TypeShape) : (v.typeShape t).doc = v.doc t.doc :=
  v.doc_append.symm

variable {v}

theorem declShape_mk {annotations annotations' content content' : Doc}
    (ha : annotations' = v.doc annotations) (hc : content' = v.doc content) :
    DeclShape.mk annotations' content' = v.declShape ⟨annotations, content⟩ := by
  subst ha hc
  rfl

theorem declaratorShape_mk (name : String) {dimensions dimensions' initial initial' : Doc}
    (hd : dimensions' = v.doc dimensions) (hi : initial' = v.doc initial) :
    DeclaratorShape.mk name dimensions' initial' =
      v.declaratorShape ⟨name, dimensions, initial⟩ := by
  subst hd hi
  rfl

theorem knownType_revised {type type' : TypeUse} {t t' : TypeShape}
    (hunknown : type'.isUnknown = type.isUnknown) (h : t' = v.typeShape t) :
    knownType type' t' = (knownType type t).map v.doc := by
  subst h
  rw [knownType, hunknown, knownType]
  split <;> simp

end Revision

namespace Script
open Doc Revision

variable {v : Revision} {d d' e e' f f' : Doc} {ds ds' es es' fs fs' : List Doc}
  {value value' : Option Doc} {t t' : TypeShape} {ts ts' : List TypeShape}
  {ms ms' : List MemberShape} {comment comment' : Option Comment}

theorem append_revised (hd : d' = v.doc d) (he : e' = v.doc e) : d' ++ e' = v.doc (d ++ e) := by
  subst hd he
  exact v.doc_append.symm

theorem concat_revised (h : ds' = ds.map v.doc) : concat ds' = v.doc (concat ds) := by
  subst h
  exact v.doc_concat.symm

theorem separated_revised (s : String) (h : ds' = ds.map v.doc) :
    separated s ds' = v.doc (separated s ds) := by
  subst h
  exact (v.doc_separated s).symm

theorem between_revised (s t : String) (h : d' = v.doc d) :
    between s t d' = v.doc (between s t d) := by
  subst h
  exact (v.doc_between s t).symm

theorem endedBy_revised (s : String) (h : d' = v.doc d) : endedBy s d' = v.doc (endedBy s d) := by
  subst h
  exact (v.doc_endedBy s).symm

-- Annotations, modifiers and types

theorem annotationComment_revised (name : String) (h : d' = v.doc d) :
    annotationComment name d' = v.doc (annotationComment name d) := by
  subst h
  simp [annotationComment]

theorem element_revised (name : String) (h : d' = v.doc d) :
    element name d' = v.doc (element name d) := by
  subst h
  simp [element]

theorem annotationLines_revised (h : ds' = ds.map v.doc) :
    annotationLines ds' = v.doc (annotationLines ds) := by
  subst h
  simp [annotationLines, doc_flatMap, List.flatMap_map]

theorem inlineAnnotations_revised (h : ds' = ds.map v.doc) :
    inlineAnnotations ds' = v.doc (inlineAnnotations ds) := by
  subst h
  simp [inlineAnnotations, doc_flatMap, List.flatMap_map]

theorem levelAnnotations_revised (h : ds' = ds.map v.doc) :
    levelAnnotations ds' = v.doc (levelAnnotations ds) := by
  subst h
  simp [levelAnnotations, doc_flatMap, List.flatMap_map]

@[simp] theorem modifiers_revised (s : ModifierSet) : v.doc (modifiers s) = modifiers s := by
  unfold modifiers
  split <;> simp

theorem angled_revised (h : ds' = ds.map v.doc) : angled ds' = v.doc (angled ds) := by
  subst h
  cases ds <;> simp [angled]

theorem parenthesized_revised (h : ds' = ds.map v.doc) :
    parenthesized ds' = v.doc (parenthesized ds) := by
  subst h
  simp [parenthesized]

theorem level_revised (h : ds' = ds.map v.doc) : level ds' = v.doc (level ds) := by
  rw [level, level, doc_append, levelAnnotations_revised h, doc_text]

theorem plainType_revised (h : d' = v.doc d) : plainType d' = v.typeShape (plainType d) := by
  subst h
  rfl

theorem arrayType_revised (ht : t' = v.typeShape t) (h : ds' = ds.map v.doc) :
    arrayType t' ds' = v.typeShape (arrayType t ds) := by
  rw [arrayType, level_revised h, ht]
  simp [arrayType, typeShape]

theorem typeDoc_revised (h : t' = v.typeShape t) : t'.doc = v.doc t.doc := by
  subst h
  exact v.doc_typeShape t

theorem typeDocs_revised (h : ts' = ts.map v.typeShape) :
    ts'.map TypeShape.doc = (ts.map TypeShape.doc).map v.doc := by
  subst h
  simp

theorem boundOrAny_revised {lower lower' upper upper' : Option TypeShape}
    (hl : lower' = lower.map v.typeShape) (hu : upper' = upper.map v.typeShape) :
    boundOrAny lower' upper' = v.doc (boundOrAny lower upper) := by
  subst hl hu
  cases lower <;> cases upper <;> simp [boundOrAny]

theorem classType_revised {cx cx' : Context} {segments segments' : List String} (name : String)
    {arguments arguments' : Option (List TypeShape)} (hname : cx'.typeName name = cx.typeName name)
    (hsegments : segments' = segments) (hvalue : value' = value.map v.doc)
    (ha : arguments' = arguments.map (List.map v.typeShape)) (h : ds' = ds.map v.doc) :
    classType cx' segments' value' name arguments' ds' =
      v.doc (classType cx segments value name arguments ds) := by
  have hangled : angled ((arguments'.getD []).map TypeShape.doc) =
      v.doc (angled ((arguments.getD []).map TypeShape.doc)) := by
    apply angled_revised
    apply typeDocs_revised
    subst ha
    cases arguments <;> rfl
  subst hsegments hvalue
  unfold classType
  rw [hangled, inlineAnnotations_revised h, hname]
  split
  · rfl
  · cases value <;> simp

theorem typeParameter_revised (name : String) (hd : ds' = ds.map v.doc) (he : es' = es.map v.doc) :
    typeParameter name ds' es' = v.doc (typeParameter name ds es) := by
  rw [typeParameter, inlineAnnotations_revised he, hd]
  cases ds <;> simp [typeParameter]

theorem parameter_revised (name : String) (mods : ModifierSet) (isVarArgs : Bool)
    (hvalue : value' = value.map v.doc) (hd : ds' = ds.map v.doc) (he : es' = es.map v.doc) :
    parameter name value' mods ds' isVarArgs es' =
      v.doc (parameter name value mods ds isVarArgs es) := by
  rw [parameter, inlineAnnotations_revised hd, inlineAnnotations_revised he, hvalue]
  cases value <;> cases isVarArgs <;> simp [parameter, typed]

-- Expressions

theorem underScope_revised (hvalue : value' = value.map v.doc) (h : d' = v.doc d) :
    underScope value' d' = v.doc (underScope value d) := by
  subst hvalue h
  cases value <;> simp [underScope]

theorem arrayAccess_revised (hd : d' = v.doc d) (he : e' = v.doc e) :
    arrayAccess d' e' = v.doc (arrayAccess d e) := by
  subst hd he
  simp [arrayAccess]

theorem infixed_revised (symbol : String) (hd : d' = v.doc d) (he : e' = v.doc e) :
    infixed d' symbol e' = v.doc (infixed d symbol e) := by
  subst hd he
  simp [infixed]

theorem unary_revised (op : UnaryOp) (h : d' = v.doc d) : unary op d' = v.doc (unary op d) := by
  subst h
  unfold unary
  split <;> simp

theorem cast_revised (isIntegral : Bool) (hd : d' = v.doc d) (he : e' = v.doc e) :
    cast isIntegral d' e' = v.doc (cast isIntegral d e) := by
  subst hd he
  cases isIntegral <;> simp [cast]

theorem arrayLiteral_revised (h : ds' = ds.map v.doc) :
    arrayLiteral ds' = v.doc (arrayLiteral ds) := by
  subst h
  simp [arrayLiteral]

theorem arrayCreation_revised {sizes sizes' : List (Option Doc)}
    {values values' : Option (List Doc)} (hd : d' = v.doc d)
    (hs : sizes' = sizes.map (Option.map v.doc)) (hv : values' = values.map (List.map v.doc)) :
    arrayCreation d' sizes' values' = v.doc (arrayCreation d sizes values) := by
  subst hd hs hv
  cases values with
  | some values => exact arrayLiteral_revised rfl
  | none =>
    cases sizes with
    | nil => simp [arrayCreation, sizedArray]
    | cons size rest => cases size <;> simp [arrayCreation, sizedArray, Function.comp_def]

theorem conditional_revised (hd : d' = v.doc d) (he : e' = v.doc e) (hf : f' = v.doc f) :
    conditional d' e' f' = v.doc (conditional d e f) := by
  subst hd he hf
  simp [conditional]

theorem methodCall_revised (name : String) (hvalue : value' = value.map v.doc)
    (ht : ts' = ts.map v.typeShape) (h : ds' = ds.map v.doc) :
    methodCall value' ts' name ds' = v.doc (methodCall value ts name ds) := by
  have hname : text (escapeIdentifier name) = v.doc (text (escapeIdentifier name)) := rfl
  rw [methodCall, underScope_revised hvalue hname, angled_revised (typeDocs_revised ht),
    parenthesized_revised h, methodCall, doc_append, doc_append]

@[simp] theorem superDoc_revised (qualifier : Option String) :
    v.doc (superDoc qualifier) = superDoc qualifier := by
  cases qualifier <;> rfl

theorem members_revised (h : ms' = ms.map v.memberShape) :
    members ms' = v.doc (members ms) := by
  subst h
  simp [members, doc_flatMap, List.flatMap_map, memberShape]

theorem anonymousClass_revised {cx cx' : Context} {type type' : ClassType} (isStatic : Bool)
    (hcx : cx'.captureName = cx.captureName) (htype : cx'.isInterface type' = cx.isInterface type)
    (hd : d' = v.doc d) (h : ds' = ds.map v.doc) (hm : ms' = ms.map v.memberShape) :
    anonymousClass cx' type' d' ds' ms' isStatic =
      v.doc (anonymousClass cx type d ds ms isStatic) := by
  rw [anonymousClass, members_revised hm, parenthesized_revised h, hd, htype]
  cases isStatic <;> simp [anonymousClass, Context.outerThis, hcx]

theorem objectCreation_revised {cx cx' : Context} {type type' : ClassType} (isStatic : Bool)
    {body body' : Option (List MemberShape)} (hcx : cx'.captureName = cx.captureName)
    (htype : cx'.isInterface type' = cx.isInterface type) (hname : type'.name = type.name)
    (hvalue : value' = value.map v.doc) (hd : d' = v.doc d) (h : ds' = ds.map v.doc)
    (hbody : body' = body.map (List.map v.memberShape)) :
    objectCreation cx' value' type' d' ds' body' isStatic =
      v.doc (objectCreation cx value type d ds body isStatic) := by
  subst hbody
  cases body with
  | none =>
    refine underScope_revised hvalue ?_
    rw [parenthesized_revised h, hd]
    simp
  | some ms =>
    simp only [objectCreation, Option.map_some]
    rw [anonymousClass_revised isStatic hcx htype hd h rfl, hname, hvalue]
    cases value <;> simp

theorem lambda_revised (isEnclosed : Bool) (h : ds' = ds.map v.doc) (hd : d' = v.doc d) :
    lambda ds' isEnclosed d' = v.doc (lambda ds isEnclosed d) := by
  subst h hd
  cases isEnclosed <;> simp [lambda, parenthesized]

theorem initialValue_revised (hvalue : value' = value.map v.doc) :
    initialValue value' = v.doc (initialValue value) := by
  subst hvalue
  cases value <;> simp [initialValue]

theorem declarators_revised {vs vs' : List DeclaratorShape} (hvalue : value' = value.map v.doc)
    (hv : vs' = vs.map v.declaratorShape) :
    declarators value' vs' = v.doc (declarators value vs) := by
  have hdeclarator (x : DeclaratorShape) :
      declarator (value.map v.doc) (v.declaratorShape x) = v.doc (declarator value x) := by
    cases value <;> simp [declarator, declaratorShape]
  subst hvalue hv
  simp [declarators, hdeclarator, Function.comp_def]

theorem variableGroup_revised (mods : ModifierSet) {vs vs' : List DeclaratorShape}
    (h : ds' = ds.map v.doc) (hvalue : value' = value.map v.doc)
    (hv : vs' = vs.map v.declaratorShape) :
    variableGroup mods ds' value' vs' = v.doc (variableGroup mods ds value vs) := by
  rw [variableGroup, inlineAnnotations_revised h, declarators_revised hvalue hv]
  simp [variableGroup]

-- Statements

theorem stmtLines_revised {ss ss' : List StmtShape} (h : ss' = ss.map v.stmtShape) :
    stmtLines ss' = v.doc (stmtLines ss) := by
  have hline (s : StmtShape) : stmtLine (v.stmtShape s) = v.doc (stmtLine s) := by
    unfold stmtLine stmtShape
    split <;> simp
  subst h
  simp [stmtLines, doc_flatMap, List.flatMap_map, hline]

theorem block_revised {ss ss' : List StmtShape} {trailing trailing' : List Comment}
    (h : stmtLines ss' = v.doc (stmtLines ss))
    (htrailing : comments trailing' = v.doc (comments trailing)) :
    block ss' trailing' = v.doc (block ss trailing) := by
  rw [block, h, htrailing]
  simp [block]

@[simp] theorem jump_revised (word : String) (label : Option String) :
    v.doc (jump word label) = jump word label := by
  cases label <;> rfl

theorem returnStmt_revised (hvalue : value' = value.map v.doc) :
    returnStmt value' = v.doc (returnStmt value) := by
  subst hvalue
  cases value <;> simp [returnStmt]

theorem ifStmt_revised {s s' : StmtShape} {alternative alternative' : Option StmtShape}
    (hd : d' = v.doc d) (hs : s' = v.stmtShape s)
    (ha : alternative' = alternative.map v.stmtShape) :
    ifStmt d' s' alternative' = v.doc (ifStmt d s alternative) := by
  have hconsequent : consequent (v.stmtShape s) = v.doc (consequent s) := by
    unfold consequent stmtShape
    split <;> simp
  have halternative (e : StmtShape) : 
      Script.alternative (v.stmtShape e) = v.doc (Script.alternative e) := by
    unfold Script.alternative stmtShape
    split <;> simp
  subst hd hs ha
  have hform : (v.stmtShape s).form = s.form := rfl
  cases alternative with
  | none => simp [ifStmt, hconsequent]
  | some e =>
    by_cases hblock : s.form = .block <;> simp [ifStmt, hconsequent, halternative, hform, hblock]

theorem switchEntry_revised {ss ss' : List StmtShape} (hvalue : value' = value.map v.doc)
    (h : stmtLines ss' = v.doc (stmtLines ss)) :
    switchEntry value' ss' = v.doc (switchEntry value ss) := by
  unfold switchEntry
  rw [h, hvalue]
  cases value <;> simp

theorem switchStmt_revised (hd : d' = v.doc d) (h : ds' = ds.map v.doc) :
    switchStmt d' ds' = v.doc (switchStmt d ds) := by
  subst hd h
  simp [switchStmt]

theorem whileStmt_revised {s s' : StmtShape} (hd : d' = v.doc d) (hs : s' = v.stmtShape s) :
    whileStmt d' s' = v.doc (whileStmt d s) := by
  subst hd hs
  simp [whileStmt, stmtShape]

theorem doStmt_revised {s s' : StmtShape} (hs : s' = v.stmtShape s) (hd : d' = v.doc d) :
    doStmt s' d' = v.doc (doStmt s d) := by
  subst hd hs
  simp [doStmt, stmtShape]

theorem forEachStmt_revised (mods : ModifierSet) (names : List String) {s s' : StmtShape}
    (hd : d' = v.doc d) (hs : s' = v.stmtShape s) :
    forEachStmt mods names d' s' = v.doc (forEachStmt mods names d s) := by
  have hnames : (names.map fun name => text (escapeIdentifier name)).map v.doc =
      names.map fun name => text (escapeIdentifier name) := by
    rw [List.map_map]
    rfl
  subst hd hs
  simp [forEachStmt, stmtShape, hnames]

theorem forStmt_revised {s s' : StmtShape} (hd : ds' = ds.map v.doc)
    (hvalue : value' = value.map v.doc)
    (he : es' = es.map v.doc) (hs : s' = v.stmtShape s) :
    forStmt ds' value' es' s' = v.doc (forStmt ds value es s) := by
  subst hd hvalue he hs
  cases value <;> simp [forStmt, stmtShape]

theorem synchronizedStmt_revised (h : d' = v.doc d) :
    synchronizedStmt d' = v.doc (synchronizedStmt d) := by
  subst h
  simp [synchronizedStmt]

theorem catchClause_revised (name : String) (h : d' = v.doc d) :
    catchClause name d' = v.doc (catchClause name d) := by
  subst h
  simp [catchClause]

theorem resources_revised (h : ds' = ds.map v.doc) : resources ds' = v.doc (resources ds) := by
  subst h
  cases ds <;> simp [resources, doc_flatMap, List.flatMap_map]

theorem tryStmt_revised (hd : ds' = ds.map v.doc) (h : d' = v.doc d) (he : es' = es.map v.doc)
    (hvalue : value' = value.map v.doc) :
    tryStmt ds' d' es' value' = v.doc (tryStmt ds d es value) := by
  unfold tryStmt
  rw [resources_revised hd, h, he, hvalue]
  cases value <;> simp

theorem constructorCall_revised (isThis : Bool) (hvalue : value' = value.map v.doc)
    (h : ds' = ds.map v.doc) :
    constructorCall isThis value' ds' = v.doc (constructorCall isThis value ds) := by
  have hsuper : text "super" = v.doc (text "super") := rfl
  rw [constructorCall, parenthesized_revised h, underScope_revised hvalue hsuper]
  cases isThis <;> simp [constructorCall]

-- Declarations

theorem classBody_revised (h : ms' = ms.map v.memberShape) :
    classBody ms' = v.doc (classBody ms) := by
  subst h
  have htypes : (ms.map v.memberShape).filter MemberShape.isType =
      (ms.filter MemberShape.isType).map v.memberShape := List.filter_map
  have hothers : (ms.map v.memberShape).filter (fun m => !m.isType) =
      (ms.filter fun m => !m.isType).map v.memberShape := List.filter_map
  rw [classBody, members_revised htypes, members_revised hothers, classBody, doc_append]

theorem listed_revised (word : String) (h : ds' = ds.map v.doc) :
    listed word ds' = v.doc (listed word ds) := by
  subst h
  cases ds <;> simp [listed]

theorem classContent_revised (name : String) (isInterface : Bool) (mods : ModifierSet)
    {trailing trailing' : List Comment} (hd : ds' = ds.map v.doc) (he : es' = es.map v.doc)
    (hf : fs' = fs.map v.doc) (hm : ms' = ms.map v.memberShape)
    (htrailing : comments trailing' = v.doc (comments trailing)) :
    classContent name isInterface mods ds' es' fs' ms' trailing' =
      v.doc (classContent name isInterface mods ds es fs ms trailing) := by
  rw [classContent, angled_revised hd, listed_revised _ he, listed_revised _ hf,
    classBody_revised hm, htrailing]
  simp [classContent]

theorem enumContent_revised (name : String) (hd : ds' = ds.map v.doc) (he : es' = es.map v.doc)
    (hm : ms' = ms.map v.memberShape) :
    enumContent name ds' es' ms' = v.doc (enumContent name ds es ms) := by
  have hafter : afterConstants es' ms' = v.doc (afterConstants es ms) := by
    unfold afterConstants
    rw [members_revised hm, he, hm]
    cases ms <;> cases es <;> simp
  rw [enumContent, listed_revised _ hd, hafter, he]
  simp [enumContent]

theorem enumConstant_revised (name : String)
    (hc : Doc.comment comment' = v.doc (Doc.comment comment)) (hd : ds' = ds.map v.doc)
    (he : es' = es.map v.doc) (hm : ms' = ms.map v.memberShape) :
    enumConstant name comment' ds' es' ms' = v.doc (enumConstant name comment ds es ms) := by
  rw [enumConstant, annotationLines_revised hd, parenthesized_revised he, members_revised hm, hc,
    he, hm]
  cases es <;> cases ms <;> simp [enumConstant]

theorem annotationContent_revised (name : String) (hm : ms' = ms.map v.memberShape) :
    annotationContent name ms' = v.doc (annotationContent name ms) := by
  rw [annotationContent, classBody_revised hm]
  simp [annotationContent]

@[simp] theorem memberModifiers_revised (cx : Context) (mods : ModifierSet) :
    v.doc (memberModifiers cx mods) = memberModifiers cx mods := by
  unfold memberModifiers
  split <;> simp

@[simp] theorem thrownMarker_revised (throwsAny : Bool) :
    v.doc (thrownMarker throwsAny) = thrownMarker throwsAny := by
  cases throwsAny <;> rfl

theorem field_revised {cx cx' : Context} (mods : ModifierSet) {vs vs' : List DeclaratorShape}
    (hcx : cx'.inInterface = cx.inInterface)
    (hc : Doc.comment comment' = v.doc (Doc.comment comment)) (h : ds' = ds.map v.doc)
    (hvalue : value' = value.map v.doc) (hv : vs' = vs.map v.declaratorShape) :
    field cx' mods comment' ds' value' vs' = v.doc (field cx mods comment ds value vs) := by
  rw [field, annotationLines_revised h, declarators_revised hvalue hv, memberModifiers, hcx, hc]
  simp [field, memberModifiers, apply_ite v.doc]

theorem method_revised {cx cx' : Context} (name : String) (mods : ModifierSet) (throwsAny : Bool)
    (hcx : cx'.inInterface = cx.inInterface)
    (hc : Doc.comment comment' = v.doc (Doc.comment comment)) (hd : ds' = ds.map v.doc)
    (he : es' = es.map v.doc) (h : d' = v.doc d) (hf : fs' = fs.map v.doc)
    (hvalue : value' = value.map v.doc) :
    method cx' name mods comment' ds' es' d' fs' throwsAny value' =
      v.doc (method cx name mods comment ds es d fs throwsAny value) := by
  have hmods : memberModifiers cx' mods = memberModifiers cx mods := by
    rw [memberModifiers, hcx, memberModifiers]
  unfold method
  rw [annotationLines_revised hd, angled_revised he, parenthesized_revised hf, hmods, hc, h, hvalue]
  cases value <;> simp

theorem constructor_revised (throwsAny : Bool)
    (hc : Doc.comment comment' = v.doc (Doc.comment comment)) (hd : ds' = ds.map v.doc)
    (he : es' = es.map v.doc) (h : d' = v.doc d) :
    constructor comment' ds' es' throwsAny d' = v.doc (constructor comment ds es throwsAny d) := by
  rw [constructor, annotationLines_revised hd, parenthesized_revised he, hc, h]
  simp [constructor]

theorem initializer_revised (isStatic : Bool)
    (hc : Doc.comment comment' = v.doc (Doc.comment comment)) (h : d' = v.doc d) :
    initializer isStatic comment' d' = v.doc (initializer isStatic comment d) := by
  rw [initializer, hc, h]
  cases isStatic <;> simp [initializer]

theorem annotationMember_revised (name : String)
    (hc : Doc.comment comment' = v.doc (Doc.comment comment)) (hd : ds' = ds.map v.doc)
    (h : d' = v.doc d) :
    annotationMember name comment' ds' d' = v.doc (annotationMember name comment ds d) := by
  rw [annotationMember, annotationLines_revised hd, hc, h]
  simp [annotationMember]

theorem closure_revised (enclosing : String) (h : d' = v.doc d) :
    closure enclosing d' = v.doc (closure enclosing d) := by
  subst h
  simp [closure]

end Script

/-- Two declarations that are headed alike up to the revision. -/
structure Revision.Heads (v : Revision) (decl decl' : TypeDecl) : Prop where
  name : decl'.name = decl.name
  modifiers : decl'.modifiers = decl.modifiers
  comment : Doc.comment decl'.comment = v.doc (Doc.comment decl.comment)

namespace Script

variable {v : Revision} {decl decl' : TypeDecl} {shape shape' : DeclShape}

theorem rootDecl_revised (hdecl : v.Heads decl decl') (h : shape' = v.declShape shape) :
    rootDecl decl' shape' = v.doc (rootDecl decl shape) := by
  subst h
  simp only [rootDecl, hdecl.comment, hdecl.modifiers, Revision.declShape]
  split <;> simp

theorem moduleDecl_revised (hdecl : v.Heads decl decl') (h : shape' = v.declShape shape) :
    moduleDecl decl' shape' = v.doc (moduleDecl decl shape) := by
  subst h
  simp [moduleDecl, hdecl.comment, Revision.declShape]

theorem nestedClass_revised (enclosing : String) (hdecl : v.Heads decl decl')
    (h : shape' = v.declShape shape) :
    nestedClass enclosing decl' shape' = v.doc (nestedClass enclosing decl shape) := by
  have hstatic : decl'.isStatic = decl.isStatic := by
    rw [TypeDecl.isStatic, hdecl.modifiers, TypeDecl.isStatic]
  subst h
  simp only [nestedClass, hdecl.comment, hdecl.modifiers, hdecl.name, hstatic, Revision.declShape,
    closure_revised enclosing rfl]
  split <;> simp

theorem nestedEnum_revised (hdecl : v.Heads decl decl') (h : shape' = v.declShape shape) :
    nestedEnum decl' shape' = v.doc (nestedEnum decl shape) := by
  subst h
  simp [nestedEnum, hdecl.comment, hdecl.modifiers, Revision.declShape]

end Script

-- Modules

namespace Revision

variable (v : Revision)

def inModule (m : Module) : Module := { m with body := v.doc m.body }

/-- What becomes of a declaration that is moved. -/
def entry (move : Route × Module) : Route × Module := (v.reroute move.1, v.inModule move.2)

theorem moves_doc (d : Doc) : moves (v.doc d) = (moves d).map v.entry := by
  induction d with
  | nil => rfl
  | cons p rest ih =>
    rw [doc_cons, moves_append, ih]
    cases p with
    | comment c =>
      rw [piece]
      split <;> rfl
    | _ => rfl

mutual
theorem depthOf_piece (p : Piece) : depthOf (v.piece p) = p.depth := by
  match p with
  | .moved route names body =>
    change max (depthOf (v.pieces body) + 1) 0 = depthOf body + 1
    rw [depthOf_pieces body, Nat.max_zero]
  | .comment c =>
    rw [piece]
    split <;> rfl
  | .text _ => rfl
  | .newline => rfl
  | .indent => rfl
  | .outdent => rfl
  | .unsupported _ => rfl
  | .flaw _ => rfl

theorem depthOf_pieces (d : List Piece) : depthOf (v.pieces d) = depthOf d := by
  match d with
  | [] => rfl
  | p :: rest =>
    rw [pieces, depthOf_append, depthOf_piece p, depthOf_pieces rest]
    rfl
end

/-- The queue of what becomes of the declarations in a queue. -/
def queue (q : ModuleQueue Module) : ModuleQueue Module where
  pending := q.pending.map v.entry
  seen := q.seen.map v.reroute

theorem accepts_queue (q : ModuleQueue Module) (route : Route) :
    (v.queue q).accepts (v.reroute route) = q.accepts route := by
  have hseen : (v.queue q).seen.contains (v.reroute route) = q.seen.contains route := by
    rw [Bool.eq_iff_iff, List.contains_iff_mem, List.contains_iff_mem]
    exact List.mem_map_of_injective v.injective
  rw [ModuleQueue.accepts, hseen, ModuleQueue.accepts]

theorem enqueue_queue (q : ModuleQueue Module) (move : Route × Module) :
    (v.queue q).enqueue (v.entry move).1 (v.entry move).2 = v.queue (q.enqueue move.1 move.2) := by
  have haccepts : (v.queue q).accepts (v.entry move).1 = q.accepts move.1 :=
    v.accepts_queue q move.1
  unfold ModuleQueue.enqueue
  rw [haccepts]
  split
  · simp [queue, entry]
  · rfl

theorem enqueueMany_queue (q : ModuleQueue Module) (moves : List (Route × Module)) :
    (v.queue q).enqueueMany (moves.map v.entry) = v.queue (q.enqueueMany moves) := by
  induction moves generalizing q with
  | nil => rfl
  | cons move rest ih =>
    change ((v.queue q).enqueue (v.entry move).1 (v.entry move).2).enqueueMany _ = _
    rw [enqueue_queue, ih]
    rfl

theorem drain_queue (waves : Nat) (q : ModuleQueue Module) :
    drain waves (v.queue q) = (drain waves q).map v.inModule := by
  induction waves generalizing q with
  | zero => rfl
  | succ waves ih =>
    have hwave : (v.queue q).takeWave.1.map Prod.snd =
        (q.takeWave.1.map Prod.snd).map v.inModule := by
      simp [ModuleQueue.takeWave, queue, entry]
    have hmoves (ms : List Module) : ((ms.map v.inModule).flatMap fun m => moves m.body) =
        (ms.flatMap fun m => moves m.body).map v.entry := by
      rw [List.flatMap_map, List.map_flatMap]
      simp [inModule, moves_doc]
    have hrest : (v.queue q).takeWave.2 = v.queue q.takeWave.2 := rfl
    simp only [drain, hwave, hmoves, hrest, enqueueMany_queue, ih, List.map_append]

theorem modules_doc (d : Doc) : modules (v.doc d) = (modules d).map v.inModule := by
  have hdepth : depthOf (v.doc d) = depthOf d := v.depthOf_pieces d
  rw [modules, modules, ← drain_queue, ← enqueueMany_queue, moves_doc, hdepth]
  rfl

theorem doc_inModule (m : Module) : (v.inModule m).doc = v.doc m.doc := by
  obtain ⟨names, body⟩ := m
  induction names with
  | nil => simp [Module.doc, inModule]
  | cons name rest ih =>
    change Module.doc { names := name :: rest, body := v.doc body } = _
    rw [Module.doc_cons, Module.doc_cons, doc_append, doc_append, doc_indented, ← ih]
    rfl

theorem doc_withModules (d : Doc) : withModules (v.doc d) = v.doc (withModules d) := by
  have hdocs : (modules (v.doc d)).flatMap Module.doc = v.doc ((modules d).flatMap Module.doc) := by
    rw [modules_doc, doc_flatMap, List.flatMap_map]
    simp only [doc_inModule]
  have hempty : (modules (v.doc d)).isEmpty = (modules d).isEmpty := by
    rw [modules_doc, List.isEmpty_map]
  unfold withModules
  rw [hdocs, hempty]
  split <;> simp

theorem doc_stacked (ds : List Doc) :
    CompilationUnit.stacked (ds.map v.doc) = v.doc (CompilationUnit.stacked ds) := by
  induction ds with
  | nil => rfl
  | cons d rest ih =>
    cases rest with
    | nil => simp [CompilationUnit.stacked]
    | cons e rest =>
      rw [List.map_cons, List.map_cons, CompilationUnit.stacked, ← List.map_cons, ih,
        CompilationUnit.stacked]
      simp

end Revision
end TypeScribe
