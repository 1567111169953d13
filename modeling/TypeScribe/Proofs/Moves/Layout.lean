import Mathlib.Data.List.Basic
import TypeScribe.Layout.Typeset
import TypeScribe.Proofs.Layout.Modules
import TypeScribe.Proofs.Moves.Site
import TypeScribe.Proofs.Script.Every

/-!
# Layout of a declaration

What is written for a declaration consists of documents of its own and, between them, one place for
each declaration directly inside it. The documents of its own are the same whatever stands in those
places, and in a regular declaration nothing is moved out of them.
-/
namespace TypeScribe
set_option autoImplicit false

def Piece.stays : Piece → Bool
  | .moved .. => false
  | _ => true

/-- The document without the declarations that are moved out of it. -/
def Doc.visible (d : Doc) : Doc := d.filter Piece.stays

namespace Doc

@[simp] theorem visible_append (d e : Doc) : visible (d ++ e) = visible d ++ visible e :=
  List.filter_append ..

@[simp] theorem visible_text (s : String) : visible (text s) = text s := rfl

@[simp] theorem visible_newline : visible newline = newline := rfl

@[simp] theorem visible_comment (c : Option Comment) : visible (comment c) = comment c := by
  cases c <;> rfl

theorem visible_flatMap {α : Type} (as : List α) (f : α → Doc) :
    visible (as.flatMap f) = as.flatMap fun a => visible (f a) :=
  List.filter_flatMap

/-- The document moves nothing. -/
def IsStill (d : Doc) : Prop := Every (fun p => p.stays = true) d

theorem IsStill.visible_eq {d : Doc} (h : d.IsStill) : visible d = d := List.filter_eq_self.mpr h

theorem IsStill.moves_eq {d : Doc} (h : d.IsStill) : moves d = [] := by
  induction d with
  | nil => rfl
  | cons p rest ih =>
    obtain ⟨hp, hrest⟩ := every_cons.mp h
    cases p with
    | moved route names body => cases hp
    | _ => exact ih hrest

end Doc

theorem typeset_visible {σ : Type} [Sheet σ] (config : Config) (sheet : σ) (d : Doc) :
    typeset config sheet d.visible = typeset config sheet d := by
  induction d generalizing sheet with
  | nil => rfl
  | cons p rest ih =>
    cases p with
    | moved route names body => exact ih sheet
    | _ =>
      rw [typeset]
      change typeset config sheet (_ :: Doc.visible rest) = _
      rw [typeset]
      split
      · exact ih _
      · rfl

theorem stays_plainly : HoldsPlainly fun p => p.stays = true where
  text _ := rfl
  newline := rfl
  indent := rfl
  outdent := rfl
  comment _ := rfl
  unsupported _ := rfl

theorem Node.script_still {c : Category} (n : Node c) (cx : Context) (h : n.declares = false) :
    Script.All anySpelling (Doc.Every fun p => p.stays = true) (Doc.Every fun p => p.stays = true)
      (Doc.Every fun p => p.stays = true) c (n.script cx) := by
  have hnever : Context.Inherited fun _ => False :=
    ⟨fun _ h => h, id, id, fun _ h => h, fun _ h => h, fun _ h => h, fun _ h => h, id⟩
  refine n.script_every stays_plainly hnever (fun _ h => h.elim) (fun _ h => h.elim) cx ?_
  intro hdeclares
  rw [h] at hdeclares
  cases hdeclares

namespace Part

/-- The document of the part, where `f` gives those of the declarations. -/
def doc (f : Site → Doc) : Part → Doc
  | .own d => d
  | .nested s => f s

def lined (part : Part) : List Part := [.own Doc.newline, part, .own Doc.newline]

def isNested (part : Part) : Bool := part.site?.isSome

def shape (f : Site → Doc) (part : Part) : MemberShape :=
  { isType := part.isNested, doc := part.doc f }

end Part

/-- The places of declarations first, then everything else, each group in source order. -/
def typesFirst (parts : List Part) : List Part :=
  parts.filter Part.isNested ++ parts.filter fun part => !part.isNested

/-- The parts of a declaration inside which `cx` holds, from its keyword on. -/
def layoutIn (cx : Context) : TypeDecl → List Part
  | .classDecl name isInterface modifiers _ _ typeParameters extended implemented members trailing =>
    .own (Doc.text (Script.classWord isInterface modifiers) ++ Doc.text name
        ++ Script.angled (typeParameters.script (cx.child 1))
        ++ Script.listed " extends " (extended.script (cx.child 2))
        ++ Script.listed " implements " (implemented.script (cx.child 3))
        ++ Doc.line " \x7b" ++ [.indent])
      :: (typesFirst (memberParts ((cx.membersOf isInterface).child 4) members.toList)).flatMap
        Part.lined
      ++ [.own (Doc.comments trailing ++ [.outdent] ++ Doc.text "\x7d")]
  | .enumDecl name _ _ _ implemented constants members =>
    .own (Doc.text "enum " ++ Doc.text name
        ++ Script.listed " implements " (implemented.script (cx.child 1))
        ++ Doc.line " \x7b" ++ [.indent] ++ Doc.newline
        ++ Doc.separated ", " (constants.script (cx.child 2))
        ++ (if !members.toList.isEmpty then Doc.line ";"
          else if constants.toList.isEmpty then [] else Doc.newline))
      :: (memberParts ((cx.membersOf false).child 3) members.toList).flatMap Part.lined
      ++ [.own ([.outdent] ++ Doc.text "\x7d")]
  | .annotationDecl name _ _ _ members =>
    .own (Doc.text "interface " ++ Doc.text name ++ Doc.line " \x7b" ++ [.indent])
      :: (typesFirst (memberParts ((cx.membersOf true).child 1) members.toList)).flatMap Part.lined
      ++ [.own ([.outdent] ++ Doc.text "\x7d")]

def Site.layout (s : Site) : List Part := layoutIn (s.context.enter s.decl) s.decl

theorem typesFirst_sites (parts : List Part) :
    (typesFirst parts).filterMap Part.site? = parts.filterMap Part.site? := by
  have hnested : (parts.filter Part.isNested).filterMap Part.site? = parts.filterMap Part.site? := by
    rw [List.filterMap_filter]
    congr
    funext part
    cases part <;> rfl
  have hown : (parts.filter fun part => !part.isNested).filterMap Part.site? = [] := by
    rw [List.filterMap_filter]
    refine List.filterMap_eq_nil_iff.mpr ?_
    intro part _
    cases part <;> rfl
  rw [typesFirst, List.filterMap_append, hnested, hown, List.append_nil]

theorem lined_sites (parts : List Part) :
    (parts.flatMap Part.lined).filterMap Part.site? = parts.filterMap Part.site? := by
  induction parts with
  | nil => rfl
  | cons part rest ih =>
    rw [List.flatMap_cons, List.filterMap_append, ih]
    cases part <;> rfl

namespace Site

theorem layout_sites (s : Site) : s.layout.filterMap Part.site? = s.nested := by
  obtain ⟨cx, decl⟩ := s
  cases decl <;>
    simp only [layout, layoutIn, List.cons_append, List.filterMap_append, List.filterMap_cons,
      List.filterMap_nil, Part.site?, lined_sites, typesFirst_sites, List.append_nil] <;>
    rfl

theorem mem_nested_of_mem_layout {s e : Site} (h : .nested e ∈ s.layout) : e ∈ s.nested := by
  rw [← layout_sites]
  exact List.mem_filterMap.mpr ⟨_, h, rfl⟩

end Site

theorem members_shapes (f : Site → Doc) (parts : List Part) :
    Script.members (parts.map (Part.shape f)) = (parts.flatMap Part.lined).flatMap (Part.doc f) := by
  induction parts with
  | nil => rfl
  | cons part rest ih =>
    rw [List.flatMap_cons, List.flatMap_append, ← ih]
    simp [Script.members, Part.lined, Part.doc, Part.shape]

theorem classBody_shapes (f : Site → Doc) (parts : List Part) :
    Script.classBody (parts.map (Part.shape f)) =
      ((typesFirst parts).flatMap Part.lined).flatMap (Part.doc f) := by
  rw [typesFirst, List.flatMap_append, List.flatMap_append, ← members_shapes, ← members_shapes,
    Script.classBody, List.filter_map, List.filter_map]
  rfl

theorem Context.detached_eq {cx : Context} (h : cx.frames = []) : cx.detached = cx := by
  obtain ⟨resolver, scope, frames, route⟩ := cx
  cases h
  rfl

namespace Site

/-- What stands in the script of the surrounding declaration for the declaration at a site. -/
def memberDoc (s : Site) : Doc := Script.nestedType s.context s.decl (s.decl.script s.context)

end Site

theorem script_ofList (l : List Member) (cx : Context) (h : cx.frames = []) :
    (Node.ofList l).script cx = (memberParts cx l).map (Part.shape Site.memberDoc) := by
  induction l generalizing cx with
  | nil => rfl
  | cons m rest ih =>
    have hafter : cx.after m = cx.child 1 := by cases m <;> rfl
    change m.script (cx.child 0) :: (Node.ofList rest).script (cx.after m) = _
    rw [hafter, ih (cx.child 1) h]
    refine congrArg (· :: _) ?_
    cases m with
    | nestedType decl =>
      -- No anonymous class is open, so nothing is lost where the declaration is detached.
      have hdetached : ((cx.child 0).child 0).detached = (cx.child 0).child 0 :=
        Context.detached_eq h
      change MemberShape.mk true (Script.nestedType ((cx.child 0).child 0) decl
        (decl.script (if mustMove decl cx.scope then ((cx.child 0).child 0).detached
          else (cx.child 0).child 0))) = _
      rw [hdetached, ite_self]
      rfl
    | _ => rfl

theorem enumConstants_isEmpty (l : List (Node .enumConstant)) (cx : Context) :
    List.isEmpty (α := Doc) ((Node.ofList l).script cx) = l.isEmpty := by
  cases l <;> rfl

namespace Site

theorem script_content (s : Site) (h : s.context.frames = []) :
    DeclShape.content (s.decl.script s.context) = s.layout.flatMap (Part.doc memberDoc) := by
  obtain ⟨cx, decl⟩ := s
  cases decl with
  | classDecl name isInterface modifiers comment annotations typeParameters extended implemented
      members trailing =>
    obtain ⟨l, rfl⟩ := members.exists_ofList
    have hmembers decl := script_ofList l (((cx.enter decl).membersOf isInterface).child 4) h
    change Script.classContent _ _ _ _ _ _ ((Node.ofList l).script _) _ = _
    unfold Script.classContent
    rw [hmembers, classBody_shapes, layout, layoutIn,
      Node.toList_ofList]
    simp [Part.doc, Doc.indented]
  | enumDecl name modifiers comment annotations implemented constants members =>
    obtain ⟨l, rfl⟩ := members.exists_ofList
    obtain ⟨cs, rfl⟩ := constants.exists_ofList
    have hmembers decl := script_ofList l (((cx.enter decl).membersOf false).child 3) h
    change Script.enumContent _ _ ((Node.ofList cs).script _) ((Node.ofList l).script _) = _
    unfold Script.enumContent Script.afterConstants
    rw [hmembers, members_shapes, layout,
      layoutIn, Node.toList_ofList, Node.toList_ofList, enumConstants_isEmpty]
    cases l <;> simp [Part.doc, Doc.indented, memberParts]
  | annotationDecl name modifiers comment annotations members =>
    obtain ⟨l, rfl⟩ := members.exists_ofList
    have hmembers decl := script_ofList l (((cx.enter decl).membersOf true).child 1) h
    change Script.annotationContent _ ((Node.ofList l).script _) = _
    unfold Script.annotationContent
    rw [hmembers, classBody_shapes, layout, layoutIn,
      Node.toList_ofList]
    simp [Part.doc, Doc.indented]

end Site

/-- The own documents among the parts move nothing. -/
def OwnStill (parts : List Part) : Prop := ∀ d, .own d ∈ parts → d.IsStill

namespace OwnStill

variable {parts : List Part}

theorem lined (h : OwnStill parts) : OwnStill (parts.flatMap Part.lined) := by
  intro d hd
  obtain ⟨part, hpart, hd⟩ := List.mem_flatMap.mp hd
  simp only [Part.lined, List.mem_cons, Part.own.injEq, List.not_mem_nil, or_false] at hd
  rcases hd with rfl | rfl | rfl
  · exact stays_plainly.newlineDoc
  · exact h d hpart
  · exact stays_plainly.newlineDoc

theorem typesFirst (h : OwnStill parts) : OwnStill (typesFirst parts) := by
  intro d hd
  rcases List.mem_append.mp hd with hd | hd
  · exact h d (List.mem_filter.mp hd).1
  · exact h d (List.mem_filter.mp hd).1

theorem between {first last : Doc} (hfirst : first.IsStill) (h : OwnStill parts)
    (hlast : last.IsStill) : OwnStill (.own first :: parts ++ [.own last]) := by
  intro d hd
  simp only [List.cons_append, List.mem_cons, Part.own.injEq, List.mem_append, List.not_mem_nil,
    or_false] at hd
  rcases hd with rfl | hd | rfl
  · exact hfirst
  · exact h d hd
  · exact hlast

end OwnStill

theorem isRegular_ofList {l : List Member} (h : (Node.ofList l).isRegular = true) :
    ∀ m ∈ l, m.isRegular = true := by
  induction l with
  | nil =>
    intro m hm
    cases hm
  | cons m rest ih =>
    obtain ⟨hm, hrest⟩ := Bool.and_eq_true_iff.mp h
    exact List.forall_mem_cons.mpr ⟨hm, ih hrest⟩

theorem memberParts_ownStill {l : List Member} (h : ∀ m ∈ l, m.isRegular = true) (cx : Context) :
    OwnStill (memberParts cx l) := by
  induction l generalizing cx with
  | nil =>
    intro d hd
    cases hd
  | cons m rest ih =>
    obtain ⟨hm, hrest⟩ := List.forall_mem_cons.mp h
    intro d hd
    rcases List.mem_cons.mp hd with hd | hd
    · have hstill (hdeclares : m.declares = false) := m.script_still (cx.child 0) hdeclares
      cases m with
      | nestedType decl => cases hd
      | _ =>
        cases hd
        exact hstill (by simpa [Node.isRegular] using hm)
    · exact ih hrest (cx.child 1) d hd

namespace TypeDecl

theorem memberNode_isRegular {decl : TypeDecl} (h : decl.isRegular = true) :
    (memberNode decl).isRegular = true ∧ (annotations decl).declares = false := by
  cases decl <;> simp_all [Node.isRegular, memberNode, annotations]

theorem members_isRegular {decl : TypeDecl} (h : decl.isRegular = true) :
    ∀ m ∈ members decl, m.isRegular = true := by
  have hmembers := (memberNode_isRegular h).1
  rw [members_eq]
  rw [← Node.ofList_toList (memberNode decl)] at hmembers
  exact isRegular_ofList hmembers

end TypeDecl

namespace Site

/-- A regular declaration with no anonymous class open around it. -/
structure IsRegular (s : Site) : Prop where
  decl : s.decl.isRegular = true
  frames : s.context.frames = []

theorem IsRegular.nested {s e : Site} (h : s.IsRegular) (he : e ∈ s.nested) : e.IsRegular where
  decl := TypeDecl.members_isRegular h.decl _ (mem_memberParts (mem_nested he)).1
  frames := (frames_of_mem_nested he).trans h.frames

theorem IsRegular.within {s e : Site} (h : s.IsRegular) (he : e ∈ s.within) : e.IsRegular := by
  induction s using inductionOn with
  | step s ih =>
    rw [within_eq] at he
    obtain ⟨d, hd, he⟩ := List.mem_flatMap.mp he
    rcases List.mem_cons.mp he with rfl | he
    · exact h.nested hd
    · exact ih d hd (h.nested hd) he

theorem IsRegular.layout_ownStill {s : Site} (h : s.IsRegular) : OwnStill s.layout := by
  have hmembers := memberParts_ownStill (TypeDecl.members_isRegular h.decl)
  have hregular := h.decl
  have hP := stays_plainly
  have hcomposes := hP.composes
  obtain ⟨cx, decl⟩ := s
  cases decl with
  | classDecl name isInterface modifiers comment annotations typeParameters extended implemented
      members trailing =>
    simp only [Node.isRegular, Bool.and_eq_true, Bool.not_eq_true'] at hregular
    obtain ⟨⟨⟨⟨-, hparameters⟩, hextended⟩, himplemented⟩, -⟩ := hregular
    refine OwnStill.between ?_ (hmembers _).typesFirst.lined ?_
    · simp only [Doc.IsStill, Doc.every_append]
      exact ⟨⟨⟨⟨⟨⟨hP.textDoc _, hP.textDoc _⟩, 
        hcomposes.angled (typeParameters.script_still _ hparameters)⟩,
        hcomposes.listed " extends " rfl (extended.script_still _ hextended)⟩,
        hcomposes.listed " implements " rfl (implemented.script_still _ himplemented)⟩, hP.line _⟩,
        by simp [hP.indent]⟩
    · have htrailing :=
        hcomposes.comments fun c (_ : c ∈ trailing) => Spelling.remark_any c.content
      simp [Doc.IsStill, htrailing, hP.textDoc, hP.outdent]
  | enumDecl name modifiers comment annotations implemented constants members =>
    simp only [Node.isRegular, Bool.and_eq_true, Bool.not_eq_true'] at hregular
    obtain ⟨⟨⟨-, himplemented⟩, hconstants⟩, -⟩ := hregular
    refine OwnStill.between ?_ (hmembers _).lined ?_
    · simp only [Doc.IsStill, Doc.every_append]
      refine ⟨⟨⟨⟨⟨⟨⟨hP.textDoc _, hP.textDoc _⟩,
        hcomposes.listed " implements " rfl (implemented.script_still _ himplemented)⟩, hP.line _⟩,
        by simp [hP.indent]⟩, hP.newlineDoc⟩,
        hcomposes.separated (hP.textDoc _) (constants.script_still _ hconstants)⟩, ?_⟩
      split
      · exact hP.line _
      · split
        · exact Doc.every_nil
        · exact hP.newlineDoc
    · simp [Doc.IsStill, hP.textDoc, hP.outdent]
  | annotationDecl name modifiers comment annotations members =>
    refine OwnStill.between ?_ (hmembers _).typesFirst.lined ?_
    · simp [Doc.IsStill, hP.line, hP.textDoc, hP.indent]
    · simp [Doc.IsStill, hP.textDoc, hP.outdent]

def annotations (s : Site) : Doc :=
  Script.annotationLines ((TypeDecl.annotations s.decl).script (s.context.child 0))

theorem script_annotations (s : Site) :
    DeclShape.annotations (s.decl.script s.context) = s.annotations := by
  obtain ⟨cx, decl⟩ := s
  cases decl <;> rfl

theorem IsRegular.annotations_still {s : Site} (h : s.IsRegular) : s.annotations.IsStill :=
  stays_plainly.composes.annotationLines
    (Node.script_still _ _ (TypeDecl.memberNode_isRegular h.decl).2)

end Site

theorem OwnStill.visible_flatMap {parts : List Part} (h : OwnStill parts) (f : Site → Doc) :
    Doc.visible (parts.flatMap (Part.doc f)) = parts.flatMap (Part.doc fun e => (f e).visible) := by
  rw [Doc.visible_flatMap]
  refine List.flatMap_congr ?_
  intro part hpart
  cases part with
  | own d => exact (h d hpart).visible_eq
  | nested e => rfl

theorem OwnStill.moves_flatMap {parts : List Part} (h : OwnStill parts) (f : Site → Doc) :
    moves (parts.flatMap (Part.doc f)) =
      (parts.filterMap Part.site?).flatMap fun e => moves (f e) := by
  induction parts with
  | nil => rfl
  | cons part rest ih =>
    have hrest := ih fun d hd => h d (List.mem_cons_of_mem _ hd)
    rw [List.flatMap_cons, moves_append, hrest]
    cases part with
    | own d =>
      have hown : moves (Part.doc f (.own d)) = [] := (h d List.mem_cons_self).moves_eq
      rw [hown]
      rfl
    | nested e => rfl

end TypeScribe
