import TypeScribe.Proofs.Tree.Any
import TypeScribe.Script.Unit

/-!
# Sites of declarations

A site is a declaration with the context that it stands in. The sites inside a site are listed in
source order; their routes are all different, so each of them is one place of the tree. How many
declarations have to be moved on the way to a site is its level.
-/
namespace TypeScribe
set_option autoImplicit false

structure Site where
  context : Context
  decl : TypeDecl

/-- A part of what is written for a declaration: a document of its own, or the place of a
declaration directly inside it. -/
inductive Part where
  | own (d : Doc)
  | nested (s : Site)

namespace Part

def site? : Part → Option Site
  | .own _ => none
  | .nested s => some s

end Part

def Member.part (cx : Context) : Member → Part
  | .nestedType decl => .nested { context := cx.child 0, decl := decl }
  | m => .own (MemberShape.doc (m.script cx))

def memberParts (cx : Context) : List Member → List Part
  | [] => []
  | m :: rest => Member.part (cx.child 0) m :: memberParts (cx.child 1) rest

def TypeDecl.memberNode : TypeDecl → Node (.many .member)
  | .classDecl _ _ _ _ _ _ _ _ members _ => members
  | .enumDecl _ _ _ _ _ _ members => members
  | .annotationDecl _ _ _ _ members => members

/-- The context of the members of a declaration that stands in `cx`. -/
def TypeDecl.memberContext (cx : Context) : TypeDecl → Context
  | decl@(.classDecl _ isInterface ..) => ((cx.enter decl).membersOf isInterface).child 4
  | decl@(.enumDecl ..) => ((cx.enter decl).membersOf false).child 3
  | decl@(.annotationDecl ..) => ((cx.enter decl).membersOf true).child 1

/-- The sites in a node that stands in `cx`, in source order. Only members of declarations are
looked at. -/
def Node.sites : {c : Category} → Node c → Context → List Site
  | _, .cons head tail, cx => head.sites (cx.child 0) ++ tail.sites (cx.child 1)
  | _, .nestedType decl, cx =>
    { context := cx.child 0, decl := decl } :: decl.sites (cx.child 0)
  | _, decl@(.classDecl _ isInterface _ _ _ _ _ _ members _), cx =>
    members.sites (((cx.enter decl).membersOf isInterface).child 4)
  | _, decl@(.enumDecl _ _ _ _ _ _ members), cx =>
    members.sites (((cx.enter decl).membersOf false).child 3)
  | _, decl@(.annotationDecl _ _ _ _ members), cx =>
    members.sites (((cx.enter decl).membersOf true).child 1)
  | _, _, _ => []

namespace Site

def route (s : Site) : Route := s.context.route

/-- The declarations around the site and the declaration itself, innermost first. -/
def path (s : Site) : Scope := s.decl :: s.context.scope

/-- The declarations around the site, outermost first. -/
def chain (s : Site) : List TypeDecl := s.context.scope.reverse

def nested (s : Site) : List Site :=
  (memberParts (TypeDecl.memberContext s.context s.decl) (TypeDecl.members s.decl)).filterMap
    Part.site?

/-- The sites inside the site at any depth, in source order. -/
def within (s : Site) : List Site := s.decl.sites s.context

/-- The declaration is an interface or stands in one. -/
def IsMoved (s : Site) : Prop := s.decl.isInterface = true ∨ ∃ d ∈ s.chain, d.isInterface = true

instance (s : Site) : Decidable s.IsMoved := inferInstanceAs (Decidable (_ ∨ _))

end Site

namespace CompilationUnit

def roots (u : CompilationUnit) (classPath : ClassIndex) : List Site :=
  u.types.zipIdx.map fun (decl, place) =>
    { context := Context.child { resolver := .ofUnit u classPath } place, decl := decl }

/-- All sites of the unit, in source order. -/
def sites (u : CompilationUnit) (classPath : ClassIndex) : List Site :=
  (u.roots classPath).flatMap fun root => root :: root.within

theorem roots_decls (u : CompilationUnit) (classPath : ClassIndex) :
    (u.roots classPath).map Site.decl = u.types := by
  rw [roots, List.map_map]
  exact List.zipIdx_map_fst 0 u.types

theorem mem_roots {u : CompilationUnit} {classPath : ClassIndex} {s : Site}
    (h : s ∈ u.roots classPath) :
    s.decl ∈ u.types ∧ s.context.scope = [] ∧ s.context.frames = [] := by
  obtain ⟨⟨decl, place⟩, hmem, rfl⟩ := List.mem_map.mp h
  exact ⟨(List.mem_zipIdx' hmem).2 ▸ List.getElem_mem _, rfl, rfl⟩

end CompilationUnit

/-- How many declarations of a path are moved; the outermost one stays. -/
def moveLevel : Scope → Nat
  | [] => 0
  | [_] => 0
  | d :: e :: outer => moveLevel (e :: outer) + if mustMove d (e :: outer) then 1 else 0

def Site.level (s : Site) : Nat := moveLevel s.path

namespace TypeDecl

theorem members_eq (decl : TypeDecl) : members decl = (memberNode decl).toList := by
  cases decl <;> rfl

theorem sites_eq (decl : TypeDecl) (cx : Context) :
    decl.sites cx = (memberNode decl).sites (memberContext cx decl) := by
  cases decl <;> rfl

theorem memberContext_scope (cx : Context) (decl : TypeDecl) :
    (memberContext cx decl).scope = decl :: cx.scope := by
  cases decl <;> rfl

theorem memberContext_frames (cx : Context) (decl : TypeDecl) :
    (memberContext cx decl).frames = cx.frames := by
  cases decl <;> rfl

theorem sizeOf_memberNode_lt (decl : TypeDecl) : sizeOf (memberNode decl) < sizeOf decl := by
  cases decl <;> simp only [memberNode, Node.classDecl.sizeOf_spec, Node.enumDecl.sizeOf_spec,
    Node.annotationDecl.sizeOf_spec] <;> omega

end TypeDecl

theorem Node.sizeOf_lt_of_mem_toList {c : Category} {n : Node c} {ns : Node (.many c)}
    (h : n ∈ ns.toList) : sizeOf n < sizeOf ns := by
  obtain ⟨l, rfl⟩ := ns.exists_ofList
  rw [toList_ofList] at h
  induction l with
  | nil => cases h
  | cons m rest ih =>
    simp only [ofList, cons.sizeOf_spec]
    rcases List.mem_cons.mp h with rfl | h
    · omega
    · have := ih h
      omega

theorem sites_ofList (l : List Member) (cx : Context) :
    (Node.ofList l).sites cx =
      ((memberParts cx l).filterMap Part.site?).flatMap fun e => e :: e.within := by
  induction l generalizing cx with
  | nil => rfl
  | cons m rest ih =>
    change m.sites (cx.child 0) ++ (Node.ofList rest).sites (cx.child 1) = _
    rw [ih]
    cases m with
    | nestedType decl => simp [memberParts, Member.part, Part.site?, Node.sites, Site.within]
    | _ => rfl

theorem mem_memberParts {cx : Context} {l : List Member} {e : Site}
    (h : Part.nested e ∈ memberParts cx l) :
    .nestedType e.decl ∈ l ∧ e.context.scope = cx.scope ∧ e.context.frames = cx.frames := by
  induction l generalizing cx with
  | nil => cases h
  | cons m rest ih =>
    rcases List.mem_cons.mp h with h | h
    · cases m with
      | nestedType decl =>
        cases h
        exact ⟨List.mem_cons_self, rfl, rfl⟩
      | _ => cases h
    · obtain ⟨hmem, hscope, hframes⟩ := ih h
      exact ⟨List.mem_cons_of_mem _ hmem, hscope, hframes⟩

theorem memberParts_decls (cx : Context) (l : List Member) :
    ((memberParts cx l).filterMap Part.site?).map Site.decl = l.filterMap Member.type? := by
  induction l generalizing cx with
  | nil => rfl
  | cons m rest ih =>
    have hrest := ih (cx.child 1)
    cases m with
    | nestedType decl => exact congrArg (decl :: ·) hrest
    | _ => exact hrest

namespace Site

theorem nested_decls (s : Site) : s.nested.map Site.decl = TypeDecl.nestedTypes s.decl :=
  memberParts_decls _ _

theorem nested_eq (s : Site) {l : List Member} (hl : TypeDecl.memberNode s.decl = .ofList l) :
    s.nested = (memberParts (TypeDecl.memberContext s.context s.decl) l).filterMap Part.site? := by
  rw [nested, TypeDecl.members_eq, hl, Node.toList_ofList]

theorem within_eq (s : Site) : s.within = s.nested.flatMap fun e => e :: e.within := by
  obtain ⟨l, hl⟩ := (TypeDecl.memberNode s.decl).exists_ofList
  rw [within, TypeDecl.sites_eq, hl, sites_ofList, s.nested_eq hl]

theorem mem_nested {s e : Site} (h : e ∈ s.nested) :
    Part.nested e ∈
      memberParts (TypeDecl.memberContext s.context s.decl) (TypeDecl.members s.decl) := by
  obtain ⟨part, hpart, hsite⟩ := List.mem_filterMap.mp h
  cases part with
  | own d => cases hsite
  | nested e' =>
    cases hsite
    exact hpart

theorem scope_of_mem_nested {s e : Site} (h : e ∈ s.nested) : e.context.scope = s.path := by
  rw [(mem_memberParts (mem_nested h)).2.1]
  exact TypeDecl.memberContext_scope s.context s.decl

theorem frames_of_mem_nested {s e : Site} (h : e ∈ s.nested) :
    e.context.frames = s.context.frames := by
  rw [(mem_memberParts (mem_nested h)).2.2]
  exact TypeDecl.memberContext_frames s.context s.decl

theorem sizeOf_decl_lt {s e : Site} (h : e ∈ s.nested) : sizeOf e.decl < sizeOf s.decl := by
  have hmem := (mem_memberParts (mem_nested h)).1
  rw [TypeDecl.members_eq] at hmem
  have hnode := Node.sizeOf_lt_of_mem_toList hmem
  have hdecl := TypeDecl.sizeOf_memberNode_lt s.decl
  simp only [Node.nestedType.sizeOf_spec] at hnode
  omega

/-- What passes from the sites directly inside a site to the site holds of all sites. -/
theorem inductionOn {motive : Site → Prop} (s : Site)
    (step : ∀ s, (∀ e ∈ s.nested, motive e) → motive s) : motive s :=
  step s fun e _ => inductionOn e step
termination_by sizeOf s.decl
decreasing_by exact sizeOf_decl_lt ‹_›

theorem chain_of_mem_nested {s e : Site} (h : e ∈ s.nested) : e.chain = s.chain ++ [s.decl] := by
  rw [chain, scope_of_mem_nested h, path, List.reverse_cons]
  rfl

end Site

theorem not_suffix_of_ne {α : Type} {a b : α} {outer way : List α} (hab : a ≠ b)
    (ha : a :: outer <:+ way) (hb : b :: outer <:+ way) : False := by
  have heq : a :: outer = b :: outer := by
    rcases List.suffix_or_suffix_of_suffix ha hb with h | h
    · exact h.eq_of_length (by simp)
    · exact (h.eq_of_length (by simp)).symm
  exact hab (List.cons.inj heq).1

/-- The sites in a node lie below it, each on a route of its own. -/
theorem Node.sites_routes {c : Category} (n : Node c) (cx : Context) :
    (∀ e ∈ n.sites cx, ∃ place, place :: cx.route <:+ e.route) ∧
      ((n.sites cx).map Site.route).Nodup := by
  induction n generalizing cx with
  | cons head tail ihHead ihTail =>
    obtain ⟨hhead, hheadNodup⟩ := ihHead (cx.child 0)
    obtain ⟨htail, htailNodup⟩ := ihTail (cx.child 1)
    have below {place place' : Nat} {route : Route}
        (h : place' :: (cx.child place).route <:+ route) : place :: cx.route <:+ route :=
      (List.suffix_cons _ _).trans h
    refine ⟨?_, ?_⟩
    · intro e he
      rcases List.mem_append.mp he with he | he
      · exact ⟨0, below (hhead e he).choose_spec⟩
      · exact ⟨1, below (htail e he).choose_spec⟩
    · change ((head.sites (cx.child 0) ++ tail.sites (cx.child 1)).map Site.route).Nodup
      rw [List.map_append, List.nodup_append]
      refine ⟨hheadNodup, htailNodup, ?_⟩
      intro a ha b hb hab
      obtain ⟨e, he, rfl⟩ := List.mem_map.mp ha
      obtain ⟨e', he', rfl⟩ := List.mem_map.mp hb
      refine not_suffix_of_ne Nat.zero_ne_one (below (hhead e he).choose_spec) ?_
      rw [hab]
      exact below (htail e' he').choose_spec
  | nestedType decl ih =>
    obtain ⟨hdecl, hnodup⟩ := ih (cx.child 0)
    refine ⟨?_, ?_⟩
    · intro e he
      rcases List.mem_cons.mp he with rfl | he
      · exact ⟨0, List.suffix_refl _⟩
      · obtain ⟨place, hplace⟩ := hdecl e he
        exact ⟨0, (List.suffix_cons _ _).trans hplace⟩
    · refine List.nodup_cons.mpr ⟨?_, hnodup⟩
      intro hmem
      -- What lies inside the declaration is on a longer route.
      obtain ⟨e, he, hroute⟩ := List.mem_map.mp hmem
      obtain ⟨place, hplace⟩ := hdecl e he
      have hlength := hplace.length_le
      rw [hroute] at hlength
      exact Nat.not_succ_le_self _ hlength
  | classDecl name isInterface modifiers comment annotations typeParameters extended implemented
      members trailing _ _ _ _ ih =>
    obtain ⟨hmembers, hnodup⟩ := ih (((cx.enter _).membersOf isInterface).child 4)
    exact ⟨fun e he => ⟨4, (List.suffix_cons _ _).trans (hmembers e he).choose_spec⟩, hnodup⟩
  | enumDecl name modifiers comment annotations implemented constants members _ _ _ ih =>
    obtain ⟨hmembers, hnodup⟩ := ih (((cx.enter _).membersOf false).child 3)
    exact ⟨fun e he => ⟨3, (List.suffix_cons _ _).trans (hmembers e he).choose_spec⟩, hnodup⟩
  | annotationDecl name modifiers comment annotations members _ ih =>
    obtain ⟨hmembers, hnodup⟩ := ih (((cx.enter _).membersOf true).child 1)
    exact ⟨fun e he => ⟨1, (List.suffix_cons _ _).trans (hmembers e he).choose_spec⟩, hnodup⟩
  | _ => exact ⟨fun e he => (nomatch he), List.nodup_nil⟩

theorem Site.within_routes_nodup (s : Site) : (s.within.map Site.route).Nodup :=
  (s.decl.sites_routes s.context).2

end TypeScribe
