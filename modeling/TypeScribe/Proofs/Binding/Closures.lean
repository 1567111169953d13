import TypeScribe.Proofs.Binding.Instances

/-!
# Closures around inner classes

Where neither local nor anonymous classes are declared, a closure is opened only around a class that is
not static and stays in its place. So `this` of an enclosing class has a name if and only if none of
the declarations around that class is an interface: otherwise the class inside it has been moved out.
-/
namespace TypeScribe
set_option autoImplicit false
open Text

/-- Whether the node is a local type or has the body of an anonymous class. -/
def Node.isBodied : {c : Category} → Node c → Bool
  | _, .objectCreation _ _ _ _ body => body.toOption.isSome
  | _, .localType _ => true
  | _, .enumConstant _ _ _ _ body => !body.toList.isEmpty
  | _, _ => false

/-- Whether nodes of the category are members or declarations. -/
def Category.hasMembers : Category → Bool
  | .many c => c.hasMembers
  | .optional c => c.hasMembers
  | .member => true
  | .typeDecl => true
  | _ => false

theorem or_eq_false_of_imp {a b s t : Bool} (ha : s = false → a = false)
    (hb : t = false → b = false) : (s || t) = false → (a || b) = false := by
  intro h
  obtain ⟨hs, ht⟩ := Bool.or_eq_false_iff.mp h
  rw [ha hs, hb ht, Bool.or_false]

/-- Without such bodies no type is declared outside the members of declarations. -/
theorem Node.declares_eq_false {c : Category} (n : Node c) (hc : c.hasMembers = false) :
    n.any Node.isBodied = false → n.any Node.isDeclaring = false := by
  induction n
  case objectCreation scope type typeArguments arguments body ihScope ihType ihTypes ihArguments _ =>
    cases body with
    | absent =>
      exact or_eq_false_of_imp (or_eq_false_of_imp (or_eq_false_of_imp (or_eq_false_of_imp
        (or_eq_false_of_imp (fun _ => rfl) (ihScope rfl)) (ihType rfl)) (ihTypes rfl))
        (ihArguments rfl)) fun _ => rfl
    | present body =>
      intro h
      cases eq_false_of_lacks (p := Node.isBodied) h
  case enumConstant name comment annotations arguments body ihAnnotations ihArguments _ =>
    cases body with
    | nil =>
      exact or_eq_false_of_imp (or_eq_false_of_imp (or_eq_false_of_imp (fun _ => rfl)
        (ihAnnotations rfl)) (ihArguments rfl)) fun _ => rfl
    | cons head tail =>
      intro h
      cases eq_false_of_lacks (p := Node.isBodied) h
  case localType decl _ =>
    intro h
    cases eq_false_of_lacks (p := Node.isBodied) h
  all_goals first
    | cases hc; done
    | repeat' first
      | refine or_eq_false_of_imp ?_ ?_
      | (apply_assumption; first | rfl | exact hc)

theorem Member.declares_eq_false {m : Member} (hm : m.type? = none) :
    m.any Node.isBodied = false → m.any Node.isDeclaring = false := by
  have lacks {c : Category} (n : Node c) (hc : c.hasMembers = false) := n.declares_eq_false hc
  cases m with
  | nestedType decl => cases hm
  | field modifiers comment annotations base declarators =>
    exact or_eq_false_of_imp (or_eq_false_of_imp (or_eq_false_of_imp (fun _ => rfl)
      (lacks annotations rfl)) (lacks base rfl)) (lacks declarators rfl)
  | method name modifiers comment annotations typeParameters result parameters thrown body =>
    exact or_eq_false_of_imp (or_eq_false_of_imp (or_eq_false_of_imp (or_eq_false_of_imp
      (or_eq_false_of_imp (or_eq_false_of_imp (fun _ => rfl) (lacks annotations rfl))
      (lacks typeParameters rfl)) (lacks result rfl)) (lacks parameters rfl)) (lacks thrown rfl))
      (lacks body rfl)
  | constructor name modifiers comment annotations typeParameters parameters thrown body =>
    exact or_eq_false_of_imp (or_eq_false_of_imp (or_eq_false_of_imp (or_eq_false_of_imp
      (or_eq_false_of_imp (fun _ => rfl) (lacks annotations rfl)) (lacks typeParameters rfl))
      (lacks parameters rfl)) (lacks thrown rfl)) (lacks body rfl)
  | initializer isStatic comment body =>
    exact or_eq_false_of_imp (fun _ => rfl) (lacks body rfl)
  | annotationMember name modifiers comment annotations type value =>
    exact or_eq_false_of_imp (or_eq_false_of_imp (or_eq_false_of_imp (fun _ => rfl)
      (lacks annotations rfl)) (lacks type rfl)) (lacks value rfl)

theorem TypeDecl.isRegular_of_members {decl : TypeDecl} (h : decl.any Node.isBodied = false)
    (hmembers : (memberNode decl).isRegular = true) : decl.isRegular = true := by
  have lacks {c : Category} (n : Node c) (hc : c.hasMembers = false)
      (hn : Lacks (n.any Node.isBodied)) : (!n.declares) = true := by
    rw [Node.declares, n.declares_eq_false hc hn]
    rfl
  have h : Lacks (decl.any Node.isBodied) := h
  cases decl with
  | classDecl name isInterface modifiers comment annotations typeParameters extended implemented
      members trailing =>
    exact Bool.and_eq_true_iff.mpr ⟨Bool.and_eq_true_iff.mpr ⟨Bool.and_eq_true_iff.mpr
      ⟨Bool.and_eq_true_iff.mpr ⟨lacks annotations rfl h.left.left.left.left.right,
        lacks typeParameters rfl h.left.left.left.right⟩, lacks extended rfl h.left.left.right⟩,
        lacks implemented rfl h.left.right⟩, hmembers⟩
  | enumDecl name modifiers comment annotations implemented constants members =>
    exact Bool.and_eq_true_iff.mpr ⟨Bool.and_eq_true_iff.mpr ⟨Bool.and_eq_true_iff.mpr
      ⟨lacks annotations rfl h.left.left.left.right, lacks implemented rfl h.left.left.right⟩,
        lacks constants rfl h.left.right⟩, hmembers⟩
  | annotationDecl name modifiers comment annotations members =>
    exact Bool.and_eq_true_iff.mpr ⟨lacks annotations rfl h.left.right, hmembers⟩

theorem TypeDecl.memberNode_lacks {p : {c : Category} → Node c → Bool} {decl : TypeDecl}
    (h : decl.any @p = false) : (memberNode decl).any @p = false := by
  cases decl <;> exact (Bool.or_eq_false_iff.mp h).2

theorem ofList_isRegular {l : List Member} (h : ∀ m ∈ l, m.isRegular = true) :
    (Node.ofList l).isRegular = true := by
  induction l with
  | nil => rfl
  | cons m rest ih =>
    obtain ⟨hm, hrest⟩ := List.forall_mem_cons.mp h
    exact Bool.and_eq_true_iff.mpr ⟨hm, ih hrest⟩

theorem Member.isRegular_of_type? {m : Member} (hm : m.type? = none)
    (h : m.any Node.isBodied = false) : m.isRegular = true := by
  have hdeclares : (!m.declares) = true := by
    rw [Node.declares, Member.declares_eq_false hm h]
    rfl
  cases m with
  | nestedType decl => cases hm
  | _ => exact hdeclares

/-- Without bodies of local and anonymous classes, types are declared as members only. -/
theorem TypeDecl.isRegular_of_unbodied (decl : TypeDecl) (h : decl.any Node.isBodied = false) :
    decl.isRegular = true := by
  refine isRegular_of_members h ?_
  rw [← Node.ofList_toList (memberNode decl)]
  refine ofList_isRegular ?_
  intro m hm
  have hmember : m.any Node.isBodied = false :=
    Node.any_eq_false_of_mem (memberNode_lacks h) m hm
  cases htype : m.type? with
  | none => exact Member.isRegular_of_type? htype hmember
  | some inner =>
    cases m with
    | nestedType nested =>
      have hsize := Node.sizeOf_lt_of_mem_toList hm
      have hnode := sizeOf_memberNode_lt decl
      exact isRegular_of_unbodied nested (Bool.or_eq_false_iff.mp hmember).2
    | _ => cases htype
termination_by sizeOf decl
decreasing_by
  simp only [Node.nestedType.sizeOf_spec] at hsize
  omega

/-- Whether the unit has local or anonymous classes; the body of an enum constant is such a class. -/
def CompilationUnit.hasBodies (u : CompilationUnit) : Bool :=
  u.packageAnnotations.any (fun a => a.any Node.isBodied)
    || u.types.any fun decl => decl.any Node.isBodied

namespace CompilationUnit

variable {u : CompilationUnit} {classPath : ClassIndex} (hu : u.hasBodies = false)

include hu

theorem types_unbodied : ∀ decl ∈ u.types, decl.any Node.isBodied = false := by
  intro decl hdecl
  simpa using List.any_eq_false.mp (Bool.or_eq_false_iff.mp hu).2 decl hdecl

theorem isRegular_of_unbodied : u.isRegular = true := by
  refine Bool.and_eq_true_iff.mpr ⟨List.all_eq_true.mpr ?_, List.all_eq_true.mpr ?_⟩
  · intro a ha
    have hbodied : a.any Node.isBodied = false := by
      simpa using List.any_eq_false.mp (Bool.or_eq_false_iff.mp hu).1 a ha
    rw [Node.declares, a.declares_eq_false rfl hbodied]
    rfl
  · intro decl hdecl
    exact TypeDecl.isRegular_of_unbodied decl (types_unbodied hu decl hdecl)

end CompilationUnit

namespace Site

variable {barred : {c : Category} → Node c → Bool} {s e : Site}

theorem resolver_of_mem_memberParts {cx : Context} {l : List Member}
    (h : Part.nested e ∈ memberParts cx l) : e.context.resolver = cx.resolver := by
  induction l generalizing cx with
  | nil => cases h
  | cons m rest ih =>
    rcases List.mem_cons.mp h with h | h
    · cases m with
      | nestedType decl =>
        cases h
        rfl
      | _ => cases h
    · exact @ih (cx.child 1) h

theorem readable_nested (h : Readable @barred s.decl s.context) (he : e ∈ s.nested) :
    Readable @barred e.decl e.context := by
  have hpart := mem_nested he
  have hmem := (mem_memberParts hpart).1
  rw [TypeDecl.members_eq] at hmem
  have hresolver : e.context.resolver = s.context.resolver := by
    rw [resolver_of_mem_memberParts hpart]
    cases s.decl <;> rfl
  have hlacks := Node.any_eq_false_of_mem (TypeDecl.memberNode_lacks h.lacks) _ hmem
  have hspelled := Node.any_eq_false_of_mem (TypeDecl.memberNode_lacks h.spelled) _ hmem
  refine ⟨(Bool.or_eq_false_iff.mp hlacks).2, (Bool.or_eq_false_iff.mp hspelled).2, ?_⟩
  exact {
    resolved := by
      rw [hresolver]
      exact h.speaks.resolved
    scope := by
      rw [scope_of_mem_nested he, path]
      exact List.forall_mem_cons.mpr ⟨(s.decl.spelledBy h.spelled).name, h.speaks.scope⟩
    frames := by
      rw [frames_of_mem_nested he]
      exact h.speaks.frames }

theorem readable_within (h : Readable @barred s.decl s.context) (he : e ∈ s.within) :
    Readable @barred e.decl e.context := by
  induction s using inductionOn with
  | step s ih =>
    rw [within_eq] at he
    obtain ⟨e', he', hmem⟩ := List.mem_flatMap.mp he
    have hnested := readable_nested h he'
    rcases List.mem_cons.mp hmem with rfl | hmem
    · exact hnested
    · exact ih e' he' hnested hmem

theorem content_infix_moved {root : Site} (hroot : root.IsRegular) (hlevel : root.level = 0)
    (hs : s ∈ root.moved) : s.content <:+: withModules root.root := by
  have hbody : s.content <:+: s.body := (List.suffix_append _ _).isInfix
  have hmodule : s.body <:+: s.asModule.doc := by
    unfold Module.doc
    rw [List.append_assoc]
    exact (List.suffix_append _ _).isInfix.trans (List.prefix_append _ _).isInfix
  have hmodules : s.asModule.doc <:+: (modules root.root).flatMap Module.doc := by
    rw [hroot.modules_root hlevel, List.flatMap_map]
    exact List.infix_of_mem_flatten (List.mem_map_of_mem hs)
  exact hbody.trans (hmodule.trans (hmodules.trans (List.suffix_append _ _).isInfix))

end Site

/-- The declarations that are open in a node, itself included if it is one. -/
def Node.scopeIn : {c : Category} → Node c → Context → Scope
  | .typeDecl, decl, cx => decl :: cx.scope
  | _, _, cx => cx.scope

theorem Node.scopeIn_eq {c : Category} (hc : c.isDeclared = false) (n : Node c) (cx : Context) :
    n.scopeIn cx = cx.scope := by
  cases c <;> first | rfl | cases hc

theorem TypeDecl.isInterface_eq_false {decl : TypeDecl} (h : decl.isStaticContext = false) :
    decl.isInterface = false := by
  cases decl with
  | classDecl => exact (Bool.or_eq_false_iff.mp h).1
  | enumDecl => cases h
  | annotationDecl => cases h

section

variable {c c' : Category} {n : Node c} {m : Node c'} {cx cx' : Context} {ops st : List Opened}

/-- A step leaves the open declarations as they are and opens no closure, or it leads to a declaration,
for which a closure is opened unless it is static. Local and anonymous classes apart, a declaration
stays in its place then. -/
theorem Step.scopeIn_cases (h : Step n cx ops m cx') :
    (m.scopeIn cx' = n.scopeIn cx ∧
      (n.isBodied = false → ∀ parameter, .closure parameter ∉ ops)) ∨
    ∃ decl enclosing outer, n.scopeIn cx = enclosing :: outer ∧
      m.scopeIn cx' = decl :: n.scopeIn cx ∧
      (decl.isStaticContext = false → .closure (enclosing.name ++ "_this") ∈ ops) ∧
      (n.isBodied = false → mustMove decl (n.scopeIn cx) = false) := by
  cases h with
  | inside hn hops hcx hm =>
    refine .inl ⟨by rw [Node.scopeIn_eq hn, Node.scopeIn_eq hm, hcx.scope], ?_⟩
    intro _ parameter
    rcases hops with rfl | rfl <;> simp
  | member hcx hm => exact .inl ⟨(Node.scopeIn_eq hm m cx').trans hcx.scope, by simp⟩
  | @nested decl enclosing outer _ hscope hstays =>
    refine .inr ⟨decl, enclosing, outer, hscope, rfl, ?_, fun _ => hstays⟩
    intro hstatic
    rw [hstatic]
    exact List.mem_singleton_self _
  | @localClass decl enclosing outer _ hscope =>
    exact .inr ⟨decl, enclosing, outer, hscope, rfl, fun _ => List.mem_singleton_self _,
      fun hbodied => nomatch hbodied⟩
  | constant hcx hm => exact .inl ⟨(Node.scopeIn_eq hm m cx').trans hcx.scope, by simp⟩
  | argument hcx hm =>
    exact .inl ⟨(Node.scopeIn_eq hm m cx').trans hcx.scope, fun hbodied => nomatch hbodied⟩
  | anonymous hcx hm =>
    exact .inl ⟨(Node.scopeIn_eq hm m cx').trans hcx.scope, fun hbodied => nomatch hbodied⟩

theorem Step.scopeIn_suffix (h : Step n cx ops m cx') : n.scopeIn cx <:+ m.scopeIn cx' := by
  obtain ⟨heq, -⟩ | ⟨decl, enclosing, outer, -, heq, -⟩ := h.scopeIn_cases
  · exact heq ▸ List.suffix_rfl
  · exact heq ▸ List.suffix_cons _ _

/-- A class that is not static stands in a closure for the declaration around it. -/
def Enclosed {c : Category} (n : Node c) (cx : Context) (st : List Opened) : Prop :=
  ∀ front d e back, n.scopeIn cx = front ++ d :: e :: back → d.isStaticContext = false →
    .closure (e.name ++ "_this") ∈ st

theorem Step.enclosed (h : Step n cx ops m cx') (hn : Enclosed n cx st) :
    Enclosed m cx' (ops ++ st) := by
  intro front d e back hsplit hd
  obtain ⟨heq, -⟩ | ⟨decl, enclosing, outer, hscope, heq, hops, -⟩ := h.scopeIn_cases
  · exact List.mem_append_right _ (hn front d e back (heq ▸ hsplit) hd)
  · rw [heq] at hsplit
    cases front with
    | nil =>
      rw [hscope] at hsplit
      cases hsplit
      exact List.mem_append_left _ (hops hd)
    | cons d' front =>
      exact List.mem_append_right _ (hn front d e back (List.cons.inj hsplit).2 hd)

/-- Where a closure is open, no declaration is an interface. -/
structure Stationary {c : Category} (n : Node c) (cx : Context) (st : List Opened) : Prop where
  unbodied : n.isBodied = false
  classes : ∀ parameter, .closure parameter ∈ st → ∀ d ∈ n.scopeIn cx, d.isInterface = false

theorem Step.stationary (h : Step n cx ops m cx') (hm : m.isBodied = false)
    (hn : Stationary n cx st) : Stationary m cx' (ops ++ st) := by
  refine ⟨hm, ?_⟩
  intro parameter hmem
  obtain ⟨heq, hops⟩ | ⟨decl, enclosing, outer, -, heq, -, hstays⟩ := h.scopeIn_cases
  · rw [heq]
    have hst := (List.mem_append.mp hmem).resolve_left (hops hn.unbodied parameter)
    exact hn.classes parameter hst
  · obtain ⟨hdecl, hscope⟩ := Bool.or_eq_false_iff.mp (hstays hn.unbodied)
    rw [heq]
    refine List.forall_mem_cons.mpr ⟨hdecl, ?_⟩
    intro d hd
    simpa using List.any_eq_false.mp hscope d hd

variable {test : {c : Category} → Node c → Bool} {st' : List Opened}

theorem Steps.scopeIn_suffix (h : Steps @test n cx st m cx' st') : n.scopeIn cx <:+ m.scopeIn cx' :=
  h.invariant (I := fun m cx' _ => n.scopeIn cx <:+ m.scopeIn cx')
    (fun hstep _ hn => hn.trans hstep.scopeIn_suffix) List.suffix_rfl

theorem Steps.enclosed (h : Steps @test n cx st m cx' st') (hn : Enclosed n cx st) :
    Enclosed m cx' st' :=
  h.invariant (I := fun n cx st => Enclosed n cx st) (fun hstep _ hn => hstep.enclosed hn) hn

theorem Steps.stationary (h : Steps (fun n => !n.isBodied) n cx st m cx' st')
    (hn : Stationary n cx st) : Stationary m cx' st' :=
  h.invariant (I := fun n cx st => Stationary n cx st)
    (fun hstep htest hn => hstep.stationary (by simpa using htest) hn) hn

end

theorem Site.enclosed_root {root : Site} (h : root.context.scope = []) :
    Enclosed root.decl root.context [] := by
  intro front d e back hsplit
  have hlength := congrArg List.length hsplit
  change (root.decl :: root.context.scope).length = _ at hlength
  rw [h, List.length_append] at hlength
  simp only [List.length_cons, List.length_nil] at hlength
  omega

theorem Site.stationary_start (s : Site) : Stationary s.decl s.context [] := by
  refine ⟨?_, fun _ h => nomatch h⟩
  cases s.decl <;> rfl

/-- A declaration that is moved is an interface or stands in one. -/
theorem Site.exists_isInterface_of_moved {root s : Site} (hs : s ∈ root.moved) :
    ∃ d ∈ s.decl.scopeIn s.context, d.isInterface = true := by
  have hmoved : s.IsMoved := of_decide_eq_true (List.mem_filter.mp (root.moved_perm.mem_iff.mp hs)).2
  rcases hmoved with hdecl | ⟨d, hd, hinterface⟩
  · exact ⟨s.decl, List.mem_cons_self, hdecl⟩
  · exact ⟨d, List.mem_cons_of_mem _ (List.mem_reverse.mp hd), hinterface⟩

/-- In a unit without local and anonymous classes, wherever `this` of a class further out is written
by the name of its closure, it stands in such a closure if and only if no declaration around that class
is an interface. The declarations inside the class are classes that are not static. -/
theorem CompilationUnit.qualified_this_enclosed_iff {u : CompilationUnit} {classPath : ClassIndex}
    (hu : u.IsReadable classPath) (hbodies : u.hasBodies = false) (wrap : Bool) {root s : Site}
    (hroot : root ∈ u.roots classPath) (hs : s = root ∨ s ∈ root.moved) {q : TypeDecl}
    {inner outer : Scope} {cx : Context} {a b : Doc}
    (hthis : Reaches (fun _ => true) s.decl s.context (.thisExpr (some q.name)) cx a b)
    (hscope : cx.scope = inner ++ q :: outer) (hinner : inner ≠ [])
    (hclasses : ∀ d ∈ inner, d.isStaticContext = false) (hq : q.isInterface = false)
    (hname : cx.enclosingName? ≠ some q.name) :
    s.content <:+: u.script wrap classPath ∧
    s.content = a ++ Doc.text (q.name ++ "_this") ++ b ∧
    ∃ st, read a ⟨[], .code⟩ = some ⟨st, .code⟩ ∧ read b ⟨st, .code⟩ = some ⟨[], .code⟩ ∧
      (.closure (q.name ++ "_this") ∈ st ↔ ∀ d ∈ outer, d.isInterface = false) := by
  have hregular := root_isRegular (isRegular_of_unbodied hbodies) hroot
  have hreadableRoot := readable_root hu (types_unbodied hbodies) hroot
  have hreadable : Readable Node.isBodied s.decl s.context := by
    rcases hs with rfl | hs
    · exact hreadableRoot
    · have hwithin := (List.mem_filter.mp (root.moved_perm.mem_iff.mp hs)).1
      exact Site.readable_within hreadableRoot hwithin
  have hinfix : s.content <:+: withModules root.root := by
    rcases hs with rfl | hs
    · exact content_infix_root s
    · exact Site.content_infix_moved hregular (level_root hroot) hs
  have htext : cx.thisText (some q.name) = q.name ++ "_this" := by
    rw [Context.thisText, if_neg (by simpa using hname)]
  obtain ⟨-, st, hsteps, hread, hreadBack⟩ := (hthis.unbarred hreadable).steps hreadable []
  refine ⟨infix_script hroot wrap hinfix, ?_, st, hread, hreadBack, ?_⟩
  · rw [← htext]
    exact hthis.code_eq
  · constructor
    · intro hclosure d hd
      refine (hsteps.stationary s.stationary_start).classes _ hclosure d ?_
      change d ∈ cx.scope
      rw [hscope]
      exact List.mem_append_right _ (List.mem_cons_of_mem _ hd)
    · intro houter
      have hall : ∀ d ∈ cx.scope, d.isInterface = false := by
        rw [hscope]
        exact List.forall_mem_append.mpr ⟨fun d hd => TypeDecl.isInterface_eq_false (hclasses d hd),
          List.forall_mem_cons.mpr ⟨hq, houter⟩⟩
      -- So nothing around the place has been moved, and the way begins at the root.
      obtain rfl : s = root := by
        refine hs.resolve_right fun hmoved => ?_
        obtain ⟨d, hd, hinterface⟩ := Site.exists_isInterface_of_moved hmoved
        have hfalse := hall d (hsteps.scopeIn_suffix.subset hd)
        rw [hinterface] at hfalse
        cases hfalse
      have henclosed := hsteps.enclosed (Site.enclosed_root (mem_roots hroot).2.1)
      refine henclosed inner.dropLast (inner.getLast hinner) q outer ?_
        (hclasses _ (List.getLast_mem hinner))
      calc
        cx.scope = inner ++ q :: outer := hscope
        _ = inner.dropLast ++ [inner.getLast hinner] ++ q :: outer := by
          rw [List.dropLast_append_getLast hinner]
        _ = inner.dropLast ++ inner.getLast hinner :: q :: outer := by simp

open Samples in
/-- A class with an inner class that reads a field of it. -/
def fieldAndReader (outer inner : String) : TypeDecl :=
  withMembers (.ofClass outer) [
    Member.ofField [] intType "x" none,
    .nestedType (withMembers (.ofClass inner)
      [Member.ofField [] intType "v" (some (.fieldAccess (.thisExpr (some outer)) "x"))])]

/-- The same two classes at the top and in an interface. -/
def readersAtTop : CompilationUnit :=
  { types := [fieldAndReader "A" "B",
      Samples.withMembers (.ofInterface "I") [.nestedType (fieldAndReader "C" "D")]] }

/-- The inner class at the top stands in a closure for the class around it. The other one is moved out
of the interface, and nothing binds the name that is written in it. -/
theorem readersAtTop_enclosed :
    (∃ root ∈ readersAtTop.roots {}, ∃ a b st, root.content = a ++ Doc.text "A_this" ++ b ∧
      read a ⟨[], .code⟩ = some ⟨st, .code⟩ ∧ .closure "A_this" ∈ st) ∧
    ∃ root ∈ readersAtTop.roots {}, ∃ s ∈ root.moved, ∃ a b st,
      s.content = a ++ Doc.text "C_this" ++ b ∧
      read a ⟨[], .code⟩ = some ⟨st, .code⟩ ∧ .closure "C_this" ∉ st := by
  have hreadable : readersAtTop.IsReadable {} := {
    package := fun _ hp => nomatch hp
    types := by decide +kernel
    classPath := List.forall_mem_nil _ }
  have hbodies : readersAtTop.hasBodies = false := by decide +kernel
  constructor
  · obtain ⟨-, hcontent, st, hread, -, hiff⟩ := CompilationUnit.qualified_this_enclosed_iff
      (q := fieldAndReader "A" "B") hreadable hbodies true List.mem_cons_self (.inl rfl)
      (.at_index 4 rfl rfl (.at_index 2 rfl rfl (.at_index 4 rfl rfl (.at_index 3 rfl rfl
        (.at_index 0 rfl rfl (.refl _ _)))))) (show _ = [_] ++ _ from rfl) (List.cons_ne_nil _ _)
      (by decide) rfl (by decide)
    exact ⟨_, List.mem_cons_self, _, _, st, hcontent, hread, hiff.mpr (List.forall_mem_nil _)⟩
  · obtain ⟨-, hcontent, st, hread, -, hiff⟩ := CompilationUnit.qualified_this_enclosed_iff
      (q := fieldAndReader "C" "D") hreadable hbodies true
      (List.mem_cons_of_mem _ List.mem_cons_self)
      (.inr (List.mem_cons_of_mem _ List.mem_cons_self))
      (.at_index 4 rfl rfl (.at_index 3 rfl rfl (.at_index 0 rfl rfl (.refl _ _))))
      (show _ = [_] ++ _ from rfl) (List.cons_ne_nil _ _) (by decide) rfl (by decide)
    refine ⟨_, List.mem_cons_of_mem _ List.mem_cons_self, _,
      List.mem_cons_of_mem _ List.mem_cons_self, _, _, st, hcontent, hread, mt hiff.mp ?_⟩
    exact fun houter => absurd (houter _ List.mem_cons_self) (by decide)

end TypeScribe
