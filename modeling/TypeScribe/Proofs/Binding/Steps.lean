import TypeScribe.Proofs.Binding.Stretches

/-!
# Steps to the nodes below

From a node to one below it that is code, only a few things happen to what is open and to the context:
nothing, a brace, the body of a declaration, a closure around a nested or local class, or what an
anonymous class brings. `Step` says which, and `Reaches` is a way of such steps with the documents
before and after the node that it leads to.
-/
namespace TypeScribe
set_option autoImplicit false
open Text

/-- A node in its context, with what is open where it is printed. -/
structure Located where
  {category : Category}
  node : Node category
  context : Context
  opened : List Opened

namespace Stretch

/-- What is open after stretches, if each closes what was opened last. -/
def scan : List Stretch → List Opened → Option (List Opened)
  | [], st => some st
  | opens _ x :: rest, st => scan rest (x :: st)
  | closes _ x :: rest, st => if st.head? = some x then scan rest st.tail else none
  | _ :: rest, st => scan rest st

/-- The nodes among stretches, with what is open at them. -/
def located : List Stretch → List Opened → List Located
  | [], _ => []
  | opens _ x :: rest, st => located rest (x :: st)
  | closes _ _ :: rest, st => located rest st.tail
  | own _ :: rest, st => located rest st
  | node n cx :: rest, st => ⟨n, cx, st⟩ :: located rest st

theorem scan_append (ps qs : List Stretch) (st : List Opened) :
    scan (ps ++ qs) st = (scan ps st).bind (scan qs) := by
  induction ps generalizing st with
  | nil => rfl
  | cons p rest ih =>
    cases p with
    | closes s x =>
      rw [List.cons_append, scan, scan]
      split
      · exact ih _
      · rfl
    | _ => exact ih _

theorem mem_located {l r : List Stretch} {c : Category} {n : Node c} {cx : Context}
    {st st' : List Opened} (hscan : scan l st = some st') :
    ⟨n, cx, st'⟩ ∈ located (l ++ node n cx :: r) st := by
  induction l generalizing st with
  | nil =>
    cases hscan
    exact List.mem_cons_self
  | cons p rest ih =>
    cases p with
    | closes s x =>
      rw [scan] at hscan
      split at hscan
      · exact ih hscan
      · cases hscan
    | node m cx' => exact List.mem_cons_of_mem _ (ih hscan)
    | _ => exact ih hscan

theorem located_append {ps : List Stretch} (qs : List Stretch) {st st' : List Opened}
    (hscan : scan ps st = some st') :
    located (ps ++ qs) st = located ps st ++ located qs st' := by
  induction ps generalizing st with
  | nil =>
    cases hscan
    rfl
  | cons p rest ih =>
    cases p with
    | closes s x =>
      rw [scan] at hscan
      split at hscan
      · exact ih hscan
      · cases hscan
    | node n cx => exact congrArg (List.cons _) (ih hscan)
    | _ => exact ih hscan

end Stretch

/-- Whether what stands in the node has no instance of what stands around it. -/
def Node.isStaticContext : {c : Category} → Node c → Bool
  | _, .classDecl _ isInterface modifiers _ _ _ _ _ _ _ => isInterface || modifiers.contains .static
  | _, .enumDecl .. => true
  | _, .annotationDecl .. => true
  | _, .enumConstant .. => true
  | _, .field modifiers _ _ _ _ => modifiers.contains .static
  | _, .method _ modifiers _ _ _ _ _ _ _ => modifiers.contains .static
  | _, .initializer isStatic _ _ => isStatic
  | _, _ => false

def Category.isDeclared : Category → Bool
  | .typeDecl => true
  | _ => false

/-- A context with the same declarations and anonymous classes around it. Only inside a static field
may it be that of the field's value. -/
structure Context.Lies (cx : Context) (inStatic : Bool) (cx' : Context) : Prop where
  scope : cx'.scope = cx.scope
  frames : cx'.frames = cx.frames
  resolver : cx'.resolver = cx.resolver
  value : cx'.isStaticValue = true → inStatic = true

theorem Context.lies_child (cx : Context) (inStatic : Bool) (place : Nat) :
    cx.Lies inStatic (cx.child place) :=
  ⟨rfl, rfl, rfl, fun h => nomatch h⟩

theorem Context.lies_declarators (cx : Context) (inStatic isStatic : Bool) (place : Nat) :
    cx.Lies inStatic ((cx.declarators isStatic).child place) :=
  ⟨rfl, rfl, rfl, fun h => nomatch h⟩

theorem Context.lies_membersOf (cx : Context) (inStatic isInterface : Bool) (place : Nat) :
    cx.Lies inStatic ((cx.membersOf isInterface).child place) :=
  ⟨rfl, rfl, rfl, fun h => nomatch h⟩

theorem Context.Lies.child {cx cx' : Context} {inStatic : Bool} (h : cx.Lies inStatic cx')
    (place : Nat) : cx.Lies inStatic (cx'.child place) :=
  ⟨h.scope, h.frames, h.resolver, fun hvalue => nomatch hvalue⟩

theorem Context.Lies.content {cx cx' : Context} {inStatic : Bool} (h : cx.Lies inStatic cx') :
    cx.Lies inStatic cx'.content :=
  ⟨h.scope, h.frames, h.resolver, h.value⟩

theorem forall_mem_inSequence {I : Context → Prop} (hI : ∀ cx place, I cx → I (cx.child place))
    {cx : Context} (h : I cx) {c : Category} (ns : List (Node c)) :
    ∀ p ∈ inSequence cx ns, I p.2 := by
  induction ns generalizing cx with
  | nil => exact List.forall_mem_nil _
  | cons n ns ih =>
    refine List.forall_mem_cons.mpr ⟨hI cx 0 h, ih ?_⟩
    unfold Context.after
    split
    · exact h
    · exact hI cx 1 h

theorem Context.Lies.inSequence {cx cx' : Context} {inStatic : Bool} (h : cx.Lies inStatic cx')
    {c : Category} (ns : List (Node c)) : ∀ p ∈ inSequence cx' ns, cx.Lies inStatic p.2 :=
  forall_mem_inSequence (fun _ place h => h.child place) h ns

namespace Stretch

/-- The stretch opens and closes nothing, and a node in it lies in a context like `cx`. -/
def Stays (cx : Context) (inStatic : Bool) : Stretch → Prop
  | own _ => True
  | @node c _ cx' => cx.Lies inStatic cx' ∧ c.isDeclared = false
  | _ => False

instance (cx : Context) (inStatic : Bool) : Lenient (Stays cx inStatic) where
  quiet _ := trivial

variable {cx : Context} {inStatic : Bool} {ps : List Stretch} (h : Every (Stays cx inStatic) ps)

include h

theorem scan_of_stays (st : List Opened) : scan ps st = some st := by
  induction ps with
  | nil => rfl
  | cons p rest ih =>
    obtain ⟨hp, hrest⟩ := List.forall_mem_cons.mp h
    cases p with
    | opens => exact hp.elim
    | closes => exact hp.elim
    | _ => exact ih hrest

theorem located_of_stays {st : List Opened} {y : Located} (hy : y ∈ located ps st) :
    y.opened = st ∧ cx.Lies inStatic y.context ∧ y.category.isDeclared = false := by
  induction ps with
  | nil => cases hy
  | cons p rest ih =>
    obtain ⟨hp, hrest⟩ := List.forall_mem_cons.mp h
    cases p with
    | own d => exact ih hrest hy
    | opens => exact hp.elim
    | closes => exact hp.elim
    | node n cx' =>
      rcases List.mem_cons.mp hy with rfl | hy
      · exact ⟨rfl, hp⟩
      · exact ih hrest hy

omit h

/-- The stretches close what they open, and each node among them has the property, together with
what they open around it. -/
def Each (Q : List Opened → {c : Category} → Node c → Context → Prop) (ps : List Stretch) : Prop :=
  ∀ st, scan ps st = some st ∧
    ∀ y ∈ located ps st, ∃ ops, y.opened = ops ++ st ∧ Q ops y.node y.context

namespace Each

variable {Q : List Opened → {c : Category} → Node c → Context → Prop} {ps qs : List Stretch}

theorem of_stays {cx : Context} {inStatic : Bool} (h : Every (Stays cx inStatic) ps)
    (hQ : ∀ {c : Category} (n : Node c) (cx' : Context), cx.Lies inStatic cx' →
      c.isDeclared = false → Q [] n cx') : Each Q ps := by
  intro st
  refine ⟨scan_of_stays h st, ?_⟩
  intro y hy
  obtain ⟨hopened, hcx, hc⟩ := located_of_stays h hy
  exact ⟨[], hopened, hQ y.node y.context hcx hc⟩

theorem nil : Each Q [] := fun _ => ⟨rfl, List.forall_mem_nil _⟩

theorem node {c : Category} {n : Node c} {cx : Context} (h : Q [] n cx) : Each Q [.node n cx] := by
  intro st
  refine ⟨rfl, ?_⟩
  intro y hy
  cases List.mem_singleton.mp hy
  exact ⟨[], rfl, h⟩

theorem own {d : Doc} (h : Each Q ps) : Each Q (.own d :: ps) := h

theorem append (hp : Each Q ps) (hq : Each Q qs) : Each Q (ps ++ qs) := by
  intro st
  refine ⟨?_, ?_⟩
  · rw [scan_append, (hp st).1]
    exact (hq st).1
  · intro y hy
    rw [located_append qs (hp st).1] at hy
    rcases List.mem_append.mp hy with hy | hy
    · exact (hp st).2 y hy
    · exact (hq st).2 y hy

theorem ite {p : Prop} [Decidable p] (hp : Each Q ps) (hq : Each Q qs) :
    Each Q (if p then ps else qs) := by
  split
  · exact hp
  · exact hq

/-- What is opened around the stretches stands outside what they open. -/
theorem around {s t : String} {x : Opened} (h : Each (fun ops _ n cx => Q (ops ++ [x]) n cx) ps) :
    Each Q (.opens s x :: ps ++ [.closes t x]) := by
  intro st
  obtain ⟨hscan, hlocated⟩ := h (x :: st)
  refine ⟨?_, ?_⟩
  · rw [List.cons_append, scan, scan_append, hscan]
    simp [scan]
  · intro y hy
    rw [List.cons_append, located, located_append _ hscan] at hy
    rcases List.mem_append.mp hy with hy | hy
    · obtain ⟨ops, hopened, hQ⟩ := hlocated y hy
      exact ⟨ops ++ [x], by rw [hopened, List.append_assoc]; rfl, hQ⟩
    · cases hy

theorem braced {brace : String} {x : Opened}
    (h : Each (fun ops _ n cx => Q (ops ++ [x]) n cx) ps) : Each Q (Stretch.braced brace x ps) := by
  have hinside : Each (fun ops _ n cx => Q (ops ++ [x]) n cx)
      (.own [.newline, .indent] :: ps ++ [.own [.outdent]]) :=
    own (h.append (own nil))
  have heq : Stretch.braced brace x ps =
      .opens brace x :: (.own [.newline, .indent] :: ps ++ [.own [.outdent]])
        ++ [.closes "\x7d" x] := by
    simp [Stretch.braced]
  rw [heq]
  exact hinside.around

theorem closure {parameter after : String}
    (h : Each (fun ops _ n cx => Q (ops ++ [.closure parameter]) n cx) ps) :
    Each Q (Stretch.closure parameter after ps) :=
  h.around

end Each

namespace Stays

variable {cx cx' : Context} {inStatic : Bool} {c : Category}

theorem inSequence (h : cx.Lies inStatic cx') (hc : c.isDeclared = false) (ns : List (Node c)) :
    ∀ p ∈ inSequence cx' ns, (Stretch.placed p).Stays cx inStatic :=
  fun p hp => ⟨h.inSequence ns p hp, hc⟩

theorem content? (h : cx.Lies inStatic cx') (hc : c.isDeclared = false) (o : Node (.optional c)) :
    ∀ p ∈ o.content? cx', (Stretch.placed p).Stays cx inStatic := by
  cases o with
  | absent => rintro p ⟨⟩
  | present n =>
    rintro p ⟨⟩
    exact ⟨h.content, hc⟩

theorem declarators {base : Option Doc} (h : cx.Lies inStatic cx')
    (hfield : cx'.inStaticField = true → inStatic = true) (ds : Node (.many .declarator)) :
    Every (Stays cx inStatic) (Stretch.declarators base ds cx') := by
  refine .declarators ?_
  rintro ⟨d, cx''⟩ hd
  have hlies := h.inSequence _ _ hd
  have hstatic : cx''.inStaticField = true → inStatic = true :=
    forall_mem_inSequence (I := fun cx => cx.inStaticField = true → inStatic = true)
      (fun _ _ hfield => hfield) hfield _ _ hd
  cases d with
  | declarator name dimensions initial =>
    cases initial with
    | absent => exact .own trivial .nil
    | present value =>
      exact .own trivial (.own trivial
        (.node ⟨⟨hlies.scope, hlies.frames, hlies.resolver, hstatic⟩, rfl⟩ .nil))

end Stays
end Stretch

open Stretch

/-- The closure that an anonymous class opens, unless it is in static context. -/
def Context.capture (cx : Context) (isStatic : Bool) : List Opened :=
  if isStatic then [] else [.closure cx.captureName]

/-- What happens on the way from a node to one below it: what is opened, and how the context
changes. -/
inductive Step : {c c' : Category} → Node c → Context → List Opened → Node c' → Context → Prop where
  | inside {c c' : Category} {n : Node c} {m : Node c'} {cx cx' : Context} {ops : List Opened}
      (hn : c.isDeclared = false) (hops : ops = [] ∨ ops = [.block])
      (hcx : cx.Lies n.isStaticContext cx') (hm : c'.isDeclared = false) : Step n cx ops m cx'
  | member {c' : Category} {decl : TypeDecl} {m : Node c'} {cx cx' : Context}
      (hcx : (cx.enter decl).Lies false cx') (hm : c'.isDeclared = false) :
      Step decl cx [.body] m cx'
  /-- A nested declaration that stays in its place. -/
  | nested {decl enclosing : TypeDecl} {outer : Scope} {cx : Context}
      (hscope : cx.scope = enclosing :: outer) (hstays : mustMove decl cx.scope = false) :
      Step (.nestedType decl) cx
        (if decl.isStaticContext then [] else [.closure (enclosing.name ++ "_this")]) decl
        (cx.child 0)
  | localClass {decl enclosing : TypeDecl} {outer : Scope} {cx : Context}
      (hscope : cx.scope = enclosing :: outer) :
      Step (.localType decl) cx [.closure (enclosing.name ++ "_this")] decl (cx.child 0)
  | constant {c' : Category} {n : Node .enumConstant} {m : Node c'} {cx cx' : Context}
      (hcx : cx.Lies false cx') (hm : c'.isDeclared = false) : Step n cx [.body] m cx'
  /-- An argument of an anonymous class, which stands in its closure. -/
  | argument {c' : Category} {receiver : Node (.optional .expr)} {type : ClassType}
      {typeArguments : Node (.many .typeUse)} {arguments : Node (.many .expr)}
      {body : Node (.many .member)} {m : Node c'} {cx cx' : Context}
      (hcx : cx.Lies false cx') (hm : c'.isDeclared = false) :
      Step (.objectCreation receiver type typeArguments arguments (.present body)) cx
        (cx.capture (cx.createsStatic receiver)) m cx'
  | anonymous {c' : Category} {receiver : Node (.optional .expr)} {type : ClassType}
      {typeArguments : Node (.many .typeUse)} {arguments : Node (.many .expr)}
      {body : Node (.many .member)} {m : Node c'} {cx cx' : Context}
      (hcx : (cx.enterAnonymous (cx.createsStatic receiver)).Lies false cx')
      (hm : c'.isDeclared = false) :
      Step (.objectCreation receiver type typeArguments arguments (.present body)) cx
        (.body :: cx.capture (cx.createsStatic receiver)) m cx'

theorem Context.enclosingName?_eq {cx : Context} {enclosing : TypeDecl} {outer : Scope}
    (h : cx.scope = enclosing :: outer) : cx.enclosingName? = some enclosing.name := by
  rw [enclosingName?, h]
  rfl

theorem Context.enclosingName?_eq_none {cx : Context} (h : cx.scope = []) :
    cx.enclosingName? = none := by
  rw [enclosingName?, h]
  rfl

namespace Stretch

theorem nestedClass_step {decl enclosing : TypeDecl} {outer : Scope} {cx : Context}
    (hscope : cx.scope = enclosing :: outer) (hstays : mustMove decl cx.scope = false)
    (hstatic : decl.isStatic = decl.isStaticContext) :
    Each (fun ops _ m cx' => Step (.nestedType decl) cx ops m cx')
      (nestedClass enclosing.name decl (cx.child 0)) := by
  have hstep := Step.nested hscope hstays
  rw [← hstatic] at hstep
  unfold nestedClass
  refine .own ?_
  split
  · next h =>
    rw [if_pos h] at hstep
    exact .node hstep
  · next h =>
    rw [if_neg h] at hstep
    exact .closure (.node hstep)

theorem nestedType_step (decl : TypeDecl) (cx : Context) :
    Each (fun ops _ m cx' => Step (.nestedType decl) cx ops m cx')
      (nestedType (cx.child 0) decl) := by
  unfold nestedType
  cases hscope : cx.scope with
  | nil =>
    have hname : (cx.child 0).enclosingName? = none := Context.enclosingName?_eq_none hscope
    rw [hname]
    exact .own .nil
  | cons enclosing outer =>
    have hname : (cx.child 0).enclosingName? = some enclosing.name :=
      Context.enclosingName?_eq hscope
    rw [hname]
    cases hmoved : mustMove decl cx.scope with
    | true =>
      have hmoved : mustMove decl (cx.child 0).scope = true := hmoved
      simp only [hmoved, if_true]
      exact .own .nil
    | false =>
      have hstays : mustMove decl (cx.child 0).scope = false := hmoved
      simp only [hstays, Bool.false_eq_true, if_false]
      cases decl with
      | classDecl name isInterface =>
        cases isInterface with
        | true => cases hmoved
        | false => exact nestedClass_step hscope hmoved rfl
      | enumDecl => exact .own (.node (.nested hscope hmoved))
      | annotationDecl => cases hmoved

theorem localType_step (decl : TypeDecl) (cx : Context) :
    Each (fun ops _ m cx' => Step (.localType decl) cx ops m cx')
      (localType cx decl (cx.child 0)) := by
  unfold localType
  cases hscope : cx.scope with
  | nil =>
    rw [Context.enclosingName?_eq_none hscope]
    exact .own .nil
  | cons enclosing outer =>
    rw [Context.enclosingName?_eq hscope]
    cases decl with
    | classDecl name isInterface =>
      cases isInterface with
      | true => exact .own .nil
      | false => exact .own (.closure (.node (.localClass hscope)))
    | _ => exact .own .nil

theorem anonymousClass_step (cx : Context) (receiver : Node (.optional .expr)) (type : ClassType)
    (typeArguments : Node (.many .typeUse)) (arguments : Node (.many .expr))
    (body : Node (.many .member)) :
    Each (fun ops _ m cx' => Step (.objectCreation receiver type typeArguments arguments
        (.present body)) cx ops m cx')
      (Node.stretches (.objectCreation receiver type typeArguments arguments (.present body)) cx) := by
  have hmembers : Every (Stays (cx.enterAnonymous (cx.createsStatic receiver)) false)
      (members (inSequence ((cx.enterAnonymous (cx.createsStatic receiver)).child 3).content
        body.toList)) :=
    .members (Stays.inSequence (Context.lies_child _ false 3).content rfl body.toList)
  have harguments : Every (Stays cx false) (parenthesized arguments (cx.child 2)) :=
    .parenthesized (Stays.inSequence (cx.lies_child false 2) rfl arguments.toList)
  have hclass : Each (fun ops _ m cx' => Step (.objectCreation receiver type typeArguments arguments
        (.present body)) cx (ops ++ cx.capture (cx.createsStatic receiver)) m cx')
      (anonymousClass cx type arguments (inSequence _ body.toList)) :=
    .own (.append (.braced (.of_stays hmembers fun _ _ hcx hm => .anonymous hcx hm))
      (.of_stays harguments fun _ _ hcx hm => .argument hcx hm))
  refine .own ?_
  split
  · next hstatic =>
    have hnone : cx.capture (cx.createsStatic receiver) = [] := if_pos hstatic
    rw [hnone] at hclass
    simpa only [List.append_nil] using hclass
  · next hstatic =>
    have hone : cx.capture (cx.createsStatic receiver) = [.closure cx.captureName] := if_neg hstatic
    rw [hone] at hclass
    exact .closure hclass

end Stretch

/-- Every node among the stretches of a node is one step below it. -/
theorem Node.stretches_step {c : Category} (n : Node c) (cx : Context) :
    Each (fun ops _ m cx' => Step n cx ops m cx') (n.stretches cx) := by
  have hlies (place : Nat) : cx.Lies n.isStaticContext (cx.child place) := cx.lies_child _ place
  have sequence (place : Nat) {c' : Category} (ns : Node (.many c')) (hc : c'.isDeclared = false) :=
    Stays.inSequence (hlies place) hc ns.toList
  have optional (place : Nat) {c' : Category} (o : Node (.optional c'))
      (hc : c'.isDeclared = false) := Stays.content? (hlies place) hc o
  have stays (hn : c.isDeclared = false) {ps : List Stretch}
      (h : Every (Stays cx n.isStaticContext) ps) : Each (fun ops _ m cx' => Step n cx ops m cx') ps :=
    .of_stays h fun _ _ hcx hm => .inside hn (.inl rfl) hcx hm
  have block (hn : c.isDeclared = false) {ps : List Stretch}
      (h : Every (Stays cx n.isStaticContext) ps) :
      Each (fun ops _ m cx' => Step n cx (ops ++ [.block]) m cx') ps :=
    .of_stays h fun _ _ hcx hm => .inside hn (.inr rfl) hcx hm
  cases n with
  -- Type declarations
  | classDecl name isInterface modifiers comment annotations typeParameters extended implemented
      members trailing =>
    have hmembers (decl : TypeDecl) :=
      Stays.inSequence ((cx.enter decl).lies_membersOf false isInterface 4) rfl members.toList
    exact .own (.braced (.of_stays (.append (.classMembers (hmembers _)) (.own trivial .nil))
      fun _ _ hcx hm => .member hcx hm))
  | enumDecl name modifiers comment annotations implemented constants members =>
    have hconstants (decl : TypeDecl) :=
      Stays.inSequence ((cx.enter decl).lies_child false 2) rfl constants.toList
    have hmembers (decl : TypeDecl) :=
      Stays.inSequence ((cx.enter decl).lies_membersOf false false 3) rfl members.toList
    exact .own (.braced (.of_stays
      (.own trivial (.append (.listing (hconstants _)) (.afterConstants _ (hmembers _))))
      fun _ _ hcx hm => .member hcx hm))
  | annotationDecl name modifiers comment annotations members =>
    have hmembers (decl : TypeDecl) :=
      Stays.inSequence ((cx.enter decl).lies_membersOf false true 1) rfl members.toList
    exact .own (.braced (.of_stays (.classMembers (hmembers _)) fun _ _ hcx hm => .member hcx hm))
  | enumConstant name comment annotations arguments body =>
    have hbody := Stays.inSequence (cx.lies_membersOf false false 2) rfl body.toList
    have hbraced : Each (fun ops _ m cx' => Step (enumConstant name comment annotations arguments
        body) cx ops m cx') (constantBody (inSequence _ body.toList)) :=
      .ite .nil (.append (.braced (.of_stays (.members hbody) fun _ _ hcx hm => .constant hcx hm))
        (.own .nil))
    exact .own (.append (stays rfl (.constantArguments (sequence _ arguments rfl))) hbraced)
  -- Members
  | nestedType decl =>
    exact nestedType_step decl cx
  | field modifiers comment annotations base declarators =>
    have hlies' := cx.lies_declarators (modifiers.contains .static) (modifiers.contains .static) 2
    exact stays rfl (.own trivial
      ((Stays.declarators hlies' id declarators).append (.own trivial .nil)))
  | method name modifiers comment annotations typeParameters result parameters thrown body =>
    cases body with
    | absent => exact stays rfl (.own trivial (.own trivial .nil))
    | present body =>
      exact stays rfl (.own trivial (.own trivial (.node ⟨(hlies _).content, rfl⟩ .nil)))
  | constructor name modifiers comment annotations typeParameters parameters thrown body =>
    exact stays rfl (.own trivial (.node ⟨hlies _, rfl⟩ .nil))
  | initializer isStatic comment body => exact stays rfl (.own trivial (.node ⟨hlies _, rfl⟩ .nil))
  -- Statements
  | block statements trailing =>
    have hlines : Every (Stays cx false) _ := .stmtLines (sequence 0 statements rfl)
    exact .braced (block rfl (hlines.append (.own trivial .nil)))
  | switchEntry label statements =>
    have hlines : Every (Stays cx false) _ := .stmtLines (sequence 1 statements rfl)
    cases label with
    | absent => exact stays rfl (.own trivial (.own trivial (hlines.append (.own trivial .nil))))
    | present label =>
      exact stays rfl (.own trivial (.node ⟨(hlies _).content, rfl⟩ (.own trivial (.own trivial
        (hlines.append (.own trivial .nil))))))
  | catchClause caught body => exact stays rfl (.own trivial (.node ⟨hlies _, rfl⟩ .nil))
  | variableGroup modifiers annotations base declarators =>
    have hlies' := cx.lies_declarators false false 2
    exact stays rfl (.own trivial (Stays.declarators hlies' id declarators))
  | blockStmt body => exact stays rfl (.node ⟨hlies _, rfl⟩ .nil)
  | exprStmt expr => exact stays rfl (.node ⟨hlies _, rfl⟩ (.own trivial .nil))
  | localType decl => exact localType_step decl cx
  | labeled label statement => exact stays rfl (.own trivial (.node ⟨hlies _, rfl⟩ .nil))
  | switchStmt selector entries =>
    exact .append (stays rfl (.own trivial (.node ⟨hlies _, rfl⟩ .nil)))
      (.braced (block rfl (.placed (sequence _ entries rfl))))
  | returnStmt expr =>
    cases expr with
    | absent => exact stays rfl (.own trivial (.own trivial .nil))
    | present expr =>
      exact stays rfl (.own trivial (.own trivial
        (.node ⟨(hlies _).content, rfl⟩ (.own trivial .nil))))
  | ifStmt condition thenStmt elseStmt =>
    have hthen : Every (Stays cx false) (consequent (thenStmt, cx.child 1)) :=
      .consequent ⟨hlies _, rfl⟩
    cases elseStmt with
    | absent => exact stays rfl (.own trivial (.node ⟨hlies _, rfl⟩ (hthen.append .nil)))
    | present elseStmt =>
      have helse : Every (Stays cx false) (alternative (elseStmt, (cx.child 2).content)) :=
        .alternative ⟨(hlies _).content, rfl⟩
      exact stays rfl (.own trivial (.node ⟨hlies _, rfl⟩ (hthen.append (.own trivial helse))))
  | whileStmt condition body =>
    exact stays rfl (.own trivial (.node ⟨hlies _, rfl⟩ (.own trivial (.node ⟨hlies _, rfl⟩ .nil))))
  | doStmt body condition =>
    exact stays rfl (.own trivial (.node ⟨hlies _, rfl⟩ (.own trivial
      (.node ⟨hlies _, rfl⟩ (.own trivial .nil)))))
  | forEachStmt loopVariable iterable body =>
    exact stays rfl (.own trivial (.node ⟨hlies _, rfl⟩ (.own trivial (.node ⟨hlies _, rfl⟩ .nil))))
  | forStmt init compare update body =>
    have hinit := sequence 0 init rfl
    have hcompare := optional 1 compare rfl
    have hupdate := sequence 2 update rfl
    exact stays rfl (.append (.append (.append (.own trivial (.listing hinit))
      (.own trivial (.optional hcompare))) (.own trivial (.listing hupdate)))
      (.own trivial (.node ⟨hlies _, rfl⟩ .nil)))
  | throwStmt expr => exact stays rfl (.own trivial (.node ⟨hlies _, rfl⟩ (.own trivial .nil)))
  | synchronizedStmt lock body => exact stays rfl (.own trivial (.node ⟨hlies _, rfl⟩ .nil))
  | tryStmt resources body catches finallyBlock =>
    have hresources : Every (Stays cx false) _ := .resources (sequence 0 resources rfl)
    have hcatches : Every (Stays cx false) _ := .placed (sequence 2 catches rfl)
    cases finallyBlock with
    | absent =>
      exact stays rfl ((hresources.append (.own trivial (.node ⟨hlies _, rfl⟩ hcatches))).append .nil)
    | present last =>
      exact stays rfl ((hresources.append (.own trivial (.node ⟨hlies _, rfl⟩ hcatches))).append
        (.own trivial (.node ⟨(hlies _).content, rfl⟩ .nil)))
  | constructorCall isThis expr typeArguments arguments =>
    have harguments : Every (Stays cx false) _ := .parenthesized (sequence 1 arguments rfl)
    cases isThis with
    | true => exact stays rfl (.append (.own trivial harguments) (.own trivial .nil))
    | false =>
      exact stays rfl (.append (.append (.append (.scope (optional _ expr rfl)) (.own trivial .nil))
        harguments) (.own trivial .nil))
  -- Expressions
  | creationLevel size annotations =>
    exact stays rfl (.optional (optional _ size rfl))
  | lambdaExpr expr => exact stays rfl (.node ⟨hlies _, rfl⟩ .nil)
  | lambdaBlock body => exact stays rfl (.node ⟨hlies _, rfl⟩ .nil)
  | fieldAccess scope name => exact stays rfl (.node ⟨hlies _, rfl⟩ (.own trivial (.own trivial .nil)))
  | arrayAccess base index =>
    exact stays rfl (.node ⟨hlies _, rfl⟩ (.own trivial (.node ⟨hlies _, rfl⟩ (.own trivial .nil))))
  | arrayCreation elementType levels initial =>
    cases initial with
    | present values =>
      have hvalues := Stays.inSequence (hlies 2).content rfl values.toList
      exact stays rfl (.own trivial (.append (.listing hvalues) (.own trivial .nil)))
    | absent => exact stays rfl (.sizedArray trivial (sequence _ levels rfl))
  | arrayInitializer values =>
    exact stays rfl (.own trivial (.append (.listing (sequence _ values rfl)) (.own trivial .nil)))
  | assign target op value =>
    exact stays rfl (.node ⟨hlies _, rfl⟩ (.own trivial (.node ⟨hlies _, rfl⟩ .nil)))
  | binary left op right =>
    exact stays rfl (.node ⟨hlies _, rfl⟩ (.own trivial (.node ⟨hlies _, rfl⟩ .nil)))
  | unary op expr =>
    exact stays rfl (.ite (.node ⟨hlies _, rfl⟩ (.own trivial .nil))
      (.own trivial (.node ⟨hlies _, rfl⟩ .nil)))
  | cast type expr =>
    exact stays rfl (.ite (.own trivial (.node ⟨hlies _, rfl⟩ (.own trivial .nil)))
      (.own trivial (.node ⟨hlies _, rfl⟩ .nil)))
  | conditional condition thenExpr elseExpr =>
    exact stays rfl (.node ⟨hlies _, rfl⟩ (.own trivial (.node ⟨hlies _, rfl⟩
      (.own trivial (.node ⟨hlies _, rfl⟩ .nil)))))
  | enclosed inner => exact stays rfl (.own trivial (.node ⟨hlies _, rfl⟩ (.own trivial .nil)))
  | instanceOf expr type => exact stays rfl (.node ⟨hlies _, rfl⟩ (.own trivial .nil))
  | methodCall receiver typeArguments name arguments =>
    exact stays rfl (.append (.scope (optional _ receiver rfl))
      (.own trivial (.parenthesized (sequence _ arguments rfl))))
  | objectCreation receiver type typeArguments arguments anonymousBody =>
    cases anonymousBody with
    | absent =>
      exact stays rfl (.append (.scope (optional _ receiver rfl))
        (.own trivial (.parenthesized (sequence _ arguments rfl))))
    | present body =>
      exact anonymousClass_step cx receiver type typeArguments arguments body
  | lambda parameters isEnclosed body => exact stays rfl (.own trivial (.node ⟨hlies _, rfl⟩ .nil))
  | methodReference scope typeArguments identifier =>
    exact stays rfl (.own trivial (.node ⟨hlies _, rfl⟩ (.own trivial (.own trivial .nil))))
  | variableDeclaration decl => exact stays rfl (.node ⟨hlies _, rfl⟩ .nil)
  | _ => exact stays rfl (.own trivial .nil)

/-- A way from a node to one below it, with the documents before and after that one. Every node that
is entered passes the test. -/
inductive Reaches (test : {c : Category} → Node c → Bool) : {c c' : Category} → Node c → Context →
    Node c' → Context → Doc → Doc → Prop where
  | refl {c : Category} (n : Node c) (cx : Context) : Reaches @test n cx n cx [] []
  | next {c c' c'' : Category} {n : Node c} {m : Node c'} {k : Node c''} {cx cx' cx'' : Context}
      {before after : List Stretch} {a b : Doc}
      (hplace : n.stretches cx = before ++ .node m cx' :: after) (htest : test m = true)
      (hrest : Reaches @test m cx' k cx'' a b) :
      Reaches @test n cx k cx'' (docs before ++ a) (b ++ docs after)

theorem Reaches.code_eq {test : {c : Category} → Node c → Bool} {c c' : Category} {n : Node c}
    {m : Node c'} {cx cx' : Context} {a b : Doc} (h : Reaches @test n cx m cx' a b) :
    n.code cx = a ++ m.code cx' ++ b := by
  induction h with
  | refl n cx => simp
  | next hplace htest hrest ih =>
    rw [Node.code_eq_docs, hplace, docs_append, docs_cons, doc_node, ih]
    simp

end TypeScribe
