import TypeScribe.Proofs.Binding.Ways
import TypeScribe.Proofs.ClassIndex.Resolved
import TypeScribe.Proofs.Moves.Reference
import TypeScribe.Samples

/-!
# The instance that a qualified `this` denotes

Inside a declaration `q` its instance has a name that changes on the way in: `this` at first, the
parameter of the first closure around an anonymous class, and behind the next class inside `q` the
parameter of the closure around that class. That last one is bound to `this` where the class begins,
which is the instance of `q` only if no anonymous class is open there.
-/
namespace TypeScribe
set_option autoImplicit false
open Text

/-- The closure parameter of an anonymous class inside `n` others that hold their instance. -/
def captureNameAt : Nat → String
  | 0 => "__this"
  | n => "__this" ++ toString n

theorem captureNameAt_injective {m n : Nat} (h : captureNameAt m = captureNameAt n) : m = n := by
  unfold captureNameAt at h
  split at h <;> split at h
  · rfl
  · exact absurd ((String.append_right_inj "__this").mp h.symm) Nat.repr_ne_empty
  · exact absurd ((String.append_right_inj "__this").mp h) Nat.repr_ne_empty
  · have hrepr : Nat.repr m = Nat.repr n := (String.append_right_inj "__this").mp h
    have hdigits := congrArg String.toList hrepr
    rw [Nat.toList_repr, Nat.toList_repr] at hdigits
    calc
      m = Nat.ofDigitChars 10 (Nat.toDigits 10 m) 0 := Nat.ofDigitChars_ten_toDigits.symm
      _ = Nat.ofDigitChars 10 (Nat.toDigits 10 n) 0 := by rw [hdigits]
      _ = n := Nat.ofDigitChars_ten_toDigits

namespace Context

theorem captures_eq {cx cx' : Context} (h : cx'.frames = cx.frames) : cx'.captures = cx.captures :=
  congrArg (List.countP _) h

theorem captureName_eq {cx cx' : Context} (h : cx'.frames = cx.frames) :
    cx'.captureName = cx.captureName := by
  unfold captureName
  rw [captures_eq h]

/-- The number behind a capture name tells how many captures are open. -/
theorem captures_of_captureName_eq {cx cx' : Context} (h : cx.captureName = cx'.captureName) :
    cx.captures = cx'.captures :=
  captureNameAt_injective h

theorem captureName_ne_this (cx : Context) : cx.captureName ≠ "this" := by
  unfold captureName
  split
  · decide
  · intro h
    have hhead := congrArg (fun s => s.toList.head?) h
    rw [String.toList_append] at hhead
    cases hhead

/-- A capture name ends in a digit or is the shortest one. -/
theorem captureName_ne_qualified (cx : Context) {name : String} (h : name ≠ "_") :
    cx.captureName ≠ name ++ "_this" := by
  unfold captureName
  split
  · intro heq
    exact h ((@String.append_left_inj "_" name "_this").mp heq).symm
  · intro heq
    have hrepr : (toString cx.captures).toList = Nat.toDigits 10 cx.captures := Nat.toList_repr
    have hlast := congrArg (fun s => s.toList.getLast?) heq
    rw [String.toList_append, String.toList_append, hrepr,
      List.getLast?_append_of_ne_nil _ Nat.toDigits_ne_nil,
      List.getLast?_append_of_ne_nil _ (by decide)] at hlast
    have hdigit := Nat.isDigit_of_mem_toDigits (by decide) (by decide)
      (List.mem_of_getLast? hlast)
    cases hdigit

end Context

theorem qualified_ne_this (name : String) : name ++ "_this" ≠ "this" := by
  intro h
  have hlength := congrArg String.length h
  rw [String.length_append] at hlength
  change name.length + 5 = 4 at hlength
  omega

theorem binding_closure (name : String) (st : List Opened) :
    binding name (.closure name :: st) = some (thisInstance st) := if_pos rfl

theorem binding_closure_of_ne {name parameter : String} (h : parameter ≠ name) (st : List Opened) :
    binding name (.closure parameter :: st) = binding name st := if_neg h

theorem thisInstance_body (st : List Opened) : thisInstance (.body :: st) = thisInstance st + 1 :=
  List.countP_cons_of_pos rfl

theorem thisInstance_closure (parameter : String) (st : List Opened) :
    thisInstance (.closure parameter :: st) = thisInstance st := rfl

theorem Step.scope_suffix {c c' : Category} {n : Node c} {m : Node c'} {cx cx' : Context}
    {ops : List Opened} (h : Step n cx ops m cx') : cx.scope <:+ cx'.scope := by
  cases h with
  | inside hn hops hcx hm => exact hcx.scope ▸ List.suffix_rfl
  | member hcx hm => exact hcx.scope ▸ List.suffix_cons _ _
  | nested hscope hstays => exact List.suffix_rfl
  | localClass hscope => exact List.suffix_rfl
  | constant hcx hm => exact hcx.scope ▸ List.suffix_rfl
  | argument hcx hm => exact hcx.scope ▸ List.suffix_rfl
  | anonymous hcx hm => exact hcx.scope ▸ List.suffix_rfl

/-- An anonymous class is opened inside the declarations that are open then. -/
theorem Steps.depth_le {test : {c : Category} → Node c → Bool} {c c' : Category} {n : Node c}
    {m : Node c'} {cx cx' : Context} {st st' : List Opened} (h : Steps @test n cx st m cx' st')
    (hcx : ∀ f ∈ cx.frames, f.depth ≤ cx.scope.length) :
    ∀ f ∈ cx'.frames, f.depth ≤ cx'.scope.length := by
  refine h.invariant (I := fun _ cx _ => ∀ f ∈ cx.frames, f.depth ≤ cx.scope.length) ?_ hcx
  intro c c' n m cx cx' ops st hstep _ hcx f hf
  have hlength := hstep.scope_suffix.length_le
  cases hstep with
  | anonymous hlies hm =>
    rw [hlies.frames] at hf
    rcases List.mem_cons.mp hf with rfl | hf
    · exact hlength
    · exact (hcx f hf).trans hlength
  | nested hscope hstays => exact hcx f hf
  | localClass hscope => exact hcx f hf
  | inside hn hops hlies hm => exact (hcx f (hlies.frames ▸ hf)).trans hlength
  | member hlies hm => exact (hcx f (hlies.frames ▸ hf)).trans hlength
  | constant hlies hm => exact (hcx f (hlies.frames ▸ hf)).trans hlength
  | argument hlies hm => exact (hcx f (hlies.frames ▸ hf)).trans hlength

/-- The way inside `q` has come to a node in no static context, with the declarations `inner` and the
anonymous classes `added` open inside `q`. -/
structure Between (q : TypeDecl) (outer : Context) (inner : Scope) (added : List Frame) {c : Category}
    (n : Node c) (cx : Context) : Prop where
  scope : cx.scope = inner ++ q :: outer.scope
  frames : cx.frames = added ++ outer.frames
  depths : ∀ f ∈ added, outer.scope.length < f.depth ∧ f.depth ≤ cx.scope.length
  captured : ∀ f ∈ added, f.outerThis.isSome = true
  isDynamic : n.isStaticContext = false
  isDynamicValue : cx.isStaticValue = false

/-- By which name the instance of `q` with the number `i` can be reached. -/
inductive Binds (q : TypeDecl) (outer : Context) (i : Nat) (isDeclared : Bool) :
    Scope → List Frame → List Opened → Prop where
  | direct {st : List Opened} (hnode : isDeclared = false) (hthis : thisInstance st = i) :
      Binds q outer i isDeclared [] [] st
  /-- In an anonymous class, by the parameter of the outermost closure. -/
  | captured (added : List Frame) {f : Frame} {st : List Opened} (hnode : isDeclared = false)
      (hf : f.outerThis = some outer.captureName)
      (hbinding : binding outer.captureName st = some i) (hthis : i < thisInstance st) :
      Binds q outer i isDeclared [] (added ++ [f]) st
  /-- In a class inside `q`, by the parameter of its closure, unless an anonymous class was open
  where the closure begins. -/
  | qualified {inner : Scope} {added : List Frame} {st : List Opened}
      (hinner : isDeclared = true ∨ inner ≠ [])
      (hbinding : binding (q.name ++ "_this") st = some i ↔
        ∀ f ∈ added, f.depth ≠ outer.scope.length + 1) :
      Binds q outer i isDeclared inner added st

section

variable {q : TypeDecl} {outer : Context} {i : Nat} {inner : Scope} {added : List Frame}
  {c c' : Category} {n : Node c} {m : Node c'} {cx cx' : Context} {st : List Opened}

theorem Between.lies (h : Between q outer inner added n cx) (hm : m.isStaticContext = false)
    {inStatic : Bool} (hcx : cx.Lies inStatic cx') (hstatic : inStatic = false) :
    Between q outer inner added m cx' where
  scope := hcx.scope.trans h.scope
  frames := hcx.frames.trans h.frames
  depths := by
    rw [hcx.scope]
    exact h.depths
  captured := h.captured
  isDynamic := hm
  isDynamicValue := by
    rw [Bool.eq_false_iff]
    intro hvalue
    cases hstatic.symm.trans (hcx.value hvalue)

theorem Between.captureName_ne (h : Between q outer inner added n cx) (hadded : added ≠ []) :
    cx.captureName ≠ outer.captureName := by
  intro heq
  have hcount : cx.captures = outer.captures := Context.captures_of_captureName_eq heq
  have hall : added.countP (fun f => f.outerThis.isSome) = added.length :=
    List.countP_eq_length.mpr h.captured
  have hpos := List.length_pos_iff.mpr hadded
  unfold Context.captures at hcount
  rw [h.frames, List.countP_append, hall] at hcount
  omega

/-- The closure around a class inside `q` binds the instance of the innermost declaration. -/
theorem Binds.classClosure (h : Between q outer inner added n cx)
    (hb : Binds q outer i false inner added st) (hnames : (cx.scope.map TypeDecl.name).Nodup)
    {enclosing : TypeDecl} {rest : Scope} (hscope : cx.scope = enclosing :: rest) :
    Binds q outer i true inner added (.closure (enclosing.name ++ "_this") :: st) := by
  have hsplit := h.scope.symm.trans hscope
  refine .qualified (.inl rfl) ?_
  cases hb with
  | direct hnode hthis =>
    cases hsplit
    rw [binding_closure, hthis]
    exact iff_of_true rfl (List.forall_mem_nil _)
  | @captured added f _ hnode hf hbinding hthis =>
    cases hsplit
    obtain ⟨hlower, hupper⟩ := h.depths f (by simp)
    rw [hscope, List.length_cons] at hupper
    rw [binding_closure]
    refine iff_of_false ?_ ?_
    · intro heq
      exact absurd (Option.some_inj.mp heq) (by omega)
    · intro hnone
      exact hnone f (by simp) (by omega)
  | qualified hinner hbinding =>
    cases inner with
    | nil => exact absurd rfl (hinner.resolve_left Bool.false_ne_true)
    | cons e inner =>
      cases hsplit
      rw [hscope, List.map_cons, List.nodup_cons] at hnames
      have hne : enclosing.name ++ "_this" ≠ q.name ++ "_this" := by
        intro heq
        apply hnames.1
        rw [(String.append_left_inj "_this").mp heq]
        exact List.mem_map_of_mem (by simp)
      rw [binding_closure_of_ne hne]
      exact hbinding

/-- The closure around an anonymous class hides no name of the instance. -/
theorem Binds.captureClosure (h : Between q outer inner added n cx) (hname : q.name ≠ "_")
    (hb : Binds q outer i false inner added st) :
    Binds q outer i false inner added (.closure cx.captureName :: st) := by
  cases hb with
  | direct hnode hthis => exact .direct hnode hthis
  | captured added hnode hf hbinding hthis =>
    refine .captured added hnode hf ?_ hthis
    rw [binding_closure_of_ne (h.captureName_ne (by simp))]
    exact hbinding
  | qualified hinner hbinding =>
    refine .qualified hinner ?_
    rw [binding_closure_of_ne (cx.captureName_ne_qualified hname)]
    exact hbinding

/-- In the body of an anonymous class `this` is another instance, but a name remains. -/
theorem Binds.anonymousBody (h : Between q outer inner added n cx) (hname : q.name ≠ "_")
    (hb : Binds q outer i false inner added st) :
    Binds q outer i false inner (⟨cx.scope.length, some cx.captureName⟩ :: added)
      (.body :: .closure cx.captureName :: st) := by
  cases hb with
  | direct hnode hthis =>
    have hcapture : cx.captureName = outer.captureName := Context.captureName_eq h.frames
    rw [hcapture]
    refine .captured [] hnode rfl ?_ ?_
    · exact (binding_closure _ _).trans (congrArg some hthis)
    · rw [thisInstance_body, thisInstance_closure, hthis]
      exact Nat.lt_succ_self i
  | captured added hnode hf hbinding hthis =>
    refine .captured (_ :: added) hnode hf ?_ ?_
    · exact (binding_closure_of_ne (h.captureName_ne (by simp)) st).trans hbinding
    · rw [thisInstance_body, thisInstance_closure]
      exact Nat.lt_succ_of_lt hthis
  | qualified hinner hbinding =>
    have hdepth : cx.scope.length ≠ outer.scope.length + 1 := by
      have hpos := List.length_pos_iff.mpr (hinner.resolve_left Bool.false_ne_true)
      rw [h.scope, List.length_append, List.length_cons]
      omega
    refine .qualified hinner ?_
    rw [List.forall_mem_cons, and_iff_right hdepth]
    change binding _ (.closure cx.captureName :: st) = _ ↔ _
    rw [binding_closure_of_ne (cx.captureName_ne_qualified hname)]
    exact hbinding

theorem Binds.block {isDeclared : Bool} (hb : Binds q outer i isDeclared inner added st) :
    Binds q outer i isDeclared inner added (.block :: st) := by
  cases hb with
  | direct hnode hthis => exact .direct hnode hthis
  | captured added hnode hf hbinding hthis => exact .captured added hnode hf hbinding hthis
  | qualified hinner hbinding => exact .qualified hinner hbinding

/-- A step into no static context leaves the instance of `q` within reach. -/
theorem Step.binds {ops : List Opened} (hstep : Step n cx ops m cx') (hm : m.isStaticContext = false)
    (hname : q.name ≠ "_") (hnames : (cx.scope.map TypeDecl.name).Nodup)
    (h : Between q outer inner added n cx) (hb : Binds q outer i c.isDeclared inner added st) :
    ∃ inner' added', Between q outer inner' added' m cx' ∧
      Binds q outer i c'.isDeclared inner' added' (ops ++ st) := by
  have hchild : Between q outer inner added m (cx.child 0) := h.lies hm (cx.lies_child false 0) rfl
  cases hstep with
  | inside hn hops hlies hc =>
    rw [hn] at hb
    rw [hc]
    refine ⟨inner, added, h.lies hm hlies h.isDynamic, ?_⟩
    rcases hops with rfl | rfl
    · exact hb
    · exact hb.block
  | @member _ decl _ _ _ hlies hc =>
    rw [hc]
    have hscope : cx'.scope = decl :: inner ++ q :: outer.scope :=
      hlies.scope.trans (congrArg (List.cons decl) h.scope)
    have hlength : cx.scope.length ≤ cx'.scope.length := by
      rw [hlies.scope]
      exact Nat.le_succ _
    refine ⟨decl :: inner, added, ?_, ?_⟩
    · exact {
        scope := hscope
        frames := hlies.frames.trans h.frames
        depths := fun f hf => ⟨(h.depths f hf).1, (h.depths f hf).2.trans hlength⟩
        captured := h.captured
        isDynamic := hm
        isDynamicValue := Bool.eq_false_iff.mpr fun hvalue => nomatch hlies.value hvalue }
    · cases hb with
      | direct hnode hthis => cases hnode
      | captured added hnode hf hbinding hthis => cases hnode
      | qualified hinner hbinding => exact .qualified (.inr (List.cons_ne_nil _ _)) hbinding
  | nested hscope hstays =>
    rw [hm]
    exact ⟨inner, added, hchild, hb.classClosure h hnames hscope⟩
  | localClass hscope => exact ⟨inner, added, hchild, hb.classClosure h hnames hscope⟩
  | @constant _ constant _ _ _ hlies hc =>
    cases constant
    cases h.isDynamic
  | @argument _ receiver _ _ _ _ _ _ _ hlies hc =>
    have hcapture : cx.capture (cx.createsStatic receiver) = [.closure cx.captureName] := by
      rw [Context.capture, Context.createsStatic, h.isDynamicValue]
      rfl
    rw [hc, hcapture]
    exact ⟨inner, added, h.lies hm hlies rfl, hb.captureClosure h hname⟩
  | @anonymous _ receiver _ _ _ _ _ _ _ hlies hc =>
    have hstatic : cx.createsStatic receiver = false := by
      rw [Context.createsStatic, h.isDynamicValue, Bool.false_and]
    rw [hc, hstatic]
    rw [hstatic] at hlies
    refine ⟨inner, ⟨cx.scope.length, some cx.captureName⟩ :: added, ?_, hb.anonymousBody h hname⟩
    have hcaptured : Between q outer inner (⟨cx.scope.length, some cx.captureName⟩ :: added) m
        (cx.enterAnonymous false) := {
      scope := h.scope
      frames := congrArg (List.cons _) h.frames
      depths := by
        refine List.forall_mem_cons.mpr ⟨⟨?_, Nat.le_refl _⟩, h.depths⟩
        change outer.scope.length < cx.scope.length
        rw [h.scope, List.length_append, List.length_cons]
        omega
      captured := List.forall_mem_cons.mpr ⟨rfl, h.captured⟩
      isDynamic := hm
      isDynamicValue := h.isDynamicValue }
    exact hcaptured.lies hm hlies rfl

/-- The name that is written for `q` denotes its instance, if `q` is the innermost declaration or no
anonymous class is open directly in it. -/
theorem Binds.denotes_thisText (h : Between q outer inner added n cx)
    (houter : ∀ f ∈ outer.frames, f.depth ≤ outer.scope.length)
    (hnames : (cx.scope.map TypeDecl.name).Nodup) (hb : Binds q outer i false inner added st) :
    denotes (cx.thisText (some q.name)) st = some i ↔
      cx.enclosingName? = some q.name ∨ ∀ f ∈ cx.frames, f.depth ≠ outer.scope.length + 1 := by
  have hskip : outer.frames.reverse.find? (fun f => f.depth == outer.scope.length + 1) = none := by
    refine List.find?_eq_none.mpr ?_
    intro f hf
    have hle := houter f (List.mem_reverse.mp hf)
    simp only [beq_iff_eq]
    omega
  cases hb with
  | direct hnode hthis =>
    have hname : cx.enclosingName? = some q.name := Context.enclosingName?_eq h.scope
    have htext : cx.thisText (some q.name) = "this" := by
      rw [Context.thisText, hname, if_pos (beq_self_eq_true _), Context.innermostThis, h.frames,
        h.scope]
      simp [hskip]
    rw [htext]
    exact iff_of_true (congrArg some hthis) (.inl hname)
  | @captured added f _ hnode hf hbinding hthis =>
    have hname : cx.enclosingName? = some q.name := Context.enclosingName?_eq h.scope
    have hdepth : f.depth = outer.scope.length + 1 := by
      obtain ⟨hlower, hupper⟩ := h.depths f (by simp)
      rw [h.scope] at hupper
      simp only [List.nil_append, List.length_cons] at hupper
      omega
    have htext : cx.thisText (some q.name) = outer.captureName := by
      rw [Context.thisText, hname, if_pos (beq_self_eq_true _), Context.innermostThis, h.frames,
        h.scope]
      simp [hskip, List.find?_append, hdepth, hf]
    rw [htext]
    refine iff_of_true ?_ (.inl hname)
    rw [denotes, if_neg outer.captureName_ne_this]
    exact hbinding
  | qualified hinner hbinding =>
    have hne : cx.enclosingName? ≠ some q.name := by
      cases inner with
      | nil => exact absurd rfl (hinner.resolve_left Bool.false_ne_true)
      | cons e inner =>
        rw [Context.enclosingName?_eq h.scope]
        intro heq
        rw [h.scope, List.cons_append, List.map_cons, List.nodup_cons, Option.some_inj.mp heq] at hnames
        exact hnames.1 (List.mem_map_of_mem (by simp))
    have htext : cx.thisText (some q.name) = q.name ++ "_this" := by
      rw [Context.thisText, if_neg (by simpa using hne)]
    have hframes : (∀ f ∈ cx.frames, f.depth ≠ outer.scope.length + 1) ↔
        ∀ f ∈ added, f.depth ≠ outer.scope.length + 1 := by
      rw [h.frames, List.forall_mem_append]
      refine and_iff_left ?_
      intro f hf
      have hle := houter f hf
      omega
    rw [htext, denotes, if_neg (qualified_ne_this _), hframes, hbinding]
    exact (or_iff_right hne).symm

end

/-- Behind the first step into `q`, what is opened leaves the instance of `q` within reach. -/
theorem Steps.binds {q : TypeDecl} {outer cx : Context} {c : Category} {n : Node c}
    {st₀ st : List Opened} (h : Steps (fun n => !n.isStaticContext) q outer st₀ n cx st)
    (hn : c.isDeclared = false) (hname : q.name ≠ "_")
    (hnames : (cx.scope.map TypeDecl.name).Nodup) :
    ∃ inner added, Between q outer inner added n cx ∧
      Binds q outer (thisInstance st₀ + 1) false inner added st := by
  cases h with
  | refl => cases hn
  | @next _ _ _ _ m _ _ cx' _ ops _ _ hstep htest hrest =>
    have hm : m.isStaticContext = false := by simpa using htest
    rw [← hn]
    -- The names of the declarations are distinct at the end, and so on the whole way.
    refine hrest.invariant (I := fun {c} n cx st => (cx.scope.map TypeDecl.name).Nodup →
      ∃ inner added, Between q outer inner added n cx ∧
        Binds q outer (thisInstance st₀ + 1) c.isDeclared inner added st) ?_ ?_ hnames
    · intro c c' n m cx cx' ops st hstep htest hbefore hnames
      have hnames' : (cx.scope.map TypeDecl.name).Nodup :=
        hnames.sublist (hstep.scope_suffix.sublist.map _)
      obtain ⟨inner, added, hbetween, hbinds⟩ := hbefore hnames'
      exact hstep.binds (by simpa using htest) hname hnames' hbetween hbinds
    · intro _
      cases hstep with
      | inside hdeclared => cases hdeclared
      | member hlies hc =>
        refine ⟨[], [], ?_, ?_⟩
        · exact {
            scope := hlies.scope
            frames := hlies.frames
            depths := List.forall_mem_nil _
            captured := List.forall_mem_nil _
            isDynamic := hm
            isDynamicValue := Bool.eq_false_iff.mpr fun hvalue => nomatch hlies.value hvalue }
        · rw [hc]
          exact .direct rfl (thisInstance_body st₀)

namespace CompilationUnit

/-- The names in the unit and on the class path have no brackets and no quotes. -/
structure IsReadable (u : CompilationUnit) (classPath : ClassIndex) : Prop where
  package : ∀ p ∈ u.package, Over codeSpelling.letters p.name
  types : ∀ decl ∈ u.types, decl.any (Node.misspells codeSpelling) = false
  classPath : ∀ d ∈ classPath.types, Over codeSpelling.letters d.binaryName

variable {u : CompilationUnit} {classPath : ClassIndex} {root : Site}

theorem readable_root (hu : u.IsReadable classPath) {barred : {c : Category} → Node c → Bool}
    (hbarred : ∀ decl ∈ u.types, decl.any @barred = false) (hroot : root ∈ u.roots classPath) :
    Readable @barred root.decl root.context := by
  have hspeaks := Context.speaks_ofUnit Doc.isQuiet_composes.letter hu.package hu.types hu.classPath
  obtain ⟨hdecl, -⟩ := mem_roots hroot
  refine ⟨hbarred _ hdecl, hu.types _ hdecl, ?_⟩
  obtain ⟨⟨decl, place⟩, -, rfl⟩ := List.mem_map.mp hroot
  exact hspeaks.child place

theorem blocks_eq_roots (u : CompilationUnit) (classPath : ClassIndex) :
    blocks { resolver := .ofUnit u classPath } 0 u.types =
      (u.roots classPath).map fun s => withModules s.root := by
  rw [blocks_eq, roots, List.map_map]
  rfl

theorem infix_script (hroot : root ∈ u.roots classPath) (wrap : Bool) {d : Doc}
    (hd : d <:+: withModules root.root) : d <:+: u.script wrap classPath := by
  have hstacked : withModules root.root <:+:
      stacked (blocks { resolver := .ofUnit u classPath } 0 u.types) := by
    apply infix_stacked
    rw [blocks_eq_roots]
    exact List.mem_map_of_mem hroot
  exact hd.trans (hstacked.trans
    ((List.suffix_append _ _).isInfix.trans (List.prefix_append _ _).isInfix))

theorem content_infix_root (s : Site) : s.content <:+: withModules s.root := by
  have hroot : s.content <:+: s.root := (List.suffix_append _ _).isInfix
  unfold withModules
  rw [List.append_assoc]
  exact hroot.trans (List.prefix_append _ _).isInfix

/-- Wherever a qualified `this` stands in no static context inside the declaration `q` that it names,
what is written denotes the instance of `q` if and only if `q` is the innermost declaration there or
no anonymous class is open directly in `q`. -/
theorem qualified_this_denotes_iff (hu : u.IsReadable classPath) (wrap : Bool)
    (hroot : root ∈ u.roots classPath) {q : TypeDecl} {outer cx : Context} {a b a' b' : Doc}
    (hq : Reaches (fun _ => true) root.decl root.context q outer a b)
    (hthis : Reaches (fun n => !n.isStaticContext) q outer (.thisExpr (some q.name)) cx a' b')
    (hnames : (cx.scope.map TypeDecl.name).Nodup) (hname : q.name ≠ "_") :
    root.content <:+: u.script wrap classPath ∧
    root.content = a ++ (a' ++ Doc.text (cx.thisText (some q.name)) ++ b') ++ b ∧
    ∃ st₀ st, read a ⟨[], .code⟩ = some ⟨st₀, .code⟩ ∧
      read (a ++ a') ⟨[], .code⟩ = some ⟨st, .code⟩ ∧
      (denotes (cx.thisText (some q.name)) st = denotes "this" (.body :: st₀) ↔
        cx.enclosingName? = some q.name ∨ ∀ f ∈ cx.frames, f.depth ≠ outer.scope.length + 1) := by
  obtain ⟨-, -, hframes⟩ := mem_roots hroot
  -- Nothing is barred.
  have hbarred : ∀ decl ∈ u.types, decl.any (fun _ => false) = false :=
    fun decl _ => Node.any_eq_false (fun _ => rfl) decl
  obtain ⟨hreadable, st₀, hsteps₀, hread₀, -⟩ := hq.steps (readable_root hu hbarred hroot) []
  obtain ⟨-, st, hsteps, hread, -⟩ := hthis.steps hreadable st₀
  have houter : ∀ f ∈ outer.frames, f.depth ≤ outer.scope.length :=
    hsteps₀.depth_le (by rw [hframes]; exact List.forall_mem_nil _)
  obtain ⟨inner, added, hbetween, hbinds⟩ := hsteps.binds rfl hname hnames
  refine ⟨infix_script hroot wrap (content_infix_root root), ?_, st₀, st, hread₀, ?_, ?_⟩
  · calc
      root.content = a ++ q.code outer ++ b := hq.code_eq
      _ = a ++ (a' ++ Doc.text (cx.thisText (some q.name)) ++ b') ++ b := by
        rw [hthis.code_eq]
        rfl
  · rw [read_append, hread₀]
    exact hread
  · have hinstance : denotes "this" (.body :: st₀) = some (thisInstance st₀ + 1) :=
      congrArg some (thisInstance_body st₀)
    rw [hinstance]
    exact hbinds.denotes_thisText hbetween houter hnames

end CompilationUnit

/-- A way along places in the stretches. -/
theorem Reaches.at_index {test : {c : Category} → Node c → Bool} {c c' c'' : Category} {n : Node c}
    {m : Node c'} {k : Node c''} {cx cx' cx'' : Context} {a b : Doc} (i : Nat)
    (hplace : (n.stretches cx)[i]? = some (.node m cx')) (htest : test m = true)
    (hrest : Reaches @test m cx' k cx'' a b) :
    Reaches @test n cx k cx'' (Stretch.docs ((n.stretches cx).take i) ++ a)
      (b ++ Stretch.docs ((n.stretches cx).drop (i + 1))) := by
  obtain ⟨hi, hget⟩ := List.getElem?_eq_some_iff.mp hplace
  refine .next ?_ htest hrest
  rw [← hget, List.getElem_cons_drop, List.take_append_drop]

open Samples in
/-- A class in an anonymous class and one beside it, which both read a field of the class around
them. -/
def capturedReaders : TypeDecl :=
  let reader (name : String) : Member := .nestedType (withMembers (.ofClass name)
    [Member.ofField [] intType "v" (some (.fieldAccess (.thisExpr (some "Outer")) "x"))])
  withMembers (.ofClass "Outer") [
    Member.ofField [] intType "x" none,
    Member.ofField [] (.ofDotted "Runnable") "r"
      (some (.anonymous (.simple "Runnable") [] [reader "Inner"])),
    reader "Direct"]

/-- Only what stands in the class beside the anonymous one denotes the instance of the outer class:
the same text denotes the instance of the anonymous class otherwise. -/
theorem capturedReaders_denote :
    ∃ root ∈ CompilationUnit.roots { types := [capturedReaders] } {},
      (∃ cx a b st, Reaches (fun n => !n.isStaticContext) root.decl root.context
          (.thisExpr (some "Outer")) cx a b ∧ cx.enclosingName? = some "Inner" ∧
        read a ⟨[], .code⟩ = some ⟨st, .code⟩ ∧
        denotes (cx.thisText (some "Outer")) st ≠ denotes "this" [.body]) ∧
      ∃ cx a b st, Reaches (fun n => !n.isStaticContext) root.decl root.context
          (.thisExpr (some "Outer")) cx a b ∧ cx.enclosingName? = some "Direct" ∧
        read a ⟨[], .code⟩ = some ⟨st, .code⟩ ∧
        denotes (cx.thisText (some "Outer")) st = denotes "this" [.body] := by
  have hreadable : CompilationUnit.IsReadable { types := [capturedReaders] } {} := {
    package := fun _ hp => nomatch hp
    types := by decide +kernel
    classPath := List.forall_mem_nil _ }
  have hinner := CompilationUnit.qualified_this_denotes_iff (q := capturedReaders) hreadable true
    List.mem_cons_self (.refl _ _) (.at_index 10 rfl rfl (.at_index 3 rfl rfl (.at_index 6 rfl rfl
      (.at_index 2 rfl rfl (.at_index 4 rfl rfl (.at_index 3 rfl rfl (.at_index 0 rfl rfl
        (.refl _ _)))))))) (by decide) (by decide)
  have hdirect := CompilationUnit.qualified_this_denotes_iff (q := capturedReaders) hreadable true
    List.mem_cons_self (.refl _ _) (.at_index 4 rfl rfl (.at_index 2 rfl rfl (.at_index 4 rfl rfl
      (.at_index 3 rfl rfl (.at_index 0 rfl rfl (.refl _ _)))))) (by decide) (by decide)
  obtain ⟨-, -, _, st, hst₀, hst, hiff⟩ := hinner
  obtain ⟨-, -, _, st', hst₀', hst', hiff'⟩ := hdirect
  cases hst₀
  cases hst₀'
  refine ⟨_, List.mem_cons_self, ⟨_, _, _, st, .at_index 10 rfl rfl (.at_index 3 rfl rfl
    (.at_index 6 rfl rfl (.at_index 2 rfl rfl (.at_index 4 rfl rfl (.at_index 3 rfl rfl
      (.at_index 0 rfl rfl (.refl _ _))))))), rfl, hst, ?_⟩,
    ⟨_, _, _, st', .at_index 4 rfl rfl (.at_index 2 rfl rfl (.at_index 4 rfl rfl
      (.at_index 3 rfl rfl (.at_index 0 rfl rfl (.refl _ _))))), rfl, hst', ?_⟩⟩
  · exact mt hiff.mp (by decide)
  · exact hiff'.mpr (by decide)

end TypeScribe
