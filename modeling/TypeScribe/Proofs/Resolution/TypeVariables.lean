import TypeScribe.Proofs.Layout.Texts
import TypeScribe.Proofs.Resolution.Lexical
import TypeScribe.Proofs.Script.Children

/-!
# Type variables

Resolution knows nothing of type variables: a name that a class or a method binds is looked up like any
other. Where no type of the name is declared inside, the declarations entered on the way to a use do
not matter, so the name means there what it means around the class or method. It is written as it is
if and only if it means nothing there, or a type that is written so.
-/
namespace TypeScribe
set_option autoImplicit false

/-- Whether the node declares a type of the name. -/
def Node.isDeclOf (name : String) : {c : Category} → Node c → Bool
  | .typeDecl, decl => TypeDecl.name decl == name
  | _, _ => false

def typeParameterName : Node .typeParameter → String
  | .typeParameter name _ _ => name

/-- The type variables that a class or a method binds. -/
def Node.typeVariables : {c : Category} → Node c → List String
  | _, .classDecl _ _ _ _ _ typeParameters _ _ _ _ => typeParameters.toList.map typeParameterName
  | _, .method _ _ _ _ typeParameters _ _ _ _ => typeParameters.toList.map typeParameterName
  | _, _ => []

/-- The parts of a class or a method in which its type variables may be used: all but the annotations,
which stand first. -/
def Node.underVariables {c : Category} (n : Node c) (cx : Context) : List Written :=
  (n.children cx).tail

/-- Whether the type is the name alone. -/
def ClassType.isNamed (name : String) : ClassType → Bool
  | .classType .absent own .absent .nil => own == name
  | .classType .absent own (.present .nil) .nil => own == name
  | _ => false

theorem Node.isDeclOf_eq_false_of_mem {name : String} {ms : Node (.many .member)}
    (h : Lacks (ms.any (Node.isDeclOf name))) :
    ((ms.toList.filterMap Member.type?).any fun t => TypeDecl.name t == name) = false := by
  refine List.any_eq_false.mpr fun t ht => ?_
  obtain ⟨m, hm, htype⟩ := List.mem_filterMap.mp ht
  have hlacks : Lacks (m.any (Node.isDeclOf name)) := Node.any_eq_false_of_mem h m hm
  match m, htype with
  | .nestedType decl, rfl =>
    have hself := Node.eq_false_of_lacks (p := Node.isDeclOf name) hlacks.right
    rw [Bool.not_eq_true]
    exact hself

namespace Resolver

/-- A declaration in which no type of the name is declared nests none. -/
theorem nests_eq_false {name : String} {decl : TypeDecl}
    (h : Lacks (decl.any (Node.isDeclOf name))) : nests decl name = false := by
  match decl with
  | .classDecl .. => exact Node.isDeclOf_eq_false_of_mem h.right
  | .enumDecl .. => exact Node.isDeclOf_eq_false_of_mem h.right
  | .annotationDecl .. => exact Node.isDeclOf_eq_false_of_mem h.right

/-- Declarations that nest no type of the name do not matter for it. -/
theorem lexicalScope?_append {name : String} {inner outer : Scope}
    (h : ∀ d ∈ inner, nests d name = false) :
    lexicalScope? name (inner ++ outer) = lexicalScope? name outer := by
  induction inner with
  | nil => rfl
  | cons d rest ih =>
    obtain ⟨hd, hrest⟩ := List.forall_mem_cons.mp h
    rw [List.cons_append, lexicalScope?, hd]
    exact ih hrest

theorem resolveSimple_append (r : Resolver) {name : String} {inner outer : Scope}
    (h : ∀ d ∈ inner, nests d name = false) :
    r.resolveSimple name (inner ++ outer) = r.resolveSimple name outer := by
  unfold resolveSimple
  rw [lexicalScope?_append h]

end Resolver

/-- The declarations around the node are those of `outer` and further ones, which nest no type of the
name; nor is one declared in the node. -/
structure Written.IsClearOf (name : String) (outer : Scope) (w : Written) : Prop where
  scope : ∃ inner, w.context.scope = inner ++ outer ∧
    ∀ d ∈ inner, Resolver.nests d name = false
  lacks : w.node.any (Node.isDeclOf name) = false

/-- What is entered on the way to a child nests no type of the name either. -/
theorem Written.IsClearOf.child {name : String} {outer : Scope} {w v : Written}
    (h : w.IsClearOf name outer) (hchild : v ∈ w.node.children w.context) :
    v.IsClearOf name outer := by
  obtain ⟨inner, hscope, hinner⟩ := h.scope
  refine ⟨?_, Node.lacks_of_mem_children w.context h.lacks v hchild⟩
  rcases (w.node.context_of_mem_children w.context v hchild).2 with heq | heq
  · exact ⟨inner, heq.trans hscope, hinner⟩
  · obtain @⟨category, node, context⟩ := w
    cases category with
    | typeDecl =>
      have hnode := Resolver.nests_eq_false h.lacks
      exact ⟨node :: inner, heq.trans (congrArg (node :: ·) hscope),
        List.forall_mem_cons.mpr ⟨hnode, hinner⟩⟩
    | _ => exact ⟨inner, heq.trans hscope, hinner⟩

/-- The parts in which a type variable may be used are clear of its name, if no type of the name is
declared in them. -/
theorem Node.underVariables_isClearOf {c : Category} {binder : Node c} {cx : Context} {name : String}
    (hname : name ∈ binder.typeVariables)
    (hfree : ∀ w ∈ binder.underVariables cx, w.node.any (Node.isDeclOf name) = false) :
    ∀ w ∈ binder.underVariables cx, w.IsClearOf name cx.scope := by
  have hclear {w : Written} (inner : Scope) (hw : w ∈ binder.underVariables cx)
      (hscope : w.context.scope = inner ++ cx.scope)
      (hinner : ∀ d ∈ inner, Resolver.nests d name = false) : w.IsClearOf name cx.scope :=
    ⟨⟨inner, hscope, hinner⟩, hfree w hw⟩
  cases binder with
  | classDecl own isInterface modifiers comment annotations typeParameters extended implemented
      members trailing =>
    have hmembers := hfree ⟨members, _⟩ (List.mem_cons_of_mem _ (List.mem_cons_of_mem _
      (List.mem_cons_of_mem _ List.mem_cons_self)))
    have hnests : ∀ d ∈ [Node.classDecl own isInterface modifiers comment annotations typeParameters
        extended implemented members trailing], Resolver.nests d name = false :=
      List.forall_mem_singleton.mpr (Node.isDeclOf_eq_false_of_mem hmembers)
    intro w hw
    refine hclear _ hw ?_ hnests
    change w ∈ [_, _, _, _] at hw
    simp only [List.mem_cons, List.not_mem_nil, or_false] at hw
    rcases hw with rfl | rfl | rfl | rfl <;> rfl
  | method own modifiers comment annotations typeParameters returnType parameters thrown body =>
    intro w hw
    refine hclear [] hw ?_ (List.forall_mem_nil _)
    change w ∈ [_, _, _, _] at hw
    simp only [List.mem_cons, List.not_mem_nil, or_false] at hw
    rcases hw with rfl | rfl | rfl | rfl <;> rfl
  | _ => cases hname

theorem ClassType.textAt_of_isNamed {name : String} {type : ClassType}
    (h : type.isNamed name = true) (cx : Context) (config : Config) :
    Doc.textAt config 0 (type.script cx) = .ok ((builtinType? name).getD (cx.typeName name)) := by
  have htext (s : String) : Doc.textAt config 0 (Doc.text s) = .ok s := by
    rw [(Doc.isPlain_text s).textAt_zero, Doc.chars_text, String.ofList_toList]
  have hscript : type.script cx = Script.classType cx [] none name none [] := by
    match type, h with
    | .classType .absent own .absent .nil, h => rw [← beq_iff_eq.mp h]; rfl
    | .classType .absent own (.present .nil) .nil, h => rw [← beq_iff_eq.mp h]; rfl
  have hbuiltin : builtinUnder? [] name = builtinType? name := rfl
  rw [hscript, Script.classType, hbuiltin]
  cases builtinType? name with
  | none => exact htext (cx.typeName name)
  | some builtin => exact htext builtin

theorem builtinType?_ne {name builtin : String} (h : builtinType? name = some builtin) :
    builtin ≠ name := by
  unfold builtinType? at h
  split at h <;> cases h <;> decide

theorem Context.typeName_eq_iff (cx : Context) (name : String) :
    cx.typeName name = name ↔
      ∀ d, cx.resolver.resolveSimple name cx.scope = .ok d → d.qualifiedName = name := by
  unfold typeName
  cases cx.resolver.resolveSimple name cx.scope with
  | ok d => simp
  | error e => simp

/-- The type is a use of a type variable that a class or a method of the unit binds, and no type of the
name is declared inside that class or method. The declarations of `outer` stand around the binder, and
the use is written in the context. -/
inductive CompilationUnit.IsVariableUse (u : CompilationUnit) (classPath : ClassIndex)
    (name : String) : (outer : Scope) → ClassType → Context → Prop where
  | intro {place : Nat} {root : TypeDecl} (hroot : u.types[place]? = some root) {c : Category}
      {binder : Node c} {cx : Context}
      (hbinder : Within ⟨root, ({ resolver := .ofUnit u classPath } : Context).child place⟩
        ⟨binder, cx⟩)
      (hname : name ∈ binder.typeVariables)
      (hfree : ∀ w ∈ binder.underVariables cx, w.node.any (Node.isDeclOf name) = false)
      {part : Written} (hpart : part ∈ binder.underVariables cx) {type : ClassType} {cx' : Context}
      (htype : Within part ⟨type, cx'⟩) (hnamed : type.isNamed name = true) :
      IsVariableUse u classPath name cx.scope type cx'

/-- A use of a type variable is written as the name itself if and only if the name has no built-in
counterpart and denotes, around the class or method that binds it, nothing or a type that is written
so. -/
theorem CompilationUnit.typeVariable_written_iff {u : CompilationUnit} {classPath : ClassIndex}
    {name : String} {outer : Scope} {type : ClassType} {cx : Context}
    (h : u.IsVariableUse classPath name outer type cx) (config : Config) :
    ∃ s, Doc.textAt config 0 (type.script cx) = .ok s ∧
      (s = name ↔ builtinType? name = none ∧
        ∀ d, (Resolver.ofUnit u classPath).resolveSimple name outer = .ok d →
          d.qualifiedName = name) := by
  obtain @⟨_, _, hroot, _, binder, around, hbinder, hname, hfree, part, hpart, _, _, htype, hnamed⟩ := h
  have hclear : Written.IsClearOf name around.scope ⟨type, cx⟩ :=
    htype.invariant (fun hchild hw => hw.child hchild)
      (Node.underVariables_isClearOf hname hfree part hpart)
  obtain ⟨inner, hscope, hinner⟩ := hclear.scope
  have hresolver : cx.resolver = .ofUnit u classPath := by
    have hchild := binder.context_of_mem_children around part (List.mem_of_mem_tail hpart)
    exact (htype.resolver_eq.trans hchild.1).trans hbinder.resolver_eq
  have hresolve : cx.resolver.resolveSimple name cx.scope =
      (Resolver.ofUnit u classPath).resolveSimple name around.scope := by
    rw [hresolver, hscope, Resolver.resolveSimple_append _ hinner]
  refine ⟨_, ClassType.textAt_of_isNamed hnamed cx config, ?_⟩
  rw [← hresolve, ← cx.typeName_eq_iff]
  cases hbuiltin : builtinType? name with
  | none => simp
  | some builtin => simp [builtinType?_ne hbuiltin]

/-- The type of the field in `class Box<T> { T value; }`. -/
def boxedType : ClassType := .classType .absent "T" .absent .nil

def boxMembers : Node (.many .member) :=
  .ofList [.field .empty none .nil (.classUse boxedType) (.ofList [.declarator "value" .nil .absent])]

def boxClass : TypeDecl :=
  .classDecl "Box" false .empty none .nil (.ofList [.typeParameter "T" .nil .nil]) .nil .nil boxMembers
    []

/-- The class in a package, with further types beside it. -/
def boxUnit (types : List TypeDecl) : CompilationUnit :=
  { package := some { name := "p" }, types := boxClass :: types }

theorem boxUnit_isVariableUse (types : List TypeDecl) :
    ∃ cx, (boxUnit types).IsVariableUse {} "T" [] boxedType cx ∧
      cx.resolver = .ofUnit (boxUnit types) {} ∧ cx.scope = [boxClass] := by
  let around : Context := ({ resolver := .ofUnit (boxUnit types) {} } : Context).child 0
  let inside : Context := ((around.enter boxClass).membersOf false).child 4
  have hfree : ∀ w ∈ boxClass.underVariables around, w.node.any (Node.isDeclOf "T") = false := by
    intro w hw
    change w ∈ [_, _, _, _] at hw
    simp only [List.mem_cons, List.not_mem_nil, or_false] at hw
    rcases hw with rfl | rfl | rfl | rfl <;> rfl
  have hpart : ⟨boxMembers, inside⟩ ∈ boxClass.underVariables around :=
    .tail _ (.tail _ (.tail _ (.head _)))
  have htype : Within ⟨boxMembers, inside⟩ ⟨boxedType, ((inside.child 0).child 1).child 0⟩ :=
    .step (.head _) (.step (.tail _ (.head _)) (.step (.head _) (.refl _)))
  have hroot : (boxUnit types).types[0]? = some boxClass := rfl
  have hbinder : Within ⟨boxClass, around⟩ ⟨boxClass, around⟩ := .refl _
  exact ⟨_, .intro hroot hbinder (.head _) hfree hpart htype rfl, rfl, rfl⟩

/-- Where nothing else has the name, the type variable is written as it is. -/
theorem boxUnit_variable_written :
    ∃ cx, (boxUnit []).IsVariableUse {} "T" [] boxedType cx ∧
      ∀ config, Doc.textAt config 0 (boxedType.script cx) = .ok "T" := by
  obtain ⟨cx, huse, -, -⟩ := boxUnit_isVariableUse []
  refine ⟨cx, huse, fun config => ?_⟩
  obtain ⟨s, hs, hiff⟩ := CompilationUnit.typeVariable_written_iff huse config
  have hmissing : (Resolver.ofUnit (boxUnit []) {}).resolveSimple "T" [] = .error (.notFound "T") := by
    decide +kernel
  rw [hs, hiff.mpr ⟨rfl, fun d hd => nomatch hmissing.symm.trans hd⟩]

/-- In a package that has a class `T`, the type variable `T` of a class is written as that class. -/
theorem typeVariable_captured_in_package :
    ∃ cx, (boxUnit [.ofClass "T"]).IsVariableUse {} "T" [] boxedType cx ∧
      ∀ config, Doc.textAt config 0 (boxedType.script cx) = .ok "p.T" := by
  obtain ⟨cx, huse, hresolver, hscope⟩ := boxUnit_isVariableUse [.ofClass "T"]
  refine ⟨cx, huse, fun config => ?_⟩
  have hnamed : boxedType.isNamed "T" = true := rfl
  have hname : cx.typeName "T" = "p.T" := by
    rw [Context.typeName, hresolver, hscope]
    decide +kernel
  rw [ClassType.textAt_of_isNamed hnamed cx config, hname]
  rfl

end TypeScribe
