import TypeScribe.Proofs.Layout.Blocks
import TypeScribe.Proofs.Resolution.Soundness

/-!
# Written type names

A type under scopes is written as the name of its outermost scope, which alone is resolved, with the
other segments behind it. Resolving the whole type goes another way: it looks up the binary name of
the nested type. Both arrive at the same dotted name. So an anonymous class names as its base the
type whose kind decides between `implements` and `extends`.
-/
namespace TypeScribe
set_option autoImplicit false

namespace Doc.WritesAs

variable {d e f : Doc}

theorem trans (hd : d.WritesAs e) (he : e.WritesAs f) : d.WritesAs f := fun config w =>
  (hd config w).trans (he config w)

theorem text_append {s : String} (h : d.WritesAs (Doc.text s)) (t : String) :
    WritesAs (d ++ Doc.text t) (Doc.text (s ++ t)) := by
  refine (h.append (refl _)).trans fun config w => ?_
  exact congrArg Except.ok (w.write_write s t)

end Doc.WritesAs

/-- A class type and its scopes, from the type itself on. -/
def Node.spine : {c : Category} → Node c → List ClassType
  | _, .classType scope name typeArguments annotations =>
    .classType scope name typeArguments annotations :: scope.spine
  | _, .present n => n.spine
  | _, _ => []

/-- Whether the last name of the type has neither annotations nor type arguments. -/
def ClassType.isUnadorned : ClassType → Bool
  | .classType _ _ .absent .nil => true
  | .classType _ _ (.present .nil) .nil => true
  | _ => false

theorem Script.classType_unadorned (cx : Context) {scopeSegments : List String} {name : String}
    (hbuiltin : builtinUnder? scopeSegments name = none) (scope : Option Doc)
    {arguments : Option (List TypeShape)} (h : arguments.getD [] = []) :
    Script.classType cx scopeSegments scope name arguments [] =
      (scope.map fun d => d ++ Doc.text "." ++ Doc.text name).getD (Doc.text (cx.typeName name)) := by
  cases scope <;> simp [Script.classType, hbuiltin, h, inlineAnnotations, angled]

theorem ClassType.script_of_isUnadorned {scope : Node (.optional .classType)} {name : String}
    {typeArguments : Node (.optional (.many .typeUse))} {annotations : Node (.many .annotationUse)}
    (h : isUnadorned (.classType scope name typeArguments annotations) = true)
    (hbuiltin : builtin? (.classType scope name typeArguments annotations) = none) (cx : Context) :
    Node.script (.classType scope name typeArguments annotations) cx =
      ((scope.script (cx.child 0)).map fun d => d ++ Doc.text "." ++ Doc.text name).getD
        (Doc.text (cx.typeName name)) := by
  match typeArguments, annotations with
  | .absent, .nil => exact Script.classType_unadorned cx hbuiltin _ rfl
  | .present .nil, .nil => exact Script.classType_unadorned cx hbuiltin _ rfl

theorem ClassType.script_of_spine (type : ClassType)
    (h : ∀ t ∈ type.spine, t.isUnadorned = true ∧ t.builtin? = none) (cx : Context) :
    ∃ first rest, type.segments = first :: rest ∧
      (type.script cx).WritesAs (Doc.text (Text.joinWith "." (cx.typeName first :: rest))) := by
  match type with
  | .classType scope name typeArguments annotations =>
    obtain ⟨⟨hunadorned, hbuiltin⟩, hscopes⟩ := List.forall_mem_cons.mp h
    rw [script_of_isUnadorned hunadorned hbuiltin cx]
    match scope with
    | .absent => exact ⟨name, [], rfl, .refl _⟩
    | .present outer =>
      obtain ⟨first, rest, hsegments, hwritten⟩ :=
        script_of_spine outer hscopes (cx.child 0).content
      refine ⟨first, rest ++ [name], congrArg (· ++ [name]) hsegments, ?_⟩
      rw [← List.cons_append, Text.joinWith_concat]
      -- the scope is written one route further on, and its root is resolved in the same declarations
      exact (hwritten.text_append ".").text_append name
termination_by sizeOf type

/-- An anonymous class whose base is the described type. -/
def Script.anonymousOn (cx : Context) (d : TypeDescriptor) (arguments : List Doc)
    (body : List MemberShape) (isStatic : Bool) : Doc :=
  (if isStatic then [] else Doc.text ("((" ++ cx.captureName ++ ") => "))
    ++ Doc.line ((if d.isInterface then "new class implements " else "new class extends ")
      ++ d.qualifiedName ++ " \x7b")
    ++ Doc.indented (members body) ++ Doc.text "\x7d" ++ parenthesized arguments
    ++ (if isStatic then [] else Doc.text ")(this)")

theorem Script.anonymousClass_writesAs {cx : Context} {type : ClassType} {d : TypeDescriptor}
    (hok : cx.resolver.resolve type cx.scope = .ok d) {typeDoc : Doc}
    (htype : typeDoc.WritesAs (Doc.text d.qualifiedName)) (arguments : List Doc)
    (body : List MemberShape) (isStatic : Bool) :
    (Script.anonymousClass cx type typeDoc arguments body isStatic).WritesAs
      (Script.anonymousOn cx d arguments body isStatic) := by
  have hkind : cx.isInterface type = d.isInterface := by rw [Context.isInterface, hok]
  have hhead (keyword : String) : (Doc.text keyword ++ typeDoc ++ Doc.line " \x7b").WritesAs
      (Doc.line (keyword ++ d.qualifiedName ++ " \x7b")) := by
    have hbase := (Doc.WritesAs.refl (Doc.text keyword)).append htype
    have hnamed := hbase.trans ((Doc.WritesAs.refl _).text_append d.qualifiedName)
    have hopened := (hnamed.text_append " \x7b").append (.refl Doc.newline)
    rwa [List.append_assoc] at hopened
  have hopening (opening : Doc) (keyword : String) :
      (opening ++ Doc.text keyword ++ typeDoc ++ Doc.line " \x7b").WritesAs
        (opening ++ Doc.line (keyword ++ d.qualifiedName ++ " \x7b")) := by
    have happended := (Doc.WritesAs.refl opening).append (hhead keyword)
    rwa [← List.append_assoc, ← List.append_assoc] at happended
  rw [anonymousClass, hkind]
  cases isStatic <;>
    exact ((((hopening _ _).append (.refl _)).append (.refl _)).append (.refl _)).append (.refl _)

/-- A type without annotations, type arguments and built-in types along its scopes is written as the
dotted name of what it resolves to. An anonymous class on it has this name behind the keyword for the
kind of the same type. -/
theorem ClassType.script_agrees_with_resolve (cx : Context) {u : CompilationUnit} {h : IndexHistory}
    (hcx : cx.resolver = .ofUnit u h.index) (type : ClassType)
    (hspine : ∀ t ∈ type.spine, t.isUnadorned = true ∧ t.builtin? = none)
    (hsegments : ∀ s ∈ type.segments, nestingSign ∉ s.toList) {d : TypeDescriptor}
    (hok : cx.resolver.resolve type cx.scope = .ok d) :
    (type.script cx).WritesAs (Doc.text d.qualifiedName) ∧
      ∀ (outer : Node (.optional .expr)) (typeArguments : Node (.many .typeUse))
        (arguments : Node (.many .expr)) (members : Node (.many .member)),
        (Node.script (.objectCreation outer type typeArguments arguments (.present members))
          cx).WritesAs
          ((if outer.toOption.isSome then Doc.unsupported (.qualifiedAnonymousClass type.name)
              else []) ++
            Script.anonymousOn cx d (arguments.script (cx.child 2))
              (members.script ((cx.enterAnonymous (cx.createsStatic outer)).child 3).content)
              (cx.createsStatic outer)) := by
  have hwritten (cx' : Context) (hresolver : cx'.resolver = cx.resolver)
      (hscope : cx'.scope = cx.scope) : (type.script cx').WritesAs (Doc.text d.qualifiedName) := by
    obtain ⟨first, rest, hsplit, hwrites⟩ := type.script_of_spine hspine cx'
    rw [Resolver.resolve, hsplit, hcx] at hok
    rw [hsplit] at hsegments
    obtain ⟨root, hroot, hname⟩ :=
      Resolver.qualifiedName_of_resolveSegments (List.forall_mem_cons.mp hsegments).2 hok
    have hfirst : cx'.typeName first = root.qualifiedName := by
      rw [Context.typeName, hresolver, hscope, hcx, hroot]
    rwa [hfirst, ← hname] at hwrites
  refine ⟨hwritten cx rfl rfl, ?_⟩
  intro outer typeArguments arguments members
  have hclass := Script.anonymousClass_writesAs hok (hwritten (cx.child 1) rfl rfl)
    (arguments.script (cx.child 2))
    (members.script ((cx.enterAnonymous (cx.createsStatic outer)).child 3).content)
    (cx.createsStatic outer)
  cases outer with
  | absent => exact (Doc.WritesAs.refl _).append hclass
  | present => exact (Doc.WritesAs.refl _).append hclass

/-- From inside `Test5`, the type `C.D` is an interface two declarations deep. -/
theorem nestedInterfaces_written : ∃ (cx : Context) (d : TypeDescriptor),
    cx.resolver = .ofUnit Samples.nestedInterfaces IndexHistory.start.index ∧
      cx.resolver.resolve (.parse "C.D") cx.scope = .ok d ∧ d.isInterface = true ∧
      (Node.script (ClassType.parse "C.D") cx).WritesAs (Doc.text "test.Test5.C.D") ∧
      (Node.script (Expr.anonymous (.parse "C.D") [] []) cx).WritesAs
        (Script.anonymousOn cx d [] [] false) := by
  let cx : Context :=
    { resolver := .ofUnit Samples.nestedInterfaces IndexHistory.start.index
      scope := Samples.nestedInterfaces.types }
  let d : TypeDescriptor :=
    { binaryName := "test.Test5$C$D", simpleName := "D", isInterface := true, memberNames := ["d"] }
  have hspine : ∀ t ∈ (ClassType.parse "C.D").spine, t.isUnadorned = true ∧ t.builtin? = none := by
    decide
  have hsegments : ∀ s ∈ (ClassType.parse "C.D").segments, nestingSign ∉ s.toList := by decide
  have hok : cx.resolver.resolve (.parse "C.D") cx.scope = .ok d := rfl
  have hdotted : d.qualifiedName = "test.Test5.C.D" := by decide +kernel
  obtain ⟨hname, hclass⟩ :=
    ClassType.script_agrees_with_resolve cx rfl (.parse "C.D") hspine hsegments hok
  rw [hdotted] at hname
  exact ⟨cx, d, rfl, hok, rfl, hname, hclass .absent .nil .nil .nil⟩

end TypeScribe
