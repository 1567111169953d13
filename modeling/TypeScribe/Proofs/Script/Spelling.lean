import TypeScribe.Proofs.Script.Compose
import TypeScribe.Proofs.Tree.Any

/-!
# Texts of a tree and of a context

The texts of a tree's own are its names and numbers, what stands between quotes, and comments. A node
can be written under a spelling if all of them are of its kind, and if so are the names that its
context brings in: those of the declarations around it, of the closures that are open and of the
types that can be resolved.
-/
namespace TypeScribe
set_option autoImplicit false
open Text

/-- The names and numbers that a node holds itself. -/
def Node.ownNames : {c : Category} → Node c → List String
  | _, .annotationMarker name => [name]
  | _, .annotationSingle name _ => [name]
  | _, .annotationNormal name _ => [name]
  | _, .element name _ => [name]
  | _, .classDecl name _ _ _ _ _ _ _ _ _ => [name]
  | _, .enumDecl name _ _ _ _ _ _ => [name]
  | _, .annotationDecl name _ _ _ _ => [name]
  | _, .enumConstant name _ _ _ _ => [name]
  | _, .method name _ _ _ _ _ _ _ _ => [name]
  | _, .constructor name _ _ _ _ _ _ _ => [name]
  | _, .annotationMember name _ _ _ _ _ => [name]
  | _, .declarator name _ _ => [name]
  | _, .parameter name _ _ _ _ _ => [name]
  | _, .typeParameter name _ _ => [name]
  | _, .classType _ name _ _ => [name]
  | _, .labeled label _ => [label]
  | _, .breakStmt label => label.toList
  | _, .continueStmt label => label.toList
  | _, .nameExpr name => [name]
  | _, .fieldAccess _ name => [name]
  | _, .integerLiteral value => [value]
  | _, .longLiteral value => [value]
  | _, .doubleLiteral value => [value]
  | _, .thisExpr qualifier => qualifier.toList
  | _, .superExpr qualifier => qualifier.toList
  | _, .methodCall _ _ name _ => [name]
  | _, .methodReference _ _ identifier => [identifier]
  | _, _ => []

/-- What the node writes between quotes, behind the quote. -/
def Node.ownValues : {c : Category} → Node c → List (String × String)
  | _, .charLiteral value => [("'", value)]
  | _, .stringLiteral value => [("\"", value)]
  | _, _ => []

def Node.ownComments : {c : Category} → Node c → List Comment
  | _, .classDecl _ _ _ comment _ _ _ _ _ trailing => comment.toList ++ trailing
  | _, .enumDecl _ _ comment _ _ _ _ => comment.toList
  | _, .annotationDecl _ _ comment _ _ => comment.toList
  | _, .enumConstant _ comment _ _ _ => comment.toList
  | _, .field _ comment _ _ _ => comment.toList
  | _, .method _ _ comment _ _ _ _ _ _ => comment.toList
  | _, .constructor _ _ comment _ _ _ _ _ => comment.toList
  | _, .initializer _ comment _ => comment.toList
  | _, .annotationMember _ _ comment _ _ _ => comment.toList
  | _, .block _ trailing => trailing
  | _, .commentStmt comment => [comment]
  | _, _ => []

/-- The node itself, if it uses an annotation. -/
def Node.ownUse : {c : Category} → Node c → Option AnnotationUse
  | _, .annotationMarker name => some (.annotationMarker name)
  | _, .annotationSingle name value => some (.annotationSingle name value)
  | _, .annotationNormal name elements => some (.annotationNormal name elements)
  | _, _ => none

/-- The texts that a node holds itself. -/
def Node.ownTexts {c : Category} (n : Node c) : List String :=
  n.ownNames ++ (n.ownValues.map Prod.snd ++ n.ownComments.map Comment.content)

/-- Whether a text of the node's own is not over the alphabet. -/
def Node.strays (letters : Char → Bool) {c : Category} (n : Node c) : Bool :=
  n.ownTexts.any fun s => !decide (Over letters s)

/-- Whether a text anywhere in the node is not over the alphabet. -/
def Node.straysWithin (letters : Char → Bool) {c : Category} (n : Node c) : Bool :=
  n.any (Node.strays letters)

/-- Whether a text of the node's own is not of its kind, or the node is an annotation that may not be
used. -/
def Node.misspells (sp : Spelling) {c : Category} (n : Node c) : Bool :=
  (n.ownNames.any fun s => !decide (Over sp.letters s))
    || (n.ownValues.any fun v => !sp.quotable v.1 v.2)
    || (n.ownComments.any fun comment => !sp.remark comment.content)
    || n.ownUse.any fun use => !sp.usable use

section

variable {letters : Char → Bool} {c : Category} {n : Node c}

/-- Under a spelling with one alphabet, the kinds of texts make no difference. -/
theorem Node.misspells_over (letters : Char → Bool) {c : Category} (n : Node c) :
    n.misspells (.over letters) = n.strays letters := by
  have hused : (n.ownUse.any fun use => !(Spelling.over letters).usable use) = false := by
    cases n.ownUse <;> rfl
  rw [misspells, hused, Bool.or_false, strays, ownTexts, List.any_append, List.any_append,
    List.any_map, List.any_map, ← Bool.or_assoc]
  rfl

theorem Node.misspells_over_eq (letters : Char → Bool) :
    @Node.misspells (.over letters) = @Node.strays letters := by
  funext c n
  exact n.misspells_over letters

end

section

variable {sp : Spelling} {c : Category} {n : Node c} (h : n.any (Node.misspells sp) = false)

include h

theorem Node.not_misspells : n.misspells sp = false :=
  eq_false_of_lacks (p := Node.misspells sp) h

theorem Node.over_ownNames : ∀ s ∈ n.ownNames, Over sp.letters s := by
  have hown := Bool.or_eq_false_iff.mp (Bool.or_eq_false_iff.mp (Node.not_misspells h)).1
  intro s hs
  simpa using List.any_eq_false.mp (Bool.or_eq_false_iff.mp hown.1).1 s hs

theorem Node.quotable_ownValues : ∀ v ∈ n.ownValues, sp.quotable v.1 v.2 = true := by
  have hown := Bool.or_eq_false_iff.mp (Bool.or_eq_false_iff.mp (Node.not_misspells h)).1
  intro v hv
  simpa using List.any_eq_false.mp (Bool.or_eq_false_iff.mp hown.1).2 v hv

theorem Node.remark_ownComments : ∀ comment ∈ n.ownComments, sp.remark comment.content = true := by
  have hown := Bool.or_eq_false_iff.mp (Bool.or_eq_false_iff.mp (Node.not_misspells h)).1
  intro comment hcomment
  simpa using List.any_eq_false.mp hown.2 comment hcomment

theorem Node.usable_ownUse : ∀ use ∈ n.ownUse, sp.usable use = true := by
  have hown := Bool.or_eq_false_iff.mp (Node.not_misspells h)
  intro use huse
  rw [Option.mem_def] at huse
  simpa [huse] using hown.2

end

/-- What the context brings into a script is over the alphabet. -/
structure Context.Speaks (letters : Char → Bool) (cx : Context) : Prop where
  resolved : ∀ {name : String} {scope : Scope} {d : TypeDescriptor},
    cx.resolver.resolveSimple name scope = .ok d → Over letters d.qualifiedName
  scope : ∀ d ∈ cx.scope, Over letters d.name
  frames : ∀ f ∈ cx.frames, ∀ s ∈ f.outerThis, Over letters s

theorem Context.over_captureName (cx : Context) : Over isNameChar cx.captureName := by
  unfold Context.captureName
  split
  · decide
  · refine over_append.mpr ⟨by decide, over_iff.mpr ?_⟩
    intro c hc
    change c ∈ (Nat.repr _).toList at hc
    rw [Nat.toList_repr] at hc
    have hdigit := Nat.isDigit_of_mem_toDigits (by decide) (by decide) hc
    simp [isNameChar, Char.isAlphanum, hdigit]

namespace Context.Speaks

variable {letters : Char → Bool} {cx : Context}

theorem enter (h : cx.Speaks letters) {decl : TypeDecl} (hdecl : Over letters decl.name) :
    (cx.enter decl).Speaks letters where
  resolved := h.resolved
  scope := List.forall_mem_cons.mpr ⟨hdecl, h.scope⟩
  frames := h.frames

theorem enterAnonymous (h : cx.Speaks letters)
    (hletters : ∀ c, isNameChar c = true → letters c = true) (isStatic : Bool) :
    (cx.enterAnonymous isStatic).Speaks letters where
  resolved := h.resolved
  scope := h.scope
  frames := by
    refine List.forall_mem_cons.mpr ⟨?_, h.frames⟩
    intro s hs
    cases isStatic with
    | true => cases hs
    | false =>
      cases hs
      exact over_of_all hletters cx.over_captureName

theorem typeName (h : cx.Speaks letters) {name : String} (hname : Over letters name) :
    Over letters (cx.typeName name) := by
  unfold Context.typeName
  split
  · next hresolved => exact h.resolved hresolved
  · exact hname

theorem thisText (h : cx.Speaks letters) (hletters : ∀ c, isNameChar c = true → letters c = true)
    {qualifier : Option String} (hq : ∀ s ∈ qualifier, Over letters s) :
    Over letters (cx.thisText qualifier) := by
  have hthis : Over letters "this" := over_of_all hletters (by decide)
  cases qualifier with
  | none => exact hthis
  | some name =>
    rw [Context.thisText]
    split
    · unfold Context.innermostThis
      cases hfind : (cx.frames.reverse.find? fun f => f.depth == cx.scope.length).bind
          Frame.outerThis with
      | none => exact hthis
      | some s =>
        obtain ⟨f, hf, hs⟩ := Option.bind_eq_some_iff.mp hfind
        exact h.frames f (List.mem_reverse.mp (List.mem_of_find?_eq_some hf)) s hs
    · exact over_append.mpr ⟨hq name rfl, over_of_all hletters (by decide)⟩

end Context.Speaks

/-- A property of contexts that passes to the contexts of children. -/
structure Context.Inherited (I : Context → Prop) : Prop where
  child : ∀ {cx : Context} (place : Nat), I cx → I (cx.child place)
  content : ∀ {cx : Context}, I cx → I cx.content
  initialValue : ∀ {cx : Context}, I cx → I cx.initialValue
  enter : ∀ {cx : Context} (decl : TypeDecl), I cx → I (cx.enter decl)
  membersOf : ∀ {cx : Context} (isInterface : Bool), I cx → I (cx.membersOf isInterface)
  declarators : ∀ {cx : Context} (isStatic : Bool), I cx → I (cx.declarators isStatic)
  enterAnonymous : ∀ {cx : Context} (isStatic : Bool), I cx → I (cx.enterAnonymous isStatic)
  detached : ∀ {cx : Context}, I cx → I cx.detached

theorem Context.inherited_true : Context.Inherited fun _ => True :=
  ⟨fun _ h => h, id, id, fun _ h => h, fun _ h => h, fun _ h => h, fun _ h => h, id⟩

theorem Context.inherited_false : Context.Inherited fun _ => False :=
  ⟨fun _ h => h, id, id, fun _ h => h, fun _ h => h, fun _ h => h, fun _ h => h, id⟩

/-- A node may be written in the context: the context has the property if the node declares a type,
and all texts are of their kinds. -/
structure Context.Admits (sp : Spelling) (I : Context → Prop) (declares misspells : Bool)
    (cx : Context) : Prop where
  inherits : declares = true → I cx
  spelled : misspells = false
  speaks : cx.Speaks sp.letters

namespace Context.Admits

variable {sp : Spelling} {I : Context → Prop} {a b s t : Bool} {cx : Context}

theorem left (h : Admits sp I (a || b) (s || t) cx) : Admits sp I a s cx where
  inherits ha := h.inherits (by rw [ha, Bool.true_or])
  spelled := (Bool.or_eq_false_iff.mp h.spelled).1
  speaks := h.speaks

theorem right (h : Admits sp I (a || b) (s || t) cx) : Admits sp I b t cx where
  inherits hb := h.inherits (by rw [hb, Bool.or_true])
  spelled := (Bool.or_eq_false_iff.mp h.spelled).2
  speaks := h.speaks

section

variable {c : Category} {n : Node c} (h : Admits sp I a (n.any (Node.misspells sp)) cx)

include h

theorem names : ∀ s ∈ n.ownNames, Over sp.letters s := Node.over_ownNames h.spelled

theorem values : ∀ v ∈ n.ownValues, sp.quotable v.1 v.2 = true :=
  Node.quotable_ownValues h.spelled

theorem comments : ∀ comment ∈ n.ownComments, sp.remark comment.content = true :=
  Node.remark_ownComments h.spelled

end

section

variable (hI : Context.Inherited I) (h : Admits sp I a s cx)

include hI h

theorem child (place : Nat) : Admits sp I a s (cx.child place) :=
  ⟨fun ha => hI.child place (h.inherits ha), h.spelled, h.speaks.resolved, h.speaks.scope,
    h.speaks.frames⟩

theorem after {c : Category} (head : Node c) : Admits sp I a s (cx.after head) := by
  unfold Context.after
  split
  · exact h
  · exact h.child hI 1

theorem content : Admits sp I a s cx.content :=
  ⟨fun ha => hI.content (h.inherits ha), h.spelled, h.speaks.resolved, h.speaks.scope,
    h.speaks.frames⟩

theorem initialValue : Admits sp I a s cx.initialValue :=
  ⟨fun ha => hI.initialValue (h.inherits ha), h.spelled, h.speaks.resolved, h.speaks.scope,
    h.speaks.frames⟩

theorem membersOf (isInterface : Bool) : Admits sp I a s (cx.membersOf isInterface) :=
  ⟨fun ha => hI.membersOf isInterface (h.inherits ha), h.spelled, h.speaks.resolved,
    h.speaks.scope, h.speaks.frames⟩

theorem declarators (isStatic : Bool) : Admits sp I a s (cx.declarators isStatic) :=
  ⟨fun ha => hI.declarators isStatic (h.inherits ha), h.spelled, h.speaks.resolved,
    h.speaks.scope, h.speaks.frames⟩

theorem enter {decl : TypeDecl} (hdecl : Over sp.letters decl.name) :
    Admits sp I a s (cx.enter decl) :=
  ⟨fun ha => hI.enter decl (h.inherits ha), h.spelled, h.speaks.enter hdecl⟩

theorem enterAnonymous (hletters : ∀ c, isNameChar c = true → sp.letters c = true)
    (isStatic : Bool) : Admits sp I a s (cx.enterAnonymous isStatic) :=
  ⟨fun ha => hI.enterAnonymous isStatic (h.inherits ha), h.spelled,
    h.speaks.enterAnonymous hletters isStatic⟩

end
end Context.Admits

section

variable {sp : Spelling}

theorem ClassType.over_name {letters : Char → Bool} {type : ClassType}
    (h : ∀ s ∈ type.ownNames, Over letters s) : Over letters type.name := by
  cases type
  exact h _ List.mem_cons_self

theorem over_parameterName {letters : Char → Bool} {parameter : Node .parameter}
    (h : ∀ s ∈ parameter.ownNames, Over letters s) : Over letters (parameterName parameter) := by
  cases parameter
  exact h _ List.mem_cons_self

theorem VariableGroup.over_names {group : VariableGroup}
    (h : group.any (Node.misspells sp) = false) : ∀ name ∈ group.names, Over sp.letters name := by
  cases group with
  | variableGroup modifiers annotations base declarators =>
    have hdeclarators : declarators.any (Node.misspells sp) = false := (Bool.or_eq_false_iff.mp h).2
    intro name hname
    obtain ⟨d, hd, rfl⟩ := List.mem_map.mp hname
    have hown := Node.over_ownNames (Node.any_eq_false_of_mem hdeclarators d hd)
    cases d
    exact hown _ List.mem_cons_self

theorem TypeDecl.spelledBy (decl : TypeDecl) (h : decl.any (Node.misspells sp) = false) :
    decl.SpelledBy sp := by
  have hnames := Node.over_ownNames h
  have hcomments := Node.remark_ownComments h
  cases decl with
  | classDecl name isInterface modifiers comment annotations typeParameters extended implemented
      members trailing =>
    exact ⟨hnames _ List.mem_cons_self, fun c hc =>
      hcomments c (List.mem_append_left _ (Option.mem_toList.mpr hc))⟩
  | enumDecl name modifiers comment annotations implemented constants members =>
    exact ⟨hnames _ List.mem_cons_self, fun c hc => hcomments c (Option.mem_toList.mpr hc)⟩
  | annotationDecl name modifiers comment annotations members =>
    exact ⟨hnames _ List.mem_cons_self, fun c hc => hcomments c (Option.mem_toList.mpr hc)⟩

end
end TypeScribe
