import TypeScribe.Proofs.Tree.Any
import TypeScribe.Script.Node

/-!
# Nodes and the contexts in which they are written

Each child of a node is written in a context of its own. On the way from a node to one below it the
resolver stays the same, and the declarations around are those that were entered on the way, in front
of those that were around the node already.
-/
namespace TypeScribe
set_option autoImplicit false

/-- A node in the context in which it is written. -/
structure Written where
  {category : Category}
  node : Node category
  context : Context

/-- The children from which the script of a node is made, each in its context. -/
def Node.children : {c : Category} → Node c → Context → List Written
  | _, .cons head tail, cx => [⟨head, cx.child 0⟩, ⟨tail, cx.after head⟩]
  | _, .present node, cx => [⟨node, cx.content⟩]
  | _, .annotationSingle _ value, cx => [⟨value, cx.child 0⟩]
  | _, .annotationNormal _ elements, cx => [⟨elements, cx.child 0⟩]
  | _, .element _ value, cx => [⟨value, cx.child 0⟩]
  | _, decl@(.classDecl _ isInterface _ _ annotations typeParameters extended implemented members _),
      cx =>
    [⟨annotations, cx.child 0⟩, ⟨typeParameters, (cx.enter decl).child 1⟩,
      ⟨extended, (cx.enter decl).child 2⟩, ⟨implemented, (cx.enter decl).child 3⟩,
      ⟨members, ((cx.enter decl).membersOf isInterface).child 4⟩]
  | _, decl@(.enumDecl _ _ _ annotations implemented constants members), cx =>
    [⟨annotations, cx.child 0⟩, ⟨implemented, (cx.enter decl).child 1⟩,
      ⟨constants, (cx.enter decl).child 2⟩, ⟨members, ((cx.enter decl).membersOf false).child 3⟩]
  | _, decl@(.annotationDecl _ _ _ annotations members), cx =>
    [⟨annotations, cx.child 0⟩, ⟨members, ((cx.enter decl).membersOf true).child 1⟩]
  | _, .enumConstant _ _ annotations arguments body, cx =>
    [⟨annotations, cx.child 0⟩, ⟨arguments, cx.child 1⟩, ⟨body, (cx.membersOf false).child 2⟩]
  | _, .nestedType decl, cx =>
    [⟨decl, if mustMove decl cx.scope then (cx.child 0).detached else cx.child 0⟩]
  | _, .field modifiers _ annotations baseType declarators, cx =>
    [⟨annotations, cx.child 0⟩, ⟨baseType, cx.child 1⟩,
      ⟨declarators, (cx.declarators (modifiers.contains .static)).child 2⟩]
  | _, .method _ _ _ annotations typeParameters returnType parameters _ body, cx =>
    [⟨annotations, cx.child 0⟩, ⟨typeParameters, cx.child 1⟩, ⟨returnType, cx.child 2⟩,
      ⟨parameters, cx.child 3⟩, ⟨body, cx.child 4⟩]
  | _, .constructor _ _ _ annotations _ parameters _ body, cx =>
    [⟨annotations, cx.child 0⟩, ⟨parameters, cx.child 1⟩, ⟨body, cx.child 2⟩]
  | _, .initializer _ _ body, cx => [⟨body, cx.child 0⟩]
  | _, .annotationMember _ _ _ annotations type _, cx =>
    [⟨annotations, cx.child 0⟩, ⟨type, cx.child 1⟩]
  | _, .declarator _ dimensions initial, cx => [⟨dimensions, cx.child 0⟩, ⟨initial, cx.initialValue⟩]
  | _, .dimension annotations, cx => [⟨annotations, cx.child 0⟩]
  | _, .parameter _ type _ annotations _ varArgsAnnotations, cx =>
    [⟨type, cx.child 0⟩, ⟨annotations, cx.child 1⟩, ⟨varArgsAnnotations, cx.child 2⟩]
  | _, .typeParameter _ bounds annotations, cx =>
    [⟨bounds, cx.child 0⟩, ⟨annotations, cx.child 1⟩]
  | _, .primitive _ annotations, cx => [⟨annotations, cx.child 0⟩]
  | _, .classUse type, cx => [⟨type, cx.child 0⟩]
  | _, .array component annotations, cx => [⟨component, cx.child 0⟩, ⟨annotations, cx.child 1⟩]
  | _, .intersection elements, cx => [⟨elements, cx.child 0⟩]
  | _, .union elements, cx => [⟨elements, cx.child 0⟩]
  | _, .wildcard extendsBound superBound _, cx =>
    [⟨extendsBound, cx.child 0⟩, ⟨superBound, cx.child 1⟩]
  | _, .classType scope _ typeArguments annotations, cx =>
    [⟨scope, cx.child 0⟩, ⟨typeArguments, cx.child 1⟩, ⟨annotations, cx.child 2⟩]
  | _, .block statements _, cx => [⟨statements, cx.child 0⟩]
  | _, .switchEntry label statements, cx => [⟨label, cx.child 0⟩, ⟨statements, cx.child 1⟩]
  | _, .catchClause _ body, cx => [⟨body, cx.child 0⟩]
  | _, .variableGroup _ annotations baseType declarators, cx =>
    [⟨annotations, cx.child 0⟩, ⟨baseType, cx.child 1⟩, ⟨declarators, (cx.declarators false).child 2⟩]
  | _, .blockStmt body, cx => [⟨body, cx.child 0⟩]
  | _, .exprStmt expr, cx => [⟨expr, cx.child 0⟩]
  | _, .localType decl, cx => [⟨decl, cx.child 0⟩]
  | _, .labeled _ statement, cx => [⟨statement, cx.child 0⟩]
  | _, .switchStmt selector entries, cx => [⟨selector, cx.child 0⟩, ⟨entries, cx.child 1⟩]
  | _, .returnStmt expr, cx => [⟨expr, cx.child 0⟩]
  | _, .ifStmt condition consequent alternative, cx =>
    [⟨condition, cx.child 0⟩, ⟨consequent, cx.child 1⟩, ⟨alternative, cx.child 2⟩]
  | _, .whileStmt condition body, cx => [⟨condition, cx.child 0⟩, ⟨body, cx.child 1⟩]
  | _, .doStmt body condition, cx => [⟨body, cx.child 0⟩, ⟨condition, cx.child 1⟩]
  | _, .forEachStmt _ iterable body, cx => [⟨iterable, cx.child 0⟩, ⟨body, cx.child 1⟩]
  | _, .forStmt init compare update body, cx =>
    [⟨init, cx.child 0⟩, ⟨compare, cx.child 1⟩, ⟨update, cx.child 2⟩, ⟨body, cx.child 3⟩]
  | _, .throwStmt expr, cx => [⟨expr, cx.child 0⟩]
  | _, .synchronizedStmt _ body, cx => [⟨body, cx.child 0⟩]
  | _, .tryStmt resources body catches finallyBlock, cx =>
    [⟨resources, cx.child 0⟩, ⟨body, cx.child 1⟩, ⟨catches, cx.child 2⟩, ⟨finallyBlock, cx.child 3⟩]
  | _, .constructorCall _ expr _ arguments, cx => [⟨expr, cx.child 0⟩, ⟨arguments, cx.child 1⟩]
  | _, .creationLevel size _, cx => [⟨size, cx.child 0⟩]
  | _, .lambdaExpr expr, cx => [⟨expr, cx.child 0⟩]
  | _, .lambdaBlock body, cx => [⟨body, cx.child 0⟩]
  | _, .fieldAccess scope _, cx => [⟨scope, cx.child 0⟩]
  | _, .arrayAccess base index, cx => [⟨base, cx.child 0⟩, ⟨index, cx.child 1⟩]
  | _, .arrayCreation elementType levels initial, cx =>
    [⟨elementType, cx.child 0⟩, ⟨levels, cx.child 1⟩, ⟨initial, cx.child 2⟩]
  | _, .arrayInitializer values, cx => [⟨values, cx.child 0⟩]
  | _, .assign target _ value, cx => [⟨target, cx.child 0⟩, ⟨value, cx.child 1⟩]
  | _, .binary left _ right, cx => [⟨left, cx.child 0⟩, ⟨right, cx.child 1⟩]
  | _, .unary _ expr, cx => [⟨expr, cx.child 0⟩]
  | _, .cast type expr, cx => [⟨type, cx.child 0⟩, ⟨expr, cx.child 1⟩]
  | _, .classLiteral type, cx => [⟨type, cx.child 0⟩]
  | _, .conditional condition consequent alternative, cx =>
    [⟨condition, cx.child 0⟩, ⟨consequent, cx.child 1⟩, ⟨alternative, cx.child 2⟩]
  | _, .enclosed inner, cx => [⟨inner, cx.child 0⟩]
  | _, .instanceOf expr type, cx => [⟨expr, cx.child 0⟩, ⟨type, cx.child 1⟩]
  | _, .methodCall scope typeArguments _ arguments, cx =>
    [⟨scope, cx.child 0⟩, ⟨typeArguments, cx.child 1⟩, ⟨arguments, cx.child 2⟩]
  | _, .objectCreation scope type _ arguments anonymousBody, cx =>
    [⟨scope, cx.child 0⟩, ⟨type, cx.child 1⟩, ⟨arguments, cx.child 2⟩,
      ⟨anonymousBody, (cx.enterAnonymous (cx.createsStatic scope)).child 3⟩]
  | _, .lambda parameters _ body, cx => [⟨parameters, cx.child 0⟩, ⟨body, cx.child 1⟩]
  | _, .methodReference scope _ _, cx => [⟨scope, cx.child 0⟩]
  | _, .typeExpr type, cx => [⟨type, cx.child 0⟩]
  | _, .variableDeclaration decl, cx => [⟨decl, cx.child 0⟩]
  | _, .annotationExpr use, cx => [⟨use, cx.child 0⟩]
  | _, _, _ => []

/-- The declarations around the children of a node. -/
def Node.entered : {c : Category} → Node c → Scope → Scope
  | .typeDecl, decl, scope => decl :: scope
  | _, _, scope => scope

/-- What a step to a child does to the context: the resolver stays, and at most the node itself is
entered. -/
theorem Node.context_of_mem_children {c : Category} (n : Node c) (cx : Context) :
    ∀ w ∈ n.children cx, w.context.resolver = cx.resolver ∧
      (w.context.scope = cx.scope ∨ w.context.scope = n.entered cx.scope) := by
  cases n with
  | cons head tail =>
    have hafter : (cx.after head).resolver = cx.resolver ∧ (cx.after head).scope = cx.scope := by
      unfold Context.after
      split <;> exact ⟨rfl, rfl⟩
    exact List.forall_mem_cons.mpr ⟨⟨rfl, .inl rfl⟩, List.forall_mem_singleton.mpr
      ⟨hafter.1, .inl hafter.2⟩⟩
  | nestedType decl =>
    refine List.forall_mem_singleton.mpr ?_
    split <;> exact ⟨rfl, .inl rfl⟩
  | _ =>
    repeat first
      | exact List.forall_mem_nil _
      | exact ⟨rfl, .inl rfl⟩
      | exact ⟨rfl, .inr rfl⟩
      | refine List.forall_mem_cons.mpr ⟨?_, ?_⟩

/-- The anonymous classes around a child are open around the node, or one that the node opens. -/
theorem Node.frames_of_mem_children {c : Category} (n : Node c) (cx : Context) :
    ∀ w ∈ n.children cx, ∀ f ∈ w.context.frames,
      f ∈ cx.frames ∨ ∃ isStatic, f.outerThis = cx.outerThis isStatic := by
  have hsame : ∀ f ∈ cx.frames, f ∈ cx.frames ∨ ∃ isStatic, f.outerThis = cx.outerThis isStatic :=
    fun _ => .inl
  cases n with
  | cons head tail =>
    refine List.forall_mem_cons.mpr ⟨hsame, List.forall_mem_singleton.mpr ?_⟩
    unfold Context.after
    split <;> exact hsame
  | nestedType decl =>
    refine List.forall_mem_singleton.mpr ?_
    split
    · exact List.forall_mem_nil _
    · exact hsame
  | objectCreation scope type typeArguments arguments anonymousBody =>
    refine List.forall_mem_cons.mpr ⟨hsame, List.forall_mem_cons.mpr ⟨hsame,
      List.forall_mem_cons.mpr ⟨hsame, List.forall_mem_singleton.mpr ?_⟩⟩⟩
    exact List.forall_mem_cons.mpr ⟨.inr ⟨_, rfl⟩, hsame⟩
  | _ =>
    repeat first
      | exact List.forall_mem_nil _
      | exact hsame
      | refine List.forall_mem_cons.mpr ⟨?_, ?_⟩

theorem Node.lacks_of_mem_children {p : {c : Category} → Node c → Bool} {c : Category} {n : Node c}
    (cx : Context) (h : Lacks (n.any p)) : ∀ w ∈ n.children cx, Lacks (w.node.any p) := by
  cases n with
  | _ =>
    repeat first
      | exact List.forall_mem_nil _
      | exact h.right
      | exact h.left.right
      | exact h.left.left.right
      | exact h.left.left.left.right
      | exact h.left.left.left.left.right
      | exact h.left.left.left.left.left.right
      | refine List.forall_mem_cons.mpr ⟨?_, ?_⟩

/-- What passes from the children of a node to the node holds of all nodes. -/
theorem Written.inductionOn {motive : Written → Prop} (w : Written)
    (step : ∀ w, (∀ v ∈ w.node.children w.context, motive v) → motive w) : motive w := by
  obtain ⟨node, context⟩ := w
  induction node generalizing context with
  | _ =>
    refine step _ ?_
    clear step
    repeat first
      | exact List.forall_mem_nil _
      | apply_assumption
      | refine List.forall_mem_cons.mpr ⟨?_, ?_⟩

/-- A node below another, or the node itself, in the context in which it is written there. -/
inductive Within : Written → Written → Prop where
  | refl (w : Written) : Within w w
  | step {w v x : Written} (hchild : v ∈ w.node.children w.context) (hrest : Within v x) : Within w x

/-- What every step to a child preserves holds of all nodes below. -/
theorem Within.invariant {I : Written → Prop}
    (hI : ∀ {w v : Written}, v ∈ w.node.children w.context → I w → I v) {w x : Written}
    (h : Within w x) (hw : I w) : I x := by
  induction h with
  | refl => exact hw
  | step hchild hrest ih => exact ih (hI hchild hw)

theorem Within.resolver_eq {w x : Written} (h : Within w x) :
    x.context.resolver = w.context.resolver := by
  refine h.invariant (I := fun v => v.context.resolver = w.context.resolver) ?_ rfl
  intro u v hchild hu
  exact (u.node.context_of_mem_children u.context v hchild).1.trans hu

end TypeScribe
