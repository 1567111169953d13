import Mathlib.Data.List.Basic
import TypeScribe.Proofs.Binding.Reading

/-!
# Stretches of a script

What is printed for a node consists of stretches: documents of its own, texts that open or close
something, and what is printed for the nodes below it that are code. So every node that is code has
its place in the script, and what is open there can be read off the stretches before it.
-/
namespace TypeScribe
set_option autoImplicit false
open Text

/-- The document of a script, for nodes that are printed in one piece. -/
def Script.code : (c : Category) → Script c → Doc
  | .typeDecl => DeclShape.content
  | .stmt => StmtShape.doc
  | .member => MemberShape.doc
  | .creationLevel => fun (size : Option Doc) => size.getD []
  | .enumConstant => fun (d : Doc) => d
  | .block => fun (d : Doc) => d
  | .switchEntry => fun (d : Doc) => d
  | .catchClause => fun (d : Doc) => d
  | .variableGroup => fun (d : Doc) => d
  | .lambdaBody => fun (d : Doc) => d
  | .expr => fun (d : Doc) => d
  | _ => fun _ => []

def Node.code {c : Category} (n : Node c) (cx : Context) : Doc := Script.code c (n.script cx)

inductive Stretch where
  | own (d : Doc)
  | opens (s : String) (x : Opened)
  | closes (s : String) (x : Opened)
  | node {c : Category} (n : Node c) (cx : Context)

namespace Stretch

def doc : Stretch → Doc
  | own d => d
  | opens s _ => Doc.text s
  | closes s _ => Doc.text s
  | node n cx => n.code cx

def docs (ps : List Stretch) : Doc := ps.flatMap doc

def word (s : String) : Stretch := own (Doc.text s)

/-- A body in braces, on lines of its own. -/
def braced (brace : String) (x : Opened) (inside : List Stretch) : List Stretch :=
  [opens brace x, own [.newline, .indent]] ++ inside ++ [own [.outdent], closes "\x7d" x]

def closure (parameter after : String) (inside : List Stretch) : List Stretch :=
  opens ("((" ++ parameter ++ ") => ") (.closure parameter)
    :: inside ++ [closes after (.closure parameter)]

def separated (s : String) : List (List Stretch) → List Stretch
  | [] => []
  | [ps] => ps
  | ps :: qs :: rest => ps ++ word s :: separated s (qs :: rest)

end Stretch

/-- The nodes of a sequence with their contexts. -/
def inSequence {c : Category} (cx : Context) : List (Node c) → List (Node c × Context)
  | [] => []
  | n :: ns => (n, cx.child 0) :: inSequence (cx.after n) ns

/-- What an optional node holds, with its context. -/
def Node.content? {c : Category} : Node (.optional c) → Context → Option (Node c × Context)
  | .absent, _ => none
  | .present n, cx => some (n, cx.content)

def memberShape (m : Member × Context) : MemberShape := m.1.script m.2

def stmtShape (s : Stmt × Context) : StmtShape := s.1.script s.2

def levelSize (l : Node .creationLevel × Context) : Option Doc := l.1.script l.2

namespace Stretch

variable {c : Category}

def placed (p : Node c × Context) : Stretch := node p.1 p.2

def listing (ns : Node (.many c)) (cx : Context) : List Stretch :=
  separated ", " ((inSequence cx ns.toList).map fun p => [placed p])

def parenthesized (ns : Node (.many c)) (cx : Context) : List Stretch :=
  word "(" :: listing ns cx ++ [word ")"]

/-- An optional scope and the dot behind it. -/
def scope (o : Node (.optional c)) (cx : Context) : List Stretch :=
  match o.content? cx with
  | some p => [placed p, word "."]
  | none => []

def members (ms : List (Member × Context)) : List Stretch :=
  ms.flatMap fun m => [own Doc.newline, placed m, own Doc.newline]

/-- The members of a class: nested types first. -/
def classMembers (ms : List (Member × Context)) : List Stretch :=
  members (ms.filter fun m => m.1.type?.isSome) ++ members (ms.filter fun m => !m.1.type?.isSome)

def stmtLine (s : Stmt × Context) : List Stretch :=
  if (stmtShape s).form = .comment then [placed s] else [placed s, own Doc.newline]

def declarator (base : Option Doc) : Node .declarator × Context → List Stretch
  | (.declarator name dimensions initial, cx) =>
    own (Doc.text (escapeIdentifier name) ++ match base with
      | some type => Doc.text ": " ++ type ++ Doc.concat (dimensions.script (cx.child 0))
      | none => [])
      :: match initial.content? cx.initialValue with
        | some p => [word " = ", placed p]
        | none => []

def declarators (base : Option Doc) (ds : Node (.many .declarator)) (cx : Context) : List Stretch :=
  separated ", " ((inSequence cx ds.toList).map (declarator base))

def consequent (s : Stmt × Context) : List Stretch :=
  if (stmtShape s).form = .block then [word ") ", placed s]
  else [own (Doc.line ")" ++ [.indent]), placed s, own [.outdent]]

def alternative (s : Stmt × Context) : List Stretch :=
  if (stmtShape s).form = .branch ∨ (stmtShape s).form = .block then
    [word "else ", placed s]
  else [own (Doc.line "else" ++ [.indent]), placed s, own [.outdent]]

/-- The end of an enum's constants and the members behind it. -/
def afterConstants (hasConstants : Bool) (ms : List (Member × Context)) : List Stretch :=
  if ms.isEmpty then (if hasConstants then [own Doc.newline] else [])
  else own (Doc.line ";") :: members ms

def constantArguments (arguments : Node (.many .expr)) (cx : Context) : List Stretch :=
  if arguments.toList.isEmpty then [] else parenthesized arguments cx

def constantBody (ms : List (Member × Context)) : List Stretch :=
  if ms.isEmpty then [] else braced " \x7b" .body (members ms) ++ [own Doc.newline]

/-- A nested enum, which needs no closure. -/
def nestedEnum (decl : TypeDecl) (cx : Context) : List Stretch :=
  [own (Doc.comment decl.comment ++ DeclShape.annotations (decl.script cx)
      ++ Script.modifiers decl.modifiers),
    node decl cx]

/-- A nested class, inside a closure unless it is static. -/
def nestedClass (enclosing : String) (decl : TypeDecl) (cx : Context) : List Stretch :=
  own (Doc.comment decl.comment ++ DeclShape.annotations (decl.script cx)
      ++ Script.modifiers (decl.modifiers.erase .abstract) ++ Doc.text decl.name ++ Doc.text " = ")
    :: if decl.isStatic then [node decl cx]
      else closure (enclosing ++ "_this") ")(this);" [node decl cx]

/-- A nested declaration in its place. One that is moved has only a placeholder there. -/
def nestedType (cx : Context) (decl : TypeDecl) : List Stretch :=
  match cx.enclosingName? with
  | none => [own (Doc.flaw (.nestedTypeAtTop decl.name))]
  | some enclosing =>
    if mustMove decl cx.scope then
      [own [.moved cx.route (cx.scope.reverse.map TypeDecl.name)
          (Script.moduleDecl decl (decl.script cx.detached)),
        .text (Script.placeholder decl.name)]]
    else match decl with
      | .enumDecl .. => nestedEnum decl cx
      | _ => nestedClass enclosing decl cx

/-- A class in a body, inside a closure. -/
def localType (cx : Context) (decl : TypeDecl) (inner : Context) : List Stretch :=
  match cx.enclosingName? with
  | none => [own (Doc.flaw (.localTypeAtTop decl.name))]
  | some enclosing =>
    match decl with
    | .classDecl name false .. =>
      own (Doc.comment decl.comment ++ DeclShape.annotations (decl.script inner)
          ++ Doc.text ("const " ++ name ++ " = "))
        :: closure (enclosing ++ "_this") ")(this);" [node decl inner]
    | _ => [own (Doc.unsupported (.localType decl.name))]

def resources (groups : List (VariableGroup × Context)) : List Stretch :=
  if groups.isEmpty then []
  else own (Doc.unsupported .tryWithResources ++ Doc.newline)
    :: groups.flatMap fun p => [placed p, own (Doc.line ";")]

def sizedArray (elementType : Doc) (levels : List (Node .creationLevel × Context)) :
    List Stretch :=
  own (Doc.text "new Array<" ++ elementType
      ++ Doc.concat (levels.tail.map fun _ => Doc.text "[]") ++ Doc.text ">(")
    :: (levels.head?.map placed).toList ++ [word ")"]

/-- A word and the type behind it. -/
def typed (s : String) (type : Doc) : Stretch := own (Doc.text s ++ type)

/-- A class expression with a body and arguments. -/
def anonymousClass (cx : Context) (type : ClassType) (arguments : Node (.many .expr))
    (body : List (Member × Context)) : List Stretch :=
  typed (if cx.isInterface type then "new class implements " else "new class extends ")
      (type.script (cx.child 1))
    :: braced " \x7b" .body (members body) ++ parenthesized arguments (cx.child 2)

end Stretch

open Stretch in
/-- The stretches of what is printed for a node. Types and annotations are no code. -/
def Node.stretches : {c : Category} → Node c → Context → List Stretch
  -- Type declarations
  | _, decl@(.classDecl name isInterface modifiers _ _ typeParameters extended implemented members
      trailing), cx =>
    own (Doc.text (Script.classWord isInterface modifiers) ++ Doc.text name
        ++ Script.angled (typeParameters.script ((cx.enter decl).child 1))
        ++ Script.listed " extends " (extended.script ((cx.enter decl).child 2))
        ++ Script.listed " implements " (implemented.script ((cx.enter decl).child 3)))
      :: braced " \x7b" .body
        (classMembers (inSequence (((cx.enter decl).membersOf isInterface).child 4) members.toList)
          ++ [own (Doc.comments trailing)])
  | _, decl@(.enumDecl name _ _ _ implemented constants members), cx =>
    own (Doc.text "enum " ++ Doc.text name
        ++ Script.listed " implements " (implemented.script ((cx.enter decl).child 1)))
      :: braced " \x7b" .body (own Doc.newline :: listing constants ((cx.enter decl).child 2)
        ++ afterConstants (!constants.toList.isEmpty)
          (inSequence (((cx.enter decl).membersOf false).child 3) members.toList))
  | _, decl@(.annotationDecl name _ _ _ members), cx =>
    own (Doc.text "interface " ++ Doc.text name)
      :: braced " \x7b" .body
        (classMembers (inSequence (((cx.enter decl).membersOf true).child 1) members.toList))
  | _, .enumConstant name comment annotations arguments body, cx =>
    own (Doc.comment comment ++ Script.annotationLines (annotations.script (cx.child 0))
        ++ Doc.text name)
      :: constantArguments arguments (cx.child 1)
      ++ constantBody (inSequence ((cx.membersOf false).child 2) body.toList)
  -- Members
  | _, .nestedType decl, cx => Stretch.nestedType (cx.child 0) decl
  | _, .field modifiers comment annotations baseType ds, cx =>
    own (Doc.comment comment ++ Script.annotationLines (annotations.script (cx.child 0))
        ++ Script.memberModifiers cx modifiers)
      :: declarators (knownType baseType (baseType.script (cx.child 1))) ds
        ((cx.declarators (modifiers.contains .static)).child 2)
      ++ [word ";"]
  | _, .method name modifiers comment annotations typeParameters returnType parameters thrown body,
      cx =>
    own (Doc.comment comment ++ Script.annotationLines (annotations.script (cx.child 0))
        ++ Script.memberModifiers cx modifiers ++ Doc.text (escapeIdentifier name)
        ++ Script.angled (typeParameters.script (cx.child 1))
        ++ Script.parenthesized (parameters.script (cx.child 3)) ++ Doc.text ": "
        ++ TypeShape.doc (returnType.script (cx.child 2))
        ++ Script.thrownMarker (!thrown.toList.isEmpty))
      :: match body.content? (cx.child 4) with
        | some p => [word " ", placed p]
        | none => [word ";"]
  | _, .constructor _ _ comment annotations _ parameters thrown body, cx =>
    [own (Doc.comment comment ++ Script.annotationLines (annotations.script (cx.child 0))
        ++ Doc.text "constructor" ++ Script.parenthesized (parameters.script (cx.child 1))
        ++ Script.thrownMarker (!thrown.toList.isEmpty) ++ Doc.text " "),
      node body (cx.child 2)]
  | _, .initializer isStatic comment body, cx =>
    [own (Doc.comment comment ++ if isStatic then Doc.text "static " else []),
      node body (cx.child 0)]
  -- Statements
  | _, .block statements trailing, cx =>
    braced "\x7b" .block ((inSequence (cx.child 0) statements.toList).flatMap stmtLine
      ++ [own (Doc.comments trailing)])
  | _, .switchEntry label statements, cx =>
    (match label.content? (cx.child 0) with
      | some p => [word "case ", placed p, word ":"]
      | none => [word "default:"])
      ++ own [.newline, .indent]
        :: (inSequence (cx.child 1) statements.toList).flatMap stmtLine ++ [own [.outdent]]
  | _, .catchClause caught body, cx =>
    [own (Doc.text " catch (" ++ Doc.text (escapeIdentifier (parameterName caught))
        ++ Doc.text ") "),
      node body (cx.child 0)]
  | _, .variableGroup modifiers annotations baseType ds, cx =>
    own (Script.inlineAnnotations (annotations.script (cx.child 0)) ++ Script.modifiers modifiers
        ++ Doc.text (Script.declarationWord modifiers))
      :: declarators (knownType baseType (baseType.script (cx.child 1))) ds
        ((cx.declarators false).child 2)
  | _, .blockStmt body, cx => [node body (cx.child 0)]
  | _, .exprStmt expr, cx => [node expr (cx.child 0), word ";"]
  | _, .localType decl, cx => Stretch.localType cx decl (cx.child 0)
  | _, .labeled label statement, cx =>
    [own (Doc.text label ++ Doc.text ": "), node statement (cx.child 0)]
  | _, .switchStmt selector entries, cx =>
    [word "switch(", node selector (cx.child 0)]
      ++ braced ") \x7b" .block ((inSequence (cx.child 1) entries.toList).map placed)
  | _, .returnStmt expr, cx =>
    word "return" :: match expr.content? (cx.child 0) with
      | some p => [word " ", placed p, word ";"]
      | none => [word ";"]
  | _, .ifStmt condition thenStmt elseStmt, cx =>
    [word "if (", node condition (cx.child 0)] ++ consequent (thenStmt, cx.child 1)
      ++ match elseStmt.content? (cx.child 2) with
        | some s =>
          own (if (stmtShape (thenStmt, cx.child 1)).form = .block then Doc.text " "
            else Doc.newline) :: alternative s
        | none => []
  | _, .whileStmt condition body, cx =>
    [word "while (", node condition (cx.child 0), word ") ", node body (cx.child 1)]
  | _, .doStmt body condition, cx =>
    [word "do ", node body (cx.child 0), word " while (", node condition (cx.child 1), word ");"]
  | _, .forEachStmt loopVariable iterable body, cx =>
    [own (Doc.text "for ("
        ++ Doc.text (Script.declarationWord (VariableGroup.modifiers loopVariable))
        ++ Doc.separated ", " ((VariableGroup.names loopVariable).map fun name =>
          Doc.text (escapeIdentifier name))
        ++ Doc.text " of "),
      node iterable (cx.child 0), word ") ", node body (cx.child 1)]
  | _, .forStmt init compare update body, cx =>
    word "for (" :: listing init (cx.child 0) ++ word "; "
      :: ((compare.content? (cx.child 1)).map placed).toList
      ++ word "; " :: listing update (cx.child 2) ++ [word ") ", node body (cx.child 3)]
  | _, .throwStmt expr, cx => [word "throw ", node expr (cx.child 0), word ";"]
  | _, .synchronizedStmt _ body, cx =>
    [own (Doc.unsupported .synchronizedStatement ++ Doc.newline), node body (cx.child 0)]
  | _, .tryStmt resources body catches finallyBlock, cx =>
    Stretch.resources (inSequence (cx.child 0) resources.toList)
      ++ word "try " :: node body (cx.child 1)
        :: (inSequence (cx.child 2) catches.toList).map placed
      ++ match finallyBlock.content? (cx.child 3) with
        | some p => [word " finally ", placed p]
        | none => []
  | _, .constructorCall isThis expr _ arguments, cx =>
    (if isThis then [word "this"] else scope expr (cx.child 0) ++ [word "super"])
      ++ parenthesized arguments (cx.child 1) ++ [word ";"]
  -- Expressions
  | _, .creationLevel size _, cx => ((size.content? (cx.child 0)).map placed).toList
  | _, .lambdaExpr expr, cx => [node expr (cx.child 0)]
  | _, .lambdaBlock body, cx => [node body (cx.child 0)]
  | _, .fieldAccess scope name, cx =>
    [node scope (cx.child 0), word ".", word (escapeIdentifier name)]
  | _, .arrayAccess base index, cx =>
    [node base (cx.child 0), word "[", node index (cx.child 1), word "]"]
  | _, .arrayCreation elementType levels initial, cx =>
    match initial.content? (cx.child 2) with
    | some p => word "[" :: listing p.1 p.2 ++ [word "]"]
    | none =>
      sizedArray (TypeShape.doc (elementType.script (cx.child 0)))
        (inSequence (cx.child 1) levels.toList)
  | _, .arrayInitializer values, cx => word "[" :: listing values (cx.child 0) ++ [word "]"]
  | _, .assign target op value, cx =>
    [node target (cx.child 0), own (Doc.text " " ++ Doc.text op.symbol ++ Doc.text " "),
      node value (cx.child 1)]
  | _, .binary left op right, cx =>
    [node left (cx.child 0), own (Doc.text " " ++ Doc.text op.scriptSymbol ++ Doc.text " "),
      node right (cx.child 1)]
  | _, .unary op expr, cx =>
    if op.followsOperand then [node expr (cx.child 0), word op.symbol]
    else [word op.symbol, node expr (cx.child 0)]
  | _, .cast type expr, cx =>
    if TypeUse.isIntegral type then [word "Math.floor(", node expr (cx.child 1), word ")"]
    else [own (Doc.between "<" ">" (TypeShape.doc (type.script (cx.child 0)))),
      node expr (cx.child 1)]
  | _, .conditional condition thenExpr elseExpr, cx =>
    [node condition (cx.child 0), word " ? ", node thenExpr (cx.child 1), word " : ",
      node elseExpr (cx.child 2)]
  | _, .enclosed inner, cx => [word "(", node inner (cx.child 0), word ")"]
  | _, .instanceOf expr type, cx =>
    [node expr (cx.child 0), own (Doc.text " " ++ Doc.text "instanceof" ++ Doc.text " "
      ++ TypeShape.doc (type.script (cx.child 1)))]
  | _, .methodCall receiver typeArguments name arguments, cx =>
    scope receiver (cx.child 0)
      ++ own (Doc.text (escapeIdentifier name)
        ++ Script.angled (List.map TypeShape.doc (typeArguments.script (cx.child 1))))
      :: parenthesized arguments (cx.child 2)
  | _, .objectCreation receiver type _ arguments anonymousBody, cx =>
    match anonymousBody.content? ((cx.enterAnonymous (cx.createsStatic receiver)).child 3) with
    | some body =>
      own (if receiver.toOption.isSome then Doc.unsupported (.qualifiedAnonymousClass
          (ClassType.name type)) else [])
        :: if cx.createsStatic receiver then
            anonymousClass cx type arguments (inSequence body.2 body.1.toList)
          else closure cx.captureName ")(this)"
            (anonymousClass cx type arguments (inSequence body.2 body.1.toList))
    | none =>
      scope receiver (cx.child 0)
        ++ typed "new " (type.script (cx.child 1)) :: parenthesized arguments (cx.child 2)
  | _, .lambda parameters isEnclosed body, cx =>
    [own ((if isEnclosed then Script.parenthesized (parameters.script (cx.child 0))
        else Doc.separated ", " (parameters.script (cx.child 0))) ++ Doc.text " => "),
      node body (cx.child 1)]
  | _, .methodReference scope _ identifier, cx =>
    [own (Doc.unsupported .methodReference), node scope (cx.child 0), word ".",
      word (escapeIdentifier identifier)]
  | _, .variableDeclaration decl, cx => [node decl (cx.child 0)]
  | _, n, cx => [own (n.code cx)]

namespace Stretch

@[simp] theorem docs_nil : docs [] = [] := rfl

@[simp] theorem docs_cons (p : Stretch) (ps : List Stretch) : docs (p :: ps) = p.doc ++ docs ps :=
  rfl

@[simp] theorem docs_append (ps qs : List Stretch) : docs (ps ++ qs) = docs ps ++ docs qs :=
  List.flatMap_append

@[simp] theorem doc_own (d : Doc) : (own d).doc = d := rfl

@[simp] theorem doc_opens (s : String) (x : Opened) : (opens s x).doc = Doc.text s := rfl

@[simp] theorem doc_closes (s : String) (x : Opened) : (closes s x).doc = Doc.text s := rfl

@[simp] theorem doc_word (s : String) : (word s).doc = Doc.text s := rfl

@[simp] theorem doc_node {c : Category} (n : Node c) (cx : Context) :
    (node n cx).doc = n.code cx := rfl

@[simp] theorem doc_placed {c : Category} (p : Node c × Context) : (placed p).doc = p.1.code p.2 :=
  rfl

@[simp] theorem docs_separated (s : String) (pss : List (List Stretch)) :
    docs (separated s pss) = Doc.separated s (pss.map docs) := by
  induction pss with
  | nil => rfl
  | cons ps rest ih =>
    cases rest with
    | nil => rfl
    | cons qs rest => simp [separated, ih, Doc.separated]

theorem docs_flatMap {α : Type} (as : List α) (f : α → List Stretch) :
    docs (as.flatMap f) = as.flatMap fun a => docs (f a) := List.flatMap_assoc

end Stretch

/-- The script of a sequence consists of the scripts of its nodes in their contexts. -/
theorem script_many {c : Category} (ns : Node (.many c)) (cx : Context) :
    @Eq (List (Script c)) (ns.script cx)
      ((inSequence cx ns.toList).map fun p => p.1.script p.2) := by
  obtain ⟨ns, rfl⟩ := ns.exists_ofList
  rw [Node.toList_ofList]
  induction ns generalizing cx with
  | nil => rfl
  | cons n ns ih => exact congrArg (List.cons _) (ih _)

theorem isEmpty_inSequence {c : Category} (cx : Context) (ns : List (Node c)) :
    (inSequence cx ns).isEmpty = ns.isEmpty := by
  cases ns <;> rfl

namespace Stretch

theorem docs_listing {c : Category} (ns : Node (.many c)) (cx : Context) :
    docs (listing ns cx) =
      Doc.separated ", " ((inSequence cx ns.toList).map fun p => p.1.code p.2) := by
  rw [listing, docs_separated, List.map_map]
  refine congrArg _ (List.map_congr_left ?_)
  intro p _
  exact List.append_nil _

theorem docs_listing_expr (ns : Node (.many .expr)) (cx : Context) :
    docs (listing ns cx) = Doc.separated ", " (ns.script cx) := by
  rw [docs_listing, script_many]
  rfl

theorem docs_members (ms : List (Member × Context)) :
    docs (members ms) = Script.members (ms.map memberShape) := by
  rw [members, docs_flatMap, Script.members, List.flatMap_map]
  refine List.flatMap_congr ?_
  intro m _
  exact (List.append_assoc _ _ _).symm

theorem isType_memberShape (m : Member × Context) :
    (memberShape m).isType = m.1.type?.isSome := by
  obtain ⟨m, cx⟩ := m
  cases m <;> rfl

theorem docs_classMembers (ms : List (Member × Context)) :
    docs (classMembers ms) = Script.classBody (ms.map memberShape) := by
  have hfilter (p : Bool → Bool) : (ms.map memberShape).filter (fun m => p m.isType) =
      (ms.filter fun m => p m.1.type?.isSome).map memberShape := by
    rw [List.filter_map]
    refine congrArg _ (List.filter_congr ?_)
    intro m _
    exact congrArg p (isType_memberShape m)
  rw [classMembers, docs_append, docs_members, docs_members, Script.classBody]
  exact congrArg₂ _ (congrArg _ (hfilter id).symm) (congrArg _ (hfilter not).symm)

theorem docs_stmtLine (s : Stmt × Context) : docs (stmtLine s) = Script.stmtLine (stmtShape s) := by
  unfold stmtLine Script.stmtLine
  split <;> simp
  · rfl
  · rfl

theorem docs_stmtLines (ss : List (Stmt × Context)) :
    docs (ss.flatMap stmtLine) = Script.stmtLines (ss.map stmtShape) := by
  rw [docs_flatMap, Script.stmtLines, List.flatMap_map]
  refine List.flatMap_congr ?_
  intro s _
  exact docs_stmtLine s

theorem docs_map_placed {c : Category} (ps : List (Node c × Context)) :
    docs (ps.map placed) = Doc.concat (ps.map fun p => p.1.code p.2) := by
  rw [docs, List.flatMap_map, Doc.concat, List.flatMap_def]
  rfl

theorem docs_scope (o : Node (.optional .expr)) (cx : Context) (d : Doc) :
    docs (scope o cx) ++ d = Script.underScope (o.script cx) d := by
  cases o with
  | absent => rfl
  | present n =>
    change docs [placed (n, cx.content), word "."] ++ d =
      Script.underScope (some (n.code cx.content)) d
    simp [Script.underScope]

theorem docs_parenthesized (ns : Node (.many .expr)) (cx : Context) :
    docs (parenthesized ns cx) = Script.parenthesized (ns.script cx) := by
  simp [parenthesized, docs_listing_expr, Script.parenthesized, Doc.between]

theorem docs_declarator (base : Option Doc) (d : Node .declarator × Context) :
    docs (declarator base d) = Script.declarator base (d.1.script d.2) := by
  obtain ⟨d, cx⟩ := d
  cases d with
  | declarator name dimensions initial =>
    cases initial with
    | absent => rfl
    | present value =>
      change _ ++ docs [word " = ", placed (value, cx.initialValue.content)] =
        _ ++ Script.initialValue (some (value.code cx.initialValue.content))
      simp only [docs_cons, docs_nil, doc_word, doc_placed, List.append_nil, Script.initialValue]
      rfl

theorem docs_declarators (base : Option Doc) (ds : Node (.many .declarator)) (cx : Context) :
    docs (declarators base ds cx) = Script.declarators base (ds.script cx) := by
  rw [script_many, declarators, docs_separated, List.map_map]
  unfold Script.declarators
  refine congrArg _ (Eq.trans ?_ List.map_map.symm)
  refine List.map_congr_left ?_
  intro d _
  exact docs_declarator base d

theorem docs_braced (brace : String) (x : Opened) (inside : List Stretch) :
    docs (braced brace x inside) =
      Doc.line brace ++ Doc.indented (docs inside) ++ Doc.text "\x7d" := by
  simp [braced, Doc.line, Doc.indented, Doc.text]

theorem docs_closure (parameter after : String) (inside : List Stretch) :
    docs (closure parameter after inside) =
      Doc.between ("((" ++ parameter ++ ") => ") after (docs inside) := by
  simp [closure, Doc.between]

theorem docs_consequent (s : Stmt × Context) :
    docs (consequent s) = Script.consequent (stmtShape s) := by
  have hdoc : docs [placed s] = (stmtShape s).doc := List.append_nil _
  unfold consequent Script.consequent
  split
  · exact congrArg _ hdoc
  · simp [Doc.indented, Doc.line, ← hdoc]

theorem docs_alternative (s : Stmt × Context) :
    docs (alternative s) = Script.alternative (stmtShape s) := by
  have hdoc : docs [placed s] = (stmtShape s).doc := List.append_nil _
  unfold alternative Script.alternative
  split
  · exact congrArg _ hdoc
  · simp [Doc.indented, Doc.line, ← hdoc]

theorem docs_afterConstants {hasConstants : Bool} {constants : List Doc}
    (h : hasConstants = !constants.isEmpty) (ms : List (Member × Context)) :
    docs (afterConstants hasConstants ms) =
      Script.afterConstants constants (ms.map memberShape) := by
  subst h
  cases ms with
  | nil => cases constants <;> rfl
  | cons m ms => exact congrArg _ (docs_members (m :: ms))

theorem docs_enumBody (name : String) (implemented : List Doc) (constants : Node (.many .enumConstant))
    (cx : Context) (ms : List (Member × Context)) :
    docs (own (Doc.text "enum " ++ Doc.text name ++ Script.listed " implements " implemented)
        :: braced " \x7b" .body (own Doc.newline :: listing constants cx
          ++ afterConstants (!constants.toList.isEmpty) ms)) =
      Script.enumContent name implemented (constants.script cx) (ms.map memberShape) := by
  have hconstants : (!constants.toList.isEmpty) = !List.isEmpty (constants.script cx) := by
    rw [script_many, List.isEmpty_map, isEmpty_inSequence]
  have hlisting : docs (listing constants cx) = Doc.separated ", " (constants.script cx) := by
    rw [docs_listing, script_many]
    rfl
  simp [docs_braced, hlisting, docs_afterConstants hconstants, Script.enumContent]

theorem docs_constantArguments (arguments : Node (.many .expr)) (cx : Context) :
    docs (constantArguments arguments cx) =
      if List.isEmpty (arguments.script cx) then []
      else Script.parenthesized (arguments.script cx) := by
  have hempty : List.isEmpty (arguments.script cx) = arguments.toList.isEmpty := by
    rw [script_many, List.isEmpty_map, isEmpty_inSequence]
  rw [constantArguments, hempty]
  split
  · rfl
  · exact docs_parenthesized arguments cx

theorem docs_constantBody (ms : List (Member × Context)) :
    docs (constantBody ms) = if (ms.map memberShape).isEmpty then []
      else Doc.line " \x7b" ++ Doc.indented (Script.members (ms.map memberShape))
        ++ Doc.line "\x7d" := by
  rw [constantBody, List.isEmpty_map]
  split
  · rfl
  · simp [docs_braced, docs_members, Doc.line, Doc.text, Doc.newline]

theorem docs_nestedEnum (decl : TypeDecl) (cx : Context) :
    docs (nestedEnum decl cx) = Script.nestedEnum decl (decl.script cx) := by
  simp [nestedEnum, Script.nestedEnum]
  rfl

theorem docs_nestedClass (enclosing : String) (decl : TypeDecl) (cx : Context) :
    docs (nestedClass enclosing decl cx) = Script.nestedClass enclosing decl (decl.script cx) := by
  unfold nestedClass Script.nestedClass
  split
  · simp
    rfl
  · simp [docs_closure, Script.closure_eq]
    rfl

theorem docs_nestedType (cx : Context) (decl : TypeDecl) :
    docs (nestedType cx decl) = Script.nestedType cx decl
      (decl.script (if mustMove decl cx.scope then cx.detached else cx)) := by
  unfold nestedType Script.nestedType
  cases cx.enclosingName? with
  | none => rfl
  | some enclosing =>
    cases hmoved : mustMove decl cx.scope with
    | true => rfl
    | false =>
      cases decl with
      | enumDecl => exact docs_nestedEnum _ cx
      | _ => exact docs_nestedClass enclosing _ cx

theorem docs_localType (cx : Context) (decl : TypeDecl) (inner : Context) :
    docs (localType cx decl inner) = Script.localType cx decl (decl.script inner) := by
  unfold localType Script.localType
  cases cx.enclosingName? with
  | none => rfl
  | some enclosing =>
    cases decl with
    | classDecl name isInterface =>
      cases isInterface with
      | true => rfl
      | false =>
        simp only [docs_cons, docs_closure, Script.closure_eq, docs_nil, List.append_nil]
        rfl
    | _ => rfl

theorem docs_resources (groups : List (VariableGroup × Context)) :
    docs (resources groups) = Script.resources (groups.map fun p => p.1.code p.2) := by
  rw [resources, Script.resources, List.isEmpty_map]
  split
  · rfl
  · simp [docs_flatMap, List.flatMap_map]

theorem docs_sizedArray (elementType : Doc) (levels : List (Node .creationLevel × Context)) :
    docs (sizedArray elementType levels) =
      Script.sizedArray elementType (levels.map levelSize) := by
  cases levels with
  | nil => simp [sizedArray, Script.sizedArray]
  | cons l ls =>
    simp [sizedArray, Script.sizedArray, Function.comp_def]
    rfl

theorem docs_anonymousClass (cx : Context) (type : ClassType) (arguments : Node (.many .expr))
    (body : List (Member × Context)) (isStatic : Bool) :
    docs (if isStatic then anonymousClass cx type arguments body
        else closure cx.captureName ")(this)" (anonymousClass cx type arguments body)) =
      Script.anonymousClass cx type (type.script (cx.child 1)) (arguments.script (cx.child 2))
        (body.map memberShape) isStatic := by
  cases isStatic with
  | true =>
    simp [anonymousClass, docs_braced, docs_members, docs_parenthesized, Script.anonymousClass,
      Context.outerThis]
    rfl
  | false =>
    simp [anonymousClass, docs_braced, docs_members, docs_parenthesized, Script.anonymousClass,
      Context.outerThis, docs_closure, Doc.between]
    rfl

end Stretch

open Stretch

theorem Node.code_eq_docs {c : Category} (n : Node c) (cx : Context) :
    n.code cx = docs (n.stretches cx) := by
  cases n with
  -- Type declarations
  | classDecl name isInterface modifiers comment annotations typeParameters extended implemented
      members trailing =>
    refine (congrArg (fun ms => Script.classContent _ _ _ _ _ _ ms trailing)
      (script_many members _)).trans ?_
    change Script.classContent name isInterface modifiers _ _ _ (List.map memberShape _) trailing =
      docs (own _ :: braced _ _ (_ ++ [own _]))
    simp [Script.classContent, docs_braced, docs_classMembers]
  | enumDecl name modifiers comment annotations implemented constants members =>
    refine (congrArg (fun ms => Script.enumContent name _ _ ms) (script_many members _)).trans ?_
    exact (docs_enumBody name _ constants _ _).symm
  | annotationDecl name modifiers comment annotations members =>
    refine (congrArg (fun ms => Script.annotationContent name ms) (script_many members _)).trans ?_
    change Script.annotationContent name (List.map memberShape _) = docs (own _ :: braced _ _ _)
    simp [Script.annotationContent, docs_braced, docs_classMembers]
  | enumConstant name comment annotations arguments body =>
    refine (congrArg (fun ms => Script.enumConstant name comment _ _ ms)
      (script_many body _)).trans ?_
    change Script.enumConstant name comment _ _ (List.map memberShape _) =
      docs (own _ :: constantArguments _ _ ++ constantBody _)
    rw [docs_append, docs_cons, docs_constantArguments, docs_constantBody]
    rfl
  -- Members
  | nestedType decl =>
    exact (docs_nestedType (cx.child 0) decl).symm
  | field modifiers comment annotations base declarators =>
    change Script.field cx modifiers comment _ _ _ = docs (own _ :: Stretch.declarators _ _ _ ++ [word ";"])
    simp [Script.field, docs_declarators]
  | method name modifiers comment annotations typeParameters result parameters thrown body =>
    cases body with
    | absent =>
      change Script.method cx name modifiers comment _ _ _ _ _ none = docs [own _, word ";"]
      simp [Script.method]
    | present body =>
      change Script.method cx name modifiers comment _ _ _ _ _ (some (body.code _)) =
        docs [own _, word " ", placed (body, _)]
      simp [Script.method]
  | constructor name modifiers comment annotations typeParameters parameters thrown body =>
    change Script.constructor comment _ _ _ (body.code (cx.child 2)) = docs [own _, node body _]
    simp [Script.constructor]
  | initializer isStatic comment body =>
    change Script.initializer isStatic comment (body.code (cx.child 0)) = docs [own _, node body _]
    simp [Script.initializer]
  -- Statements
  | block statements trailing =>
    refine (congrArg (fun ss => Script.block ss trailing) (script_many statements _)).trans ?_
    change Script.block (List.map stmtShape _) trailing = docs (braced _ _ (_ ++ [own _]))
    simp [Script.block, docs_braced, docs_stmtLines]
  | switchEntry label statements =>
    refine (congrArg (fun ss => Script.switchEntry _ ss) (script_many statements _)).trans ?_
    cases label with
    | absent =>
      change Script.switchEntry none (List.map stmtShape _) =
        docs ([word _] ++ own _ :: List.flatMap stmtLine _ ++ [own _])
      simp [Script.switchEntry, docs_stmtLines, Doc.indented, Doc.newline]
    | present label =>
      change Script.switchEntry (some (label.code _)) (List.map stmtShape _) =
        docs ([word _, placed (label, _), word _] ++ own _ :: List.flatMap stmtLine _ ++ [own _])
      simp [Script.switchEntry, docs_stmtLines, Doc.indented, Doc.newline, Doc.between]
  | catchClause caught body =>
    change Script.catchClause _ (body.code (cx.child 0)) = docs [own _, node body _]
    simp [Script.catchClause]
  | variableGroup modifiers annotations base declarators =>
    change Script.variableGroup modifiers _ _ _ = docs (own _ :: Stretch.declarators _ _ _)
    simp [Script.variableGroup, docs_declarators]
  | blockStmt body => exact (List.append_nil _).symm
  | exprStmt expr => exact (congrArg _ (List.append_nil _)).symm
  | localType decl =>
    exact (docs_localType cx decl (cx.child 0)).symm
  | labeled label statement =>
    change Doc.text label ++ Doc.text ": " ++ statement.code (cx.child 0) = docs [own _, node _ _]
    simp
  | switchStmt selector entries =>
    refine (congrArg (fun es => Script.switchStmt _ es) (script_many entries _)).trans ?_
    change Script.switchStmt (selector.code _)
        (List.map (fun (p : Node .switchEntry × Context) => p.1.code p.2) _) =
      docs ([word _, node selector _] ++ braced _ _ (List.map placed _))
    simp [Script.switchStmt, docs_braced, docs_map_placed]
  | returnStmt expr =>
    cases expr with
    | absent => rfl
    | present expr =>
      change Script.returnStmt (some (expr.code _)) =
        docs [word "return", word " ", placed (expr, _), word ";"]
      simp [Script.returnStmt]
  | ifStmt condition thenStmt elseStmt =>
    have hthen := docs_consequent (thenStmt, cx.child 1)
    cases elseStmt with
    | absent =>
      change Script.ifStmt (condition.code (cx.child 0)) (stmtShape (thenStmt, cx.child 1)) none =
        docs ([word _, node _ _] ++ consequent _ ++ [])
      simp [Script.ifStmt, hthen]
    | present elseStmt =>
      change Script.ifStmt (condition.code (cx.child 0)) (stmtShape (thenStmt, cx.child 1))
          (some (stmtShape (elseStmt, (cx.child 2).content))) =
        docs ([word _, node _ _] ++ consequent _ ++ own _ :: alternative _)
      simp [Script.ifStmt, hthen, docs_alternative]
  | whileStmt condition body =>
    change Doc.text "while (" ++ condition.code (cx.child 0) ++ Doc.text ") " ++ body.code (cx.child 1)
      = docs [word _, node _ _, word _, node _ _]
    simp
  | doStmt body condition =>
    change Doc.text "do " ++ body.code (cx.child 0) ++ Doc.text " while ("
        ++ condition.code (cx.child 1) ++ Doc.text ");"
      = docs [word _, node _ _, word _, node _ _, word _]
    simp
  | forEachStmt loopVariable iterable body =>
    change Script.forEachStmt _ _ (iterable.code (cx.child 0)) (stmtShape (body, cx.child 1)) =
      docs [own _, node _ _, word _, node _ _]
    simp [Script.forEachStmt]
    rfl
  | forStmt init compare update body =>
    change Script.forStmt _ (compare.script (cx.child 1)) _ (stmtShape (body, cx.child 3)) =
      docs (word _ :: listing init _ ++ word _ :: Option.toList _ ++ word _ :: listing update _
        ++ [word _, node _ _])
    have hcompare : docs ((compare.content? (cx.child 1)).map placed).toList =
        Option.getD (compare.script (cx.child 1)) [] := by
      cases compare with
      | absent => rfl
      | present compare => exact List.append_nil _
    simp [Script.forStmt, docs_listing_expr, hcompare]
    rfl
  | throwStmt expr =>
    change Doc.between _ _ (expr.code (cx.child 0)) = docs [word _, node _ _, word _]
    simp [Doc.between]
  | synchronizedStmt lock body =>
    change Script.synchronizedStmt (body.code (cx.child 0)) = docs [own _, node _ _]
    simp [Script.synchronizedStmt]
  | tryStmt resources body catches finallyBlock =>
    refine (congrArg₂ (fun rs cs => Script.tryStmt rs _ cs _) (script_many resources _)
      (script_many catches _)).trans ?_
    cases finallyBlock with
    | absent =>
      change Script.tryStmt (List.map (fun (p : VariableGroup × Context) => p.1.code p.2) _)
          (body.code (cx.child 1))
          (List.map (fun (p : Node .catchClause × Context) => p.1.code p.2) _) none =
        docs (Stretch.resources _ ++ word _ :: node _ _ :: List.map placed _ ++ [])
      simp [Script.tryStmt, docs_resources, docs_map_placed]
    | present last =>
      change Script.tryStmt (List.map (fun (p : VariableGroup × Context) => p.1.code p.2) _)
          (body.code (cx.child 1))
          (List.map (fun (p : Node .catchClause × Context) => p.1.code p.2) _)
          (some (last.code _)) =
        docs (Stretch.resources _ ++ word _ :: node _ _ :: List.map placed _
          ++ [word _, placed (last, _)])
      simp [Script.tryStmt, docs_resources, docs_map_placed]
  | constructorCall isThis expr typeArguments arguments =>
    change Script.constructorCall isThis (expr.script (cx.child 0)) _ =
      docs ((if isThis then [word "this"] else scope _ _ ++ [word "super"]) ++ parenthesized _ _
        ++ [word ";"])
    cases isThis with
    | true => simp [Script.constructorCall, docs_parenthesized]
    | false => simp [Script.constructorCall, docs_parenthesized, ← docs_scope]
  -- Expressions
  | creationLevel size annotations =>
    cases size with
    | absent => rfl
    | present size => exact (List.append_nil _).symm
  | lambdaExpr expr => exact (List.append_nil _).symm
  | lambdaBlock body => exact (List.append_nil _).symm
  | fieldAccess scope name =>
    change Script.underScope (some (scope.code (cx.child 0))) _ = docs [_, _, _]
    simp [Script.underScope]
  | arrayAccess base index =>
    change Script.arrayAccess (base.code (cx.child 0)) (index.code (cx.child 1)) = docs [_, _, _, _]
    simp [Script.arrayAccess]
  | arrayCreation elementType levels initial =>
    cases initial with
    | present values =>
      change Script.arrayLiteral _ = docs (word _ :: listing values _ ++ [word _])
      simp [Script.arrayLiteral, docs_listing_expr, Doc.between]
    | absent =>
      refine (congrArg (fun ls => Script.sizedArray _ ls) (script_many levels _)).trans ?_
      exact (docs_sizedArray _ (inSequence (cx.child 1) levels.toList)).symm
  | arrayInitializer values =>
    change Script.arrayLiteral _ = docs (word _ :: listing values _ ++ [word _])
    simp [Script.arrayLiteral, docs_listing_expr, Doc.between]
  | assign target op value =>
    change Script.infixed (target.code (cx.child 0)) _ (value.code (cx.child 1)) = docs [_, _, _]
    simp [Script.infixed]
  | binary left op right =>
    change Script.infixed (left.code (cx.child 0)) _ (right.code (cx.child 1)) = docs [_, _, _]
    simp [Script.infixed]
  | unary op expr =>
    change Script.unary op (expr.code (cx.child 0)) = docs (if _ then [_, _] else [_, _])
    unfold Script.unary
    split <;> simp
  | cast type expr =>
    change Script.cast _ _ (expr.code (cx.child 1)) = docs (if _ then [_, _, _] else [_, _])
    unfold Script.cast
    split <;> simp [Doc.between]
  | conditional condition thenExpr elseExpr =>
    change Script.conditional (condition.code (cx.child 0)) (thenExpr.code (cx.child 1))
      (elseExpr.code (cx.child 2)) = docs [_, _, _, _, _]
    simp [Script.conditional]
  | enclosed inner =>
    change Doc.between _ _ (inner.code (cx.child 0)) = docs [_, _, _]
    simp [Doc.between]
  | instanceOf expr type =>
    change Script.infixed (expr.code (cx.child 0)) _ _ = docs [_, _]
    simp [Script.infixed]
  | methodCall receiver typeArguments name arguments =>
    change Script.methodCall (receiver.script (cx.child 0)) _ _ _ =
      docs (scope receiver _ ++ own _ :: parenthesized arguments _)
    simp [Script.methodCall, docs_parenthesized, ← docs_scope]
  | objectCreation receiver type typeArguments arguments anonymousBody =>
    cases anonymousBody with
    | absent =>
      change Script.underScope (receiver.script (cx.child 0)) _ =
        docs (scope receiver _ ++ typed _ _ :: parenthesized arguments _)
      simp [docs_parenthesized, ← docs_scope, typed]
    | present body =>
      have hbody := docs_anonymousClass cx type arguments (inSequence
        ((cx.enterAnonymous (cx.createsStatic receiver)).child 3).content body.toList)
        (cx.createsStatic receiver)
      have hreceiver : Option.isSome (receiver.script (cx.child 0)) = receiver.toOption.isSome := by
        cases receiver <;> rfl
      refine (congrArg (fun ms => Script.objectCreation cx _ type _ _ (some ms) _)
        (script_many body _)).trans ?_
      change (if Option.isSome (receiver.script (cx.child 0)) then _ else _)
        ++ Script.anonymousClass cx type _ _ (List.map memberShape _) _ = docs (own _ :: ite _ _ _)
      rw [docs_cons, hreceiver, hbody]
      rfl
  | lambda parameters isEnclosed body =>
    change Script.lambda _ _ (body.code (cx.child 1)) = docs [own _, node _ _]
    simp [Script.lambda]
  | methodReference scope typeArguments identifier =>
    change Doc.unsupported _ ++ Script.underScope (some (scope.code (cx.child 0))) _ =
      docs [_, _, _, _]
    simp [Script.underScope]
  | variableDeclaration decl => exact (List.append_nil _).symm
  | _ => exact (List.append_nil _).symm

namespace Stretch

def Every (P : Stretch → Prop) (ps : List Stretch) : Prop := ∀ p ∈ ps, P p

/-- The property holds of every document that opens and closes nothing. -/
class Lenient (P : Stretch → Prop) : Prop where
  quiet : ∀ {d : Doc}, d.IsQuiet → P (.own d)

namespace Every

variable {P : Stretch → Prop} {ps qs : List Stretch} {c : Category} {cx : Context}

theorem nil : Every P [] := List.forall_mem_nil _

theorem own {d : Doc} (hd : P (.own d)) (h : Every P ps) : Every P (.own d :: ps) :=
  List.forall_mem_cons.mpr ⟨hd, h⟩

theorem node {n : Node c} (hn : P (.node n cx)) (h : Every P ps) : Every P (.node n cx :: ps) :=
  List.forall_mem_cons.mpr ⟨hn, h⟩

theorem append (hp : Every P ps) (hq : Every P qs) : Every P (ps ++ qs) :=
  List.forall_mem_append.mpr ⟨hp, hq⟩

theorem ite {p : Prop} [Decidable p] (hp : Every P ps) (hq : Every P qs) :
    Every P (if p then ps else qs) := by
  split
  · exact hp
  · exact hq

theorem flatMap {α : Type} {as : List α} {f : α → List Stretch} (h : ∀ a ∈ as, Every P (f a)) :
    Every P (as.flatMap f) :=
  List.forall_mem_flatMap.mpr h

theorem placed {l : List (Node c × Context)} (h : ∀ p ∈ l, P (.placed p)) :
    Every P (l.map Stretch.placed) :=
  List.forall_mem_map.mpr h

theorem optional {o : Node (.optional c)} (h : ∀ p ∈ o.content? cx, P (.placed p)) :
    Every P ((o.content? cx).map Stretch.placed).toList := by
  cases o with
  | absent => exact nil
  | present n => exact node (h _ rfl) nil

variable [Lenient P]

theorem quiet {d : Doc} (hd : d.IsQuiet) (h : Every P ps) : Every P (.own d :: ps) :=
  own (Lenient.quiet hd) h

theorem separated {pss : List (List Stretch)} (h : ∀ ps ∈ pss, Every P ps) :
    Every P (separated ", " pss) := by
  induction pss with
  | nil => exact nil
  | cons ps rest ih =>
    obtain ⟨hps, hrest⟩ := List.forall_mem_cons.mp h
    cases rest with
    | nil => exact hps
    | cons qs rest => exact hps.append (quiet (fun _ => rfl) (ih hrest))

theorem listing {ns : Node (.many c)} (h : ∀ p ∈ inSequence cx ns.toList, P (.placed p)) :
    Every P (Stretch.listing ns cx) := by
  refine separated (List.forall_mem_map.mpr ?_)
  exact fun p hp => node (h p hp) nil

theorem parenthesized {ns : Node (.many c)} (h : ∀ p ∈ inSequence cx ns.toList, P (.placed p)) :
    Every P (Stretch.parenthesized ns cx) :=
  quiet (fun _ => rfl) ((listing h).append (quiet (fun _ => rfl) nil))

theorem scope {o : Node (.optional c)} (h : ∀ p ∈ o.content? cx, P (.placed p)) :
    Every P (Stretch.scope o cx) := by
  cases o with
  | absent => exact nil
  | present n => exact node (h _ rfl) (quiet (fun _ => rfl) nil)

theorem members {ms : List (Member × Context)} (h : ∀ m ∈ ms, P (.placed m)) :
    Every P (Stretch.members ms) :=
  flatMap fun m hm => quiet (fun _ => rfl) (node (h m hm) (quiet (fun _ => rfl) nil))

theorem classMembers {ms : List (Member × Context)} (h : ∀ m ∈ ms, P (.placed m)) :
    Every P (Stretch.classMembers ms) :=
  (members fun m hm => h m (List.mem_filter.mp hm).1).append
    (members fun m hm => h m (List.mem_filter.mp hm).1)

theorem stmtLines {ss : List (Stmt × Context)} (h : ∀ s ∈ ss, P (.placed s)) :
    Every P (ss.flatMap stmtLine) :=
  flatMap fun s hs => ite (node (h s hs) nil) (node (h s hs) (quiet (fun _ => rfl) nil))

theorem consequent {s : Stmt × Context} (h : P (.placed s)) : Every P (Stretch.consequent s) :=
  ite (quiet (fun _ => rfl) (node h nil))
    (quiet (fun _ => rfl) (node h (quiet (fun _ => rfl) nil)))

theorem alternative {s : Stmt × Context} (h : P (.placed s)) : Every P (Stretch.alternative s) :=
  ite (quiet (fun _ => rfl) (node h nil))
    (quiet (fun _ => rfl) (node h (quiet (fun _ => rfl) nil)))

theorem afterConstants (hasConstants : Bool) {ms : List (Member × Context)}
    (h : ∀ m ∈ ms, P (.placed m)) : Every P (Stretch.afterConstants hasConstants ms) :=
  ite (ite (quiet (fun _ => rfl) nil) nil) (quiet (fun _ => rfl) (members h))

theorem constantArguments {arguments : Node (.many .expr)}
    (h : ∀ p ∈ inSequence cx arguments.toList, P (.placed p)) :
    Every P (Stretch.constantArguments arguments cx) :=
  ite nil (parenthesized h)

theorem resources {groups : List (VariableGroup × Context)} (h : ∀ g ∈ groups, P (.placed g)) :
    Every P (Stretch.resources groups) :=
  ite nil (quiet (fun _ => rfl) (flatMap fun g hg => node (h g hg) (quiet (fun _ => rfl) nil)))

theorem sizedArray {elementType : Doc} {levels : List (Node .creationLevel × Context)}
    (htype : P (.own (Doc.text "new Array<" ++ elementType
      ++ Doc.concat (levels.tail.map fun _ => Doc.text "[]") ++ Doc.text ">(")))
    (h : ∀ l ∈ levels, P (.placed l)) : Every P (Stretch.sizedArray elementType levels) := by
  refine own htype ?_
  cases levels with
  | nil => exact quiet (fun _ => rfl) nil
  | cons l ls => exact node (h l List.mem_cons_self) (quiet (fun _ => rfl) nil)

theorem declarators {base : Option Doc} {ds : Node (.many .declarator)}
    (h : ∀ d ∈ inSequence cx ds.toList, Every P (declarator base d)) :
    Every P (Stretch.declarators base ds cx) :=
  separated (List.forall_mem_map.mpr h)

end Every
end Stretch

end TypeScribe
