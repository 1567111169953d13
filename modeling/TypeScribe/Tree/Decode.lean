import TypeScribe.Json.Reader
import TypeScribe.Json.Record
import TypeScribe.Tree.CompilationUnit
import TypeScribe.Tree.Schema

/-!
# Trees from JSON

The readers of the node kinds take a value and a reader for the values inside it. `nodeWithin` ties
them together: every value inside an object or array is read with one level less, and the depth of a
value is always enough. A missing field stands for its default only where the tree format says so,
and `null` only for an optional child.

A node of several kinds carries a tag, which is the first element if the node is an array. Whatever
is inside such a node must be sound, and is read a little more freely: a tag there may be the
position of the kind, and a keyword may hold an empty object.
-/
namespace TypeScribe
set_option autoImplicit false

/-- Where a value stands. -/
inductive Place where
  /-- Around every tagged node. -/
  | outside
  /-- Inside a tagged node. -/
  | inside
  deriving DecidableEq

/-- Reads a node of the wanted category. -/
structure NodeReader where
  place : Place
  /-- Reads what is inside the node. -/
  read : Place → (c : Category) → Json → Option (Node c)

namespace NodeReader

/-- Reads a value in the same place. -/
def here (r : NodeReader) (c : Category) (j : Json) : Option (Node c) := r.read r.place c j

/-- The reader for what a tagged node holds. -/
def inside (r : NodeReader) : NodeReader := { r with place := .inside }

end NodeReader

namespace Json

/-- Nothing, as a keyword may hold it. -/
def isNothing (place : Place) : Json → Bool
  | .null => true
  | .object [] => place == .inside
  | _ => false

/-- A keyword, alone or as the only key of an object that holds nothing. -/
def keyword? {α : Type} [Keyword α] (place : Place) : Json → Option α
  | .string s => Keyword.ofString? s
  | .object [(s, j)] => if j.isNothing place then Keyword.ofString? s else none
  | _ => none

/-- A list of keywords. -/
def keywords? {α : Type} [Keyword α] (place : Place) : Json → Option (List α)
  | .array elements => elements.mapM (keyword? place)
  | _ => none

def modifiers? (place : Place) (j : Json) : Option ModifierSet :=
  (j.keywords? place).map ModifierSet.ofList

/-- One of the given kinds, by name or, inside a tagged node, by position. -/
def kind? (place : Place) (kinds : List Kind) : Json → Option Kind
  | .string s => kinds.find? fun kind => kind.name == s
  | .number literal =>
    match place with
    | .outside => none
    | .inside => (kinds.zipIdx.find? fun (_, position) => toString position == literal).map (·.1)
  | _ => none

/-- The tag of a node, and the value that holds the fields of its kind. -/
def splitTag? (key : String) : Json → Option (Json × Json)
  | .object entries =>
    match Entries.field? entries key with
    | some (some tag) => some (tag, .object entries)
    | _ => none
  | .array (tag :: elements) => some (tag, .array elements)
  | _ => none

/-- A node of a known kind, and the value that holds the fields of that kind. -/
structure Tagged where
  kind : Kind
  content : Json

def Tagged.entries? (t : Tagged) : Option Entries := t.content.record? t.kind.fields

/-- Reads the tag of a node under the given key. -/
def tagged? (place : Place) (key : String) (kinds : List Kind) (j : Json) : Option Tagged :=
  if place == .inside || j.isSound then do
    let (tag, content) ← j.splitTag? key
    return { kind := ← tag.kind? place kinds, content := content }
  else none

end Json

open Json

def Comment.ofEntries? (place : Place) (e : Entries) : Option Comment := do
  return { kind := ← e.required "kind" (keyword? place), content := ← e.required "content" string? }

def Comment.ofJson? (place : Place) (j : Json) : Option Comment := do
  Comment.ofEntries? place (← j.record? Schema.comment)

def commentsOfJson? (place : Place) (j : Json) : Option (List Comment) := do
  (← j.array?).mapM (Comment.ofJson? place)

namespace Json.Entries

def name? (e : Entries) : Option String := e.required "name" string?

def modifiers? (e : Entries) (r : NodeReader) : Option ModifierSet :=
  e.defaulted "modifiers" .empty (Json.modifiers? r.place)

def comment? (e : Entries) (r : NodeReader) : Option (Option Comment) :=
  e.optional "comment" (Comment.ofJson? r.place)

def trailingComments? (e : Entries) (r : NodeReader) : Option (List Comment) :=
  e.defaulted "trailing_comments" [] (commentsOfJson? r.place)

def flag? (e : Entries) (key : String) : Option Bool := e.defaulted key false bool?

/-- A child that must be given. -/
def child? (e : Entries) (r : NodeReader) (c : Category) (key : String) : Option (Node c) :=
  e.required key (r.here c)

/-- A sequence that is empty when it is not given. -/
def children? (e : Entries) (r : NodeReader) (c : Category) (key : String) :
    Option (Node (.many c)) :=
  e.defaulted key .nil (r.here (.many c))

def optionalChild? (e : Entries) (r : NodeReader) (c : Category) (key : String) :
    Option (Node (.optional c)) :=
  e.defaulted key .absent (r.here (.optional c))

def annotations? (e : Entries) (r : NodeReader) : Option (Node (.many .annotationUse)) :=
  e.children? r .annotationUse "annotations"

end Json.Entries

namespace Decode

def annotationUse (r : NodeReader) (e : Entries) : Option AnnotationUse := do
  let name ← e.name?
  match ← e.field? "arguments" with
  | none => return .annotationMarker name
  | some j =>
    let t ← j.tagged? r.place "kind" Schema.annotationArguments
    let arguments ← t.entries?
    match t.kind.name with
    | "marker" => return .annotationMarker name
    | "single" => return .annotationSingle name (← arguments.child? r.inside .expr "value")
    | "normal" =>
      return .annotationNormal name (← arguments.child? r.inside (.many .element) "pairs")
    | _ => none

def element (r : NodeReader) (e : Entries) : Option (Node .element) := do
  return .element (← e.name?) (← e.child? r .expr "value")

def classDecl (r : NodeReader) (e : Entries) : Option TypeDecl := do
  return .classDecl (← e.name?) (← e.flag? "is_interface") (← e.modifiers? r) (← e.comment? r)
    (← e.annotations? r) (← e.children? r .typeParameter "type_parameters")
    (← e.children? r .classType "extended_types")
    (← e.children? r .classType "implemented_types") (← e.children? r .member "members")
    (← e.trailingComments? r)

def enumDecl (r : NodeReader) (e : Entries) : Option TypeDecl := do
  return .enumDecl (← e.name?) (← e.modifiers? r) (← e.comment? r) (← e.annotations? r)
    (← e.children? r .classType "implemented_types")
    (← e.children? r .enumConstant "entries") (← e.children? r .member "members")

def annotationDecl (r : NodeReader) (e : Entries) : Option TypeDecl := do
  return .annotationDecl (← e.name?) (← e.modifiers? r) (← e.comment? r) (← e.annotations? r)
    (← e.children? r .member "members")

def typeDeclOf (r : NodeReader) (kind : String) (e : Entries) : Option TypeDecl :=
  match kind with
  | "class" => classDecl r e
  | "enum" => enumDecl r e
  | "annotation" => annotationDecl r e
  | _ => none

def typeDecl (r : NodeReader) (j : Json) : Option TypeDecl := do
  let t ← j.tagged? r.place "kind" Schema.typeDecl
  typeDeclOf r.inside t.kind.name (← t.entries?)

def enumConstant (r : NodeReader) (e : Entries) : Option (Node .enumConstant) := do
  return .enumConstant (← e.name?) (← e.comment? r) (← e.annotations? r)
    (← e.children? r .expr "arguments") (← e.children? r .member "class_body")

def field (r : NodeReader) (e : Entries) : Option Member := do
  return .field (← e.modifiers? r) (← e.comment? r) (← e.annotations? r)
    (← e.child? r .typeUse "base_type") (← e.child? r (.many .declarator) "variables")

def method (r : NodeReader) (e : Entries) : Option Member := do
  return .method (← e.name?) (← e.modifiers? r) (← e.comment? r) (← e.annotations? r)
    (← e.children? r .typeParameter "type_parameters") (← e.child? r .typeUse "return_type")
    (← e.children? r .parameter "parameters") (← e.children? r .typeUse "thrown_exceptions")
    (← e.optionalChild? r .block "body")

def constructor (r : NodeReader) (e : Entries) : Option Member := do
  return .constructor (← e.name?) (← e.modifiers? r) (← e.comment? r) (← e.annotations? r)
    (← e.children? r .typeParameter "type_parameters")
    (← e.children? r .parameter "parameters") (← e.children? r .typeUse "thrown_exceptions")
    (← e.defaulted "body" (.block .nil []) (r.here .block))

def initializer (r : NodeReader) (e : Entries) : Option Member := do
  return .initializer (← e.flag? "is_static") (← e.comment? r) (← e.child? r .block "body")

def annotationMember (r : NodeReader) (e : Entries) : Option Member := do
  return .annotationMember (← e.name?) (← e.modifiers? r) (← e.comment? r) (← e.annotations? r)
    (← e.child? r .typeUse "type") (← e.optionalChild? r .expr "default_value")

def memberOf (r : NodeReader) (kind : String) (e : Entries) : Option Member :=
  match kind with
  | "field" => field r e
  | "method" => method r e
  | "constructor" => constructor r e
  | "initializer" => initializer r e
  | "annotation_member" => annotationMember r e
  | _ => none

def member (r : NodeReader) (j : Json) : Option Member := do
  let t ← j.tagged? r.place "member" Schema.member
  if t.kind.name == "type" then return .nestedType (← typeDecl r.inside t.content)
  else memberOf r.inside t.kind.name (← t.entries?)

def declarator (r : NodeReader) (e : Entries) : Option (Node .declarator) := do
  return .declarator (← e.name?) (← e.children? r .dimension "extra_dimensions")
    (← e.optionalChild? r .expr "initializer")

def dimension (r : NodeReader) (e : Entries) : Option (Node .dimension) := do
  return .dimension (← e.annotations? r)

def parameter (r : NodeReader) (e : Entries) : Option (Node .parameter) := do
  return .parameter (← e.name?) (← e.child? r .typeUse "type") (← e.modifiers? r)
    (← e.annotations? r) (← e.flag? "is_var_args")
    (← e.children? r .annotationUse "var_args_annotations")

def typeParameter (r : NodeReader) (e : Entries) : Option (Node .typeParameter) := do
  return .typeParameter (← e.name?) (← e.children? r .classType "bounds")
    (← e.annotations? r)

def classType (r : NodeReader) (e : Entries) : Option ClassType := do
  return .classType (← e.optionalChild? r .classType "scope") (← e.name?)
    (← e.optionalChild? r (.many .typeUse) "type_arguments") (← e.annotations? r)

def typeUseOf (r : NodeReader) (kind : String) (e : Entries) : Option TypeUse := do
  match kind with
  | "primitive" =>
    return .primitive (← e.required "primitive" (keyword? r.place)) (← e.annotations? r)
  | "class" => return .classUse (← classType r e)
  | "array" => return .array (← e.child? r .typeUse "component") (← e.annotations? r)
  | "void" => return .void (← e.annotations? r)
  | "intersection" => return .intersection (← e.child? r (.many .typeUse) "elements")
  | "union" => return .union (← e.child? r (.many .typeUse) "elements")
  | "wildcard" =>
    return .wildcard (← e.optionalChild? r .typeUse "extends")
      (← e.optionalChild? r .typeUse "super_bound") (← e.annotations? r)
  | "unknown" => return .unknown
  | _ => none

def typeUse (r : NodeReader) (j : Json) : Option TypeUse := do
  let t ← j.tagged? r.place "kind" Schema.typeUse
  typeUseOf r.inside t.kind.name (← t.entries?)

def block (r : NodeReader) (e : Entries) : Option Block := do
  return .block (← e.children? r .stmt "statements") (← e.trailingComments? r)

def switchEntry (r : NodeReader) (e : Entries) : Option (Node .switchEntry) := do
  return .switchEntry (← e.optionalChild? r .expr "label")
    (← e.children? r .stmt "statements")

def catchClause (r : NodeReader) (e : Entries) : Option (Node .catchClause) := do
  return .catchClause (← e.child? r .parameter "parameter") (← e.child? r .block "body")

def variableGroup (r : NodeReader) (e : Entries) : Option VariableGroup := do
  return .variableGroup (← e.modifiers? r) (← e.annotations? r) (← e.child? r .typeUse "base_type")
    (← e.child? r (.many .declarator) "variables")

def stmtOf (r : NodeReader) (kind : String) (e : Entries) : Option Stmt := do
  match kind with
  | "block" => return .blockStmt (← block r e)
  | "expression" => return .exprStmt (← e.child? r .expr "expr")
  | "assert" =>
    return .assertStmt (← e.child? r .expr "check") (← e.optionalChild? r .expr "message")
  | "labeled" =>
    return .labeled (← e.required "label" string?) (← e.child? r .stmt "statement")
  | "empty" => return .emptyStmt
  | "switch" =>
    return .switchStmt (← e.child? r .expr "selector")
      (← e.children? r .switchEntry "entries")
  | "break" => return .breakStmt (← e.optional "label" string?)
  | "continue" => return .continueStmt (← e.optional "label" string?)
  | "return" => return .returnStmt (← e.optionalChild? r .expr "expr")
  | "if" =>
    return .ifStmt (← e.child? r .expr "condition") (← e.child? r .stmt "then")
      (← e.optionalChild? r .stmt "otherwise")
  | "while" =>
    return .whileStmt (← e.child? r .expr "condition") (← e.child? r .stmt "body")
  | "do" => return .doStmt (← e.child? r .stmt "body") (← e.child? r .expr "condition")
  | "for_each" =>
    return .forEachStmt (← e.child? r .variableGroup "variable") (← e.child? r .expr "iterable")
      (← e.child? r .stmt "body")
  | "for" =>
    return .forStmt (← e.children? r .expr "init") (← e.optionalChild? r .expr "compare")
      (← e.children? r .expr "update") (← e.child? r .stmt "body")
  | "throw" => return .throwStmt (← e.child? r .expr "expr")
  | "synchronized" =>
    return .synchronizedStmt (← e.child? r .expr "lock") (← e.child? r .block "body")
  | "try" =>
    return .tryStmt (← e.children? r .variableGroup "resources") (← e.child? r .block "block")
      (← e.children? r .catchClause "catches") (← e.optionalChild? r .block "finally")
  | "explicit_constructor_invocation" =>
    return .constructorCall (← e.required "is_this" bool?) (← e.optionalChild? r .expr "expr")
      (← e.children? r .typeUse "type_arguments") (← e.children? r .expr "arguments")
  | "comment" => return .commentStmt (← Comment.ofEntries? r.place e)
  | "unparsable" => return .unparsable
  | _ => none

def stmt (r : NodeReader) (j : Json) : Option Stmt := do
  let t ← j.tagged? r.place "stmt" Schema.stmt
  if t.kind.name == "local_class" then return .localType (← typeDecl r.inside t.content)
  else stmtOf r.inside t.kind.name (← t.entries?)

def creationLevel (r : NodeReader) (e : Entries) : Option (Node .creationLevel) := do
  return .creationLevel (← e.optionalChild? r .expr "dimension") (← e.annotations? r)

def lambdaBodyOf (r : NodeReader) (kind : String) (e : Entries) : Option (Node .lambdaBody) := do
  match kind with
  | "expression" => return .lambdaExpr (← e.child? r .expr "expr")
  | "block" => return .lambdaBlock (← block r e)
  | _ => none

def lambdaBody (r : NodeReader) (j : Json) : Option (Node .lambdaBody) := do
  let t ← j.tagged? r.place "kind" Schema.lambdaBody
  lambdaBodyOf r.inside t.kind.name (← t.entries?)

def exprOf (r : NodeReader) (kind : String) (e : Entries) : Option Expr := do
  match kind with
  | "name" => return .nameExpr (← e.name?)
  | "field_access" => return .fieldAccess (← e.child? r .expr "scope") (← e.name?)
  | "array_access" =>
    return .arrayAccess (← e.child? r .expr "array") (← e.child? r .expr "index")
  | "array_creation" =>
    return .arrayCreation (← e.child? r .typeUse "element_type")
      (← e.child? r (.many .creationLevel) "levels")
      (← e.optionalChild? r (.many .expr) "initializer")
  | "array_initializer" => return .arrayInitializer (← e.child? r (.many .expr) "values")
  | "assign" =>
    return .assign (← e.child? r .expr "target") (← e.required "op" (keyword? r.place))
      (← e.child? r .expr "value")
  | "binary" =>
    return .binary (← e.child? r .expr "left") (← e.required "op" (keyword? r.place))
      (← e.child? r .expr "right")
  | "unary" => return .unary (← e.required "op" (keyword? r.place)) (← e.child? r .expr "expr")
  | "cast" => return .cast (← e.child? r .typeUse "type") (← e.child? r .expr "expr")
  | "class" => return .classLiteral (← e.child? r .typeUse "type")
  | "conditional" =>
    return .conditional (← e.child? r .expr "condition") (← e.child? r .expr "then")
      (← e.child? r .expr "otherwise")
  | "enclosed" => return .enclosed (← e.child? r .expr "inner")
  | "instance_of" =>
    return .instanceOf (← e.child? r .expr "expr") (← e.child? r .typeUse "type")
  | "integer_literal" => return .integerLiteral (← e.required "value" string?)
  | "long_literal" => return .longLiteral (← e.required "value" string?)
  | "double_literal" => return .doubleLiteral (← e.required "value" string?)
  | "char_literal" => return .charLiteral (← e.required "value" string?)
  | "string_literal" => return .stringLiteral (← e.required "value" string?)
  | "boolean_literal" => return .booleanLiteral (← e.required "value" bool?)
  | "null_literal" => return .nullLiteral
  | "this" => return .thisExpr (← e.optional "qualifier" string?)
  | "super" => return .superExpr (← e.optional "qualifier" string?)
  | "method_call" =>
    return .methodCall (← e.optionalChild? r .expr "scope")
      (← e.children? r .typeUse "type_arguments") (← e.name?)
      (← e.children? r .expr "arguments")
  | "object_creation" =>
    return .objectCreation (← e.optionalChild? r .expr "scope")
      (← e.child? r .classType "type") (← e.children? r .typeUse "type_arguments")
      (← e.children? r .expr "arguments")
      (← e.optionalChild? r (.many .member) "anonymous_body")
  | "lambda" =>
    return .lambda (← e.child? r (.many .parameter) "parameters")
      (← e.flag? "enclosing_parameters") (← e.child? r .lambdaBody "body")
  | "method_reference" =>
    return .methodReference (← e.child? r .expr "scope")
      (← e.children? r .typeUse "type_arguments") (← e.required "identifier" string?)
  | "type_expr" => return .typeExpr (← e.child? r .typeUse "type")
  | "variable_declaration" => return .variableDeclaration (← variableGroup r e)
  | "annotation" => return .annotationExpr (← annotationUse r e)
  | _ => none

def expr (r : NodeReader) (j : Json) : Option Expr := do
  let t ← j.tagged? r.place "kind" Schema.expr
  exprOf r.inside t.kind.name (← t.entries?)

/-- Reads one node. -/
def node (r : NodeReader) : (c : Category) → Json → Option (Node c)
  | .many c, .array elements => (elements.mapM (r.here c)).map .ofList
  | .many _, _ => none
  | .optional _, .null => some .absent
  | .optional c, j => (node r c j).map .present
  | .annotationUse, j => (j.record? Schema.annotationUse).bind (annotationUse r)
  | .element, j => (j.record? Schema.element).bind (element r)
  | .typeDecl, j => typeDecl r j
  | .enumConstant, j => (j.record? Schema.enumConstant).bind (enumConstant r)
  | .member, j => member r j
  | .declarator, j => (j.record? Schema.declarator).bind (declarator r)
  | .dimension, j => (j.record? Schema.dimension).bind (dimension r)
  | .parameter, j => (j.record? Schema.parameter).bind (parameter r)
  | .typeParameter, j => (j.record? Schema.typeParameter).bind (typeParameter r)
  | .typeUse, j => typeUse r j
  | .classType, j => (j.record? Schema.classType).bind (classType r)
  | .block, j => (j.record? Schema.block).bind (block r)
  | .switchEntry, j => (j.record? Schema.switchEntry).bind (switchEntry r)
  | .catchClause, j => (j.record? Schema.catchClause).bind (catchClause r)
  | .variableGroup, j => (j.record? Schema.variableGroup).bind (variableGroup r)
  | .stmt, j => stmt r j
  | .creationLevel, j => (j.record? Schema.creationLevel).bind (creationLevel r)
  | .lambdaBody, j => lambdaBody r j
  | .expr, j => expr r j

/-- Reads a node whose values nest at most `levels` deep. -/
def nodeWithin : (levels : Nat) → Place → (c : Category) → Json → Option (Node c)
  | 0, _ => fun _ _ => none
  | levels + 1, place => node { place := place, read := nodeWithin levels }

end Decode

def Node.ofJson? (c : Category) (j : Json) : Option (Node c) :=
  Decode.nodeWithin j.depth .outside c j

/-- Reads a node whose kind is known from its place and therefore carries no tag. -/
def Node.ofUntagged? {c : Category} (fields : List String)
    (read : NodeReader → Entries → Option (Node c)) (j : Json) : Option (Node c) :=
  (j.record? fields).bind (read { place := .outside, read := Decode.nodeWithin j.depth })

def nodesOfJson? (c : Category) (j : Json) : Option (List (Node c)) := do
  (← j.array?).mapM (Node.ofJson? c)

def Package.ofJson? (j : Json) : Option Package := do
  let e ← j.record? Schema.package
  return {
    name := ← e.name?
    annotations := ← e.defaulted "annotations" [] (nodesOfJson? .annotationUse) }

def Import.ofJson? (j : Json) : Option Import := do
  let e ← j.record? Schema.importUse
  return {
    name := ← e.name?
    isStatic := ← e.flag? "is_static"
    isOnDemand := ← e.flag? "is_asterisk"
    comment := ← e.optional "comment" (Comment.ofJson? .outside) }

def importsOfJson? (j : Json) : Option (List Import) := do (← j.array?).mapM Import.ofJson?

namespace CompilationUnit

def ofJson? (j : Json) : Option CompilationUnit := do
  let e ← j.record? Schema.compilationUnit
  return {
    comment := ← e.optional "comment" (Comment.ofJson? .outside)
    package := ← e.optional "package" Package.ofJson?
    imports := ← e.defaulted "imports" [] importsOfJson?
    types := ← e.defaulted "types" [] (nodesOfJson? .typeDecl)
    trailing := ← e.defaulted "trailing_comments" [] (commentsOfJson? .outside) }

/-- The unit that a JSON document describes. -/
def ofText? (text : String) : Option CompilationUnit := do ofJson? (← Json.scan? text)

end CompilationUnit
end TypeScribe
