import TypeScribe.Json.Basic
import TypeScribe.Tree.CompilationUnit

/-!
# Trees as JSON

Every field of a node is written, an absent child as `null`. A node that is one of several
alternatives carries a tag in front of its fields: `member` for members, `stmt` for statements and
`kind` for everything else.
-/
namespace TypeScribe
set_option autoImplicit false

namespace Json

/-- An object with a tag in front of its entries. -/
def tagged (key value : String) : Json → Json
  | .object entries => .object ((key, .string value) :: entries)
  | j => j

/-- An object without its first entry. -/
def untagged : Json → Json
  | .object (_ :: entries) => .object entries
  | j => j

/-- An array with one more element in front. -/
def push (j : Json) : Json → Json
  | .array elements => .array (j :: elements)
  | _ => .array [j]

def ofOption {α : Type} (encode : α → Json) : Option α → Json
  | none => .null
  | some a => encode a

def ofKeyword {α : Type} [Keyword α] (a : α) : Json := .string (Keyword.keyword a)

end Json

def Comment.toJson (c : Comment) : Json :=
  .object [("kind", .ofKeyword c.kind), ("content", .string c.content)]

def ModifierSet.toJson (s : ModifierSet) : Json := .array (s.toList.map .ofKeyword)

def commentsToJson (comments : List Comment) : Json := .array (comments.map Comment.toJson)

open Json in
def Node.toJson : {c : Category} → Node c → Json
  | _, .nil => .array []
  | _, .cons head tail => push head.toJson tail.toJson
  | _, .absent => .null
  | _, .present node => node.toJson
  | _, .annotationMarker name =>
    .object [("name", .string name), ("arguments", .object [("kind", .string "marker")])]
  | _, .annotationSingle name value =>
    .object [("name", .string name),
      ("arguments", .object [("kind", .string "single"), ("value", value.toJson)])]
  | _, .annotationNormal name elements =>
    .object [("name", .string name),
      ("arguments", .object [("kind", .string "normal"), ("pairs", elements.toJson)])]
  | _, .element name value => .object [("name", .string name), ("value", value.toJson)]
  | _, .classDecl name isInterface modifiers comment annotations typeParameters extended
      implemented members trailing =>
    .object [("kind", .string "class"), ("name", .string name), ("is_interface", .bool isInterface),
      ("modifiers", modifiers.toJson), ("annotations", annotations.toJson),
      ("comment", .ofOption Comment.toJson comment), ("type_parameters", typeParameters.toJson),
      ("extended_types", extended.toJson), ("implemented_types", implemented.toJson),
      ("members", members.toJson), ("trailing_comments", commentsToJson trailing)]
  | _, .enumDecl name modifiers comment annotations implemented constants members =>
    .object [("kind", .string "enum"), ("name", .string name), ("modifiers", modifiers.toJson),
      ("annotations", annotations.toJson), ("comment", .ofOption Comment.toJson comment),
      ("implemented_types", implemented.toJson), ("entries", constants.toJson),
      ("members", members.toJson)]
  | _, .annotationDecl name modifiers comment annotations members =>
    .object [("kind", .string "annotation"), ("name", .string name),
      ("modifiers", modifiers.toJson), ("annotations", annotations.toJson),
      ("comment", .ofOption Comment.toJson comment), ("members", members.toJson)]
  | _, .enumConstant name comment annotations arguments body =>
    .object [("name", .string name), ("annotations", annotations.toJson),
      ("comment", .ofOption Comment.toJson comment), ("arguments", arguments.toJson),
      ("class_body", body.toJson)]
  | _, .nestedType decl => decl.toJson.tagged "member" "type"
  | _, .field modifiers comment annotations baseType declarators =>
    .object [("member", .string "field"), ("modifiers", modifiers.toJson),
      ("annotations", annotations.toJson), ("comment", .ofOption Comment.toJson comment),
      ("base_type", baseType.toJson), ("variables", declarators.toJson)]
  | _, .method name modifiers comment annotations typeParameters returnType parameters thrown
      body =>
    .object [("member", .string "method"), ("name", .string name), ("modifiers", modifiers.toJson),
      ("annotations", annotations.toJson), ("comment", .ofOption Comment.toJson comment),
      ("type_parameters", typeParameters.toJson), ("return_type", returnType.toJson),
      ("parameters", parameters.toJson), ("thrown_exceptions", thrown.toJson),
      ("body", body.toJson)]
  | _, .constructor name modifiers comment annotations typeParameters parameters thrown body =>
    .object [("member", .string "constructor"), ("name", .string name),
      ("modifiers", modifiers.toJson), ("annotations", annotations.toJson),
      ("comment", .ofOption Comment.toJson comment), ("type_parameters", typeParameters.toJson),
      ("parameters", parameters.toJson), ("thrown_exceptions", thrown.toJson),
      ("body", body.toJson)]
  | _, .initializer isStatic comment body =>
    .object [("member", .string "initializer"), ("is_static", .bool isStatic),
      ("comment", .ofOption Comment.toJson comment), ("body", body.toJson)]
  | _, .annotationMember name modifiers comment annotations type defaultValue =>
    .object [("member", .string "annotation_member"), ("name", .string name),
      ("modifiers", modifiers.toJson), ("annotations", annotations.toJson),
      ("comment", .ofOption Comment.toJson comment), ("type", type.toJson),
      ("default_value", defaultValue.toJson)]
  | _, .declarator name dimensions initial =>
    .object [("name", .string name), ("extra_dimensions", dimensions.toJson),
      ("initializer", initial.toJson)]
  | _, .dimension annotations => .object [("annotations", annotations.toJson)]
  | _, .parameter name type modifiers annotations isVarArgs varArgsAnnotations =>
    .object [("name", .string name), ("type", type.toJson), ("modifiers", modifiers.toJson),
      ("annotations", annotations.toJson), ("is_var_args", .bool isVarArgs),
      ("var_args_annotations", varArgsAnnotations.toJson)]
  | _, .typeParameter name bounds annotations =>
    .object [("name", .string name), ("bounds", bounds.toJson),
      ("annotations", annotations.toJson)]
  | _, .primitive base annotations =>
    .object [("kind", .string "primitive"), ("primitive", .ofKeyword base),
      ("annotations", annotations.toJson)]
  | _, .classUse type => type.toJson.tagged "kind" "class"
  | _, .array component annotations =>
    .object [("kind", .string "array"), ("component", component.toJson),
      ("annotations", annotations.toJson)]
  | _, .void annotations =>
    .object [("kind", .string "void"), ("annotations", annotations.toJson)]
  | _, .intersection elements =>
    .object [("kind", .string "intersection"), ("elements", elements.toJson)]
  | _, .union elements => .object [("kind", .string "union"), ("elements", elements.toJson)]
  | _, .wildcard extendsBound superBound annotations =>
    .object [("kind", .string "wildcard"), ("extends", extendsBound.toJson),
      ("super_bound", superBound.toJson), ("annotations", annotations.toJson)]
  | _, .unknown => .object [("kind", .string "unknown")]
  | _, .classType scope name typeArguments annotations =>
    .object [("scope", scope.toJson), ("name", .string name),
      ("type_arguments", typeArguments.toJson), ("annotations", annotations.toJson)]
  | _, .block statements trailing =>
    .object [("statements", statements.toJson), ("trailing_comments", commentsToJson trailing)]
  | _, .switchEntry label statements =>
    .object [("label", label.toJson), ("statements", statements.toJson)]
  | _, .catchClause caught body =>
    .object [("parameter", caught.toJson), ("body", body.toJson)]
  | _, .variableGroup modifiers annotations baseType declarators =>
    .object [("modifiers", modifiers.toJson), ("annotations", annotations.toJson),
      ("base_type", baseType.toJson), ("variables", declarators.toJson)]
  | _, .blockStmt body => body.toJson.tagged "stmt" "block"
  | _, .exprStmt expr => .object [("stmt", .string "expression"), ("expr", expr.toJson)]
  | _, .localType decl => decl.toJson.tagged "stmt" "local_class"
  | _, .assertStmt check message =>
    .object [("stmt", .string "assert"), ("check", check.toJson), ("message", message.toJson)]
  | _, .labeled label statement =>
    .object [("stmt", .string "labeled"), ("label", .string label),
      ("statement", statement.toJson)]
  | _, .emptyStmt => .object [("stmt", .string "empty")]
  | _, .switchStmt selector entries =>
    .object [("stmt", .string "switch"), ("selector", selector.toJson),
      ("entries", entries.toJson)]
  | _, .breakStmt label =>
    .object [("stmt", .string "break"), ("label", .ofOption .string label)]
  | _, .continueStmt label =>
    .object [("stmt", .string "continue"), ("label", .ofOption .string label)]
  | _, .returnStmt expr => .object [("stmt", .string "return"), ("expr", expr.toJson)]
  | _, .ifStmt condition consequent alternative =>
    .object [("stmt", .string "if"), ("condition", condition.toJson),
      ("then", consequent.toJson), ("otherwise", alternative.toJson)]
  | _, .whileStmt condition body =>
    .object [("stmt", .string "while"), ("condition", condition.toJson), ("body", body.toJson)]
  | _, .doStmt body condition =>
    .object [("stmt", .string "do"), ("body", body.toJson), ("condition", condition.toJson)]
  | _, .forEachStmt decl iterable body =>
    .object [("stmt", .string "for_each"), ("variable", decl.toJson),
      ("iterable", iterable.toJson), ("body", body.toJson)]
  | _, .forStmt init compare update body =>
    .object [("stmt", .string "for"), ("init", init.toJson), ("compare", compare.toJson),
      ("update", update.toJson), ("body", body.toJson)]
  | _, .throwStmt expr => .object [("stmt", .string "throw"), ("expr", expr.toJson)]
  | _, .synchronizedStmt lock body =>
    .object [("stmt", .string "synchronized"), ("lock", lock.toJson), ("body", body.toJson)]
  | _, .tryStmt resources body catches finallyBlock =>
    .object [("stmt", .string "try"), ("resources", resources.toJson), ("block", body.toJson),
      ("catches", catches.toJson), ("finally", finallyBlock.toJson)]
  | _, .constructorCall isThis expr typeArguments arguments =>
    .object [("stmt", .string "explicit_constructor_invocation"), ("is_this", .bool isThis),
      ("expr", expr.toJson), ("type_arguments", typeArguments.toJson),
      ("arguments", arguments.toJson)]
  | _, .commentStmt comment => comment.toJson.tagged "stmt" "comment"
  | _, .unparsable => .object [("stmt", .string "unparsable")]
  | _, .creationLevel size annotations =>
    .object [("dimension", size.toJson), ("annotations", annotations.toJson)]
  | _, .lambdaExpr expr => .object [("kind", .string "expression"), ("expr", expr.toJson)]
  | _, .lambdaBlock body => body.toJson.tagged "kind" "block"
  | _, .nameExpr name => .object [("kind", .string "name"), ("name", .string name)]
  | _, .fieldAccess scope name =>
    .object [("kind", .string "field_access"), ("scope", scope.toJson), ("name", .string name)]
  | _, .arrayAccess base index =>
    .object [("kind", .string "array_access"), ("array", base.toJson), ("index", index.toJson)]
  | _, .arrayCreation elementType levels initial =>
    .object [("kind", .string "array_creation"), ("element_type", elementType.toJson),
      ("levels", levels.toJson), ("initializer", initial.toJson)]
  | _, .arrayInitializer values =>
    .object [("kind", .string "array_initializer"), ("values", values.toJson)]
  | _, .assign target op value =>
    .object [("kind", .string "assign"), ("target", target.toJson), ("op", .ofKeyword op),
      ("value", value.toJson)]
  | _, .binary left op right =>
    .object [("kind", .string "binary"), ("left", left.toJson), ("op", .ofKeyword op),
      ("right", right.toJson)]
  | _, .unary op expr =>
    .object [("kind", .string "unary"), ("op", .ofKeyword op), ("expr", expr.toJson)]
  | _, .cast type expr =>
    .object [("kind", .string "cast"), ("type", type.toJson), ("expr", expr.toJson)]
  | _, .classLiteral type => .object [("kind", .string "class"), ("type", type.toJson)]
  | _, .conditional condition consequent alternative =>
    .object [("kind", .string "conditional"), ("condition", condition.toJson),
      ("then", consequent.toJson), ("otherwise", alternative.toJson)]
  | _, .enclosed inner => .object [("kind", .string "enclosed"), ("inner", inner.toJson)]
  | _, .instanceOf expr type =>
    .object [("kind", .string "instance_of"), ("expr", expr.toJson), ("type", type.toJson)]
  | _, .integerLiteral value =>
    .object [("kind", .string "integer_literal"), ("value", .string value)]
  | _, .longLiteral value => .object [("kind", .string "long_literal"), ("value", .string value)]
  | _, .doubleLiteral value =>
    .object [("kind", .string "double_literal"), ("value", .string value)]
  | _, .charLiteral value => .object [("kind", .string "char_literal"), ("value", .string value)]
  | _, .stringLiteral value =>
    .object [("kind", .string "string_literal"), ("value", .string value)]
  | _, .booleanLiteral value =>
    .object [("kind", .string "boolean_literal"), ("value", .bool value)]
  | _, .nullLiteral => .object [("kind", .string "null_literal")]
  | _, .thisExpr qualifier =>
    .object [("kind", .string "this"), ("qualifier", .ofOption .string qualifier)]
  | _, .superExpr qualifier =>
    .object [("kind", .string "super"), ("qualifier", .ofOption .string qualifier)]
  | _, .methodCall scope typeArguments name arguments =>
    .object [("kind", .string "method_call"), ("scope", scope.toJson),
      ("type_arguments", typeArguments.toJson), ("name", .string name),
      ("arguments", arguments.toJson)]
  | _, .objectCreation scope type typeArguments arguments anonymousBody =>
    .object [("kind", .string "object_creation"), ("scope", scope.toJson), ("type", type.toJson),
      ("type_arguments", typeArguments.toJson), ("arguments", arguments.toJson),
      ("anonymous_body", anonymousBody.toJson)]
  | _, .lambda parameters isEnclosed body =>
    .object [("kind", .string "lambda"), ("parameters", parameters.toJson),
      ("enclosing_parameters", .bool isEnclosed), ("body", body.toJson)]
  | _, .methodReference scope typeArguments identifier =>
    .object [("kind", .string "method_reference"), ("scope", scope.toJson),
      ("type_arguments", typeArguments.toJson), ("identifier", .string identifier)]
  | _, .typeExpr type => .object [("kind", .string "type_expr"), ("type", type.toJson)]
  | _, .variableDeclaration decl => decl.toJson.tagged "kind" "variable_declaration"
  | _, .annotationExpr use => use.toJson.tagged "kind" "annotation"

def Package.toJson (p : Package) : Json :=
  .object [("name", .string p.name), ("annotations", .array (p.annotations.map Node.toJson))]

def Import.toJson (i : Import) : Json :=
  .object [("name", .string i.name), ("is_static", .bool i.isStatic),
    ("is_asterisk", .bool i.isOnDemand), ("comment", .ofOption Comment.toJson i.comment)]

def CompilationUnit.toJson (u : CompilationUnit) : Json :=
  .object [("comment", .ofOption Comment.toJson u.comment),
    ("package", .ofOption Package.toJson u.package),
    ("imports", .array (u.imports.map Import.toJson)),
    ("types", .array (u.types.map Node.toJson)),
    ("trailing_comments", commentsToJson u.trailing)]

end TypeScribe
