import TypeScribe.Proofs.Json.Pattern

/-!
# Trees as patterns

The pattern of a node is its encoding, with a mark on every field that stands for its default when
it is not given and holds that default. Forgetting the marks gives the encoding back.
-/
namespace TypeScribe
set_option autoImplicit false

namespace Json.Pattern

/-- A field that is always written. -/
def must (key : String) (p : Pattern) : Row := (key, false, p)

def tag (key value : String) : Row := must key (.string value)

def word {α : Type} [Keyword α] (key : String) (a : α) : Row :=
  must key (.string (Keyword.keyword a))

def flag (key : String) (b : Bool) : Row := (key, !b, .bool b)

def modifierSet (set : ModifierSet) : Row := ("modifiers", set.toList.isEmpty, .modifiers set)

def ofOption {α : Type} (pattern : α → Pattern) : Option α → Pattern
  | none => .null
  | some a => pattern a

def option {α : Type} (key : String) (pattern : α → Pattern) (a : Option α) : Row :=
  (key, a.isNone, ofOption pattern a)

def list {α : Type} (key : String) (pattern : α → Pattern) (as : List α) : Row :=
  (key, as.isEmpty, .array (as.map pattern))

/-- An object with a tag in front of its fields. -/
def tagged (key value : String) : Pattern → Pattern
  | .object rows => .object (tag key value :: rows)
  | p => p

/-- An array with one more element in front. -/
def push (p : Pattern) : Pattern → Pattern
  | .array elements => .array (p :: elements)
  | _ => .array [p]

end Json.Pattern

open Json
open Json.Pattern (must tag word flag modifierSet option list)

/-- Whether a node is what some reader puts in the place of a field that is not given. -/
def Node.isDefault : {c : Category} → Node c → Bool
  | _, .nil => true
  | _, .absent => true
  | _, .block .nil [] => true
  | _, _ => false

def Comment.pattern (c : Comment) : Pattern :=
  .object [word "kind" c.kind, must "content" (.string c.content)]

def Node.pattern : {c : Category} → Node c → Pattern
  | _, .nil => .array []
  | _, .cons head tail => .push head.pattern tail.pattern
  | _, .absent => .null
  | _, .present node => node.pattern
  | _, .annotationMarker name =>
    .object [must "name" (.string name), ("arguments", true, .object [tag "kind" "marker"])]
  | _, .annotationSingle name value =>
    .object [must "name" (.string name),
      must "arguments" (.object [tag "kind" "single", must "value" value.pattern])]
  | _, .annotationNormal name elements =>
    .object [must "name" (.string name),
      must "arguments" (.object [tag "kind" "normal", must "pairs" elements.pattern])]
  | _, .element name value => .object [must "name" (.string name), must "value" value.pattern]
  | _, .classDecl name isInterface modifiers comment annotations typeParameters extended
      implemented members trailing =>
    .object [tag "kind" "class", must "name" (.string name), flag "is_interface" isInterface,
      modifierSet modifiers, ("annotations", annotations.isDefault, annotations.pattern),
      option "comment" Comment.pattern comment,
      ("type_parameters", typeParameters.isDefault, typeParameters.pattern),
      ("extended_types", extended.isDefault, extended.pattern),
      ("implemented_types", implemented.isDefault, implemented.pattern),
      ("members", members.isDefault, members.pattern),
      list "trailing_comments" Comment.pattern trailing]
  | _, .enumDecl name modifiers comment annotations implemented constants members =>
    .object [tag "kind" "enum", must "name" (.string name), modifierSet modifiers,
      ("annotations", annotations.isDefault, annotations.pattern),
      option "comment" Comment.pattern comment,
      ("implemented_types", implemented.isDefault, implemented.pattern),
      ("entries", constants.isDefault, constants.pattern),
      ("members", members.isDefault, members.pattern)]
  | _, .annotationDecl name modifiers comment annotations members =>
    .object [tag "kind" "annotation", must "name" (.string name), modifierSet modifiers,
      ("annotations", annotations.isDefault, annotations.pattern),
      option "comment" Comment.pattern comment, ("members", members.isDefault, members.pattern)]
  | _, .enumConstant name comment annotations arguments body =>
    .object [must "name" (.string name),
      ("annotations", annotations.isDefault, annotations.pattern),
      option "comment" Comment.pattern comment,
      ("arguments", arguments.isDefault, arguments.pattern),
      ("class_body", body.isDefault, body.pattern)]
  | _, .nestedType decl => decl.pattern.tagged "member" "type"
  | _, .field modifiers comment annotations baseType declarators =>
    .object [tag "member" "field", modifierSet modifiers,
      ("annotations", annotations.isDefault, annotations.pattern),
      option "comment" Comment.pattern comment, must "base_type" baseType.pattern,
      must "variables" declarators.pattern]
  | _, .method name modifiers comment annotations typeParameters returnType parameters thrown
      body =>
    .object [tag "member" "method", must "name" (.string name), modifierSet modifiers,
      ("annotations", annotations.isDefault, annotations.pattern),
      option "comment" Comment.pattern comment,
      ("type_parameters", typeParameters.isDefault, typeParameters.pattern),
      must "return_type" returnType.pattern,
      ("parameters", parameters.isDefault, parameters.pattern),
      ("thrown_exceptions", thrown.isDefault, thrown.pattern),
      ("body", body.isDefault, body.pattern)]
  | _, .constructor name modifiers comment annotations typeParameters parameters thrown body =>
    .object [tag "member" "constructor", must "name" (.string name), modifierSet modifiers,
      ("annotations", annotations.isDefault, annotations.pattern),
      option "comment" Comment.pattern comment,
      ("type_parameters", typeParameters.isDefault, typeParameters.pattern),
      ("parameters", parameters.isDefault, parameters.pattern),
      ("thrown_exceptions", thrown.isDefault, thrown.pattern),
      ("body", body.isDefault, body.pattern)]
  | _, .initializer isStatic comment body =>
    .object [tag "member" "initializer", flag "is_static" isStatic,
      option "comment" Comment.pattern comment, must "body" body.pattern]
  | _, .annotationMember name modifiers comment annotations type defaultValue =>
    .object [tag "member" "annotation_member", must "name" (.string name), modifierSet modifiers,
      ("annotations", annotations.isDefault, annotations.pattern),
      option "comment" Comment.pattern comment, must "type" type.pattern,
      ("default_value", defaultValue.isDefault, defaultValue.pattern)]
  | _, .declarator name dimensions initial =>
    .object [must "name" (.string name),
      ("extra_dimensions", dimensions.isDefault, dimensions.pattern),
      ("initializer", initial.isDefault, initial.pattern)]
  | _, .dimension annotations =>
    .object [("annotations", annotations.isDefault, annotations.pattern)]
  | _, .parameter name type modifiers annotations isVarArgs varArgsAnnotations =>
    .object [must "name" (.string name), must "type" type.pattern, modifierSet modifiers,
      ("annotations", annotations.isDefault, annotations.pattern), flag "is_var_args" isVarArgs,
      ("var_args_annotations", varArgsAnnotations.isDefault, varArgsAnnotations.pattern)]
  | _, .typeParameter name bounds annotations =>
    .object [must "name" (.string name), ("bounds", bounds.isDefault, bounds.pattern),
      ("annotations", annotations.isDefault, annotations.pattern)]
  | _, .primitive base annotations =>
    .object [tag "kind" "primitive", word "primitive" base,
      ("annotations", annotations.isDefault, annotations.pattern)]
  | _, .classUse type => type.pattern.tagged "kind" "class"
  | _, .array component annotations =>
    .object [tag "kind" "array", must "component" component.pattern,
      ("annotations", annotations.isDefault, annotations.pattern)]
  | _, .void annotations =>
    .object [tag "kind" "void", ("annotations", annotations.isDefault, annotations.pattern)]
  | _, .intersection elements =>
    .object [tag "kind" "intersection", must "elements" elements.pattern]
  | _, .union elements => .object [tag "kind" "union", must "elements" elements.pattern]
  | _, .wildcard extendsBound superBound annotations =>
    .object [tag "kind" "wildcard", ("extends", extendsBound.isDefault, extendsBound.pattern),
      ("super_bound", superBound.isDefault, superBound.pattern),
      ("annotations", annotations.isDefault, annotations.pattern)]
  | _, .unknown => .object [tag "kind" "unknown"]
  | _, .classType scope name typeArguments annotations =>
    .object [("scope", scope.isDefault, scope.pattern), must "name" (.string name),
      ("type_arguments", typeArguments.isDefault, typeArguments.pattern),
      ("annotations", annotations.isDefault, annotations.pattern)]
  | _, .block statements trailing =>
    .object [("statements", statements.isDefault, statements.pattern),
      list "trailing_comments" Comment.pattern trailing]
  | _, .switchEntry label statements =>
    .object [("label", label.isDefault, label.pattern),
      ("statements", statements.isDefault, statements.pattern)]
  | _, .catchClause caught body =>
    .object [must "parameter" caught.pattern, must "body" body.pattern]
  | _, .variableGroup modifiers annotations baseType declarators =>
    .object [modifierSet modifiers, ("annotations", annotations.isDefault, annotations.pattern),
      must "base_type" baseType.pattern, must "variables" declarators.pattern]
  | _, .blockStmt body => body.pattern.tagged "stmt" "block"
  | _, .exprStmt expr => .object [tag "stmt" "expression", must "expr" expr.pattern]
  | _, .localType decl => decl.pattern.tagged "stmt" "local_class"
  | _, .assertStmt check message =>
    .object [tag "stmt" "assert", must "check" check.pattern,
      ("message", message.isDefault, message.pattern)]
  | _, .labeled label statement =>
    .object [tag "stmt" "labeled", must "label" (.string label), must "statement" statement.pattern]
  | _, .emptyStmt => .object [tag "stmt" "empty"]
  | _, .switchStmt selector entries =>
    .object [tag "stmt" "switch", must "selector" selector.pattern,
      ("entries", entries.isDefault, entries.pattern)]
  | _, .breakStmt label => .object [tag "stmt" "break", option "label" .string label]
  | _, .continueStmt label => .object [tag "stmt" "continue", option "label" .string label]
  | _, .returnStmt expr => .object [tag "stmt" "return", ("expr", expr.isDefault, expr.pattern)]
  | _, .ifStmt condition consequent alternative =>
    .object [tag "stmt" "if", must "condition" condition.pattern, must "then" consequent.pattern,
      ("otherwise", alternative.isDefault, alternative.pattern)]
  | _, .whileStmt condition body =>
    .object [tag "stmt" "while", must "condition" condition.pattern, must "body" body.pattern]
  | _, .doStmt body condition =>
    .object [tag "stmt" "do", must "body" body.pattern, must "condition" condition.pattern]
  | _, .forEachStmt decl iterable body =>
    .object [tag "stmt" "for_each", must "variable" decl.pattern, must "iterable" iterable.pattern,
      must "body" body.pattern]
  | _, .forStmt init compare update body =>
    .object [tag "stmt" "for", ("init", init.isDefault, init.pattern),
      ("compare", compare.isDefault, compare.pattern), ("update", update.isDefault, update.pattern),
      must "body" body.pattern]
  | _, .throwStmt expr => .object [tag "stmt" "throw", must "expr" expr.pattern]
  | _, .synchronizedStmt lock body =>
    .object [tag "stmt" "synchronized", must "lock" lock.pattern, must "body" body.pattern]
  | _, .tryStmt resources body catches finallyBlock =>
    .object [tag "stmt" "try", ("resources", resources.isDefault, resources.pattern),
      must "block" body.pattern, ("catches", catches.isDefault, catches.pattern),
      ("finally", finallyBlock.isDefault, finallyBlock.pattern)]
  | _, .constructorCall isThis expr typeArguments arguments =>
    .object [tag "stmt" "explicit_constructor_invocation", must "is_this" (.bool isThis),
      ("expr", expr.isDefault, expr.pattern),
      ("type_arguments", typeArguments.isDefault, typeArguments.pattern),
      ("arguments", arguments.isDefault, arguments.pattern)]
  | _, .commentStmt comment => comment.pattern.tagged "stmt" "comment"
  | _, .unparsable => .object [tag "stmt" "unparsable"]
  | _, .creationLevel size annotations =>
    .object [("dimension", size.isDefault, size.pattern),
      ("annotations", annotations.isDefault, annotations.pattern)]
  | _, .lambdaExpr expr => .object [tag "kind" "expression", must "expr" expr.pattern]
  | _, .lambdaBlock body => body.pattern.tagged "kind" "block"
  | _, .nameExpr name => .object [tag "kind" "name", must "name" (.string name)]
  | _, .fieldAccess scope name =>
    .object [tag "kind" "field_access", must "scope" scope.pattern, must "name" (.string name)]
  | _, .arrayAccess base index =>
    .object [tag "kind" "array_access", must "array" base.pattern, must "index" index.pattern]
  | _, .arrayCreation elementType levels initial =>
    .object [tag "kind" "array_creation", must "element_type" elementType.pattern,
      must "levels" levels.pattern, ("initializer", initial.isDefault, initial.pattern)]
  | _, .arrayInitializer values =>
    .object [tag "kind" "array_initializer", must "values" values.pattern]
  | _, .assign target op value =>
    .object [tag "kind" "assign", must "target" target.pattern, word "op" op,
      must "value" value.pattern]
  | _, .binary left op right =>
    .object [tag "kind" "binary", must "left" left.pattern, word "op" op,
      must "right" right.pattern]
  | _, .unary op expr => .object [tag "kind" "unary", word "op" op, must "expr" expr.pattern]
  | _, .cast type expr =>
    .object [tag "kind" "cast", must "type" type.pattern, must "expr" expr.pattern]
  | _, .classLiteral type => .object [tag "kind" "class", must "type" type.pattern]
  | _, .conditional condition consequent alternative =>
    .object [tag "kind" "conditional", must "condition" condition.pattern,
      must "then" consequent.pattern, must "otherwise" alternative.pattern]
  | _, .enclosed inner => .object [tag "kind" "enclosed", must "inner" inner.pattern]
  | _, .instanceOf expr type =>
    .object [tag "kind" "instance_of", must "expr" expr.pattern, must "type" type.pattern]
  | _, .integerLiteral value => .object [tag "kind" "integer_literal", must "value" (.string value)]
  | _, .longLiteral value => .object [tag "kind" "long_literal", must "value" (.string value)]
  | _, .doubleLiteral value => .object [tag "kind" "double_literal", must "value" (.string value)]
  | _, .charLiteral value => .object [tag "kind" "char_literal", must "value" (.string value)]
  | _, .stringLiteral value => .object [tag "kind" "string_literal", must "value" (.string value)]
  | _, .booleanLiteral value => .object [tag "kind" "boolean_literal", must "value" (.bool value)]
  | _, .nullLiteral => .object [tag "kind" "null_literal"]
  | _, .thisExpr qualifier => .object [tag "kind" "this", option "qualifier" .string qualifier]
  | _, .superExpr qualifier => .object [tag "kind" "super", option "qualifier" .string qualifier]
  | _, .methodCall scope typeArguments name arguments =>
    .object [tag "kind" "method_call", ("scope", scope.isDefault, scope.pattern),
      ("type_arguments", typeArguments.isDefault, typeArguments.pattern),
      must "name" (.string name), ("arguments", arguments.isDefault, arguments.pattern)]
  | _, .objectCreation scope type typeArguments arguments anonymousBody =>
    .object [tag "kind" "object_creation", ("scope", scope.isDefault, scope.pattern),
      must "type" type.pattern, ("type_arguments", typeArguments.isDefault, typeArguments.pattern),
      ("arguments", arguments.isDefault, arguments.pattern),
      ("anonymous_body", anonymousBody.isDefault, anonymousBody.pattern)]
  | _, .lambda parameters isEnclosed body =>
    .object [tag "kind" "lambda", must "parameters" parameters.pattern,
      flag "enclosing_parameters" isEnclosed, must "body" body.pattern]
  | _, .methodReference scope typeArguments identifier =>
    .object [tag "kind" "method_reference", must "scope" scope.pattern,
      ("type_arguments", typeArguments.isDefault, typeArguments.pattern),
      must "identifier" (.string identifier)]
  | _, .typeExpr type => .object [tag "kind" "type_expr", must "type" type.pattern]
  | _, .variableDeclaration decl => decl.pattern.tagged "kind" "variable_declaration"
  | _, .annotationExpr use => use.pattern.tagged "kind" "annotation"

def Package.pattern (p : Package) : Pattern :=
  .object [must "name" (.string p.name), list "annotations" Node.pattern p.annotations]

def Import.pattern (i : Import) : Pattern :=
  .object [must "name" (.string i.name), flag "is_static" i.isStatic,
    flag "is_asterisk" i.isOnDemand, option "comment" Comment.pattern i.comment]

def CompilationUnit.pattern (u : CompilationUnit) : Pattern :=
  .object [option "comment" Comment.pattern u.comment, option "package" Package.pattern u.package,
    list "imports" Import.pattern u.imports, list "types" Node.pattern u.types,
    list "trailing_comments" Comment.pattern u.trailing]

namespace Json.Pattern

theorem plainElements_map {α : Type} {pattern : α → Pattern} {encode : α → Json}
    (h : ∀ a, (pattern a).plain = encode a) (as : List α) :
    plainElements (as.map pattern) = as.map encode := by
  induction as with
  | nil => rfl
  | cons a as ih =>
    change (pattern a).plain :: plainElements (as.map pattern) = encode a :: as.map encode
    rw [h, ih]

theorem plain_ofOption {α : Type} {pattern : α → Pattern} {encode : α → Json}
    (h : ∀ a, (pattern a).plain = encode a) (a : Option α) :
    (ofOption pattern a).plain = Json.ofOption encode a := by
  cases a with
  | none => rfl
  | some a => exact h a

theorem plain_tagged (key value : String) (p : Pattern) :
    (p.tagged key value).plain = p.plain.tagged key value := by
  cases p <;> rfl

/-- Equal values under equal keys, one entry at a time. -/
theorem entries_cons {key : String} {j j' : Json} {e e' : Entries} (hvalue : j = j')
    (hrest : e = e') : (key, j) :: e = (key, j') :: e' := by
  rw [hvalue, hrest]

end Json.Pattern

theorem Comment.plain_pattern (c : Comment) : c.pattern.plain = c.toJson := rfl

theorem plain_comment (c : Option Comment) :
    (Pattern.ofOption Comment.pattern c).plain = Json.ofOption Comment.toJson c :=
  Pattern.plain_ofOption Comment.plain_pattern c

theorem plain_comments (cs : List Comment) :
    (Pattern.array (cs.map Comment.pattern)).plain = commentsToJson cs :=
  congrArg Json.array (Pattern.plainElements_map Comment.plain_pattern cs)

theorem plain_text (text : Option String) :
    (Pattern.ofOption .string text).plain = Json.ofOption .string text :=
  Pattern.plain_ofOption (fun _ => rfl) text

/-- The pattern of a sequence is an array. -/
theorem Node.exists_pattern_eq_array {c : Category} (ns : Node (.many c)) :
    ∃ elements, ns.pattern = .array elements := by
  cases ns with
  | nil => exact ⟨[], rfl⟩
  | cons head tail =>
    change ∃ elements, head.pattern.push tail.pattern = .array elements
    unfold Pattern.push
    split
    · exact ⟨_, rfl⟩
    · exact ⟨_, rfl⟩

theorem Node.plain_pattern {c : Category} (n : Node c) : n.pattern.plain = n.toJson := by
  induction n with
  | cons head tail ihHead ihTail =>
    obtain ⟨elements, helements⟩ := tail.exists_pattern_eq_array
    change (head.pattern.push tail.pattern).plain = head.toJson.push tail.toJson
    rw [← ihHead, ← ihTail, helements]
    rfl
  | present node ih => exact ih
  | nestedType decl ih | localType decl ih | classUse decl ih | blockStmt decl ih
  | lambdaBlock decl ih | variableDeclaration decl ih | annotationExpr decl ih =>
    exact (Pattern.plain_tagged _ _ _).trans (congrArg (Json.tagged _ _) ih)
  | _ =>
    -- every other encoding is an object: compare the entries one by one
    repeat' first
      | assumption
      | apply Pattern.entries_cons
      | apply congrArg Json.object
      | rfl
      | exact plain_comment _
      | exact plain_comments _
      | exact plain_text _

theorem CompilationUnit.plain_pattern (u : CompilationUnit) : u.pattern.plain = u.toJson := by
  have hpackage (p : Package) : p.pattern.plain = p.toJson := by
    refine congrArg Json.object (Pattern.entries_cons rfl (Pattern.entries_cons ?_ rfl))
    exact congrArg Json.array (Pattern.plainElements_map Node.plain_pattern p.annotations)
  have himport (i : Import) : i.pattern.plain = i.toJson := by
    refine congrArg Json.object (Pattern.entries_cons rfl (Pattern.entries_cons rfl
      (Pattern.entries_cons rfl (Pattern.entries_cons ?_ rfl))))
    exact plain_comment i.comment
  refine congrArg Json.object (Pattern.entries_cons (plain_comment _) ?_)
  refine Pattern.entries_cons (Pattern.plain_ofOption hpackage _) ?_
  refine Pattern.entries_cons (congrArg Json.array (Pattern.plainElements_map himport _)) ?_
  refine Pattern.entries_cons
    (congrArg Json.array (Pattern.plainElements_map Node.plain_pattern _)) ?_
  exact Pattern.entries_cons (plain_comments _) rfl

end TypeScribe
