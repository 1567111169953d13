import TypeScribe.Script.Declarations

/-!
# The script of a node

`Node.script` assembles the script of every node from those of its children. The numbers are the
places of children under their parent, from which routes are made.
-/
namespace TypeScribe
set_option autoImplicit false

/-- The type that variables share, unless it is unknown. -/
def knownType (type : TypeUse) (shape : TypeShape) : Option Doc :=
  if type.isUnknown then none else some shape.doc

def Node.script : {c : Category} → Node c → Context → Script c
  | _, .nil, _ => []
  | _, .cons head tail, cx => head.script (cx.child 0) :: tail.script (cx.after head)
  | _, .absent, _ => none
  | _, .present node, cx => some (node.script cx.content)
  | _, .annotationMarker name, _ => Script.annotationComment name []
  | _, .annotationSingle name value, cx =>
    Script.annotationComment name (Doc.between "(" ")" (value.script (cx.child 0)))
  | _, .annotationNormal name elements, cx =>
    Script.annotationComment name (Script.parenthesized (elements.script (cx.child 0)))
  | _, .element name value, cx => Script.element name (value.script (cx.child 0))
  | _, decl@(.classDecl name isInterface modifiers _ annotations typeParameters extended implemented
      members trailing), cx =>
    { annotations := Script.annotationLines (annotations.script (cx.child 0))
      content := Script.classContent name isInterface modifiers
        (typeParameters.script ((cx.enter decl).child 1))
        (extended.script ((cx.enter decl).child 2)) (implemented.script ((cx.enter decl).child 3))
        (members.script (((cx.enter decl).membersOf isInterface).child 4)) trailing }
  | _, decl@(.enumDecl name _ _ annotations implemented constants members), cx =>
    { annotations := Script.annotationLines (annotations.script (cx.child 0))
      content := Script.enumContent name (implemented.script ((cx.enter decl).child 1))
        (constants.script ((cx.enter decl).child 2))
        (members.script (((cx.enter decl).membersOf false).child 3)) }
  | _, decl@(.annotationDecl name _ _ annotations members), cx =>
    { annotations := Script.annotationLines (annotations.script (cx.child 0))
      content := Script.annotationContent name
        (members.script (((cx.enter decl).membersOf true).child 1)) }
  | _, .enumConstant name comment annotations arguments body, cx =>
    Script.enumConstant name comment (annotations.script (cx.child 0))
      (arguments.script (cx.child 1)) (body.script ((cx.membersOf false).child 2))
  | _, .nestedType decl, cx =>
    { isType := true
      doc := Script.nestedType (cx.child 0) decl
        (decl.script (if mustMove decl cx.scope then (cx.child 0).detached else cx.child 0)) }
  | _, .field modifiers comment annotations baseType declarators, cx =>
    { isType := false
      doc := Script.field cx modifiers comment (annotations.script (cx.child 0))
        (knownType baseType (baseType.script (cx.child 1)))
        (declarators.script ((cx.declarators (modifiers.contains .static)).child 2)) }
  | _, .method name modifiers comment annotations typeParameters returnType parameters thrown body,
      cx =>
    { isType := false
      doc := Script.method cx name modifiers comment (annotations.script (cx.child 0))
        (typeParameters.script (cx.child 1)) (TypeShape.doc (returnType.script (cx.child 2)))
        (parameters.script (cx.child 3)) (!thrown.toList.isEmpty) (body.script (cx.child 4)) }
  | _, .constructor _ _ comment annotations _ parameters thrown body, cx =>
    { isType := false
      doc := Script.constructor comment (annotations.script (cx.child 0))
        (parameters.script (cx.child 1)) (!thrown.toList.isEmpty) (body.script (cx.child 2)) }
  | _, .initializer isStatic comment body, cx =>
    { isType := false, doc := Script.initializer isStatic comment (body.script (cx.child 0)) }
  | _, .annotationMember name _ comment annotations type _, cx =>
    { isType := false
      doc := Script.annotationMember name comment (annotations.script (cx.child 0))
        (TypeShape.doc (type.script (cx.child 1))) }
  | _, .declarator name dimensions initial, cx =>
    { name := name
      dimensions := Doc.concat (dimensions.script (cx.child 0))
      initializer := Script.initialValue (initial.script cx.initialValue) }
  | _, .dimension annotations, cx => Script.level (annotations.script (cx.child 0))
  | _, .parameter name type modifiers annotations isVarArgs varArgsAnnotations, cx =>
    Script.parameter name (knownType type (type.script (cx.child 0))) modifiers
      (annotations.script (cx.child 1)) isVarArgs (varArgsAnnotations.script (cx.child 2))
  | _, .typeParameter name bounds annotations, cx =>
    Script.typeParameter name (bounds.script (cx.child 0)) (annotations.script (cx.child 1))
  | _, .primitive base annotations, cx =>
    Script.plainType (Script.levelAnnotations (annotations.script (cx.child 0))
      ++ Doc.text base.scriptName)
  | _, .classUse type, cx => Script.plainType (type.script (cx.child 0))
  | _, .array component annotations, cx =>
    Script.arrayType (component.script (cx.child 0)) (annotations.script (cx.child 1))
  | _, .void _, _ => Script.plainType (Doc.text "void")
  | _, .intersection elements, cx =>
    Script.plainType (Doc.separated " & "
      (List.map TypeShape.doc (elements.script (cx.child 0))))
  | _, .union elements, cx =>
    Script.plainType (Doc.separated " | "
      (List.map TypeShape.doc (elements.script (cx.child 0))))
  | _, .wildcard extendsBound superBound _, cx =>
    Script.plainType (Script.boundOrAny (extendsBound.script (cx.child 0))
      (superBound.script (cx.child 1)))
  | _, .unknown, _ => Script.plainType []
  | _, .classType scope name typeArguments annotations, cx =>
    Script.classType cx scope.segments (scope.script (cx.child 0)) name
      (typeArguments.script (cx.child 1)) (annotations.script (cx.child 2))
  | _, .block statements trailing, cx => Script.block (statements.script (cx.child 0)) trailing
  | _, .switchEntry label statements, cx =>
    Script.switchEntry (label.script (cx.child 0)) (statements.script (cx.child 1))
  | _, .catchClause caught body, cx =>
    Script.catchClause (parameterName caught) (body.script (cx.child 0))
  | _, .variableGroup modifiers annotations baseType declarators, cx =>
    Script.variableGroup modifiers (annotations.script (cx.child 0))
      (knownType baseType (baseType.script (cx.child 1)))
      (declarators.script ((cx.declarators false).child 2))
  | _, .blockStmt body, cx => { form := .block, doc := body.script (cx.child 0) }
  | _, .exprStmt expr, cx => Script.plainStmt (Doc.endedBy ";" (expr.script (cx.child 0)))
  | _, .localType decl, cx =>
    Script.plainStmt (Script.localType cx decl (decl.script (cx.child 0)))
  | _, .assertStmt _ _, _ => Script.plainStmt (Doc.unsupported .assertStatement)
  | _, .labeled label statement, cx =>
    Script.plainStmt (Doc.text label ++ Doc.text ": "
      ++ StmtShape.doc (statement.script (cx.child 0)))
  | _, .emptyStmt, _ => Script.plainStmt (Doc.text ";")
  | _, .switchStmt selector entries, cx =>
    Script.plainStmt (Script.switchStmt (selector.script (cx.child 0))
      (entries.script (cx.child 1)))
  | _, .breakStmt label, _ => Script.plainStmt (Script.jump "break" label)
  | _, .continueStmt label, _ => Script.plainStmt (Script.jump "continue" label)
  | _, .returnStmt expr, cx => Script.plainStmt (Script.returnStmt (expr.script (cx.child 0)))
  | _, .ifStmt condition consequent alternative, cx =>
    { form := .branch
      doc := Script.ifStmt (condition.script (cx.child 0)) (consequent.script (cx.child 1))
        (alternative.script (cx.child 2)) }
  | _, .whileStmt condition body, cx =>
    Script.plainStmt (Script.whileStmt (condition.script (cx.child 0)) (body.script (cx.child 1)))
  | _, .doStmt body condition, cx =>
    Script.plainStmt (Script.doStmt (body.script (cx.child 0)) (condition.script (cx.child 1)))
  | _, .forEachStmt loopVariable iterable body, cx =>
    Script.plainStmt (Script.forEachStmt (VariableGroup.modifiers loopVariable)
      (VariableGroup.names loopVariable) (iterable.script (cx.child 0)) (body.script (cx.child 1)))
  | _, .forStmt init compare update body, cx =>
    Script.plainStmt (Script.forStmt (init.script (cx.child 0)) (compare.script (cx.child 1))
      (update.script (cx.child 2)) (body.script (cx.child 3)))
  | _, .throwStmt expr, cx =>
    Script.plainStmt (Doc.between "throw " ";" (expr.script (cx.child 0)))
  | _, .synchronizedStmt _ body, cx =>
    Script.plainStmt (Script.synchronizedStmt (body.script (cx.child 0)))
  | _, .tryStmt resources body catches finallyBlock, cx =>
    Script.plainStmt (Script.tryStmt (resources.script (cx.child 0)) (body.script (cx.child 1))
      (catches.script (cx.child 2)) (finallyBlock.script (cx.child 3)))
  | _, .constructorCall isThis expr _ arguments, cx =>
    Script.plainStmt (Script.constructorCall isThis (expr.script (cx.child 0))
      (arguments.script (cx.child 1)))
  | _, .commentStmt comment, _ => { form := .comment, doc := [.comment comment] }
  | _, .unparsable, _ => Script.plainStmt (Doc.text "???;")
  | _, .creationLevel size _, cx => size.script (cx.child 0)
  | _, .lambdaExpr expr, cx => expr.script (cx.child 0)
  | _, .lambdaBlock body, cx => body.script (cx.child 0)
  | _, .nameExpr name, _ => Doc.text (escapeIdentifier name)
  | _, .fieldAccess scope name, cx =>
    Script.underScope (some (scope.script (cx.child 0))) (Doc.text (escapeIdentifier name))
  | _, .arrayAccess base index, cx =>
    Script.arrayAccess (base.script (cx.child 0)) (index.script (cx.child 1))
  | _, .arrayCreation elementType levels initial, cx =>
    Script.arrayCreation (TypeShape.doc (elementType.script (cx.child 0)))
      (levels.script (cx.child 1)) (initial.script (cx.child 2))
  | _, .arrayInitializer values, cx => Script.arrayLiteral (values.script (cx.child 0))
  | _, .assign target op value, cx =>
    Script.infixed (target.script (cx.child 0)) op.symbol (value.script (cx.child 1))
  | _, .binary left op right, cx =>
    Script.infixed (left.script (cx.child 0)) op.scriptSymbol (right.script (cx.child 1))
  | _, .unary op expr, cx => Script.unary op (expr.script (cx.child 0))
  | _, .cast type expr, cx =>
    Script.cast (TypeUse.isIntegral type) (TypeShape.doc (type.script (cx.child 0)))
      (expr.script (cx.child 1))
  | _, .classLiteral type, cx =>
    Doc.endedBy ".class" (TypeShape.doc (type.script (cx.child 0)))
  | _, .conditional condition consequent alternative, cx =>
    Script.conditional (condition.script (cx.child 0)) (consequent.script (cx.child 1))
      (alternative.script (cx.child 2))
  | _, .enclosed inner, cx => Doc.between "(" ")" (inner.script (cx.child 0))
  | _, .instanceOf expr type, cx =>
    Script.infixed (expr.script (cx.child 0)) "instanceof"
      (TypeShape.doc (type.script (cx.child 1)))
  | _, .integerLiteral value, _ => Doc.text value
  | _, .longLiteral value, _ => Doc.text (stripLongSuffix value)
  | _, .doubleLiteral value, _ => Doc.text (stripDoubleSuffix value)
  | _, .charLiteral value, _ => Doc.between "'" "'" (Doc.text value)
  | _, .stringLiteral value, _ => Doc.between "\"" "\"" (Doc.text value)
  | _, .booleanLiteral value, _ => Doc.text (if value then "true" else "false")
  | _, .nullLiteral, _ => Doc.text "null"
  | _, .thisExpr qualifier, cx => Doc.text (cx.thisText qualifier)
  | _, .superExpr qualifier, _ => Script.superDoc qualifier
  | _, .methodCall scope typeArguments name arguments, cx =>
    Script.methodCall (scope.script (cx.child 0)) (typeArguments.script (cx.child 1)) name
      (arguments.script (cx.child 2))
  | _, .objectCreation scope type _ arguments anonymousBody, cx =>
    Script.objectCreation cx (scope.script (cx.child 0)) type (type.script (cx.child 1))
      (arguments.script (cx.child 2))
      (anonymousBody.script ((cx.enterAnonymous (cx.createsStatic scope)).child 3))
      (cx.createsStatic scope)
  | _, .lambda parameters isEnclosed body, cx =>
    Script.lambda (parameters.script (cx.child 0)) isEnclosed (body.script (cx.child 1))
  | _, .methodReference scope _ identifier, cx =>
    Doc.unsupported .methodReference
      ++ Script.underScope (some (scope.script (cx.child 0)))
        (Doc.text (escapeIdentifier identifier))
  | _, .typeExpr type, cx => TypeShape.doc (type.script (cx.child 0))
  | _, .variableDeclaration decl, cx => decl.script (cx.child 0)
  | _, .annotationExpr use, cx => use.script (cx.child 0)

end TypeScribe
