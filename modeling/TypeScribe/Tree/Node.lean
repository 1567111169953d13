import TypeScribe.Tree.Modifier
import TypeScribe.Tree.Operator

/-!
# Declaration trees

One indexed family covers every kind of node of a Java declaration tree. The index says what a node
may stand for, so an ill-placed child does not typecheck, and a fact about all nodes is one
induction. Sequences and optional children are nodes too (`many`, `optional`); `toList` and
`toOption` show them as lists and options.
-/
namespace TypeScribe
set_option autoImplicit false

inductive Category where
  | annotationUse
  | element
  | typeDecl
  | enumConstant
  | member
  | declarator
  | dimension
  | parameter
  | typeParameter
  | typeUse
  | classType
  | block
  | switchEntry
  | catchClause
  | variableGroup
  | stmt
  | creationLevel
  | lambdaBody
  | expr
  | many (c : Category)
  | optional (c : Category)

inductive Node : Category → Type where
  | nil {c : Category} : Node (.many c)
  | cons {c : Category} (head : Node c) (tail : Node (.many c)) : Node (.many c)
  | absent {c : Category} : Node (.optional c)
  | present {c : Category} (node : Node c) : Node (.optional c)
  -- Annotations
  | annotationMarker (name : String) : Node .annotationUse
  | annotationSingle (name : String) (value : Node .expr) : Node .annotationUse
  | annotationNormal (name : String) (elements : Node (.many .element)) : Node .annotationUse
  | element (name : String) (value : Node .expr) : Node .element
  -- Type declarations
  | classDecl (name : String) (isInterface : Bool) (modifiers : ModifierSet)
      (comment : Option Comment) (annotations : Node (.many .annotationUse))
      (typeParameters : Node (.many .typeParameter)) (extended implemented : Node (.many .classType))
      (members : Node (.many .member)) (trailing : List Comment) : Node .typeDecl
  | enumDecl (name : String) (modifiers : ModifierSet) (comment : Option Comment)
      (annotations : Node (.many .annotationUse)) (implemented : Node (.many .classType))
      (constants : Node (.many .enumConstant)) (members : Node (.many .member)) : Node .typeDecl
  | annotationDecl (name : String) (modifiers : ModifierSet) (comment : Option Comment)
      (annotations : Node (.many .annotationUse)) (members : Node (.many .member)) : Node .typeDecl
  | enumConstant (name : String) (comment : Option Comment)
      (annotations : Node (.many .annotationUse)) (arguments : Node (.many .expr))
      (body : Node (.many .member)) : Node .enumConstant
  -- Members
  | nestedType (decl : Node .typeDecl) : Node .member
  | field (modifiers : ModifierSet) (comment : Option Comment)
      (annotations : Node (.many .annotationUse)) (baseType : Node .typeUse)
      (declarators : Node (.many .declarator)) : Node .member
  | method (name : String) (modifiers : ModifierSet) (comment : Option Comment)
      (annotations : Node (.many .annotationUse)) (typeParameters : Node (.many .typeParameter))
      (returnType : Node .typeUse) (parameters : Node (.many .parameter))
      (thrown : Node (.many .typeUse)) (body : Node (.optional .block)) : Node .member
  | constructor (name : String) (modifiers : ModifierSet) (comment : Option Comment)
      (annotations : Node (.many .annotationUse)) (typeParameters : Node (.many .typeParameter))
      (parameters : Node (.many .parameter)) (thrown : Node (.many .typeUse))
      (body : Node .block) : Node .member
  | initializer (isStatic : Bool) (comment : Option Comment) (body : Node .block) : Node .member
  | annotationMember (name : String) (modifiers : ModifierSet) (comment : Option Comment)
      (annotations : Node (.many .annotationUse)) (type : Node .typeUse)
      (defaultValue : Node (.optional .expr)) : Node .member
  /-- One variable of a declaration, with the dimensions that belong to it alone. -/
  | declarator (name : String) (dimensions : Node (.many .dimension))
      (initializer : Node (.optional .expr)) : Node .declarator
  /-- One `[]` with the annotations written before it. -/
  | dimension (annotations : Node (.many .annotationUse)) : Node .dimension
  | parameter (name : String) (type : Node .typeUse) (modifiers : ModifierSet)
      (annotations : Node (.many .annotationUse)) (isVarArgs : Bool)
      (varArgsAnnotations : Node (.many .annotationUse)) : Node .parameter
  | typeParameter (name : String) (bounds : Node (.many .classType))
      (annotations : Node (.many .annotationUse)) : Node .typeParameter
  -- Types
  | primitive (primitive : Primitive) (annotations : Node (.many .annotationUse)) : Node .typeUse
  | classUse (type : Node .classType) : Node .typeUse
  | array (component : Node .typeUse) (annotations : Node (.many .annotationUse)) : Node .typeUse
  | void (annotations : Node (.many .annotationUse)) : Node .typeUse
  | intersection (elements : Node (.many .typeUse)) : Node .typeUse
  | union (elements : Node (.many .typeUse)) : Node .typeUse
  | wildcard (extendsBound superBound : Node (.optional .typeUse))
      (annotations : Node (.many .annotationUse)) : Node .typeUse
  /-- The type of a lambda parameter that is written without one. -/
  | unknown : Node .typeUse
  /-- A reference to a class; an empty list of type arguments is the diamond. -/
  | classType (scope : Node (.optional .classType)) (name : String)
      (typeArguments : Node (.optional (.many .typeUse)))
      (annotations : Node (.many .annotationUse)) : Node .classType
  -- Statements
  | block (statements : Node (.many .stmt)) (trailing : List Comment) : Node .block
  /-- The statements after a label of a `switch`; without a label, after `default`. -/
  | switchEntry (label : Node (.optional .expr)) (statements : Node (.many .stmt)) :
      Node .switchEntry
  | catchClause (parameter : Node .parameter) (body : Node .block) : Node .catchClause
  | variableGroup (modifiers : ModifierSet) (annotations : Node (.many .annotationUse))
      (baseType : Node .typeUse) (declarators : Node (.many .declarator)) : Node .variableGroup
  | blockStmt (block : Node .block) : Node .stmt
  | exprStmt (expr : Node .expr) : Node .stmt
  | localType (decl : Node .typeDecl) : Node .stmt
  | assertStmt (check : Node .expr) (message : Node (.optional .expr)) : Node .stmt
  | labeled (label : String) (statement : Node .stmt) : Node .stmt
  | emptyStmt : Node .stmt
  | switchStmt (selector : Node .expr) (entries : Node (.many .switchEntry)) : Node .stmt
  | breakStmt (label : Option String) : Node .stmt
  | continueStmt (label : Option String) : Node .stmt
  | returnStmt (expr : Node (.optional .expr)) : Node .stmt
  | ifStmt (condition : Node .expr) (consequent : Node .stmt)
      (alternative : Node (.optional .stmt)) : Node .stmt
  | whileStmt (condition : Node .expr) (body : Node .stmt) : Node .stmt
  | doStmt (body : Node .stmt) (condition : Node .expr) : Node .stmt
  | forEachStmt (loopVariable : Node .variableGroup) (iterable : Node .expr) (body : Node .stmt) :
      Node .stmt
  | forStmt (init : Node (.many .expr)) (compare : Node (.optional .expr))
      (update : Node (.many .expr)) (body : Node .stmt) : Node .stmt
  | throwStmt (expr : Node .expr) : Node .stmt
  | synchronizedStmt (lock : Node .expr) (body : Node .block) : Node .stmt
  | tryStmt (resources : Node (.many .variableGroup)) (block : Node .block)
      (catches : Node (.many .catchClause)) (finallyBlock : Node (.optional .block)) : Node .stmt
  /-- `this(...)` or `super(...)` at the head of a constructor. -/
  | constructorCall (isThis : Bool) (expr : Node (.optional .expr))
      (typeArguments : Node (.many .typeUse)) (arguments : Node (.many .expr)) : Node .stmt
  | commentStmt (comment : Comment) : Node .stmt
  | unparsable : Node .stmt
  -- Expressions
  | creationLevel (dimension : Node (.optional .expr)) (annotations : Node (.many .annotationUse)) :
      Node .creationLevel
  | lambdaExpr (expr : Node .expr) : Node .lambdaBody
  | lambdaBlock (block : Node .block) : Node .lambdaBody
  | nameExpr (name : String) : Node .expr
  | fieldAccess (scope : Node .expr) (name : String) : Node .expr
  | arrayAccess (array index : Node .expr) : Node .expr
  | arrayCreation (elementType : Node .typeUse) (levels : Node (.many .creationLevel))
      (initializer : Node (.optional (.many .expr))) : Node .expr
  | arrayInitializer (values : Node (.many .expr)) : Node .expr
  | assign (target : Node .expr) (op : AssignOp) (value : Node .expr) : Node .expr
  | binary (left : Node .expr) (op : BinaryOp) (right : Node .expr) : Node .expr
  | unary (op : UnaryOp) (expr : Node .expr) : Node .expr
  | cast (type : Node .typeUse) (expr : Node .expr) : Node .expr
  | classLiteral (type : Node .typeUse) : Node .expr
  | conditional (condition consequent alternative : Node .expr) : Node .expr
  | enclosed (inner : Node .expr) : Node .expr
  | instanceOf (expr : Node .expr) (type : Node .typeUse) : Node .expr
  | integerLiteral (value : String) : Node .expr
  | longLiteral (value : String) : Node .expr
  | doubleLiteral (value : String) : Node .expr
  | charLiteral (value : String) : Node .expr
  | stringLiteral (value : String) : Node .expr
  | booleanLiteral (value : Bool) : Node .expr
  | nullLiteral : Node .expr
  | thisExpr (qualifier : Option String) : Node .expr
  | superExpr (qualifier : Option String) : Node .expr
  | methodCall (scope : Node (.optional .expr)) (typeArguments : Node (.many .typeUse))
      (name : String) (arguments : Node (.many .expr)) : Node .expr
  | objectCreation (scope : Node (.optional .expr)) (type : Node .classType)
      (typeArguments : Node (.many .typeUse)) (arguments : Node (.many .expr))
      (anonymousBody : Node (.optional (.many .member))) : Node .expr
  | lambda (parameters : Node (.many .parameter)) (isEnclosed : Bool) (body : Node .lambdaBody) :
      Node .expr
  | methodReference (scope : Node .expr) (typeArguments : Node (.many .typeUse))
      (identifier : String) : Node .expr
  /-- A type in the place of an expression, as before `::`. -/
  | typeExpr (type : Node .typeUse) : Node .expr
  | variableDeclaration (group : Node .variableGroup) : Node .expr
  | annotationExpr (use : Node .annotationUse) : Node .expr

abbrev AnnotationUse := Node .annotationUse
abbrev TypeDecl := Node .typeDecl
abbrev Member := Node .member
abbrev TypeUse := Node .typeUse
abbrev ClassType := Node .classType
abbrev Block := Node .block
abbrev VariableGroup := Node .variableGroup
abbrev Stmt := Node .stmt
abbrev Expr := Node .expr

namespace Node

def ofList {c : Category} : List (Node c) → Node (.many c)
  | [] => .nil
  | n :: ns => .cons n (ofList ns)

/-- The nodes of a sequence, for a node whose category is that of a sequence. -/
def toListOf : {k : Category} → Node k → (c : Category) → k = .many c → List (Node c)
  | _, .cons n ns, c, h => (Category.many.inj h ▸ n) :: toListOf ns c h
  | _, _, _, _ => []

def toList {c : Category} (ns : Node (.many c)) : List (Node c) := ns.toListOf c rfl

def ofOption {c : Category} : Option (Node c) → Node (.optional c)
  | none => .absent
  | some n => .present n

def toOption {c : Category} : Node (.optional c) → Option (Node c)
  | .absent => none
  | .present n => some n

/-- A sequence with one more node at its end. -/
def snoc {c : Category} (ns : Node (.many c)) (n : Node c) : Node (.many c) :=
  ofList (ns.toList ++ [n])

@[simp] theorem toList_nil {c : Category} : (nil : Node (.many c)).toList = [] := rfl

@[simp] theorem toList_cons {c : Category} (n : Node c) (ns : Node (.many c)) :
    (cons n ns).toList = n :: ns.toList := rfl

@[simp] theorem toList_ofList {c : Category} (ns : List (Node c)) : (ofList ns).toList = ns := by
  induction ns with
  | nil => rfl
  | cons n ns ih => simp [ofList, ih]

@[simp] theorem toOption_ofOption {c : Category} (n : Option (Node c)) :
    (ofOption n).toOption = n := by
  cases n <;> rfl

@[simp] theorem ofOption_toOption {c : Category} (n : Node (.optional c)) :
    ofOption n.toOption = n := by
  cases n <;> rfl

end Node
end TypeScribe
