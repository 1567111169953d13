import TypeScribe.Tree.Keyword

/-!
# Primitive types, comments and operators

The closed choices of the declaration tree. `keyword` names a choice in the tree's data format and
`symbol` is the operator as Java spells it.
-/
namespace TypeScribe
set_option autoImplicit false

inductive Primitive where
  | boolean
  | byte
  | short
  | int
  | long
  | float
  | double
  | char
  deriving DecidableEq

def Primitive.keyword : Primitive → String
  | .boolean => "boolean"
  | .byte => "byte"
  | .short => "short"
  | .int => "int"
  | .long => "long"
  | .float => "float"
  | .double => "double"
  | .char => "char"

instance : Keyword Primitive where
  all := [.boolean, .byte, .short, .int, .long, .float, .double, .char]
  keyword := Primitive.keyword

inductive CommentKind where
  | line
  | block
  | javadoc
  deriving DecidableEq

instance : Keyword CommentKind where
  all := [.line, .block, .javadoc]
  keyword
    | .line => "line"
    | .block => "block"
    | .javadoc => "javadoc"

/-- A comment without its delimiters. -/
structure Comment where
  kind : CommentKind
  content : String
  deriving DecidableEq

inductive BinaryOp where
  | or
  | and
  | binOr
  | binAnd
  | xor
  | equals
  | notEquals
  | less
  | greater
  | lessEquals
  | greaterEquals
  | leftShift
  | signedRightShift
  | unsignedRightShift
  | plus
  | minus
  | multiply
  | divide
  | remainder
  deriving DecidableEq

instance : Keyword BinaryOp where
  all := [.or, .and, .binOr, .binAnd, .xor, .equals, .notEquals, .less, .greater, .lessEquals,
    .greaterEquals, .leftShift, .signedRightShift, .unsignedRightShift, .plus, .minus, .multiply,
    .divide, .remainder]
  keyword
    | .or => "or"
    | .and => "and"
    | .binOr => "bin_or"
    | .binAnd => "bin_and"
    | .xor => "xor"
    | .equals => "equals"
    | .notEquals => "not_equals"
    | .less => "less"
    | .greater => "greater"
    | .lessEquals => "less_equals"
    | .greaterEquals => "greater_equals"
    | .leftShift => "left_shift"
    | .signedRightShift => "signed_right_shift"
    | .unsignedRightShift => "unsigned_right_shift"
    | .plus => "plus"
    | .minus => "minus"
    | .multiply => "multiply"
    | .divide => "divide"
    | .remainder => "remainder"

def BinaryOp.symbol : BinaryOp → String
  | .or => "||"
  | .and => "&&"
  | .binOr => "|"
  | .binAnd => "&"
  | .xor => "^"
  | .equals => "=="
  | .notEquals => "!="
  | .less => "<"
  | .greater => ">"
  | .lessEquals => "<="
  | .greaterEquals => ">="
  | .leftShift => "<<"
  | .signedRightShift => ">>"
  | .unsignedRightShift => ">>>"
  | .plus => "+"
  | .minus => "-"
  | .multiply => "*"
  | .divide => "/"
  | .remainder => "%"

inductive AssignOp where
  | assign
  | plus
  | minus
  | multiply
  | divide
  | binAnd
  | binOr
  | xor
  | remainder
  | leftShift
  | signedRightShift
  | unsignedRightShift
  deriving DecidableEq

instance : Keyword AssignOp where
  all := [.assign, .plus, .minus, .multiply, .divide, .binAnd, .binOr, .xor, .remainder,
    .leftShift, .signedRightShift, .unsignedRightShift]
  keyword
    | .assign => "assign"
    | .plus => "plus"
    | .minus => "minus"
    | .multiply => "multiply"
    | .divide => "divide"
    | .binAnd => "bin_and"
    | .binOr => "bin_or"
    | .xor => "xor"
    | .remainder => "remainder"
    | .leftShift => "left_shift"
    | .signedRightShift => "signed_right_shift"
    | .unsignedRightShift => "unsigned_right_shift"

def AssignOp.symbol : AssignOp → String
  | .assign => "="
  | .plus => "+="
  | .minus => "-="
  | .multiply => "*="
  | .divide => "/="
  | .binAnd => "&="
  | .binOr => "|="
  | .xor => "^="
  | .remainder => "%="
  | .leftShift => "<<="
  | .signedRightShift => ">>="
  | .unsignedRightShift => ">>>="

inductive UnaryOp where
  | plus
  | minus
  | prefixIncrement
  | prefixDecrement
  | logicalComplement
  | bitwiseComplement
  | postfixIncrement
  | postfixDecrement
  deriving DecidableEq

instance : Keyword UnaryOp where
  all := [.plus, .minus, .prefixIncrement, .prefixDecrement, .logicalComplement,
    .bitwiseComplement, .postfixIncrement, .postfixDecrement]
  keyword
    | .plus => "plus"
    | .minus => "minus"
    | .prefixIncrement => "prefix_increment"
    | .prefixDecrement => "prefix_decrement"
    | .logicalComplement => "logical_complement"
    | .bitwiseComplement => "bitwise_complement"
    | .postfixIncrement => "postfix_increment"
    | .postfixDecrement => "postfix_decrement"

def UnaryOp.symbol : UnaryOp → String
  | .plus => "+"
  | .minus => "-"
  | .prefixIncrement | .postfixIncrement => "++"
  | .prefixDecrement | .postfixDecrement => "--"
  | .logicalComplement => "!"
  | .bitwiseComplement => "~"

/-- Whether the operator stands after its operand. -/
def UnaryOp.followsOperand : UnaryOp → Bool
  | .postfixIncrement | .postfixDecrement => true
  | _ => false

end TypeScribe
