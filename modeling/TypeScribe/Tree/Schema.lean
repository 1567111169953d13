/-!
# The fields of tree records

Every record of the tree format has its fields in a fixed order, and every tagged node its kinds.
The order counts where a record is written without names and a kind by its position.
-/
namespace TypeScribe
set_option autoImplicit false

/-- One of the forms that a tagged node takes. -/
structure Kind where
  name : String
  fields : List String := []

namespace Schema

def compilationUnit : List String := ["comment", "package", "imports", "types", "trailing_comments"]

def package : List String := ["name", "annotations"]

def importUse : List String := ["name", "is_static", "is_asterisk", "comment"]

def comment : List String := ["kind", "content"]

def annotationUse : List String := ["name", "arguments"]

def annotationArguments : List Kind :=
  [{ name := "marker" }, { name := "single", fields := ["value"] },
    { name := "normal", fields := ["pairs"] }]

def element : List String := ["name", "value"]

def classDecl : List String :=
  ["name", "is_interface", "modifiers", "annotations", "comment", "type_parameters",
    "extended_types", "implemented_types", "members", "trailing_comments"]

def enumDecl : List String :=
  ["name", "modifiers", "annotations", "comment", "implemented_types", "entries", "members"]

def annotationDecl : List String := ["name", "modifiers", "annotations", "comment", "members"]

def typeDecl : List Kind :=
  [{ name := "class", fields := classDecl }, { name := "enum", fields := enumDecl },
    { name := "annotation", fields := annotationDecl }]

def enumConstant : List String := ["name", "annotations", "comment", "arguments", "class_body"]

def field : List String := ["modifiers", "annotations", "comment", "base_type", "variables"]

def method : List String :=
  ["name", "modifiers", "annotations", "comment", "type_parameters", "return_type", "parameters",
    "thrown_exceptions", "body"]

def constructor : List String :=
  ["name", "modifiers", "annotations", "comment", "type_parameters", "parameters",
    "thrown_exceptions", "body"]

def initializer : List String := ["is_static", "comment", "body"]

def annotationMember : List String :=
  ["name", "modifiers", "annotations", "comment", "type", "default_value"]

/-- A nested type has the fields of its declaration, tag included. -/
def member : List Kind :=
  [{ name := "type" }, { name := "field", fields := field }, { name := "method", fields := method },
    { name := "constructor", fields := constructor },
    { name := "initializer", fields := initializer },
    { name := "annotation_member", fields := annotationMember }]

def declarator : List String := ["name", "extra_dimensions", "initializer"]

def dimension : List String := ["annotations"]

def parameter : List String :=
  ["name", "type", "modifiers", "annotations", "is_var_args", "var_args_annotations"]

def typeParameter : List String := ["name", "bounds", "annotations"]

def classType : List String := ["scope", "name", "type_arguments", "annotations"]

def typeUse : List Kind :=
  [{ name := "primitive", fields := ["primitive", "annotations"] },
    { name := "class", fields := classType },
    { name := "array", fields := ["component", "annotations"] },
    { name := "void", fields := ["annotations"] },
    { name := "intersection", fields := ["elements"] },
    { name := "union", fields := ["elements"] },
    { name := "wildcard", fields := ["extends", "super_bound", "annotations"] },
    { name := "unknown" }]

def block : List String := ["statements", "trailing_comments"]

def switchEntry : List String := ["label", "statements"]

def catchClause : List String := ["parameter", "body"]

def variableGroup : List String := ["modifiers", "annotations", "base_type", "variables"]

/-- A local type has the fields of its declaration, tag included. -/
def stmt : List Kind :=
  [{ name := "block", fields := block },
    { name := "expression", fields := ["expr"] },
    { name := "local_class" },
    { name := "assert", fields := ["check", "message"] },
    { name := "labeled", fields := ["label", "statement"] },
    { name := "empty" },
    { name := "switch", fields := ["selector", "entries"] },
    { name := "break", fields := ["label"] },
    { name := "continue", fields := ["label"] },
    { name := "return", fields := ["expr"] },
    { name := "if", fields := ["condition", "then", "otherwise"] },
    { name := "while", fields := ["condition", "body"] },
    { name := "do", fields := ["body", "condition"] },
    { name := "for_each", fields := ["variable", "iterable", "body"] },
    { name := "for", fields := ["init", "compare", "update", "body"] },
    { name := "throw", fields := ["expr"] },
    { name := "synchronized", fields := ["lock", "body"] },
    { name := "try", fields := ["resources", "block", "catches", "finally"] },
    { name := "explicit_constructor_invocation",
      fields := ["is_this", "expr", "type_arguments", "arguments"] },
    { name := "comment", fields := comment },
    { name := "unparsable" }]

def creationLevel : List String := ["dimension", "annotations"]

def lambdaBody : List Kind :=
  [{ name := "expression", fields := ["expr"] }, { name := "block", fields := block }]

def expr : List Kind :=
  [{ name := "name", fields := ["name"] },
    { name := "field_access", fields := ["scope", "name"] },
    { name := "array_access", fields := ["array", "index"] },
    { name := "array_creation", fields := ["element_type", "levels", "initializer"] },
    { name := "array_initializer", fields := ["values"] },
    { name := "assign", fields := ["target", "op", "value"] },
    { name := "binary", fields := ["left", "op", "right"] },
    { name := "unary", fields := ["op", "expr"] },
    { name := "cast", fields := ["type", "expr"] },
    { name := "class", fields := ["type"] },
    { name := "conditional", fields := ["condition", "then", "otherwise"] },
    { name := "enclosed", fields := ["inner"] },
    { name := "instance_of", fields := ["expr", "type"] },
    { name := "integer_literal", fields := ["value"] },
    { name := "long_literal", fields := ["value"] },
    { name := "double_literal", fields := ["value"] },
    { name := "char_literal", fields := ["value"] },
    { name := "string_literal", fields := ["value"] },
    { name := "boolean_literal", fields := ["value"] },
    { name := "null_literal" },
    { name := "this", fields := ["qualifier"] },
    { name := "super", fields := ["qualifier"] },
    { name := "method_call", fields := ["scope", "type_arguments", "name", "arguments"] },
    { name := "object_creation",
      fields := ["scope", "type", "type_arguments", "arguments", "anonymous_body"] },
    { name := "lambda", fields := ["parameters", "enclosing_parameters", "body"] },
    { name := "method_reference", fields := ["scope", "type_arguments", "identifier"] },
    { name := "type_expr", fields := ["type"] },
    { name := "variable_declaration", fields := variableGroup },
    { name := "annotation", fields := annotationUse }]

end Schema
end TypeScribe
