import TypeScribe.Script.Statements

/-!
# Scripts of declarations

Nested classes are written in place as class expressions, unless they have to be moved to a module
behind their root; then a placeholder stands in their position.
-/
namespace TypeScribe.Script
set_option autoImplicit false
open Doc

/-- Nested types first, then everything else, each group in source order. -/
def classBody (ms : List MemberShape) : Doc :=
  members (ms.filter MemberShape.isType) ++ members (ms.filter fun m => !m.isType)

def listed (word : String) (types : List Doc) : Doc :=
  if types.isEmpty then [] else text word ++ separated ", " types

def classWord (isInterface : Bool) (mods : ModifierSet) : String :=
  if isInterface then "interface "
  else if mods.contains .abstract then "abstract class " else "class "

def classContent (name : String) (isInterface : Bool) (mods : ModifierSet)
    (typeParameters extended implemented : List Doc) (body : List MemberShape)
    (trailing : List Comment) : Doc :=
  text (classWord isInterface mods) ++ text name ++ angled typeParameters
    ++ listed " extends " extended ++ listed " implements " implemented ++ line " \x7b"
    ++ indented (classBody body ++ comments trailing) ++ text "\x7d"

/-- The end of an enum's constants, with the members that follow them. -/
def afterConstants (constants : List Doc) (body : List MemberShape) : Doc :=
  if body.isEmpty then (if constants.isEmpty then [] else newline)
  else line ";" ++ members body

def enumContent (name : String) (implemented constants : List Doc) (body : List MemberShape) : Doc :=
  text "enum " ++ text name ++ listed " implements " implemented ++ line " \x7b"
    ++ indented (newline ++ separated ", " constants ++ afterConstants constants body)
    ++ text "\x7d"

def enumConstant (name : String) (comment : Option Comment) (annotations arguments : List Doc)
    (body : List MemberShape) : Doc :=
  Doc.comment comment ++ annotationLines annotations ++ text name
    ++ (if arguments.isEmpty then [] else parenthesized arguments)
    ++ (if body.isEmpty then [] else line " \x7b" ++ indented (members body) ++ line "\x7d")

def annotationContent (name : String) (body : List MemberShape) : Doc :=
  text "interface " ++ text name ++ line " \x7b" ++ indented (classBody body) ++ text "\x7d"

/-- A declaration at the top of a unit. -/
def rootDecl (decl : TypeDecl) (shape : DeclShape) : Doc :=
  Doc.comment decl.comment ++ shape.annotations
    ++ (if decl.modifiers.contains .publicAccess then text "export " else []) ++ shape.content

/-- A declaration inside a module. -/
def moduleDecl (decl : TypeDecl) (shape : DeclShape) : Doc :=
  Doc.comment decl.comment ++ shape.annotations ++ text "export " ++ shape.content

def placeholder (name : String) : String :=
  "// class or interface '" ++ name ++ "' is export in module after root class"

/-- Something inside a closure that holds the instance of the enclosing declaration. -/
def closure (enclosing : String) (d : Doc) : Doc :=
  between ("((" ++ enclosing ++ "_this) => ") ")(this);" d

/-- A nested class as a property; `abstract` belongs to the class and not to the property. -/
def nestedClass (enclosing : String) (decl : TypeDecl) (shape : DeclShape) : Doc :=
  Doc.comment decl.comment ++ shape.annotations ++ modifiers (decl.modifiers.erase .abstract)
    ++ text decl.name ++ text " = "
    ++ (if decl.isStatic then shape.content else closure enclosing shape.content)

def nestedEnum (decl : TypeDecl) (shape : DeclShape) : Doc :=
  Doc.comment decl.comment ++ shape.annotations ++ modifiers decl.modifiers ++ shape.content

def nestedType (cx : Context) (decl : TypeDecl) (shape : DeclShape) : Doc :=
  match cx.enclosingName? with
  | none => flaw (.nestedTypeAtTop decl.name)
  | some enclosing =>
    if mustMove decl cx.scope then
      [.moved cx.route (cx.scope.reverse.map TypeDecl.name) (moduleDecl decl shape),
        .text (placeholder decl.name)]
    else match decl with
      | .enumDecl .. => nestedEnum decl shape
      | _ => nestedClass enclosing decl shape

/-- A class in a body; other declarations have no counterpart there. -/
def localType (cx : Context) (decl : TypeDecl) (shape : DeclShape) : Doc :=
  match cx.enclosingName? with
  | none => flaw (.localTypeAtTop decl.name)
  | some enclosing =>
    match decl with
    | .classDecl name false .. =>
      Doc.comment decl.comment ++ shape.annotations ++ text ("const " ++ name ++ " = ")
        ++ closure enclosing shape.content
    | _ => unsupported (.localType decl.name)

/-- The modifiers of a member; a member of an interface has none. -/
def memberModifiers (cx : Context) (mods : ModifierSet) : Doc :=
  if cx.inInterface then [] else modifiers mods

def field (cx : Context) (mods : ModifierSet) (comment : Option Comment) (annotations : List Doc)
    (base : Option Doc) (ds : List DeclaratorShape) : Doc :=
  Doc.comment comment ++ annotationLines annotations ++ memberModifiers cx mods
    ++ declarators base ds ++ text ";"

def thrownMarker (throwsAny : Bool) : Doc :=
  if throwsAny then text " " ++ unsupported .thrownExceptions else []

def method (cx : Context) (name : String) (mods : ModifierSet) (comment : Option Comment)
    (annotations typeParameters : List Doc) (returnType : Doc) (parameters : List Doc)
    (throwsAny : Bool) (body : Option Doc) : Doc :=
  Doc.comment comment ++ annotationLines annotations ++ memberModifiers cx mods
    ++ text (escapeIdentifier name) ++ angled typeParameters ++ parenthesized parameters
    ++ text ": " ++ returnType ++ thrownMarker throwsAny
    ++ match body with
      | some d => text " " ++ d
      | none => text ";"

def constructor (comment : Option Comment) (annotations parameters : List Doc) (throwsAny : Bool)
    (body : Doc) : Doc :=
  Doc.comment comment ++ annotationLines annotations ++ text "constructor"
    ++ parenthesized parameters ++ thrownMarker throwsAny ++ text " " ++ body

def initializer (isStatic : Bool) (comment : Option Comment) (body : Doc) : Doc :=
  Doc.comment comment ++ (if isStatic then text "static " else []) ++ body

def annotationMember (name : String) (comment : Option Comment) (annotations : List Doc)
    (type : Doc) : Doc :=
  Doc.comment comment ++ annotationLines annotations ++ text (escapeIdentifier name) ++ text "(): "
    ++ type ++ text ";"

end TypeScribe.Script
