import TypeScribe.Naming
import TypeScribe.Script.Context
import TypeScribe.Script.Shape

/-!
# Scripts of annotations, modifiers and types

An annotation becomes a comment. A type name is written qualified where it can be resolved, and as
the built-in type where there is one.
-/
namespace TypeScribe.Script
set_option autoImplicit false
open Doc

def annotationComment (name : String) (arguments : Doc) : Doc :=
  text "/* @" ++ text name ++ arguments ++ text " */"

def element (name : String) (value : Doc) : Doc := text name ++ text " = " ++ value

/-- Annotations above a declaration, one a line. -/
def annotationLines (annotations : List Doc) : Doc := annotations.flatMap fun d => d ++ newline

/-- Annotations in front of a parameter or type. -/
def inlineAnnotations (annotations : List Doc) : Doc := annotations.flatMap fun d => d ++ text " "

/-- Annotations of a primitive type or an array level, set off by blanks on both sides. -/
def levelAnnotations (annotations : List Doc) : Doc :=
  annotations.flatMap fun d => text " " ++ d ++ text " "

/-- The modifiers that are written, behind a marker for those that cannot be. -/
def modifiers (s : ModifierSet) : Doc :=
  (if s.project.rejected.isEmpty then []
    else unsupported (.modifiers s.project.rejected) ++ text " ")
    ++ text s.project.lead

def angled (arguments : List Doc) : Doc :=
  if arguments.isEmpty then [] else between "<" ">" (separated ", " arguments)

def parenthesized (arguments : List Doc) : Doc := between "(" ")" (separated ", " arguments)

def level (annotations : List Doc) : Doc := levelAnnotations annotations ++ text "[]"

def plainType (d : Doc) : TypeShape := { element := d, levels := [] }

/-- The levels of an array are written from the outermost on. -/
def arrayType (component : TypeShape) (annotations : List Doc) : TypeShape :=
  { element := component.element, levels := level annotations ++ component.levels }

def boundOrAny (extendsBound superBound : Option TypeShape) : Doc :=
  match extendsBound.or superBound with
  | some bound => bound.doc
  | none => text "any"

/-- A class type under `scope`, whose segments are `scopeSegments`. -/
def classType (cx : Context) (scopeSegments : List String) (scope : Option Doc) (name : String)
    (typeArguments : Option (List TypeShape)) (annotations : List Doc) : Doc :=
  match builtinUnder? scopeSegments name with
  | some builtin => text builtin
  | none =>
    (match scope with
      | some d => d ++ text "." ++ inlineAnnotations annotations ++ text name
      | none => inlineAnnotations annotations ++ text (cx.typeName name))
      ++ angled ((typeArguments.getD []).map TypeShape.doc)

def typeParameter (name : String) (bounds : List Doc) (annotations : List Doc) : Doc :=
  inlineAnnotations annotations ++ text name
    ++ (if bounds.isEmpty then [] else text " extends " ++ separated " & " bounds)

/-- A type after a colon, unless it is unknown. -/
def typed (type : Option Doc) : Doc :=
  match type with
  | some d => text ": " ++ d
  | none => []

def parameter (name : String) (type : Option Doc) (mods : ModifierSet) (annotations : List Doc)
    (isVarArgs : Bool) (varArgsAnnotations : List Doc) : Doc :=
  inlineAnnotations annotations ++ modifiers mods
    ++ (if isVarArgs then inlineAnnotations varArgsAnnotations ++ text "..." else [])
    ++ text (escapeIdentifier name) ++ typed type ++ (if isVarArgs then text "[]" else [])

end TypeScribe.Script
