import TypeScribe.Tree.ClassType

/-!
# Names in TypeScript

The fixed correspondences between the two languages: identifiers, modifiers, type names and
literals.
-/
namespace TypeScribe
set_option autoImplicit false

/-- Identifiers of Java that TypeScript reserves. -/
def reservedWords : List String := ["debugger", "function", "in", "typeof", "var"]

/-- An identifier as it may be written: a reserved word gets an underscore in front. -/
def escapeIdentifier (name : String) : String :=
  if reservedWords.contains name then "_" ++ name else name

/-- The modifiers that TypeScript knows, in the order in which they are written. -/
def supportedModifiers : List Modifier :=
  [.privateAccess, .protectedAccess, .publicAccess, .abstract, .static]

/-- A modifier set split into what is written and what has no counterpart; `final` is in neither. -/
structure ModifierProjection where
  kept : List Modifier
  rejected : List Modifier
  deriving DecidableEq

def ModifierSet.project (s : ModifierSet) : ModifierProjection where
  kept := supportedModifiers.filter s.contains
  rejected := s.toList.filter fun m => !supportedModifiers.contains m && m != .final

/-- The kept modifiers, each followed by a blank. -/
def ModifierProjection.lead (p : ModifierProjection) : String :=
  if p.kept.isEmpty then "" else Text.joinWith " " (p.kept.map Modifier.keyword) ++ " "

def Primitive.scriptName : Primitive → String
  | .boolean => "boolean"
  | .char => "string"
  | .byte | .short | .int | .long | .float | .double => "number"

/-- The built-in type that stands for a type of `java.lang`. -/
def builtinType? : String → Option String
  | "Object" => some "any"
  | "String" => some "string"
  | "CharSequence" => some "string"
  | "Number" => some "number"
  | "Float" => some "number"
  | "Integer" => some "number"
  | "Double" => some "number"
  | "Long" => some "number"
  | "Void" => some "void"
  | _ => none

/-- The built-in type for a name under the given scope: no scope, or exactly `java.lang`. -/
def builtinUnder? (scope : List String) (name : String) : Option String :=
  if scope.isEmpty || Text.joinWith "." scope == "java.lang" then builtinType? name else none

def ClassType.builtin? : ClassType → Option String
  | .classType scope name _ _ => builtinUnder? scope.segments name

/-- A text without its last character, if that character is a suffix. -/
def dropSuffix (isSuffix : Char → Bool) (s : String) : String :=
  match s.toList.getLast? with
  | some c => if isSuffix c then String.ofList s.toList.dropLast else s
  | none => s

def stripDoubleSuffix (s : String) : String :=
  dropSuffix (fun c => c == 'f' || c == 'F' || c == 'd' || c == 'D') s

def stripLongSuffix (s : String) : String := dropSuffix (fun c => c == 'l' || c == 'L') s

end TypeScribe
