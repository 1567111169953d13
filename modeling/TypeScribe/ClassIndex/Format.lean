import TypeScribe.ClassIndex.Basic
import TypeScribe.Json.Printer
import TypeScribe.Json.Reader
import TypeScribe.Json.Record
import TypeScribe.Toml.Reader

/-!
# Class index files

An index is kept as a table with one list, `types`, in JSON or TOML. A descriptor must give its two
names; entries with other keys are ignored. It may also be an array of its fields in order.
-/
namespace TypeScribe
set_option autoImplicit false

inductive IndexError where
  | unreadable
  | malformedJson
  | malformedToml
  | unsupportedFormat (extension : String)
  deriving DecidableEq

def IndexError.message : IndexError → String
  | .unreadable => "Failed to read class index"
  | .malformedJson => "Invalid json class index"
  | .malformedToml => "Invalid toml class index"
  | .unsupportedFormat extension => "Unsupported class index format: '" ++ extension ++ "'"

namespace TypeDescriptor

def toJson (d : TypeDescriptor) : Json :=
  .object [("simple_name", .string d.simpleName), ("binary_name", .string d.binaryName),
    ("is_interface", .bool d.isInterface), ("member_names", .ofStrings d.memberNames)]

def namesOfJson? (j : Json) : Option (List String) := do (← j.array?).mapM Json.string?

/-- The fields of a descriptor, in order. -/
def fields : List String := ["simple_name", "binary_name", "is_interface", "member_names"]

def ofJson? (j : Json) : Option TypeDescriptor := do
  let e ← j.record? fields
  return {
    simpleName := ← e.required "simple_name" Json.string?
    binaryName := ← e.required "binary_name" Json.string?
    isInterface := ← e.defaulted "is_interface" false Json.bool?
    memberNames := ← e.defaulted "member_names" [] namesOfJson? }

def namesOfToml? (v : Toml) : Option (List String) := do (← v.array?).mapM Toml.string?

def ofToml? (v : Toml) : Option TypeDescriptor := do
  let entries ← v.record? fields
  return {
    simpleName := ← (← entries.lookup "simple_name").string?
    binaryName := ← (← entries.lookup "binary_name").string?
    isInterface := ← match entries.lookup "is_interface" with
      | some v => v.boolean?
      | none => some false
    memberNames := ← match entries.lookup "member_names" with
      | some v => namesOfToml? v
      | none => some [] }

end TypeDescriptor

/-- What follows the last dot of a file's name, if something stands before that dot. -/
def fileExtension? (fileName : String) : Option String :=
  let parts := Text.segments (· == '.') fileName
  if fileName == ".." || (Text.joinWith "." parts.dropLast).isEmpty then none else parts.getLast?

namespace ClassIndex

def toJson (index : ClassIndex) : Json :=
  .object [("types", .array (index.types.map TypeDescriptor.toJson))]

def toText (index : ClassIndex) : String := index.toJson.pretty

def descriptorsOfJson? (j : Json) : Option (List TypeDescriptor) := do
  (← j.array?).mapM TypeDescriptor.ofJson?

def ofJson? (j : Json) : Option ClassIndex := do
  return ofList (← (← j.record? ["types"]).defaulted "types" [] descriptorsOfJson?)

def ofJsonText (text : String) : Except IndexError ClassIndex :=
  match (Json.scan? text).bind ofJson? with
  | some index => .ok index
  | none => .error .malformedJson

def ofTomlEntries? (entries : List (String × Toml)) : Option ClassIndex :=
  match entries.lookup "types" with
  | some v => do return ofList (← (← v.array?).mapM TypeDescriptor.ofToml?)
  | none => some empty

def ofTomlText (text : String) : Except IndexError ClassIndex :=
  match (Toml.read? text).bind ofTomlEntries? with
  | some index => .ok index
  | none => .error .malformedToml

/-- The index in a file with the given name and bytes; no bytes if there is no such file. -/
def ofFile (fileName : String) (bytes : Option ByteArray) : Except IndexError ClassIndex :=
  match bytes.bind String.fromUTF8? with
  | none => .error .unreadable
  | some text =>
    match fileExtension? fileName with
    | some "toml" => ofTomlText text
    | some "json" => ofJsonText text
    | other => .error (.unsupportedFormat (other.getD ""))

end ClassIndex
end TypeScribe
