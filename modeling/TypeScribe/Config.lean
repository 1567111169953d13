import TypeScribe.Construct
import TypeScribe.Toml.Reader
import TypeScribe.Tree.Keyword

/-!
# Configuration

How a unit is written: which comments are kept, how lines are laid out, and what becomes of a
construct without a counterpart. A configuration is the default one with settings applied in order;
its texts must not be empty.
-/
namespace TypeScribe
set_option autoImplicit false

inductive FailureMode where
  /-- Leave a marker in the text and go on. -/
  | tolerant
  /-- Give up. -/
  | strict
  deriving DecidableEq

instance : Keyword FailureMode where
  all := [.tolerant, .strict]
  keyword
    | .tolerant => "tolerant"
    | .strict => "strict"

structure Config where
  printComments : Bool := true
  printJavadoc : Bool := true
  indent : String := "    "
  endOfLine : String := "\n"
  notSupportedText : String := "java2ts not support"
  failureMode : FailureMode := .tolerant
  wrapPackageNamespace : Bool := true
  deriving DecidableEq

inductive ConfigError where
  | empty (field : String)
  | malformed
  | unreadable
  deriving DecidableEq

def ConfigError.message : ConfigError → String
  | .empty field => "Configuration field '" ++ field ++ "' must not be empty"
  | .malformed => "Invalid configuration"
  | .unreadable => "Failed to read configuration"

/-- One option with the value it is given. -/
inductive Setting where
  | printComments (value : Bool)
  | printJavadoc (value : Bool)
  | indent (value : String)
  | endOfLine (value : String)
  | notSupportedText (value : String)
  | failureMode (value : FailureMode)
  | wrapPackageNamespace (value : Bool)

inductive Verdict where
  /-- Write the marker in place of the construct. -/
  | warn (marker : String)
  | fatal (reason : String)
  deriving DecidableEq

namespace Config

def strict : Config := { failureMode := .strict }

def set (config : Config) : Setting → Config
  | .printComments value => { config with printComments := value }
  | .printJavadoc value => { config with printJavadoc := value }
  | .indent value => { config with indent := value }
  | .endOfLine value => { config with endOfLine := value }
  | .notSupportedText value => { config with notSupportedText := value }
  | .failureMode value => { config with failureMode := value }
  | .wrapPackageNamespace value => { config with wrapPackageNamespace := value }

/-- Refuses an empty text, the first of them by name. -/
def checked (config : Config) : Except ConfigError Config :=
  if config.indent.isEmpty then .error (.empty "indent")
  else if config.endOfLine.isEmpty then .error (.empty "end_of_line")
  else if config.notSupportedText.isEmpty then .error (.empty "not_supported_text")
  else .ok config

def ofSettings (settings : List Setting) : Except ConfigError Config :=
  checked (settings.foldl set {})

/-- The comment that stands for a construct, with the reason it gives. -/
def marker (config : Config) (reason : String) : String :=
  "/* " ++ config.notSupportedText ++ " : " ++ reason ++ " */"

def judge (config : Config) (construct : Construct) : Verdict :=
  match config.failureMode with
  | .tolerant => .warn (config.marker construct.reason)
  | .strict => .fatal construct.reason

end Config

/-- A keyword, alone or as the only key of a table that holds nothing. -/
def Toml.keyword? {α : Type} [Keyword α] : Toml → Option α
  | .string s => Keyword.ofString? s
  | .table [(s, v)] => if v.isNothing then Keyword.ofString? s else none
  | _ => none

def Setting.ofToml? (key : String) (value : Toml) : Option Setting :=
  match key with
  | "print_comments" => value.boolean?.map .printComments
  | "print_javadoc" => value.boolean?.map .printJavadoc
  | "indent" => value.string?.map .indent
  | "end_of_line" => value.string?.map .endOfLine
  | "not_supported_text" => value.string?.map .notSupportedText
  | "failure_mode" => value.keyword?.map .failureMode
  | "wrap_package_namespace" => value.boolean?.map .wrapPackageNamespace
  | _ => none

namespace Config

/-- The configuration in a TOML text; a key that is no option is refused. -/
def ofTomlText (text : String) : Except ConfigError Config :=
  match (Toml.read? text).bind (·.mapM fun (key, v) => Setting.ofToml? key v) with
  | some settings => ofSettings settings
  | none => .error .malformed

/-- The configuration in a file with the given bytes; no bytes if there is no such file. -/
def ofFile (bytes : Option ByteArray) : Except ConfigError Config :=
  match bytes.bind String.fromUTF8? with
  | some text => ofTomlText text
  | none => .error .unreadable

end Config
end TypeScribe
