import TypeScribe.Text.Segment
import TypeScribe.Tree.Modifier

/-!
# Constructs without a counterpart

What a Java unit may hold that TypeScript cannot express, each with the reason that is given for it.
-/
namespace TypeScribe
set_option autoImplicit false

inductive Construct where
  | thrownExceptions
  | modifiers (modifiers : List Modifier)
  | wildcardImport (name : String)
  | methodReference
  | assertStatement
  | synchronizedStatement
  | tryWithResources
  | localType (name : String)
  | qualifiedSuper (name : String)
  | qualifiedAnonymousClass (name : String)
  deriving DecidableEq

def Construct.reason : Construct → String
  | .thrownExceptions => "not support thrown exception here"
  | .modifiers ms => "not support modifiers: " ++ Text.joinWith " " (ms.map Modifier.keyword) ++ " "
  | .wildcardImport name => "not support Asterisk in import '" ++ name ++ ".*'"
  | .methodReference => "not support method reference"
  | .assertStatement => "not support assert statement"
  | .synchronizedStatement => "not support synchronized statement"
  | .tryWithResources => "not support try-with-resources"
  | .localType name => "not support local type declaration '" ++ name ++ "'"
  | .qualifiedSuper name => "not support qualified super '" ++ name ++ ".super'"
  | .qualifiedAnonymousClass name =>
    "not support qualified creation of anonymous '" ++ name ++ "'"

end TypeScribe
