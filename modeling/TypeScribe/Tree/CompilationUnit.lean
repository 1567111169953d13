import TypeScribe.Text.Segment
import TypeScribe.Tree.ClassType
import TypeScribe.Tree.Declaration

/-!
# Compilation units

One source file: a package, imports and top-level declarations, with the comments around them.
-/
namespace TypeScribe
set_option autoImplicit false

structure Package where
  name : String
  annotations : List AnnotationUse := []

/-- An import; the name of an import on demand stands without its `.*`. -/
structure Import where
  name : String
  isStatic : Bool := false
  isOnDemand : Bool := false
  comment : Option Comment := none

/-- The last segment of the imported name. -/
def Import.identifier (i : Import) : String := Text.lastSegment isDot i.name

structure CompilationUnit where
  comment : Option Comment := none
  package : Option Package := none
  imports : List Import := []
  types : List TypeDecl := []
  trailing : List Comment := []

namespace CompilationUnit

def packageName (u : CompilationUnit) : Option String := u.package.map Package.name

/-- What stands before the name of a top-level type: the package and a dot, or nothing. -/
def packageQualifier (u : CompilationUnit) : String :=
  match u.packageName with
  | some name => if name.isEmpty then "" else name ++ "."
  | none => ""

end CompilationUnit
end TypeScribe
