import TypeScribe.Text.Segment

/-!
# Type descriptors

What is known about a type that is not at hand as a tree. Its binary name joins package segments
with `.` and nested names with `$`: `pkg.Outer$Inner`.
-/
namespace TypeScribe
set_option autoImplicit false

/-- The sign between an enclosing type and a nested one in a binary name. -/
def nestingSign : Char := '$'

def isNestingSign (c : Char) : Bool := c == nestingSign

structure TypeDescriptor where
  simpleName : String
  binaryName : String
  isInterface : Bool := false
  /-- The fields, methods and nested types that the type declares. -/
  memberNames : List String := []
  deriving DecidableEq

namespace TypeDescriptor

/-- The descriptor of a binary name: its simple name is what follows the last separator. -/
def ofBinaryName (binaryName : String) (isInterface : Bool) : TypeDescriptor where
  simpleName := Text.lastSegment (fun c => c == '.' || isNestingSign c) binaryName
  binaryName := binaryName
  isInterface := isInterface

/-- The binary name with every nesting sign written as a dot. -/
def qualifiedName (d : TypeDescriptor) : String :=
  d.binaryName.map fun c => if isNestingSign c then '.' else c

def isTopLevel (d : TypeDescriptor) : Bool := !d.binaryName.toList.any isNestingSign

/-- The segments of the package around the outermost enclosing type. -/
def packageSegments (d : TypeDescriptor) : List String :=
  (Text.segments (· == '.') (Text.firstSegment isNestingSign d.binaryName)).dropLast

/-- The package of the outermost enclosing type, empty for the default package. -/
def package (d : TypeDescriptor) : String := Text.joinWith "." d.packageSegments

end TypeDescriptor
end TypeScribe
