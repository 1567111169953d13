import TypeScribe.ClassIndex.Basic
import TypeScribe.Tree.CompilationUnit
import TypeScribe.Tree.Outline

/-!
# The types that a unit declares

Every declaration of a unit, nested ones included, as descriptors under their binary names.
-/
namespace TypeScribe
set_option autoImplicit false

mutual
/-- The descriptors of a declaration with the given binary name and of what it nests. -/
def Outline.descriptors (binaryName : String) : Outline → List TypeDescriptor
  | .mk _ isInterface _ memberNames _ nested =>
    { TypeDescriptor.ofBinaryName binaryName isInterface with memberNames := memberNames }
      :: descriptorsUnder (binaryName.push nestingSign) nested

/-- The descriptors of declarations whose binary names begin with `qualifier`. -/
def descriptorsUnder (qualifier : String) : List Outline → List TypeDescriptor
  | [] => []
  | outline :: rest =>
    outline.descriptors (qualifier ++ outline.name) ++ descriptorsUnder qualifier rest
end

def CompilationUnit.descriptors (u : CompilationUnit) : List TypeDescriptor :=
  descriptorsUnder u.packageQualifier (u.types.flatMap Node.outlines)

def ClassIndex.ofUnit (u : CompilationUnit) : ClassIndex := .ofList u.descriptors

end TypeScribe
