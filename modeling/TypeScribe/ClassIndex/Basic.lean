import TypeScribe.ClassIndex.Descriptor

/-!
# Class index

A table of descriptors in ascending order of binary name. A nested type is also found under its
dotted name; where two nested types share one, the binary name inserted last is found.
-/
namespace TypeScribe
set_option autoImplicit false

structure ClassIndex where
  /-- The descriptors, strictly ascending by binary name. -/
  types : List TypeDescriptor := []
  /-- Dotted names of nested types with their binary names, the last inserted first. -/
  dotted : List (String × String) := []

namespace ClassIndex

def empty : ClassIndex := {}

/-- Puts a descriptor in its place, over one with the same binary name. -/
def place (d : TypeDescriptor) : List TypeDescriptor → List TypeDescriptor
  | [] => [d]
  | t :: ts =>
    if d.binaryName < t.binaryName then d :: t :: ts
    else if d.binaryName = t.binaryName then d :: ts
    else t :: place d ts

def insert (index : ClassIndex) (d : TypeDescriptor) : ClassIndex where
  types := place d index.types
  dotted := if d.isTopLevel then index.dotted else (d.qualifiedName, d.binaryName) :: index.dotted

def insertMany (index : ClassIndex) (ds : List TypeDescriptor) : ClassIndex := ds.foldl insert index

def ofList (ds : List TypeDescriptor) : ClassIndex := empty.insertMany ds

/-- Inserts every descriptor of `other`, in ascending order. -/
def merge (index other : ClassIndex) : ClassIndex := index.insertMany other.types

def size (index : ClassIndex) : Nat := index.types.length

def isEmpty (index : ClassIndex) : Bool := index.types.isEmpty

def find? (index : ClassIndex) (binaryName : String) : Option TypeDescriptor :=
  index.types.find? fun d => d.binaryName == binaryName

/-- The descriptor with a binary name, or else the nested type with a dotted name. -/
def lookup (index : ClassIndex) (name : String) : Option TypeDescriptor :=
  match index.find? name with
  | some d => some d
  | none => (index.dotted.lookup name).bind index.find?

/-- The top-level types of a package. -/
def packageMembers (index : ClassIndex) (package : String) : List TypeDescriptor :=
  index.types.filter fun d => d.isTopLevel && d.package == package

end ClassIndex
end TypeScribe
