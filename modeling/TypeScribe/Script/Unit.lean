import TypeScribe.Script.Node

/-!
# The script of a unit

A header, one block for each top-level declaration with the modules behind it, and a footer. With
`wrap`, a unit in a package is written inside a namespace of the package's name.
-/
namespace TypeScribe
set_option autoImplicit false
open Doc

def Import.doc (i : Import) : Doc :=
  Doc.comment i.comment ++
    if i.isOnDemand then unsupported (.wildcardImport i.name) ++ newline
    else line ("import " ++ escapeIdentifier i.identifier ++ " = " ++ i.name ++ ";")

namespace CompilationUnit

/-- The package whose namespace the unit is written in. -/
def namespace? (u : CompilationUnit) (wrap : Bool) : Option Package :=
  if wrap then u.package else none

def openNamespace (cx : Context) (package : Package) : Doc :=
  Script.annotationLines (package.annotations.map fun a => a.script cx)
    ++ line ("namespace " ++ package.name ++ " \x7b") ++ [.indent]

def header (u : CompilationUnit) (wrap : Bool) (cx : Context) : Doc :=
  Doc.comment u.comment
    ++ (match u.namespace? wrap with
      | some package => openNamespace cx package
      | none => [])
    ++ u.imports.flatMap Import.doc ++ (if u.imports.isEmpty then [] else newline)

/-- A top-level declaration and what is moved out of it. -/
def block (cx : Context) (decl : TypeDecl) : Doc :=
  withModules (Script.rootDecl decl (decl.script cx))

/-- The blocks of top-level declarations, the first of them standing at `place`. -/
def blocks (cx : Context) (place : Nat) : List TypeDecl → List Doc
  | [] => []
  | decl :: rest => block (cx.child place) decl :: blocks cx (place + 1) rest

/-- Blocks with a blank line between neighbours. -/
def stacked : List Doc → Doc
  | [] => []
  | [d] => d ++ newline
  | d :: e :: rest => d ++ newline ++ newline ++ stacked (e :: rest)

def footer (u : CompilationUnit) (wrap : Bool) : Doc :=
  comments u.trailing
    ++ if (u.namespace? wrap).isSome then .outdent :: line "\x7d" else []

def script (u : CompilationUnit) (wrap : Bool) (classPath : ClassIndex) : Doc :=
  let cx : Context := { resolver := .ofUnit u classPath }
  u.header wrap cx ++ stacked (blocks cx 0 u.types) ++ u.footer wrap

end CompilationUnit
end TypeScribe
