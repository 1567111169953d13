import TypeScribe.ClassIndex.Declared
import TypeScribe.Tree.ClassType

/-!
# Name resolution

A simple type name denotes, in this order: a type nested in an enclosing declaration, innermost
first; what an import brings in, imports in order; a type of the unit's own package; a type of
`java.lang`. The further segments of a scoped name are nested types of what the first one denotes.
-/
namespace TypeScribe
set_option autoImplicit false

/-- The declarations around a place, innermost first. -/
abbrev Scope := List TypeDecl

inductive ResolveError where
  | notFound (name : String)
  | unknownScope (scope name : String)
  deriving DecidableEq

def ResolveError.message : ResolveError → String
  | .notFound name => "Type '" ++ name ++ "' not found in scope, imports, package or java.lang"
  | .unknownScope scope name =>
    "Type '" ++ name ++ "' not found under resolved scope '" ++ scope ++ "'"

/-- What a unit can name: its own declarations over a class path. -/
structure Resolver where
  packageName : Option String
  packageQualifier : String
  imports : List Import
  declared : ClassIndex
  classPath : ClassIndex

namespace Resolver

def ofUnit (u : CompilationUnit) (classPath : ClassIndex) : Resolver where
  packageName := u.packageName
  packageQualifier := u.packageQualifier
  imports := u.imports
  declared := .ofUnit u
  classPath := classPath

/-- A type by binary or dotted name, the unit's own declarations first. -/
def lookup (r : Resolver) (name : String) : Option TypeDescriptor :=
  (r.declared.lookup name).or (r.classPath.lookup name)

def lookupOr (r : Resolver) (name : String) (missing : String) :
    Except ResolveError TypeDescriptor :=
  match r.lookup name with
  | some d => .ok d
  | none => .error (.notFound missing)

/-- The binary name of a type nested in the innermost declaration of a scope. -/
def nestedName (r : Resolver) (scope : Scope) (name : String) : String :=
  scope.foldr (fun d qualifier => (qualifier ++ d.name).push nestingSign) r.packageQualifier ++ name

def nests (d : TypeDecl) (name : String) : Bool := d.nestedTypes.any fun t => t.name == name

/-- The innermost part of a scope whose declaration nests a type of the name. -/
def lexicalScope? (name : String) : Scope → Option Scope
  | [] => none
  | d :: outer => if nests d name then some (d :: outer) else lexicalScope? name outer

/-- What the first matching import denotes. An import on demand matches only if it finds a type. -/
def imported? (r : Resolver) (name : String) :
    List Import → Option (Except ResolveError TypeDescriptor)
  | [] => none
  | i :: rest =>
    if i.isOnDemand then
      match r.lookup (i.name ++ "." ++ name) with
      | some d => some (.ok d)
      | none => imported? r name rest
    else if i.identifier == name then some (r.lookupOr i.name i.name)
    else imported? r name rest

/-- A top-level type of the unit's own package. -/
def packageSibling? (r : Resolver) (name : String) : Option TypeDescriptor :=
  match r.packageName with
  | none => none
  | some package =>
    if package.isEmpty then none
    else (r.declared.packageMembers package ++ r.classPath.packageMembers package).find?
      fun d => d.simpleName == name

def resolveSimple (r : Resolver) (name : String) (scope : Scope) :
    Except ResolveError TypeDescriptor :=
  match lexicalScope? name scope with
  | some inner => r.lookupOr (r.nestedName inner name) (r.nestedName inner name)
  | none =>
    match r.imported? name r.imports with
    | some result => result
    | none =>
      match r.packageSibling? name with
      | some d => .ok d
      | none => r.lookupOr ("java.lang." ++ name) name

/-- Resolves a name given by its segments. -/
def resolveSegments (r : Resolver) (segments : List String) (scope : Scope) :
    Except ResolveError TypeDescriptor :=
  match segments with
  | [] => .error (.notFound "")
  | first :: rest =>
    match r.resolveSimple first scope with
    | .error e => .error e
    | .ok root =>
      if rest.isEmpty then .ok root
      else
        match r.lookup (rest.foldl (fun name s => name.push nestingSign ++ s) root.binaryName) with
        | some d => .ok d
        | none => .error (.unknownScope root.qualifiedName (Text.joinWith "." rest))

def resolve (r : Resolver) (type : ClassType) (scope : Scope) :
    Except ResolveError TypeDescriptor :=
  r.resolveSegments type.segments scope

end Resolver
end TypeScribe
