import TypeScribe.ClassIndex.Jdk
import TypeScribe.Tree.Build

/-!
# Sample units

Small units that show how nested declarations are written, and a class path with a few types beside
those of the JDK.
-/
namespace TypeScribe.Samples
set_option autoImplicit false

def intType : TypeUse := .plain .int

/-- A public method that returns zero. -/
def returningZero (name : String) : Member :=
  Member.ofMethod name intType
    |> Member.withModifiers [.publicAccess]
    |> Member.annotatedWith (.marker "Override")
    |> Member.withBody (.of [.returnStmt (.present (.integerLiteral "0"))])

def abstractInt (name : String) : Member := Member.ofMethod name intType

/-- A field that counts from one. -/
def counter (name : String) : Member := Member.ofField [] intType name (some (.integerLiteral "1"))

def withMembers (decl : TypeDecl) (members : List Member) : TypeDecl :=
  members.foldl (fun decl m => decl.withMember m) decl

def inPackage (package : String) (decl : TypeDecl) : CompilationUnit :=
  ({} : CompilationUnit).withPackage package |>.withType decl

/-- Interfaces nested in a class, in two waves of modules. -/
def nestedInterfaces : CompilationUnit :=
  let c := withMembers (.ofInterface "C")
    [abstractInt "c", .nestedType (withMembers (.ofInterface "D") [abstractInt "d"]),
      .nestedType (withMembers (.ofClass "E") [counter "e"])]
  let body := [
    Member.ofField [] (.ofDotted "A") "a"
      (some (.anonymous (.simple "A") [] [returningZero "a"])),
    Member.ofField [.static] (.ofDotted "B") "b"
      (some (.anonymous (.simple "B") [] [returningZero "b"])),
    .nestedType (withMembers (.ofInterface "A") [abstractInt "a"]),
    .nestedType (withMembers (TypeDecl.withModifiers [.static] (.ofInterface "B"))
      [abstractInt "b"]),
    .nestedType c,
    .nestedType (withMembers (.ofInterface "E")
      [Member.ofMethod "c" (.ofDotted "C"), Member.ofMethod "d" (.ofDotted "C.D")])]
  inPackage "test" (withMembers
    (TypeDecl.ofClass "Test5" |> TypeDecl.withModifiers [.publicAccess]
      |> TypeDecl.withComment (.javadoc "\n * Nested interfaces\n ")) body)

/-- Inner and static nested classes with a qualified `this`. -/
def innerClasses : CompilationUnit :=
  let access (scope name : String) : Expr := .fieldAccess (.nameExpr scope) name
  let created (modifiers : List Modifier) (type name : String) : Member :=
    Member.ofField modifiers (.ofDotted type) name (some (.new (.simple type) []))
  let assigning (name target : String) (value : Expr) : Member :=
    Member.ofConstructor name
      |> Member.withBody (.of [.exprStmt (.assign (.nameExpr target) .assign value)])
  let body := [
    created [] "A" "a", created [] "A1" "a1", created [.static] "B" "b",
    created [.static] "B1" "b1",
    Member.ofField [.static] intType "c"
      (some (.binary (access "b" "b") .plus (access "b1" "b1"))),
    Member.ofConstructor "Test6" |> Member.withModifiers [.publicAccess]
      |> Member.withBody (.of [
        .declare (.single (.ofDotted "A") "a" (some (.fieldAccess (.thisExpr none) "a"))),
        .declare (.single intType "d" (some (.binary
          (.binary (access "a" "a") .plus (access "a1" "a1")) .plus (.nameExpr "c"))))]),
    .nestedType (withMembers (.ofClass "A") [counter "a", assigning "A" "a" (access "a1" "a1")]),
    .nestedType (withMembers (TypeDecl.withModifiers [.privateAccess] (.ofClass "A1"))
      [counter "a1", assigning "A1" "a1"
        (.fieldAccess (.fieldAccess (.thisExpr (some "Test6")) "a") "a")]),
    .nestedType (withMembers (TypeDecl.withModifiers [.static] (.ofClass "B")) [counter "b"]),
    .nestedType (withMembers (TypeDecl.withModifiers [.privateAccess, .static] (.ofClass "B1"))
      [counter "b1"])]
  inPackage "test" (withMembers
    (TypeDecl.ofClass "Test6" |> TypeDecl.withModifiers [.publicAccess]
      |> TypeDecl.withComment (.javadoc "\n * Inner classes and qualified this\n ")) body)

/-- Classes nested in an interface at the top. -/
def interfaceMembers : CompilationUnit :=
  let anonymousB := Member.ofMethod "b" intType
    |> Member.withModifiers [.publicAccess]
    |> Member.annotatedWith (.marker "Override")
    |> Member.withBody (.of [.exprStmt (Expr.new (.parse "Test8.AAA") []),
      .returnStmt (.present (.integerLiteral "0"))])
  let bbb := withMembers (.ofClass "BBB") [
    Member.ofField [] intType "b" none,
    Member.ofField [] (.ofDotted "BBB") "bbb" (some (.new (.simple "BBB") [])),
    Member.ofField [.static] (.ofDotted "Test8") "test8"
      (some (.anonymous (.simple "Test8") [] [anonymousB]))]
  let body := [
    abstractInt "b",
    .nestedType (withMembers (TypeDecl.withModifiers [.static] (.ofClass "AAA"))
      [Member.ofField [] intType "a" none]),
    .nestedType bbb,
    .nestedType (withMembers (.ofInterface "CCC") [abstractInt "ccc"])]
  inPackage "test" (withMembers
    (TypeDecl.ofInterface "Test8" |> TypeDecl.withModifiers [.publicAccess]
      |> TypeDecl.withComment (.javadoc "\n * Classes inside an interface\n ")) body)

/-- A public class with a field and a constructor. -/
def simpleClass : CompilationUnit :=
  inPackage "demo" (withMembers (TypeDecl.withModifiers [.publicAccess] (.ofClass "Point"))
    [Member.ofField [.publicAccess, .final] intType "x" none,
      Member.withModifiers [.publicAccess] (Member.ofConstructor "Point")])

/-- A private static nested class, which stays in place. -/
def staticNested : CompilationUnit :=
  inPackage "demo" (withMembers (.ofClass "Holder")
    [.nestedType (withMembers (TypeDecl.withModifiers [.privateAccess, .static] (.ofClass "Inner"))
      [Member.ofField [] intType "y" none])])

/-- A class nested in an interface nested in a class. -/
def movedClass : CompilationUnit :=
  inPackage "demo" (withMembers (.ofClass "Root")
    [.nestedType (withMembers (.ofInterface "I")
      [abstractInt "f", .nestedType (withMembers (.ofClass "J")
        [Member.ofField [] intType "j" none])])])

/-- A sample unit by name. -/
def unit? : String → Option CompilationUnit
  | "nested_interfaces" => some nestedInterfaces
  | "inner_classes" => some innerClasses
  | "interface_members" => some interfaceMembers
  | "simple_class" => some simpleClass
  | "static_nested" => some staticNested
  | "hoisted_class" => some movedClass
  | _ => none

/-- The JDK and a small package of views. -/
def classPath : ClassIndex :=
  ClassIndex.jdk.insertMany
    [{ TypeDescriptor.ofBinaryName "android.view.View" false with
        memberNames := ["OnClickListener"] },
      .ofBinaryName "android.view.View$OnClickListener" true,
      .ofBinaryName "android.widget.TextView" false,
      .ofBinaryName "android.widget.Checkable" true]

end TypeScribe.Samples
