import TypeScribe.Tree.Keyword

/-!
# Modifiers

A declaration carries a set of modifiers. The set forgets how often and in which order they were
written; `ModifierSet.toList` lists them in the order of `Modifier`.
-/
namespace TypeScribe
set_option autoImplicit false

inductive Modifier where
  | publicAccess
  | protectedAccess
  | privateAccess
  | abstract
  | static
  | final
  | transient
  | volatile
  | synchronized
  | native
  | strictfp
  | transitive
  | default
  deriving DecidableEq

def Modifier.keyword : Modifier → String
  | .publicAccess => "public"
  | .protectedAccess => "protected"
  | .privateAccess => "private"
  | .abstract => "abstract"
  | .static => "static"
  | .final => "final"
  | .transient => "transient"
  | .volatile => "volatile"
  | .synchronized => "synchronized"
  | .native => "native"
  | .strictfp => "strictfp"
  | .transitive => "transitive"
  | .default => "default"

instance : Keyword Modifier where
  all := [.publicAccess, .protectedAccess, .privateAccess, .abstract, .static, .final, .transient,
    .volatile, .synchronized, .native, .strictfp, .transitive, .default]
  keyword := Modifier.keyword

structure ModifierSet where
  contains : Modifier → Bool

namespace ModifierSet

def empty : ModifierSet := ⟨fun _ => false⟩

def ofList (modifiers : List Modifier) : ModifierSet := ⟨fun m => modifiers.contains m⟩

def toList (s : ModifierSet) : List Modifier := (Keyword.all : List Modifier).filter s.contains

def erase (s : ModifierSet) (m : Modifier) : ModifierSet := ⟨fun x => s.contains x && x != m⟩

theorem ofList_toList (s : ModifierSet) : ofList s.toList = s := by
  obtain ⟨f⟩ := s
  simp only [ofList, mk.injEq]
  funext m
  cases h : f m <;> cases m <;> simp [toList, Keyword.all, h]

end ModifierSet
end TypeScribe
