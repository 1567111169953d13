/-!
# Keywords

A closed set of choices is written by keyword. `Keyword.ofString?` accepts the keywords of the set
and nothing else.
-/
namespace TypeScribe
set_option autoImplicit false

class Keyword (α : Type) where
  /-- Every choice, in the order of declaration. -/
  all : List α
  keyword : α → String

namespace Keyword

def ofString? {α : Type} [Keyword α] (s : String) : Option α :=
  (all : List α).find? fun a => keyword a == s

end Keyword
end TypeScribe
