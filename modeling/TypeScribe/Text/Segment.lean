/-!
# Segments of a name

A qualified name is cut at its separators and put together again. `cut` works on characters and
always yields a first segment, so a name without a separator is its own only segment.
-/
namespace TypeScribe.Text
set_option autoImplicit false

/-- The first segment of a word and the segments after it, cut wherever `isSep` holds. -/
def cut (isSep : Char → Bool) : List Char → List Char × List (List Char)
  | [] => ([], [])
  | c :: cs =>
    if isSep c then ([], (cut isSep cs).1 :: (cut isSep cs).2)
    else (c :: (cut isSep cs).1, (cut isSep cs).2)

/-- All segments of a text, in order. -/
def segments (isSep : Char → Bool) (s : String) : List String :=
  String.ofList (cut isSep s.toList).1 :: (cut isSep s.toList).2.map String.ofList

def firstSegment (isSep : Char → Bool) (s : String) : String :=
  String.ofList (cut isSep s.toList).1

def lastSegment (isSep : Char → Bool) (s : String) : String :=
  (segments isSep s).getLastD s

/-- Texts in order with `sep` between neighbours. -/
def joinWith (sep : String) : List String → String
  | [] => ""
  | [s] => s
  | s :: t :: rest => s ++ sep ++ joinWith sep (t :: rest)

end TypeScribe.Text
