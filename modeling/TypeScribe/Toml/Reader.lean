import TypeScribe.Toml.Document
import TypeScribe.Toml.Scalar

/-!
# Reading TOML text

`Toml.read?` reads a document of version 1.0. A text is a sequence of lines, each with at most one
statement; arrays may run over lines, inline tables may not. Neither values nor the parts of a key
may nest more than `nestingLimit` deep.
-/
namespace TypeScribe.Toml.Reader
set_option autoImplicit false
open Scalar

def isBlank (c : Char) : Bool := c == ' ' || c == '\t'

def skipBlanks (s : List Char) : List Char := s.dropWhile isBlank

/-- A comment runs to the end of its line. -/
def skipComment : List Char → List Char
  | '#' :: rest => rest.dropWhile fun c => !isControl c
  | s => s

/-- The text after the end of a line; the end of the text counts as one. -/
def lineEnd : List Char → Option (List Char)
  | [] => some []
  | '\n' :: rest => some rest
  | '\r' :: '\n' :: rest => some rest
  | _ => none

/-- Skips blanks, comments and line ends. -/
def skipLines (fuel : Nat) (s : List Char) : List Char :=
  match fuel with
  | 0 => s
  | fuel + 1 =>
    match skipComment (skipBlanks s) with
    | '\n' :: rest => skipLines fuel rest
    | '\r' :: '\n' :: rest => skipLines fuel rest
    | s => s

/-- How many arrays and inline tables may stand inside one another, and how many parts a key has. -/
def nestingLimit : Nat := 79

def isBare (c : Char) : Bool := c.isAlphanum || c == '-' || c == '_'

/-- One part of a key. -/
def keyPart (s : List Char) : Result String :=
  match s with
  | '"' :: rest => (basic rest).map fun (cs, tail) => (String.ofList cs, tail)
  | '\'' :: rest => (literal rest).map fun (cs, tail) => (String.ofList cs, tail)
  | _ =>
    match s.takeWhile isBare with
    | [] => none
    | cs => some (String.ofList cs, s.dropWhile isBare)

/-- The parts of a key, with the blanks around them. -/
def keyParts (fuel : Nat) (s : List Char) : Result (List String) :=
  match fuel with
  | 0 => none
  | fuel + 1 =>
    match keyPart (skipBlanks s) with
    | none => none
    | some (part, rest) =>
      match skipBlanks rest with
      | '.' :: rest => (keyParts fuel rest).map fun (parts, tail) => (part :: parts, tail)
      | rest => some ([part], rest)

/-- A key of one or more parts. -/
def key (s : List Char) : Result (List String) :=
  match keyParts s.length s with
  | some (path, rest) => if path.length ≤ nestingLimit then some (path, rest) else none
  | none => none

mutual
/-- One value. `room` is how much deeper values may nest; `fuel` exceeds the steps that a text of
its length can take. -/
def value (fuel room : Nat) (s : List Char) : Result Toml :=
  match fuel with
  | 0 => none
  | fuel + 1 =>
    match s with
    | '"' :: _ => (quoted s).map fun (t, tail) => (.string t, tail)
    | '\'' :: _ => (quoted s).map fun (t, tail) => (.string t, tail)
    | 't' :: 'r' :: 'u' :: 'e' :: rest => some (.boolean true, rest)
    | 'f' :: 'a' :: 'l' :: 's' :: 'e' :: rest => some (.boolean false, rest)
    | '[' :: rest =>
      match room with
      | 0 => none
      | room + 1 => (elements fuel room rest).map fun (vs, tail) => (.array vs, tail)
    | '\x7b' :: rest =>
      match room, skipBlanks rest with
      | 0, _ => none
      | _, '\x7d' :: tail => some (.table [], tail)
      | room + 1, _ => (inlineEntries fuel room rest []).map fun (items, tail) =>
          (.table (itemsToToml items), tail)
    | _ => dateOrNumber s

/-- The elements of an array up to its closing bracket. -/
def elements (fuel room : Nat) (s : List Char) : Result (List Toml) :=
  match fuel with
  | 0 => none
  | fuel + 1 =>
    match skipLines s.length s with
    | ']' :: rest => some ([], rest)
    | s =>
      match value fuel room s with
      | none => none
      | some (v, rest) =>
        match skipLines rest.length rest with
        | ',' :: rest => (elements fuel room rest).map fun (vs, tail) => (v :: vs, tail)
        | ']' :: rest => some ([v], rest)
        | _ => none

/-- The entries of an inline table up to its closing brace, added to those before. -/
def inlineEntries (fuel room : Nat) (s : List Char) (items : Items) : Result Items :=
  match fuel with
  | 0 => none
  | fuel + 1 =>
    match key s with
    | some (path, '=' :: rest) =>
      match value fuel room (skipBlanks rest) with
      | none => none
      | some (v, rest) =>
        match Items.addKeyValue path v items with
        | none => none
        | some items =>
          match skipBlanks rest with
          | ',' :: rest => inlineEntries fuel room rest items
          | '\x7d' :: rest => some (items, rest)
          | _ => none
    | _ => none
end

def keyValue (s : List Char) : Result Statement :=
  match key s with
  | some (path, '=' :: rest) =>
    (value (2 * s.length + 2) nestingLimit (skipBlanks rest)).map fun (v, tail) =>
      (.keyValue path v, tail)
  | _ => none

def elementHeader (s : List Char) : Result Statement :=
  match key s with
  | some (path, ']' :: ']' :: tail) => some (.elementHeader path, tail)
  | _ => none

def header (s : List Char) : Result Statement :=
  match key s with
  | some (path, ']' :: tail) => some (.header path, tail)
  | _ => none

def statement : List Char → Result Statement
  | '[' :: '[' :: rest => elementHeader rest
  | '[' :: rest => header rest
  | s => keyValue s

/-- The statements of a text, line by line. -/
def statements (fuel : Nat) (s : List Char) : Option (List Statement) :=
  match fuel with
  | 0 => none
  | fuel + 1 =>
    match skipLines s.length s with
    | [] => some []
    | s =>
      match statement s with
      | none => none
      | some (st, rest) =>
        match lineEnd (skipComment (skipBlanks rest)) with
        | none => none
        | some rest => (statements fuel rest).map (st :: ·)

/-- A byte order mark may stand before a document. -/
def skipByteOrderMark : List Char → List Char
  | c :: rest => if c.toNat = 0xFEFF then rest else c :: rest
  | [] => []

end Reader

/-- The entries of the document that a text holds. -/
def read? (text : String) : Option (List (String × Toml)) := do
  let cs := Reader.skipByteOrderMark text.toList
  Document.ofStatements? (← Reader.statements (cs.length + 1) cs)

end TypeScribe.Toml
