import TypeScribe.Json.Basic
import TypeScribe.Json.Number

/-!
# Reading JSON text

`Json.scan?` accepts one document with blanks around it; a string in it must hold no raw control
character. Values that nest more than `nestingLimit` deep, numbers out of range and strings in which
an escaped surrogate lacks its partner are unfit; `Json.read?` accepts a document without them.
-/
namespace TypeScribe.Json.Reader
set_option autoImplicit false

/-- What a reader found and the text after it. -/
abbrev Result (α : Type) := Option (α × List Char)

def isSpace (c : Char) : Bool := c == ' ' || c == '\n' || c == '\t' || c == '\r'

def skipSpace (s : List Char) : List Char := s.dropWhile isSpace

def hexDigit? (c : Char) : Option Nat :=
  if '0' ≤ c ∧ c ≤ '9' then some (c.toNat - '0'.toNat)
  else if 'a' ≤ c ∧ c ≤ 'f' then some (c.toNat - 'a'.toNat + 10)
  else if 'A' ≤ c ∧ c ≤ 'F' then some (c.toNat - 'A'.toNat + 10)
  else none

def hex4? (a b c d : Char) : Option Nat := do
  return (((← hexDigit? a) * 16 + (← hexDigit? b)) * 16 + (← hexDigit? c)) * 16 + (← hexDigit? d)

/-- A string before surrogates are joined: plain characters and escaped UTF-16 units. -/
inductive Unit16 where
  | char (c : Char)
  | unit (code : Nat)

def simpleEscape? : Char → Option Char
  | '"' => some '"'
  | '\\' => some '\\'
  | '/' => some '/'
  | 'b' => some '\x08'
  | 'f' => some '\x0c'
  | 'n' => some '\n'
  | 'r' => some '\r'
  | 't' => some '\t'
  | _ => none

/-- The units of a string whose opening quote has been read, up to its closing quote. -/
def units : List Char → Result (List Unit16)
  | [] => none
  | '"' :: rest => some ([], rest)
  | '\\' :: 'u' :: a :: b :: c :: d :: rest =>
    match hex4? a b c d, units rest with
    | some code, some (us, tail) => some (.unit code :: us, tail)
    | _, _ => none
  | '\\' :: e :: rest =>
    match simpleEscape? e, units rest with
    | some c, some (us, tail) => some (.char c :: us, tail)
    | _, _ => none
  | c :: rest =>
    if c.toNat < 0x20 ∨ c = '\\' then none
    else match units rest with
      | some (us, tail) => some (.char c :: us, tail)
      | none => none

def isHighSurrogate (code : Nat) : Bool := decide (0xD800 ≤ code) && decide (code ≤ 0xDBFF)

def isLowSurrogate (code : Nat) : Bool := decide (0xDC00 ≤ code) && decide (code ≤ 0xDFFF)

/-- Joins a high surrogate with the low one after it; no characters if one stands on its own. -/
def joinUnits : List Unit16 → Option (List Char)
  | [] => some []
  | .unit high :: .unit low :: rest =>
    if isHighSurrogate high then
      if isLowSurrogate low then
        (joinUnits rest).map (Char.ofNat (0x10000 + (high - 0xD800) * 0x400 + (low - 0xDC00)) :: ·)
      else none
    else if isLowSurrogate high then none
    else (joinUnits (.unit low :: rest)).map (Char.ofNat high :: ·)
  | .unit code :: rest =>
    if isHighSurrogate code || isLowSurrogate code then none
    else (joinUnits rest).map (Char.ofNat code :: ·)
  | .char c :: rest => (joinUnits rest).map (c :: ·)

/-- A string whose opening quote has been read; no string if a surrogate stands on its own. -/
def string (s : List Char) : Result (Option String) :=
  (units s).map fun (us, rest) => ((joinUnits us).map String.ofList, rest)

def ofString : Option String → Json
  | some s => .string s
  | none => .unfit

def ofNumeral (n : Numeral) : Json := if n.isInRange then .number n.literal else .unfit

/-- A container, if there is room for it. -/
def container (room : Nat) (j : Json) : Json := if room = 0 then .unfit else j

def ofEntries : Option (List (String × Json)) → Json
  | some entries => .object entries
  | none => .unfit

/-- Adds an entry in front of others; none of them count if one has no key. -/
def consEntry (key : Option String) (j : Json) :
    Option (List (String × Json)) → Option (List (String × Json))
  | some entries => key.map fun key => (key, j) :: entries
  | none => none

mutual
/-- One value. `room` is how much deeper fit values may nest; `fuel` exceeds the steps that a text
of its length can take. -/
def value (fuel room : Nat) (s : List Char) : Result Json :=
  match fuel with
  | 0 => none
  | fuel + 1 =>
    match skipSpace s with
    | '"' :: rest => (string rest).map fun (t, tail) => (ofString t, tail)
    | 'n' :: 'u' :: 'l' :: 'l' :: rest => some (.null, rest)
    | 't' :: 'r' :: 'u' :: 'e' :: rest => some (.bool true, rest)
    | 'f' :: 'a' :: 'l' :: 's' :: 'e' :: rest => some (.bool false, rest)
    | '[' :: rest =>
      match skipSpace rest with
      | ']' :: tail => some (container room (.array []), tail)
      | _ => (elements fuel (room - 1) rest).map fun (js, tail) =>
          (container room (.array js), tail)
    | '\x7b' :: rest =>
      match skipSpace rest with
      | '\x7d' :: tail => some (container room (.object []), tail)
      | _ => (entries fuel (room - 1) rest).map fun (es, tail) =>
          (container room (ofEntries es), tail)
    | s => (Numeral.read? s).map fun (n, tail) => (ofNumeral n, tail)

/-- The elements of an array, up to its closing bracket. -/
def elements (fuel room : Nat) (s : List Char) : Result (List Json) :=
  match fuel with
  | 0 => none
  | fuel + 1 =>
    match value fuel room s with
    | none => none
    | some (j, rest) =>
      match skipSpace rest with
      | ',' :: rest => (elements fuel room rest).map fun (js, tail) => (j :: js, tail)
      | ']' :: tail => some ([j], tail)
      | _ => none

/-- The entries of an object, up to its closing brace; none of them if a key is no string. -/
def entries (fuel room : Nat) (s : List Char) : Result (Option (List (String × Json))) :=
  match fuel with
  | 0 => none
  | fuel + 1 =>
    match skipSpace s with
    | '"' :: rest =>
      match string rest with
      | none => none
      | some (key, rest) =>
        match skipSpace rest with
        | ':' :: rest =>
          match value fuel room rest with
          | none => none
          | some (j, rest) =>
            match skipSpace rest with
            | ',' :: rest =>
              (entries fuel room rest).map fun (es, tail) => (consEntry key j es, tail)
            | '\x7d' :: tail => some (consEntry key j (some []), tail)
            | _ => none
        | _ => none
    | _ => none
end

/-- How many arrays and objects may stand inside one another. -/
def nestingLimit : Nat := 127

end Reader

/-- The value that a text holds, if it is one JSON document. Parts of it may be unfit. -/
def scan? (text : String) : Option Json :=
  match Reader.value (2 * text.toList.length + 2) Reader.nestingLimit text.toList with
  | some (j, rest) => if (Reader.skipSpace rest).isEmpty then some j else none
  | none => none

/-- The value that a text holds, if it is one JSON document and every part of it is fit. -/
def read? (text : String) : Option Json := (scan? text).filter isSound

end TypeScribe.Json
