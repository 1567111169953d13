import TypeScribe.Json.Basic

/-!
# Writing JSON text

Two layouts: `pretty` puts each element and entry on a line of its own, two blanks deeper than its
container, and leaves an empty container closed up; `compact` writes no blank at all. Strings keep
every character but quotes, backslashes and control characters. An unfit value is written `null`.
-/
namespace TypeScribe.Json
set_option autoImplicit false

def hexDigit (n : Nat) : Char :=
  if n < 10 then Char.ofNat ('0'.toNat + n) else Char.ofNat ('a'.toNat + (n - 10))

def escapeChar (c : Char) : List Char :=
  if c = '"' then ['\\', '"']
  else if c = '\\' then ['\\', '\\']
  else if c = '\x08' then ['\\', 'b']
  else if c = '\x0c' then ['\\', 'f']
  else if c = '\n' then ['\\', 'n']
  else if c = '\r' then ['\\', 'r']
  else if c = '\t' then ['\\', 't']
  else if c.toNat < 0x20 then ['\\', 'u', '0', '0', hexDigit (c.toNat / 16), hexDigit (c.toNat % 16)]
  else [c]

def quote (s : String) : List Char :=
  '"' :: s.toList.flatMap escapeChar ++ ['"']

/-- The end of a line and the margin of the next one. -/
def lineBreak (level : Nat) : List Char := '\n' :: List.replicate (2 * level) ' '

mutual
/-- A value laid out over lines, its container standing `level` deep. -/
def prettyChars (level : Nat) : Json → List Char
  | .null => ['n', 'u', 'l', 'l']
  | .unfit => ['n', 'u', 'l', 'l']
  | .bool true => ['t', 'r', 'u', 'e']
  | .bool false => ['f', 'a', 'l', 's', 'e']
  | .number literal => literal.toList
  | .string s => quote s
  | .array [] => ['[', ']']
  | .array (j :: js) =>
    '[' :: lineBreak (level + 1) ++ prettyChars (level + 1) j ++ prettyElements (level + 1) js
      ++ lineBreak level ++ [']']
  | .object [] => ['\x7b', '\x7d']
  | .object ((key, j) :: rest) =>
    '\x7b' :: lineBreak (level + 1) ++ quote key ++ [':', ' '] ++ prettyChars (level + 1) j
      ++ prettyEntries (level + 1) rest ++ lineBreak level ++ ['\x7d']

def prettyElements (level : Nat) : List Json → List Char
  | [] => []
  | j :: js => ',' :: lineBreak level ++ prettyChars level j ++ prettyElements level js

def prettyEntries (level : Nat) : List (String × Json) → List Char
  | [] => []
  | (key, j) :: rest =>
    ',' :: lineBreak level ++ quote key ++ [':', ' '] ++ prettyChars level j
      ++ prettyEntries level rest
end

def pretty (j : Json) : String := String.ofList (prettyChars 0 j)

mutual
def compactChars : Json → List Char
  | .null => ['n', 'u', 'l', 'l']
  | .unfit => ['n', 'u', 'l', 'l']
  | .bool true => ['t', 'r', 'u', 'e']
  | .bool false => ['f', 'a', 'l', 's', 'e']
  | .number literal => literal.toList
  | .string s => quote s
  | .array [] => ['[', ']']
  | .array (j :: js) => '[' :: compactChars j ++ compactElements js ++ [']']
  | .object [] => ['\x7b', '\x7d']
  | .object ((key, j) :: rest) =>
    '\x7b' :: quote key ++ ':' :: compactChars j ++ compactEntries rest ++ ['\x7d']

def compactElements : List Json → List Char
  | [] => []
  | j :: js => ',' :: compactChars j ++ compactElements js

def compactEntries : List (String × Json) → List Char
  | [] => []
  | (key, j) :: rest => ',' :: quote key ++ ':' :: compactChars j ++ compactEntries rest
end

def compact (j : Json) : String := String.ofList (compactChars j)

end TypeScribe.Json
