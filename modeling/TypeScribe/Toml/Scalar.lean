import TypeScribe.Decimal.Range
import TypeScribe.Toml.Basic

/-!
# TOML scalars

Readers for strings, numbers, booleans and dates. A reader takes the text from where its value
begins and returns the value with the text after it.
-/
namespace TypeScribe.Toml.Scalar
set_option autoImplicit false

/-- What a reader found and the text after it. -/
abbrev Result (α : Type) := Option (α × List Char)

def hexValue? (c : Char) : Option Nat :=
  if '0' ≤ c ∧ c ≤ '9' then some (c.toNat - '0'.toNat)
  else if 'a' ≤ c ∧ c ≤ 'f' then some (c.toNat - 'a'.toNat + 10)
  else if 'A' ≤ c ∧ c ≤ 'F' then some (c.toNat - 'A'.toNat + 10)
  else none

def hexNumber? (cs : List Char) : Option Nat :=
  cs.foldlM (fun n c => (hexValue? c).map (n * 16 + ·)) 0

/-- A character by its number, which must not be a surrogate. -/
def scalarValue? (cs : List Char) : Option Char := do
  let n ← hexNumber? cs
  if n.isValidChar then some (Char.ofNat n) else none

/-- A control character other than a tab. -/
def isControl (c : Char) : Bool := (c.toNat < 0x20 && c != '\t') || c.toNat == 0x7F

def simpleEscape? : Char → Option Char
  | 'b' => some '\x08'
  | 't' => some '\t'
  | 'n' => some '\n'
  | 'f' => some '\x0c'
  | 'r' => some '\r'
  | '"' => some '"'
  | '\\' => some '\\'
  | _ => none

def cons (c : Option Char) (rest : Result (List Char)) : Result (List Char) :=
  match c, rest with
  | some c, some (cs, tail) => some (c :: cs, tail)
  | _, _ => none

/-- A basic string up to its closing quote. -/
def basic : List Char → Result (List Char)
  | [] => none
  | '"' :: rest => some ([], rest)
  | '\\' :: 'u' :: a :: b :: c :: d :: rest => cons (scalarValue? [a, b, c, d]) (basic rest)
  | '\\' :: 'U' :: a :: b :: c :: d :: e :: f :: g :: h :: rest =>
    cons (scalarValue? [a, b, c, d, e, f, g, h]) (basic rest)
  | '\\' :: e :: rest => cons (simpleEscape? e) (basic rest)
  | c :: rest => if isControl c || c == '\\' then none else cons (some c) (basic rest)

/-- A literal string up to its closing quote. -/
def literal : List Char → Result (List Char)
  | [] => none
  | '\'' :: rest => some ([], rest)
  | c :: rest => if isControl c then none else cons (some c) (literal rest)

/-- Where in a multi-line basic string the reader stands. -/
inductive Margin where
  /-- Among the characters of the string. -/
  | text
  /-- After a backslash that ends a line, before the line's end. -/
  | lineEnd
  /-- In the blanks that follow such a line's end. -/
  | skip
  deriving DecidableEq

/-- A multi-line basic string up to its closing quotes; up to two quotes before those belong to
the string. -/
def multiBasic : Margin → List Char → Result (List Char)
  | _, [] => none
  | .lineEnd, ' ' :: rest => multiBasic .lineEnd rest
  | .lineEnd, '\t' :: rest => multiBasic .lineEnd rest
  | .lineEnd, '\n' :: rest => multiBasic .skip rest
  | .lineEnd, '\r' :: '\n' :: rest => multiBasic .skip rest
  | .lineEnd, _ => none
  | .skip, ' ' :: rest => multiBasic .skip rest
  | .skip, '\t' :: rest => multiBasic .skip rest
  | .skip, '\n' :: rest => multiBasic .skip rest
  | .skip, '\r' :: '\n' :: rest => multiBasic .skip rest
  | _, '"' :: '"' :: '"' :: '"' :: '"' :: rest => some (['"', '"'], rest)
  | _, '"' :: '"' :: '"' :: '"' :: rest => some (['"'], rest)
  | _, '"' :: '"' :: '"' :: rest => some ([], rest)
  | _, '\\' :: 'u' :: a :: b :: c :: d :: rest =>
    cons (scalarValue? [a, b, c, d]) (multiBasic .text rest)
  | _, '\\' :: 'U' :: a :: b :: c :: d :: e :: f :: g :: h :: rest =>
    cons (scalarValue? [a, b, c, d, e, f, g, h]) (multiBasic .text rest)
  | _, '\\' :: e :: rest =>
    if e == '\n' then multiBasic .skip rest
    else if e == ' ' || e == '\t' then multiBasic .lineEnd rest
    else if e == '\r' then
      match rest with
      | '\n' :: rest => multiBasic .skip rest
      | _ => none
    else cons (simpleEscape? e) (multiBasic .text rest)
  | _, '\n' :: rest => cons (some '\n') (multiBasic .text rest)
  | _, '\r' :: '\n' :: rest => cons (some '\n') (multiBasic .text rest)
  | _, c :: rest => if isControl c || c == '\\' then none else cons (some c) (multiBasic .text rest)

/-- A multi-line literal string up to its closing quotes. -/
def multiLiteral : List Char → Result (List Char)
  | [] => none
  | '\'' :: '\'' :: '\'' :: '\'' :: '\'' :: rest => some (['\'', '\''], rest)
  | '\'' :: '\'' :: '\'' :: '\'' :: rest => some (['\''], rest)
  | '\'' :: '\'' :: '\'' :: rest => some ([], rest)
  | '\n' :: rest => cons (some '\n') (multiLiteral rest)
  | '\r' :: '\n' :: rest => cons (some '\n') (multiLiteral rest)
  | c :: rest => if isControl c then none else cons (some c) (multiLiteral rest)

/-- A line's end right after the opening quotes is not part of a multi-line string. -/
def dropFirstNewline : List Char → List Char
  | '\n' :: rest => rest
  | '\r' :: '\n' :: rest => rest
  | s => s

def quoted : List Char → Result String
  | '"' :: '"' :: '"' :: rest =>
    (multiBasic .text (dropFirstNewline rest)).map fun (cs, tail) => (String.ofList cs, tail)
  | '"' :: rest => (basic rest).map fun (cs, tail) => (String.ofList cs, tail)
  | '\'' :: '\'' :: '\'' :: rest =>
    (multiLiteral (dropFirstNewline rest)).map fun (cs, tail) => (String.ofList cs, tail)
  | '\'' :: rest => (literal rest).map fun (cs, tail) => (String.ofList cs, tail)
  | _ => none

/-- Digits after a first one, single underscores between them allowed. -/
def moreDigits (isDigit : Char → Bool) : List Char → List Char × List Char
  | '_' :: d :: rest =>
    if isDigit d then
      let (ds, tail) := moreDigits isDigit rest
      (d :: ds, tail)
    else ([], '_' :: d :: rest)
  | d :: rest =>
    if isDigit d then
      let (ds, tail) := moreDigits isDigit rest
      (d :: ds, tail)
    else ([], d :: rest)
  | [] => ([], [])

/-- At least one digit, without its underscores. -/
def digits (isDigit : Char → Bool) : List Char → Result (List Char)
  | d :: rest =>
    if isDigit d then
      let (ds, tail) := moreDigits isDigit rest
      some (d :: ds, tail)
    else none
  | [] => none

def isHexDigit (c : Char) : Bool := (hexValue? c).isSome

def isOctalDigit (c : Char) : Bool := decide ('0' ≤ c) && decide (c ≤ '7')

def isBinaryDigit (c : Char) : Bool := c == '0' || c == '1'

def numeral (base : Nat) (ds : List Char) : Nat :=
  ds.foldl (fun n c => n * base + (hexValue? c).getD 0) 0

/-- A number without a sign in a base other than ten; it must fit 64 bits with a sign. -/
def basedInteger (base : Nat) (isDigit : Char → Bool) (s : List Char) : Result Toml :=
  match digits isDigit s with
  | some (ds, tail) =>
    if numeral base ds < Nat.pow 2 63 then some (.integer (String.ofList ds), tail) else none
  | none => none

/-- The whole part of a decimal number: no zero before another digit. -/
def wholePart : List Char → Result (List Char)
  | '0' :: rest => some (['0'], rest)
  | s => digits Char.isDigit s

def fractionPart : List Char → Result (List Char)
  | '.' :: rest => digits Char.isDigit rest
  | s => some ([], s)

def exponentDigits : List Char → Result (List Char)
  | '+' :: rest => (digits Char.isDigit rest).map fun (ds, tail) => ('+' :: ds, tail)
  | '-' :: rest => (digits Char.isDigit rest).map fun (ds, tail) => ('-' :: ds, tail)
  | s => digits Char.isDigit s

def exponentPart : List Char → Result (List Char)
  | 'e' :: rest => (exponentDigits rest).map fun (ds, tail) => ('e' :: ds, tail)
  | 'E' :: rest => (exponentDigits rest).map fun (ds, tail) => ('e' :: ds, tail)
  | s => some ([], s)

/-- The value of an exponent with its mark. -/
def exponentValue : List Char → Int
  | _ :: '-' :: ds => -(Decimal.natural ds : Int)
  | _ :: '+' :: ds => Decimal.natural ds
  | _ :: ds => Decimal.natural ds
  | [] => 0

/-- A decimal number after its sign. A whole number must fit 64 bits with a sign, any other must not
round to infinity; below zero it may. -/
def decimal (isNegative : Bool) (s : List Char) : Option (Toml × List Char) := do
  let (whole, rest) ← wholePart s
  let (fraction, rest) ← fractionPart rest
  let (exponent, rest) ← exponentPart rest
  let sign := if isNegative then ['-'] else []
  if fraction.isEmpty && exponent.isEmpty then
    let bound := if isNegative then Nat.pow 2 63 else Nat.pow 2 63 - 1
    if numeral 10 whole ≤ bound then some (.integer (String.ofList (sign ++ whole)), rest) else none
  else if !isNegative
      && Decimal.overflows (whole ++ fraction) (exponentValue exponent - fraction.length) then none
  else
    let point := if fraction.isEmpty then [] else '.' :: fraction
    some (.float (String.ofList (sign ++ whole ++ point ++ exponent)), rest)

def unsigned (isNegative : Bool) : List Char → Result Toml
  | 'i' :: 'n' :: 'f' :: rest => some (.float "inf", rest)
  | 'n' :: 'a' :: 'n' :: rest => some (.float "nan", rest)
  | s => decimal isNegative s

def number : List Char → Result Toml
  | '0' :: 'x' :: rest => basedInteger 16 isHexDigit rest
  | '0' :: 'o' :: rest => basedInteger 8 isOctalDigit rest
  | '0' :: 'b' :: rest => basedInteger 2 isBinaryDigit rest
  | '+' :: rest => unsigned false rest
  | '-' :: rest => unsigned true rest
  | s => unsigned false s

def twoDigits? (a b : Char) : Option Nat :=
  if a.isDigit && b.isDigit then some (numeral 10 [a, b]) else none

def isLeapYear (year : Nat) : Bool := year % 4 == 0 && (year % 100 != 0 || year % 400 == 0)

def daysInMonth (year month : Nat) : Nat :=
  if month == 2 then (if isLeapYear year then 29 else 28)
  else if month == 4 || month == 6 || month == 9 || month == 11 then 30
  else 31

def isDate (y1 y2 y3 y4 m1 m2 d1 d2 : Char) : Bool :=
  match twoDigits? y1 y2, twoDigits? y3 y4, twoDigits? m1 m2, twoDigits? d1 d2 with
  | some century, some year, some month, some day =>
    decide (1 ≤ month) && decide (month ≤ 12) && decide (1 ≤ day)
      && decide (day ≤ daysInMonth (century * 100 + year) month)
  | _, _, _, _ => false

def isClock (h1 h2 m1 m2 : Char) : Bool :=
  match twoDigits? h1 h2, twoDigits? m1 m2 with
  | some hour, some minute => decide (hour ≤ 23) && decide (minute ≤ 59)
  | _, _ => false

def isSecond (s1 s2 : Char) : Bool :=
  match twoDigits? s1 s2 with
  | some second => decide (second ≤ 60)
  | none => false

/-- The text after the fraction of a second, if the point has digits after it. -/
def afterFraction : List Char → Option (List Char)
  | '.' :: d :: rest => if d.isDigit then some (rest.dropWhile Char.isDigit) else none
  | '.' :: [] => none
  | s => some s

/-- The text after a time of day. -/
def afterTime : List Char → Option (List Char)
  | h1 :: h2 :: ':' :: m1 :: m2 :: ':' :: s1 :: s2 :: rest =>
    if isClock h1 h2 m1 m2 && isSecond s1 s2 then afterFraction rest else none
  | _ => none

/-- The text after an offset from UTC, which may be missing. -/
def afterOffset : List Char → Option (List Char)
  | 'Z' :: rest => some rest
  | 'z' :: rest => some rest
  | '+' :: h1 :: h2 :: ':' :: m1 :: m2 :: rest => if isClock h1 h2 m1 m2 then some rest else none
  | '-' :: h1 :: h2 :: ':' :: m1 :: m2 :: rest => if isClock h1 h2 m1 m2 then some rest else none
  | '+' :: _ => none
  | '-' :: _ => none
  | s => some s

/-- The text after the time that may follow a date. A blank after a date need not begin one. -/
def afterDate : List Char → Option (List Char)
  | 'T' :: rest => (afterTime rest).bind afterOffset
  | 't' :: rest => (afterTime rest).bind afterOffset
  | ' ' :: d :: rest =>
    if d.isDigit then (afterTime (d :: rest)).bind afterOffset else some (' ' :: d :: rest)
  | s => some s

/-- What was read of `s` when `rest` is left. -/
def consumed (s rest : List Char) : String := String.ofList (s.take (s.length - rest.length))

/-- A date, a time or a number, told apart by the sign after the first digits. -/
def dateOrNumber (s : List Char) : Result Toml :=
  match s with
  | y1 :: y2 :: y3 :: y4 :: '-' :: m1 :: m2 :: '-' :: d1 :: d2 :: rest =>
    if isDate y1 y2 y3 y4 m1 m2 d1 d2 then
      (afterDate rest).map fun tail => (.datetime (consumed s tail), tail)
    else number s
  | h1 :: h2 :: ':' :: _ =>
    if h1.isDigit && h2.isDigit then
      (afterTime s).map fun tail => (.datetime (consumed s tail), tail)
    else number s
  | _ => number s

end TypeScribe.Toml.Scalar
