/-!
# Sheets

What text is written on. A writer keeps the text as it is laid out, in one string. A page keeps the
lines with their levels of indentation and is laid out only when it is rendered. On both of them a
line takes the level that holds when its first text is written, so a line without text has no
indentation.
-/
namespace TypeScribe
set_option autoImplicit false

class Sheet (σ : Type) where
  write : σ → String → σ
  /-- Ends the current line. -/
  newline : σ → σ
  indent : σ → σ
  outdent : σ → σ

/-- The signs that lay out a text. -/
structure Margins where
  indent : String
  endOfLine : String

structure Writer where
  margins : Margins
  written : String := ""
  level : Nat := 0
  /-- Whether the current line has no text yet. -/
  atLineStart : Bool := true

/-- A text with a unit put behind it a number of times. -/
def pushed (text unit : String) : Nat → String
  | 0 => text
  | n + 1 => pushed (text ++ unit) unit n

namespace Writer

/-- Writes the indentation of the current line, unless it is there. -/
def beginLine (w : Writer) : Writer :=
  if w.atLineStart then
    { w with written := pushed w.written w.margins.indent w.level, atLineStart := false }
  else w

def write (w : Writer) (text : String) : Writer :=
  if text.isEmpty then w
  else
    let begun := w.beginLine
    { begun with written := begun.written ++ text }

def newline (w : Writer) : Writer :=
  { w with written := w.written ++ w.margins.endOfLine, atLineStart := true }

def indent (w : Writer) : Writer := { w with level := w.level + 1 }

def outdent (w : Writer) : Writer := { w with level := w.level - 1 }

end Writer

instance : Sheet Writer where
  write := Writer.write
  newline := Writer.newline
  indent := Writer.indent
  outdent := Writer.outdent

structure Line where
  level : Nat
  text : String
  deriving DecidableEq

structure Page where
  level : Nat := 0
  /-- The lines that have been ended, the last one first. -/
  ended : List Line := []
  /-- The line being written; none before its first text. -/
  current : Option Line := none

def repeated (unit : String) : Nat → String
  | 0 => ""
  | n + 1 => unit ++ repeated unit n

/-- A line without text has no indentation. -/
def Line.render (margins : Margins) (line : Line) : String :=
  if line.text.isEmpty then "" else repeated margins.indent line.level ++ line.text

namespace Page

def write (page : Page) (text : String) : Page :=
  if text.isEmpty then page
  else match page.current with
    | some line => { page with current := some { line with text := line.text ++ text } }
    | none => { page with current := some { level := page.level, text := text } }

def newline (page : Page) : Page :=
  { page with ended := page.current.getD { level := 0, text := "" } :: page.ended, current := none }

def indent (page : Page) : Page := { page with level := page.level + 1 }

def outdent (page : Page) : Page := { page with level := page.level - 1 }

/-- The lines that have been ended, in order. -/
def lines (page : Page) : List Line := page.ended.reverse

def renderLines (margins : Margins) : List Line → String
  | [] => ""
  | line :: rest => line.render margins ++ margins.endOfLine ++ renderLines margins rest

def render (margins : Margins) (page : Page) : String :=
  renderLines margins page.lines ++ (page.current.map (Line.render margins)).getD ""

end Page

instance : Sheet Page where
  write := Page.write
  newline := Page.newline
  indent := Page.indent
  outdent := Page.outdent

end TypeScribe
