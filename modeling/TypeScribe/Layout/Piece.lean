import TypeScribe.Construct
import TypeScribe.Layout.ModuleQueue
import TypeScribe.Tree.Operator

/-!
# Pieces

A script is written as a list of pieces, before the configuration has its say: texts and layout
steps, comments that may be left out, constructs that may be refused, and declarations that are
moved into modules behind their root. `modules` puts the moved declarations in the order in which
they are written.
-/
namespace TypeScribe
set_option autoImplicit false

/-- A place where a tree does not hold together. -/
inductive Flaw where
  | nestedTypeAtTop (name : String)
  | localTypeAtTop (name : String)
  deriving DecidableEq

def Flaw.text : Flaw → String
  | .nestedTypeAtTop name => "nested type '" ++ name ++ "' has no enclosing declaration"
  | .localTypeAtTop name => "local type '" ++ name ++ "' has no enclosing declaration"

inductive Piece where
  | text (s : String)
  | newline
  | indent
  | outdent
  | comment (c : Comment)
  | unsupported (c : Construct)
  | flaw (f : Flaw)
  /-- A declaration moved to modules with the given names, outermost first. -/
  | moved (route : Route) (moduleNames : List String) (body : List Piece)

abbrev Doc := List Piece

namespace Doc

def text (s : String) : Doc := [.text s]

def newline : Doc := [.newline]

/-- A text that ends its line. -/
def line (s : String) : Doc := [.text s, .newline]

def indented (d : Doc) : Doc := .indent :: d ++ [.outdent]

def unsupported (c : Construct) : Doc := [.unsupported c]

def flaw (f : Flaw) : Doc := [.flaw f]

def comment : Option Comment → Doc
  | some c => [.comment c]
  | none => []

def comments (cs : List Comment) : Doc := cs.map .comment

def concat (ds : List Doc) : Doc := ds.flatten

/-- Documents in order with a text between neighbours. -/
def separated (separator : String) : List Doc → Doc
  | [] => []
  | [d] => d
  | d :: e :: rest => d ++ text separator ++ separated separator (e :: rest)

def endedBy (after : String) (d : Doc) : Doc := d ++ text after

/-- A document between two texts. -/
def between (before after : String) (d : Doc) : Doc := text before ++ d ++ text after

end Doc

/-- A declaration to be written inside modules. -/
structure Module where
  names : List String
  body : Doc

/-- The declarations that a document moves, in order. -/
def moves : Doc → List (Route × Module)
  | [] => []
  | .moved route names body :: rest => (route, { names := names, body := body }) :: moves rest
  | _ :: rest => moves rest

mutual
/-- How many moved declarations stand inside one another. -/
def Piece.depth : Piece → Nat
  | .moved _ _ body => depthOf body + 1
  | _ => 0

def depthOf : List Piece → Nat
  | [] => 0
  | p :: rest => max p.depth (depthOf rest)
end

/-- The queued declarations wave by wave, at most `waves` of them; writing a wave queues what it
moves in turn. -/
def drain : (waves : Nat) → ModuleQueue Module → List Module
  | 0, _ => []
  | waves + 1, q =>
    let modules := q.takeWave.1.map Prod.snd
    modules ++ drain waves (q.takeWave.2.enqueueMany (modules.flatMap fun m => moves m.body))

/-- The modules behind a document. Declarations nest no deeper than `depthOf` says, so no wave is
left out. -/
def modules (d : Doc) : List Module :=
  drain (depthOf d) (({} : ModuleQueue Module).enqueueMany (moves d))

/-- A declaration inside its modules. -/
def Module.doc (m : Module) : Doc :=
  (m.names.flatMap fun name => Doc.line ("export module " ++ name ++ " \x7b") ++ [.indent])
    ++ m.body ++ Doc.newline
    ++ m.names.flatMap fun _ => .outdent :: Doc.line "\x7d"

/-- A document followed by its modules. -/
def withModules (d : Doc) : Doc :=
  d ++ (if (modules d).isEmpty then [] else Doc.newline) ++ (modules d).flatMap Module.doc

end TypeScribe
