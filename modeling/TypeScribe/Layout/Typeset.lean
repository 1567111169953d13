import TypeScribe.Config
import TypeScribe.Layout.Piece
import TypeScribe.Layout.Sheet
import TypeScribe.Text.Blank

/-!
# Typesetting

Pieces are written on a sheet under a configuration. The first construct that a strict configuration
refuses, or the first flaw of the tree, ends the work.
-/
namespace TypeScribe
set_option autoImplicit false

inductive EmitError where
  | unsupported (construct : Construct)
  | malformed (flaw : Flaw)
  deriving DecidableEq

def EmitError.message : EmitError → String
  | .unsupported construct => "Unsupported construct: " ++ construct.reason
  | .malformed flaw => "Malformed declaration tree: " ++ flaw.text

/-- The lines of a documentation comment after its opening: each is trimmed and begins with a
blank, but an empty one before the last has nothing at all. -/
def javadocLines : List String → Doc
  | [] => []
  | [last] => [.text " ", .text (Text.trim last)]
  | l :: rest =>
    (if (Text.trim l).isEmpty then [.newline] else [.text " ", .text (Text.trim l), .newline])
      ++ javadocLines rest

def Comment.doc (c : Comment) : Doc :=
  match c.kind with
  | .javadoc =>
    .text "/**" :: javadocLines (Text.segments (· == '\n') c.content) ++ Doc.line "*/"
  | .line =>
    .text "//" :: Doc.line (c.content.map fun ch => if ch == '\r' || ch == '\n' then ' ' else ch)
  | .block => [.text "/*", .text c.content, .text "*/", .newline]

/-- Whether a comment of the kind is written. -/
def Config.prints (config : Config) : CommentKind → Bool
  | .javadoc => config.printJavadoc
  | .line => config.printComments
  | .block => config.printComments

variable {σ : Type} [Sheet σ]

namespace Sheet

/-- A piece without effect on anything but the sheet. -/
def step (sheet : σ) : Piece → σ
  | .text s => write sheet s
  | .newline => newline sheet
  | .indent => indent sheet
  | .outdent => outdent sheet
  | _ => sheet

def put (sheet : σ) (d : Doc) : σ := d.foldl step sheet

end Sheet

/-- Writes one piece. -/
def typesetPiece (config : Config) (sheet : σ) : Piece → Except EmitError σ
  | .comment c => .ok (if config.prints c.kind then Sheet.put sheet c.doc else sheet)
  | .unsupported c =>
    match config.judge c with
    | .warn marker => .ok (Sheet.write sheet marker)
    | .fatal _ => .error (.unsupported c)
  | .flaw f => .error (.malformed f)
  | .moved .. => .ok sheet
  | p => .ok (Sheet.step sheet p)

def typeset (config : Config) (sheet : σ) : Doc → Except EmitError σ
  | [] => .ok sheet
  | p :: rest =>
    match typesetPiece config sheet p with
    | .ok next => typeset config next rest
    | .error e => .error e

end TypeScribe
