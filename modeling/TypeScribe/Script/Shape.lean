import TypeScribe.Layout.Piece
import TypeScribe.Tree.Node

/-!
# Shapes of scripts

The script of most nodes is a document. Some nodes leave a decision to what stands around them: their
shape keeps the parts apart, or says what kind of document it is.
-/
namespace TypeScribe
set_option autoImplicit false

/-- A type: its element type and its array levels. -/
structure TypeShape where
  element : Doc
  levels : Doc

def TypeShape.doc (t : TypeShape) : Doc := t.element ++ t.levels

/-- One variable; the type that it shares with its neighbours stands between name and dimensions. -/
structure DeclaratorShape where
  name : String
  dimensions : Doc
  initializer : Doc

inductive StmtForm where
  | block
  | branch
  | comment
  | other
  deriving DecidableEq

structure StmtShape where
  form : StmtForm
  doc : Doc

structure MemberShape where
  isType : Bool
  doc : Doc

/-- A type declaration: the annotations above it and what follows its modifiers. -/
structure DeclShape where
  annotations : Doc
  content : Doc

def Script : Category → Type
  | .many c => List (Script c)
  | .optional c => Option (Script c)
  | .typeUse => TypeShape
  | .declarator => DeclaratorShape
  | .stmt => StmtShape
  | .member => MemberShape
  | .typeDecl => DeclShape
  | .creationLevel => Option Doc
  | _ => Doc

end TypeScribe
