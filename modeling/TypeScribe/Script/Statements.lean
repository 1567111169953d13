import TypeScribe.Script.Expressions

/-!
# Scripts of statements

One statement a line. A branch that is no block goes on a line of its own.
-/
namespace TypeScribe.Script
set_option autoImplicit false
open Doc

def plainStmt (d : Doc) : StmtShape := { form := .other, doc := d }

/-- A free-standing comment ends its own line. -/
def stmtLine (s : StmtShape) : Doc :=
  if s.form = .comment then s.doc else s.doc ++ newline

def stmtLines (ss : List StmtShape) : Doc := ss.flatMap stmtLine

def block (statements : List StmtShape) (trailing : List Comment) : Doc :=
  line "\x7b" ++ indented (stmtLines statements ++ comments trailing) ++ text "\x7d"

def jump (word : String) (label : Option String) : Doc :=
  match label with
  | some name => text word ++ text " " ++ text name ++ text ";"
  | none => text word ++ text ";"

def returnStmt (value : Option Doc) : Doc :=
  match value with
  | some d => text "return" ++ text " " ++ d ++ text ";"
  | none => text "return" ++ text ";"

def consequent (s : StmtShape) : Doc :=
  if s.form = .block then text ") " ++ s.doc else line ")" ++ indented s.doc

def alternative (s : StmtShape) : Doc :=
  if s.form = .branch ∨ s.form = .block then text "else " ++ s.doc
  else line "else" ++ indented s.doc

def ifStmt (condition : Doc) (thenStmt : StmtShape) (elseStmt : Option StmtShape) : Doc :=
  text "if (" ++ condition ++ consequent thenStmt
    ++ match elseStmt with
      | some s => (if thenStmt.form = .block then text " " else newline) ++ alternative s
      | none => []

def switchEntry (label : Option Doc) (statements : List StmtShape) : Doc :=
  (match label with
    | some d => between "case " ":" d
    | none => text "default:")
    ++ newline ++ indented (stmtLines statements)

def switchStmt (selector : Doc) (entries : List Doc) : Doc :=
  text "switch(" ++ selector ++ line ") \x7b" ++ indented (concat entries) ++ text "\x7d"

def whileStmt (condition : Doc) (body : StmtShape) : Doc :=
  text "while (" ++ condition ++ text ") " ++ body.doc

def doStmt (body : StmtShape) (condition : Doc) : Doc :=
  text "do " ++ body.doc ++ text " while (" ++ condition ++ text ");"

def forEachStmt (mods : ModifierSet) (names : List String) (iterable : Doc) (body : StmtShape) :
    Doc :=
  text "for (" ++ text (declarationWord mods)
    ++ separated ", " (names.map fun name => text (escapeIdentifier name))
    ++ text " of " ++ iterable ++ text ") " ++ body.doc

def forStmt (init : List Doc) (compare : Option Doc) (update : List Doc) (body : StmtShape) : Doc :=
  text "for (" ++ separated ", " init ++ text "; " ++ compare.getD [] ++ text "; "
    ++ separated ", " update ++ text ") " ++ body.doc

def synchronizedStmt (body : Doc) : Doc := unsupported .synchronizedStatement ++ newline ++ body

def catchClause (name : String) (body : Doc) : Doc :=
  text " catch (" ++ text (escapeIdentifier name) ++ text ") " ++ body

/-- Resources are declared before the block that they belong to. -/
def resources (declarations : List Doc) : Doc :=
  if declarations.isEmpty then []
  else unsupported .tryWithResources ++ newline ++ declarations.flatMap fun d => d ++ line ";"

def tryStmt (declarations : List Doc) (body : Doc) (catches : List Doc) (finallyBlock : Option Doc) :
    Doc :=
  resources declarations ++ text "try " ++ body ++ concat catches
    ++ match finallyBlock with
      | some d => text " finally " ++ d
      | none => []

def constructorCall (isThis : Bool) (scope : Option Doc) (arguments : List Doc) : Doc :=
  (if isThis then text "this" else underScope scope (text "super"))
    ++ parenthesized arguments ++ text ";"

end TypeScribe.Script
