import TypeScribe.Script.Node

/-!
# Identifiers of declarations and uses

A name is declared in one place and used in others. A place is a node without the name, and what is
written for it depends on the name in one text only, its identifier. Reserved words are escaped in
every place except one: the constant of an enum is written as it is.
-/
namespace TypeScribe
set_option autoImplicit false
open Doc

/-- What is written for a name depends on it in one text only, which is `spell n` for the name `n`. -/
def Identifies (write : String → Doc) (spell : String → String) : Prop :=
  (∃ before after : Doc, ∀ n, write n = before ++ text (spell n) ++ after) ∧
    ∃ n m, spell n ≠ spell m

namespace Identifies

variable {write : String → Doc} {spell : String → String}

theorem of_text {n m : String} (h : spell n ≠ spell m) :
    Identifies (fun n => text (spell n)) spell :=
  ⟨⟨[], [], fun _ => rfl⟩, n, m, h⟩

theorem behind (d : Doc) (h : Identifies write spell) : Identifies (fun n => d ++ write n) spell := by
  obtain ⟨⟨before, after, hwrite⟩, hspell⟩ := h
  refine ⟨⟨d ++ before, after, fun n => ?_⟩, hspell⟩
  change d ++ write n = _
  rw [hwrite, List.append_assoc d, List.append_assoc d]

theorem before (d : Doc) (h : Identifies write spell) : Identifies (fun n => write n ++ d) spell := by
  obtain ⟨⟨before, after, hwrite⟩, hspell⟩ := h
  refine ⟨⟨before, after ++ d, fun n => ?_⟩, hspell⟩
  change write n ++ d = _
  rw [hwrite, List.append_assoc _ after]

theorem congr {write' : String → Doc} (h : Identifies write spell) (heq : ∀ n, write' n = write n) :
    Identifies write' spell := by
  rwa [funext heq]

theorem separated_last (separator : String) (left : List Doc) (h : Identifies write spell) :
    Identifies (fun n => separated separator (left ++ [write n])) spell := by
  induction left with
  | nil => exact h
  | cons d rest ih =>
    refine (ih.behind (d ++ text separator)).congr fun n => ?_
    cases rest <;> rfl

theorem separated_inner (separator : String) (left : List Doc) (e : Doc) (right : List Doc)
    (h : Identifies write spell) :
    Identifies (fun n => separated separator (left ++ write n :: e :: right)) spell := by
  induction left with
  | nil => exact (h.before (text separator)).before (separated separator (e :: right))
  | cons d rest ih =>
    refine (ih.behind (d ++ text separator)).congr fun n => ?_
    cases rest <;> rfl

/-- One of several documents with a text between neighbours. -/
theorem separated (separator : String) (left right : List Doc) (h : Identifies write spell) :
    Identifies (fun n => Doc.separated separator (left ++ write n :: right)) spell := by
  cases right with
  | nil => exact h.separated_last separator left
  | cons e right => exact h.separated_inner separator left e right

theorem eq_of_length_lt {before after before' after' : Doc} {spell' : String → String}
    (h : ∀ n, before ++ text (spell n) ++ after = before' ++ text (spell' n) ++ after')
    (hlt : before.length < before'.length) (n m : String) : spell n = spell m := by
  -- The text at this position stands in front of the other identifier, so no name changes it.
  have hat : ∀ k, before'[before.length]? = some (.text (spell k)) := by
    intro k
    have hpiece := congrArg (·[before.length]?) (h k)
    simpa [text, List.getElem?_append_left hlt] using hpiece.symm
  have heq := (hat n).symm.trans (hat m)
  exact Piece.text.inj (Option.some.inj heq)

/-- The identifier that is written for a name is determined by what is written. -/
theorem unique {spell' : String → String} (h : Identifies write spell)
    (h' : Identifies write spell') : spell = spell' := by
  obtain ⟨⟨before, after, hwrite⟩, n, m, hspell⟩ := h
  obtain ⟨⟨before', after', hwrite'⟩, n', m', hspell'⟩ := h'
  have hsame := fun k => (hwrite k).symm.trans (hwrite' k)
  rcases Nat.lt_trichotomy before.length before'.length with hlt | heq | hlt
  · exact absurd (eq_of_length_lt hsame hlt n m) hspell
  · funext k
    have hpieces := hsame k
    rw [List.append_assoc, List.append_assoc] at hpieces
    have hrest := (List.append_inj hpieces heq).2
    exact Piece.text.inj (List.cons.inj hrest).1
  · exact absurd (eq_of_length_lt (fun k => (hsame k).symm) hlt n' m') hspell'

theorem iff_eq {spell' : String → String} (h : Identifies write spell) :
    Identifies write spell' ↔ spell' = spell :=
  ⟨fun h' => h'.unique h, fun heq => heq ▸ h⟩

end Identifies

/-- A variable without its name, among those that are declared with it. -/
structure DeclaratorPlace where
  left : List (Node .declarator)
  right : List (Node .declarator)
  dimensions : Node (.many .dimension)
  initial : Node (.optional .expr)

namespace DeclaratorPlace

def declarator (p : DeclaratorPlace) (name : String) : Node .declarator :=
  .declarator name p.dimensions p.initial

def fill (p : DeclaratorPlace) (name : String) : Node (.many .declarator) :=
  .ofList (p.left ++ p.declarator name :: p.right)

end DeclaratorPlace

/-- A place where a value is declared: the declaration without the name. -/
inductive DeclarationSite where
  | field (modifiers : ModifierSet) (comment : Option Comment)
      (annotations : Node (.many .annotationUse)) (baseType : TypeUse) (place : DeclaratorPlace)
  | localVariable (modifiers : ModifierSet) (annotations : Node (.many .annotationUse))
      (baseType : TypeUse) (place : DeclaratorPlace)
  | loopVariable (modifiers : ModifierSet) (annotations : Node (.many .annotationUse))
      (baseType : TypeUse) (place : DeclaratorPlace) (iterable : Expr) (body : Stmt)
  | method (modifiers : ModifierSet) (comment : Option Comment)
      (annotations : Node (.many .annotationUse)) (typeParameters : Node (.many .typeParameter))
      (returnType : TypeUse) (parameters : Node (.many .parameter)) (thrown : Node (.many .typeUse))
      (body : Node (.optional .block))
  | parameter (type : TypeUse) (modifiers : ModifierSet) (annotations : Node (.many .annotationUse))
      (isVarArgs : Bool) (varArgsAnnotations : Node (.many .annotationUse))
  | caught (type : TypeUse) (modifiers : ModifierSet) (annotations : Node (.many .annotationUse))
      (isVarArgs : Bool) (varArgsAnnotations : Node (.many .annotationUse)) (body : Block)
  | annotationMember (modifiers : ModifierSet) (comment : Option Comment)
      (annotations : Node (.many .annotationUse)) (type : TypeUse)
      (defaultValue : Node (.optional .expr))
  | enumConstant (comment : Option Comment) (annotations : Node (.many .annotationUse))
      (arguments : Node (.many .expr)) (body : Node (.many .member))

/-- A place where a value is used: the expression without the name. -/
inductive UseSite where
  | name
  | fieldAccess (scope : Expr)
  | methodCall (scope : Node (.optional .expr)) (typeArguments : Node (.many .typeUse))
      (arguments : Node (.many .expr))
  | methodReference (scope : Expr) (typeArguments : Node (.many .typeUse))

def UseSite.expr (name : String) : UseSite → Expr
  | .name => .nameExpr name
  | .fieldAccess scope => .fieldAccess scope name
  | .methodCall scope typeArguments arguments => .methodCall scope typeArguments name arguments
  | .methodReference scope typeArguments => .methodReference scope typeArguments name

/-- What is written for the expression with the given name. -/
def UseSite.doc (use : UseSite) (cx : Context) (name : String) : Doc := (use.expr name).script cx

namespace DeclarationSite

/-- What is written for the declaration with the given name. -/
def doc (cx : Context) (name : String) : DeclarationSite → Doc
  | .field modifiers comment annotations baseType place =>
    MemberShape.doc ((Node.field modifiers comment annotations baseType (place.fill name)).script cx)
  | .localVariable modifiers annotations baseType place =>
    (Node.variableGroup modifiers annotations baseType (place.fill name)).script cx
  | .loopVariable modifiers annotations baseType place iterable body =>
    StmtShape.doc ((Node.forEachStmt (.variableGroup modifiers annotations baseType
      (place.fill name)) iterable body).script cx)
  | .method modifiers comment annotations typeParameters returnType parameters thrown body =>
    MemberShape.doc ((Node.method name modifiers comment annotations typeParameters returnType
      parameters thrown body).script cx)
  | .parameter type modifiers annotations isVarArgs varArgsAnnotations =>
    (Node.parameter name type modifiers annotations isVarArgs varArgsAnnotations).script cx
  | .caught type modifiers annotations isVarArgs varArgsAnnotations body =>
    (Node.catchClause (.parameter name type modifiers annotations isVarArgs varArgsAnnotations)
      body).script cx
  | .annotationMember modifiers comment annotations type defaultValue =>
    MemberShape.doc ((Node.annotationMember name modifiers comment annotations type
      defaultValue).script cx)
  | .enumConstant comment annotations arguments body =>
    (Node.enumConstant name comment annotations arguments body).script cx

def isEnumConstant : DeclarationSite → Bool
  | .enumConstant .. => true
  | _ => false

/-- The identifier of a declaration. -/
def spelling (site : DeclarationSite) (name : String) : String :=
  if site.isEnumConstant then name else escapeIdentifier name

end DeclarationSite

theorem identifies_escaped : Identifies (fun n => text (escapeIdentifier n)) escapeIdentifier :=
  .of_text (n := "a") (m := "b") (by decide)

theorem UseSite.identifies (use : UseSite) (cx : Context) :
    Identifies (use.doc cx) escapeIdentifier := by
  have h := identifies_escaped
  cases use with
  | name => exact h
  | fieldAccess scope => exact h.behind _
  | methodCall scope typeArguments arguments =>
    have hscoped : ∀ d : Option Doc,
        Identifies (fun n => Script.underScope d (text (escapeIdentifier n))) escapeIdentifier := by
      intro d
      cases d with
      | none => exact h
      | some d => exact h.behind _
    exact ((hscoped _).before _).before _
  | methodReference scope typeArguments => exact (h.behind _).behind _

namespace DeclaratorPlace

theorem names_fill (p : DeclaratorPlace) (name : String) :
    (p.fill name).toList.map declaratorName =
      p.left.map declaratorName ++ name :: p.right.map declaratorName := by
  rw [fill, Node.toList_ofList, List.map_append, List.map_cons]
  rfl

/-- The variables declared together are written alike whatever the name of one of them is. -/
theorem script_fill (p : DeclaratorPlace) (cx : Context) :
    ∃ (left right : List DeclaratorShape) (dimensions initializer : Doc), ∀ n,
      (p.fill n).script cx =
        left ++ { name := n, dimensions := dimensions, initializer := initializer } :: right := by
  obtain ⟨nodes, right, dimensions, initial⟩ := p
  induction nodes generalizing cx with
  | nil =>
    exact ⟨[], (Node.ofList right).script (cx.child 1), concat (dimensions.script ((cx.child 0).child 0)),
      Script.initialValue (initial.script (cx.child 0).initialValue), fun n => rfl⟩
  | cons d rest ih =>
    obtain ⟨left, right', dimensions', initializer, h⟩ := ih (cx.after d)
    refine ⟨d.script (cx.child 0) :: left, right', dimensions', initializer, fun n => ?_⟩
    exact congrArg (d.script (cx.child 0) :: ·) (h n)

theorem identifies (p : DeclaratorPlace) (cx : Context) (base : Option Doc) :
    Identifies (fun n => Script.declarators base ((p.fill n).script cx)) escapeIdentifier := by
  obtain ⟨left, right, dimensions, initializer, hscript⟩ := p.script_fill cx
  have hone : Identifies (fun n => Script.declarator base
      { name := n, dimensions := dimensions, initializer := initializer }) escapeIdentifier := by
    cases base with
    | none => exact (identifies_escaped.before []).before initializer
    | some type => exact (identifies_escaped.before (text ": " ++ type ++ dimensions)).before initializer
  refine (hone.separated ", " (left.map (Script.declarator base))
    (right.map (Script.declarator base))).congr fun n => ?_
  rw [hscript, Script.declarators, List.map_append, List.map_cons]

end DeclaratorPlace

theorem DeclarationSite.identifies (site : DeclarationSite) (cx : Context) :
    Identifies (fun n => site.doc cx n) site.spelling := by
  have h := identifies_escaped
  cases site with
  | field modifiers comment annotations baseType place =>
    exact ((place.identifies _ _).behind _).before _
  | localVariable modifiers annotations baseType place => exact (place.identifies _ _).behind _
  | loopVariable modifiers annotations baseType place iterable body =>
    have hnames := h.separated ", "
      ((place.left.map declaratorName).map fun name => text (escapeIdentifier name))
      ((place.right.map declaratorName).map fun name => text (escapeIdentifier name))
    have hlisted : Identifies (fun n => Doc.separated ", "
        (((place.fill n).toList.map declaratorName).map fun name => text (escapeIdentifier name)))
        escapeIdentifier := by
      refine hnames.congr fun n => ?_
      rw [place.names_fill, List.map_append, List.map_cons]
    have hhead := hlisted.behind (text "for (" ++ text (Script.declarationWord modifiers))
    exact (((hhead.before _).before _).before _).before _
  | method modifiers comment annotations typeParameters returnType parameters thrown body =>
    exact ((((((h.behind _).before _).before _).before _).before _).before _).before _
  | parameter type modifiers annotations isVarArgs varArgsAnnotations =>
    exact ((h.behind _).before _).before _
  | caught type modifiers annotations isVarArgs varArgsAnnotations body =>
    exact ((h.behind _).before _).before _
  | annotationMember modifiers comment annotations type defaultValue =>
    exact (((h.behind _).before _).before _).before _
  | enumConstant comment annotations arguments body =>
    have hname : Identifies (fun n => text n) fun n => n := .of_text (n := "a") (m := "b") (by decide)
    exact ((hname.behind _).before _).before _

theorem eq_escapeIdentifier_iff (n : String) : n = escapeIdentifier n ↔ n ∉ reservedWords := by
  unfold escapeIdentifier
  by_cases hn : n ∈ reservedWords
  · have hlonger : n ≠ "_" ++ n := by
      intro heq
      have hlength := congrArg String.length heq
      rw [String.length_append] at hlength
      have hone : "_".length = 1 := by decide
      omega
    simp [hn, hlonger]
  · simp [hn]

/-- A declaration and a use of a name are written with the same identifier, unless it is an enum
constant that has a reserved name. -/
theorem DeclarationSite.declared_as_used_iff (site : DeclarationSite) (use : UseSite)
    (cx cx' : Context) :
    ∃ declared used : String → String,
      (∀ spell, Identifies (fun n => site.doc cx n) spell ↔ spell = declared) ∧
      (∀ spell, Identifies (use.doc cx') spell ↔ spell = used) ∧
      ∀ n, declared n = used n ↔ ¬(site.isEnumConstant = true ∧ n ∈ reservedWords) := by
  refine ⟨site.spelling, escapeIdentifier, fun _ => (site.identifies cx).iff_eq,
    fun _ => (use.identifies cx').iff_eq, fun n => ?_⟩
  unfold spelling
  split
  · next hconstant => simp [hconstant, eq_escapeIdentifier_iff]
  · next hconstant => simp [hconstant]

/-- The constant `in` of an enum is declared under another identifier than it is used, a field `in`
under the same. -/
theorem constant_in_used_otherwise :
    ∀ cx cx' : Context, ∃ declared used : String → String,
      Identifies (fun n => (DeclarationSite.enumConstant none .nil .nil .nil).doc cx n) declared ∧
      Identifies ((UseSite.fieldAccess (.nameExpr "E")).doc cx') used ∧ declared "in" ≠ used "in" ∧
      Identifies (fun n => (DeclarationSite.field .empty none .nil (.primitive .int .nil)
        ⟨[], [], .nil, .absent⟩).doc cx n) used := by
  intro cx cx'
  obtain ⟨declared, used, hdeclared, hused, hiff⟩ :=
    (DeclarationSite.enumConstant none .nil .nil .nil).declared_as_used_iff
      (.fieldAccess (.nameExpr "E")) cx cx'
  obtain ⟨declared', used', hdeclared', hused', hiff'⟩ :=
    (DeclarationSite.field .empty none .nil (.primitive .int .nil)
      ⟨[], [], .nil, .absent⟩).declared_as_used_iff (.fieldAccess (.nameExpr "E")) cx cx'
  refine ⟨declared, used, (hdeclared _).mpr rfl, (hused _).mpr rfl, ?_, ?_⟩
  · intro heq
    exact (hiff "in").mp heq ⟨rfl, by decide⟩
  · have hsame : declared' = used' := funext fun n => (hiff' n).mpr fun h => nomatch h.1
    have husedEq : used = used' := (hused' _).mp ((hused _).mpr rfl)
    exact (hdeclared' _).mpr (husedEq.trans hsame.symm)

end TypeScribe
