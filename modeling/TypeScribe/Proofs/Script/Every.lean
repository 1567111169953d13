import Mathlib.Data.List.Basic
import TypeScribe.Proofs.Script.Children
import TypeScribe.Proofs.Script.Plain
import TypeScribe.Proofs.Script.Spelling

/-!
# Properties of scripts

The script of a node is put together from texts, markers and the scripts of its children; only an
annotation and a member or a statement that declares a type add something of another kind. So
properties that compose have to be checked at those places, in the contexts that reach them:
`Node.script_composes`, and for a uniform property `Node.script_all`. For a property of single pieces
nothing is asked of the texts in the tree: `Node.script_every`.
-/
namespace TypeScribe
set_option autoImplicit false
open Text

/-- The documents of the script have the property of expressions, of statements or of members, and
its names are over the alphabet. -/
def Script.All (sp : Spelling) (P Q R : Doc → Prop) : (c : Category) → Script c → Prop
  | .many c => fun (ss : List (Script c)) => ∀ s ∈ ss, Script.All sp P Q R c s
  | .optional c => fun (s : Option (Script c)) => ∀ t ∈ s, Script.All sp P Q R c t
  | .typeUse => TypeShape.All P
  | .declarator => DeclaratorShape.All sp.letters P
  | .stmt => fun (s : StmtShape) => Q s.doc
  | .member => fun (m : MemberShape) => R m.doc
  | .typeDecl => DeclShape.All P
  | .creationLevel => fun (s : Option Doc) => ∀ d ∈ s, P d
  | .switchEntry => Q
  | .annotationUse => P
  | .element => P
  | .enumConstant => P
  | .dimension => P
  | .parameter => P
  | .typeParameter => P
  | .classType => P
  | .block => P
  | .catchClause => P
  | .variableGroup => P
  | .lambdaBody => P
  | .expr => P

/-- The arguments of an annotation. -/
def AnnotationUse.arguments : AnnotationUse → Context → Doc
  | .annotationMarker _, _ => []
  | .annotationSingle _ value, cx => Doc.between "(" ")" (value.script (cx.child 0))
  | .annotationNormal _ elements, cx => Script.parenthesized (elements.script (cx.child 0))

/-- The declaration that a member nests. -/
def Node.nested? : {c : Category} → Node c → Option TypeDecl
  | _, .nestedType decl => some decl
  | _, _ => none

theorem Node.isDeclaring_of_nested? {c : Category} {n : Node c} {decl : TypeDecl}
    (h : n.nested? = some decl) : n.isDeclaring = true := by
  cases n with
  | nestedType => rfl
  | _ => cases h

/-- Properties that compose pass from the scripts of the children to that of the node. An annotation,
a declaration out of place and one that is moved have to be looked at. -/
theorem Node.script_of_children {sp : Spelling} {P Q R : Doc → Prop} (hP : Composes sp P Q R)
    {I : Context → Prop} {c : Category} {n : Node c} {cx : Context}
    (h : cx.Admits sp I (n.any Node.isDeclaring) (n.any (Node.misspells sp)))
    (hcommented : ∀ a : AnnotationUse, a.any (Node.misspells sp) = false → P (a.arguments cx) →
      P (a.script cx))
    (hflaw : n.isDeclaring = true → cx.scope = [] → ∀ f, P (Doc.flaw f))
    (hmoved : ∀ decl, n.nested? = some decl → mustMove decl cx.scope = true →
      P (Script.moduleDecl decl (decl.script (cx.child 0).detached)) →
      P [.moved (cx.child 0).route (cx.scope.reverse.map TypeDecl.name)
        (Script.moduleDecl decl (decl.script (cx.child 0).detached))])
    (hchildren : (n.children cx).Forall fun v =>
      Script.All sp P Q R v.category (v.node.script v.context)) :
    Script.All sp P Q R c (n.script cx) := by
  cases n with
  | nil => exact fun s hs => absurd hs List.not_mem_nil
  | cons head tail =>
    obtain ⟨hhead, htail⟩ := hchildren
    exact List.forall_mem_cons.mpr ⟨hhead, htail⟩
  | absent => exact fun s hs => nomatch hs
  | present node =>
    rintro s ⟨⟩
    exact hchildren
  -- Annotations
  | annotationMarker name => exact hcommented (.annotationMarker name) h.spelled hP.nil
  | annotationSingle name value =>
    exact hcommented (.annotationSingle name value) h.spelled (hP.brackets rfl hchildren)
  | annotationNormal name elements =>
    exact hcommented (.annotationNormal name elements) h.spelled (hP.parenthesized hchildren)
  | element name value => exact hP.element (h.names _ List.mem_cons_self) hchildren
  -- Type declarations
  | classDecl name isInterface modifiers comment annotations typeParameters extended implemented
      members trailing =>
    obtain ⟨hannotations, hparameters, hextended, himplemented, hmembers⟩ := hchildren
    have hdecl := TypeDecl.spelledBy _ h.spelled
    have htrailing := (List.forall_mem_append.mp h.comments).2
    exact ⟨hP.annotationLines hannotations, hP.classContent isInterface modifiers hdecl.name
      hparameters hextended himplemented hmembers htrailing⟩
  | enumDecl name modifiers comment annotations implemented constants members =>
    obtain ⟨hannotations, himplemented, hconstants, hmembers⟩ := hchildren
    have hdecl := TypeDecl.spelledBy _ h.spelled
    exact ⟨hP.annotationLines hannotations, hP.enumContent hdecl.name himplemented hconstants
      hmembers⟩
  | annotationDecl name modifiers comment annotations members =>
    obtain ⟨hannotations, hmembers⟩ := hchildren
    have hdecl := TypeDecl.spelledBy _ h.spelled
    exact ⟨hP.annotationLines hannotations, hP.annotationContent hdecl.name hmembers⟩
  | enumConstant name comment annotations arguments body =>
    obtain ⟨hannotations, harguments, hbody⟩ := hchildren
    exact hP.enumConstant (h.names _ List.mem_cons_self)
      (fun c hc => h.comments c (Option.mem_toList.mpr hc)) hannotations harguments hbody
  -- Members
  | nestedType decl =>
    have hspelled := TypeDecl.spelledBy decl h.right.spelled
    refine hP.nestedType h.speaks.scope (hflaw rfl) ?_ hspelled hchildren
    intro hmoves hbody
    have hcontext : (if mustMove decl cx.scope then (cx.child 0).detached else cx.child 0) =
        (cx.child 0).detached :=
      if_pos hmoves
    rw [hcontext] at hbody ⊢
    exact hmoved decl rfl hmoves hbody
  | field modifiers comment annotations base declarators =>
    obtain ⟨hannotations, hbase, hdeclarators⟩ := hchildren
    exact hP.member (hP.field cx modifiers (fun c hc => h.comments c (Option.mem_toList.mpr hc))
      hannotations (hP.knownType base hbase) hdeclarators)
  | method name modifiers comment annotations typeParameters result parameters thrown body =>
    obtain ⟨hannotations, htypeParameters, hresult, hparameters, hbody⟩ := hchildren
    exact hP.member (hP.method cx modifiers _ (h.names _ List.mem_cons_self)
      (fun c hc => h.comments c (Option.mem_toList.mpr hc)) hannotations htypeParameters
      (hP.typeDoc hresult) hparameters hbody)
  | constructor name modifiers comment annotations typeParameters parameters thrown body =>
    obtain ⟨hannotations, hparameters, hbody⟩ := hchildren
    exact hP.member (hP.solid (hP.constructor _
      (fun c hc => h.comments c (Option.mem_toList.mpr hc)) hannotations hparameters hbody))
  | initializer isStatic comment body =>
    exact hP.member (hP.solid (hP.initializer isStatic
      (fun c hc => h.comments c (Option.mem_toList.mpr hc)) hchildren))
  | annotationMember name modifiers comment annotations type value =>
    obtain ⟨hannotations, htype⟩ := hchildren
    exact hP.member (hP.annotationMember (h.names _ List.mem_cons_self)
      (fun c hc => h.comments c (Option.mem_toList.mpr hc)) hannotations (hP.typeDoc htype))
  | declarator name dimensions initial =>
    obtain ⟨hdimensions, hinitial⟩ := hchildren
    exact ⟨h.names _ List.mem_cons_self, hP.concat hdimensions, hP.initialValue hinitial⟩
  | dimension annotations => exact hP.level hchildren
  | parameter name type modifiers annotations isVarArgs varArgsAnnotations =>
    obtain ⟨htype, hannotations, hvarArgs⟩ := hchildren
    exact hP.parameter (h.names _ List.mem_cons_self) (hP.knownType type htype) modifiers
      hannotations isVarArgs hvarArgs
  | typeParameter name bounds annotations =>
    obtain ⟨hbounds, hannotations⟩ := hchildren
    exact hP.typeParameter (h.names _ List.mem_cons_self) hbounds hannotations
  -- Types
  | primitive base annotations =>
    exact hP.plainType (hP.append (hP.levelAnnotations hchildren)
      (hP.literal base.scriptName_isCalm))
  | classUse type => exact hP.plainType hchildren
  | array component annotations =>
    obtain ⟨hcomponent, hannotations⟩ := hchildren
    exact hP.arrayType hcomponent hannotations
  | void annotations => exact hP.plainType (hP.literal rfl)
  | intersection elements =>
    have hdocs := hP.typeDocs hchildren
    exact hP.plainType (hP.separated (hP.literal rfl) hdocs)
  | union elements =>
    have hdocs := hP.typeDocs hchildren
    exact hP.plainType (hP.separated (hP.literal rfl) hdocs)
  | wildcard extendsBound superBound annotations =>
    obtain ⟨hextends, hsuper⟩ := hchildren
    exact hP.plainType (hP.boundOrAny hextends hsuper)
  | unknown => exact hP.plainType hP.nil
  | classType scope name typeArguments annotations =>
    obtain ⟨hscope, harguments, hannotations⟩ := hchildren
    have hname : Over sp.letters name := h.names _ List.mem_cons_self
    exact hP.classType _ hname (h.speaks.typeName hname) hscope harguments hannotations
  -- Statements
  | block statements trailing => exact hP.block hchildren h.comments
  | switchEntry label statements =>
    obtain ⟨hlabel, hstatements⟩ := hchildren
    exact hP.switchEntry hlabel hstatements
  | catchClause caught body =>
    exact hP.catchClause (over_parameterName h.left.right.names) hchildren
  | variableGroup modifiers annotations base declarators =>
    obtain ⟨hannotations, hbase, hdeclarators⟩ := hchildren
    exact hP.variableGroup modifiers hannotations (hP.knownType base hbase) hdeclarators
  | blockStmt body => exact hP.solid hchildren
  | exprStmt expr => exact hP.ended hchildren
  | localType decl =>
    exact hP.localType h.speaks.scope (hflaw rfl) (TypeDecl.spelledBy decl h.right.spelled)
      hchildren
  | assertStmt check message => exact hP.solid (hP.unsupported fun _ hs => nomatch hs)
  | labeled label statement =>
    have hlabel := hP.word (h.names label List.mem_cons_self)
    exact hP.join (hP.solid (hP.append hlabel (hP.literal rfl))) hchildren
  | emptyStmt => exact hP.stop (.inl rfl)
  | switchStmt selector entries =>
    obtain ⟨hselector, hentries⟩ := hchildren
    exact hP.switchStmt hselector hentries
  | breakStmt label => exact hP.jump "break" rfl fun s hs => h.names s (Option.mem_toList.mpr hs)
  | continueStmt label =>
    exact hP.jump "continue" rfl fun s hs => h.names s (Option.mem_toList.mpr hs)
  | returnStmt expr => exact hP.returnStmt hchildren
  | ifStmt condition consequent alternative =>
    obtain ⟨hcondition, hconsequent, halternative⟩ := hchildren
    exact hP.ifStmt hcondition hconsequent halternative
  | whileStmt condition body =>
    obtain ⟨hcondition, hbody⟩ := hchildren
    exact hP.whileStmt hcondition hbody
  | doStmt body condition =>
    obtain ⟨hbody, hcondition⟩ := hchildren
    exact hP.doStmt hbody hcondition
  | forEachStmt loopVariable iterable body =>
    obtain ⟨hiterable, hbody⟩ := hchildren
    exact hP.forEachStmt _ (VariableGroup.over_names h.left.left.right.spelled) hiterable hbody
  | forStmt init compare update body =>
    obtain ⟨hinit, hcompare, hupdate, hbody⟩ := hchildren
    exact hP.forStmt hinit hcompare hupdate hbody
  | throwStmt expr => exact hP.ended (hP.append (hP.literal (s := "throw ") rfl) hchildren)
  | synchronizedStmt lock body => exact hP.synchronizedStmt hchildren
  | tryStmt resources body catches finallyBlock =>
    obtain ⟨hresources, hbody, hcatches, hfinally⟩ := hchildren
    exact hP.tryStmt hresources hbody hcatches hfinally
  | constructorCall isThis expr typeArguments arguments =>
    obtain ⟨hexpr, harguments⟩ := hchildren
    exact hP.constructorCall isThis hexpr harguments
  | commentStmt comment => exact hP.solid (hP.comment (h.comments _ List.mem_cons_self))
  | unparsable => exact hP.stop (.inr (.inr rfl))
  -- Expressions
  | creationLevel size annotations => exact hchildren
  | lambdaExpr expr => exact hchildren
  | lambdaBlock body => exact hchildren
  | nameExpr name => exact hP.identifier (h.names _ List.mem_cons_self)
  | fieldAccess scope name =>
    refine hP.underScope ?_ (hP.identifier (h.names _ List.mem_cons_self))
    rintro d ⟨⟩
    exact hchildren
  | arrayAccess base index =>
    obtain ⟨hbase, hindex⟩ := hchildren
    exact hP.arrayAccess hbase hindex
  | arrayCreation elementType levels initial =>
    obtain ⟨htype, hlevels, hinitial⟩ := hchildren
    exact hP.arrayCreation (hP.typeDoc htype) hlevels hinitial
  | arrayInitializer values => exact hP.arrayLiteral hchildren
  | assign target op value =>
    obtain ⟨htarget, hvalue⟩ := hchildren
    exact hP.infixed (hP.assigned op) htarget hvalue
  | binary left op right =>
    obtain ⟨hleft, hright⟩ := hchildren
    exact hP.infixed (hP.related op) hleft hright
  | unary op expr => exact hP.unary op hchildren
  | cast type expr =>
    obtain ⟨htype, hexpr⟩ := hchildren
    exact hP.cast _ (hP.typeDoc htype) hexpr
  | classLiteral type => exact hP.append (hP.typeDoc hchildren) (hP.literal rfl)
  | conditional condition consequent alternative =>
    obtain ⟨hcondition, hconsequent, halternative⟩ := hchildren
    exact hP.conditional hcondition hconsequent halternative
  | enclosed inner => exact hP.brackets rfl hchildren
  | instanceOf expr type =>
    obtain ⟨hexpr, htype⟩ := hchildren
    have hword : P (Doc.text " " ++ Doc.text "instanceof" ++ Doc.text " ") :=
      hP.append (hP.append (hP.literal rfl) (hP.literal rfl)) (hP.literal rfl)
    exact hP.infixed hword hexpr (hP.typeDoc htype)
  | integerLiteral value => exact hP.word (h.names _ List.mem_cons_self)
  | longLiteral value => exact hP.word (over_dropSuffix _ (h.names _ List.mem_cons_self))
  | doubleLiteral value => exact hP.word (over_dropSuffix _ (h.names _ List.mem_cons_self))
  | charLiteral value => exact hP.quoted (.inl rfl) (h.values _ List.mem_cons_self)
  | stringLiteral value => exact hP.quoted (.inr rfl) (h.values _ List.mem_cons_self)
  | booleanLiteral value => cases value <;> exact hP.literal rfl
  | nullLiteral => exact hP.literal rfl
  | thisExpr qualifier =>
    exact hP.word (h.speaks.thisText hP.letter fun s hs => h.names s (Option.mem_toList.mpr hs))
  | superExpr qualifier => exact hP.superDoc fun s hs => h.names s (Option.mem_toList.mpr hs)
  | methodCall scope typeArguments name arguments =>
    obtain ⟨hscope, htypes, harguments⟩ := hchildren
    exact hP.methodCall (h.names _ List.mem_cons_self) hscope htypes harguments
  | objectCreation scope type typeArguments arguments anonymousBody =>
    obtain ⟨hscope, htype, harguments, hbody⟩ := hchildren
    exact hP.objectCreation _ (hP.bare cx.over_captureName)
      (ClassType.over_name h.left.left.left.right.names) hscope htype harguments hbody
  | lambda parameters isEnclosed body =>
    obtain ⟨hparameters, hbody⟩ := hchildren
    exact hP.lambda isEnclosed hparameters hbody
  | methodReference scope typeArguments identifier =>
    have hidentifier := hP.identifier (h.names identifier List.mem_cons_self)
    refine hP.append (hP.unsupported fun _ hs => nomatch hs) (hP.underScope ?_ hidentifier)
    rintro d ⟨⟩
    exact hchildren
  | typeExpr type => exact hP.typeDoc hchildren
  | variableDeclaration decl => exact hchildren
  | annotationExpr use => exact hchildren

section

variable {I : Context → Prop} (hI : Context.Inherited I) {c : Category} {n : Node c} {cx : Context}

include hI

theorem Context.Inherited.of_mem_children (h : I cx) : ∀ v ∈ n.children cx, I v.context := by
  cases n with
  | cons head tail =>
    have hafter : I (cx.after head) := by
      unfold Context.after
      split
      · exact h
      · exact hI.child 1 h
    exact List.forall_mem_cons.mpr ⟨hI.child 0 h, List.forall_mem_singleton.mpr hafter⟩
  | present node => exact List.forall_mem_singleton.mpr (hI.content h)
  | nestedType decl =>
    refine List.forall_mem_singleton.mpr ?_
    split
    · exact hI.detached (hI.child 0 h)
    · exact hI.child 0 h
  | declarator name dimensions initial =>
    exact List.forall_mem_cons.mpr ⟨hI.child 0 h, List.forall_mem_singleton.mpr (hI.initialValue h)⟩
  | _ =>
    repeat first
      | exact List.forall_mem_nil _
      | exact hI.child _ h
      | exact hI.child _ (hI.enter _ h)
      | exact hI.child _ (hI.membersOf _ (hI.enter _ h))
      | exact hI.child _ (hI.membersOf _ h)
      | exact hI.child _ (hI.declarators _ h)
      | exact hI.child _ (hI.enterAnonymous _ h)
      | refine List.forall_mem_cons.mpr ⟨?_, ?_⟩

theorem Context.Admits.of_mem_children {sp : Spelling}
    (hletters : ∀ c, isNameChar c = true → sp.letters c = true)
    (h : cx.Admits sp I (n.any Node.isDeclaring) (n.any (Node.misspells sp))) :
    ∀ v ∈ n.children cx,
      v.context.Admits sp I (v.node.any Node.isDeclaring) (v.node.any (Node.misspells sp)) := by
  intro v hv
  obtain ⟨hresolver, hscope⟩ := n.context_of_mem_children cx v hv
  refine ⟨?_, Node.lacks_of_mem_children cx h.spelled v hv, ?_⟩
  · intro hdeclares
    refine hI.of_mem_children (h.inherits ?_) v hv
    rw [← Bool.not_eq_false]
    intro hlacks
    have hchild : v.node.any Node.isDeclaring = false := Node.lacks_of_mem_children cx hlacks v hv
    rw [hchild] at hdeclares
    cases hdeclares
  · constructor
    · intro name scope d hd
      rw [hresolver] at hd
      exact h.speaks.resolved hd
    · rcases hscope with hscope | hscope
      · rw [hscope]
        exact h.speaks.scope
      · rw [hscope]
        cases c with
        | typeDecl =>
          exact List.forall_mem_cons.mpr ⟨(TypeDecl.spelledBy n h.spelled).name, h.speaks.scope⟩
        | _ => exact h.speaks.scope
    · intro f hf s hs
      rcases n.frames_of_mem_children cx v hv f hf with hf | ⟨isStatic, hname⟩
      · exact h.speaks.frames f hf s hs
      · rw [hname] at hs
        cases isStatic with
        | true => cases hs
        | false =>
          cases hs
          exact over_of_all hletters cx.over_captureName

end

/-- Properties that compose hold of a script, if they hold of the annotations, flaws and moved
declarations that arise in the contexts at hand. A node that declares no type may stand in any
context. -/
theorem Node.script_composes {sp : Spelling} {P Q R : Doc → Prop} (hP : Composes sp P Q R)
    {I : Context → Prop} (hI : Context.Inherited I)
    (hcommented : ∀ (a : AnnotationUse) (cx : Context), a.any (Node.misspells sp) = false →
      cx.Speaks sp.letters → P (a.arguments cx) → P (a.script cx))
    (hflaw : ∀ cx, I cx → cx.scope = [] → ∀ f, P (Doc.flaw f))
    (hmoved : ∀ cx, I cx → ∀ names body, (∀ name ∈ names, Over sp.letters name) → P body →
      P [.moved cx.route names body])
    {c : Category} (n : Node c) (cx : Context)
    (h : cx.Admits sp I (n.any Node.isDeclaring) (n.any (Node.misspells sp))) :
    Script.All sp P Q R c (n.script cx) := by
  suffices ∀ w : Written, w.context.Admits sp I (w.node.any Node.isDeclaring)
      (w.node.any (Node.misspells sp)) →
      Script.All sp P Q R w.category (w.node.script w.context) from this ⟨n, cx⟩ h
  intro w
  induction w using Written.inductionOn with
  | step w ih =>
    intro hw
    refine Node.script_of_children hP hw (fun a ha => hcommented a w.context ha hw.speaks) ?_ ?_ ?_
    · intro hdeclaring
      exact hflaw w.context (hw.inherits (Node.any_of_self (p := Node.isDeclaring) hdeclaring))
    · intro decl hdecl hmoves hbody
      have hdeclares : w.node.any Node.isDeclaring = true :=
        Node.any_of_self (p := Node.isDeclaring) (Node.isDeclaring_of_nested? hdecl)
      refine hmoved _ (hI.child 0 (hw.inherits hdeclares)) _ _ ?_ hbody
      intro name hname
      obtain ⟨d, hd, rfl⟩ := List.mem_map.mp hname
      exact hw.speaks.scope d (List.mem_reverse.mp hd)
    · rw [List.forall_iff_forall_mem]
      intro v hv
      exact ih v hv (hw.of_mem_children hI hP.letter v hv)

/-- A uniform property holds of a script, if it holds of the flaws and moved declarations that arise
in the contexts at hand. -/
theorem Node.script_all {sp : Spelling} {P : Doc → Prop} (hP : Uniform sp P) {I : Context → Prop}
    (hI : Context.Inherited I) (hflaw : ∀ cx, I cx → cx.scope = [] → ∀ f, P (Doc.flaw f))
    (hmoved : ∀ cx, I cx → ∀ names body, (∀ name ∈ names, Over sp.letters name) → P body →
      P [.moved cx.route names body])
    {c : Category} (n : Node c) (cx : Context)
    (h : cx.Admits sp I (n.any Node.isDeclaring) (n.any (Node.misspells sp))) :
    Script.All sp P P P c (n.script cx) := by
  refine n.script_composes hP.composes hI ?_ hflaw hmoved cx h
  intro a cx ha _ harguments
  have hnames := Node.over_ownNames ha
  cases a <;> exact hP.annotationComment (hnames _ List.mem_cons_self) harguments

theorem Context.speaks_anyLetter (cx : Context) : cx.Speaks anyLetter where
  resolved _ := over_anyLetter _
  scope _ _ := over_anyLetter _
  frames _ _ _ _ := over_anyLetter _

theorem Spelling.remark_any (s : String) : anySpelling.remark s = true :=
  decide_eq_true (over_anyLetter s)

theorem Node.any_misspells_any {c : Category} (n : Node c) :
    n.any (Node.misspells anySpelling) = false := by
  rw [Node.misspells_over_eq]
  refine n.any_eq_false fun m => List.any_eq_false.mpr fun s _ => ?_
  simpa using over_anyLetter s

theorem TypeDecl.spelledBy_any (decl : TypeDecl) : decl.SpelledBy anySpelling :=
  ⟨over_anyLetter _, fun _ _ => Spelling.remark_any _⟩

section

variable {P : Piece → Prop} (hP : HoldsPlainly P) {I : Context → Prop} (hI : Context.Inherited I)
  (hflaw : ∀ cx, I cx → cx.scope = [] → ∀ f, P (.flaw f))
  (hmoved : ∀ cx, I cx → ∀ names body, Doc.Every P body → P (.moved cx.route names body))

include hP hI hflaw hmoved

theorem Node.script_every {c : Category} (n : Node c) (cx : Context)
    (h : n.declares = true → I cx) :
    Script.All anySpelling (Doc.Every P) (Doc.Every P) (Doc.Every P) c (n.script cx) := by
  refine n.script_all hP.uniform hI ?_ ?_ cx ⟨h, n.any_misspells_any, cx.speaks_anyLetter⟩
  · intro cx hcx hscope f
    exact Doc.every_cons.mpr ⟨hflaw cx hcx hscope f, Doc.every_nil⟩
  · intro cx hcx names body _ hbody
    exact Doc.every_cons.mpr ⟨hmoved cx hcx names body hbody, Doc.every_nil⟩

/-- A declaration whose annotations declare no type may stand at the top. -/
theorem TypeDecl.script_every (decl : TypeDecl) (cx : Context)
    (hannotations : (TypeDecl.annotations decl).declares = true → I cx)
    (hinside : I (cx.enter decl)) : DeclShape.All (Doc.Every P) (decl.script cx) := by
  have each {c : Category} (n : Node c) (cx : Context) (h : n.declares = true → I cx) :
      Script.All anySpelling (Doc.Every P) (Doc.Every P) (Doc.Every P) c (n.script cx) :=
    n.script_every hP hI hflaw hmoved cx h
  have hcomposes := hP.composes
  cases decl with
  | classDecl name isInterface modifiers comment annotations typeParameters extended implemented
      members trailing =>
    exact ⟨hcomposes.annotationLines (each annotations _ fun h => hI.child 0 (hannotations h)),
      hcomposes.classContent isInterface modifiers (over_anyLetter _)
        (each typeParameters _ fun _ => hI.child 1 hinside)
        (each extended _ fun _ => hI.child 2 hinside)
        (each implemented _ fun _ => hI.child 3 hinside)
        (each members _ fun _ => hI.child 4 (hI.membersOf _ hinside))
        fun _ _ => Spelling.remark_any _⟩
  | enumDecl name modifiers comment annotations implemented constants members =>
    exact ⟨hcomposes.annotationLines (each annotations _ fun h => hI.child 0 (hannotations h)),
      hcomposes.enumContent (over_anyLetter _) (each implemented _ fun _ => hI.child 1 hinside)
        (each constants _ fun _ => hI.child 2 hinside)
        (each members _ fun _ => hI.child 3 (hI.membersOf _ hinside))⟩
  | annotationDecl name modifiers comment annotations members =>
    exact ⟨hcomposes.annotationLines (each annotations _ fun h => hI.child 0 (hannotations h)),
      hcomposes.annotationContent (over_anyLetter _)
        (each members _ fun _ => hI.child 1 (hI.membersOf _ hinside))⟩

end

/-- The texts of a unit outside its declarations and annotations are over the alphabet. -/
structure CompilationUnit.Spells (letters : Char → Bool) (u : CompilationUnit) : Prop where
  comment : ∀ c ∈ u.comment, Over letters c.content
  package : ∀ p ∈ u.package, Over letters p.name
  imports : ∀ i ∈ u.imports, Over letters i.name
  importComments : ∀ i ∈ u.imports, ∀ c ∈ i.comment, Over letters c.content
  trailing : ∀ c ∈ u.trailing, Over letters c.content

theorem CompilationUnit.spells_anyLetter (u : CompilationUnit) : u.Spells anyLetter where
  comment _ _ := over_anyLetter _
  package _ _ := over_anyLetter _
  imports _ _ := over_anyLetter _
  importComments _ _ _ _ := over_anyLetter _
  trailing _ _ := over_anyLetter _

theorem Spelling.remark_over {letters : Char → Bool} {s : String} (h : Over letters s) :
    (Spelling.over letters).remark s = true :=
  decide_eq_true h

namespace Uniform

variable {letters : Char → Bool} {P : Doc → Prop} (hP : Uniform (.over letters) P)
  {u : CompilationUnit}

include hP

theorem importDoc {i : Import} (hname : Over letters i.name)
    (hcomment : ∀ c ∈ i.comment, Over letters c.content) : P i.doc := by
  refine hP.append (hP.composes.commentDoc fun c hc => Spelling.remark_over (hcomment c hc)) ?_
  split
  · refine hP.append (hP.unsupported ?_) hP.newline
    rintro s ⟨⟩
    exact hname
  · have hidentifier := over_escapeIdentifier hP.composes.letter (over_lastSegment isDot hname)
    refine hP.composes.line (hP.word ?_)
    have hstart := over_append.mpr ⟨hP.bare (s := "import ") (by decide), hidentifier⟩
    have hmiddle := over_append.mpr ⟨hstart, hP.bare (s := " = ") (by decide)⟩
    exact over_append.mpr ⟨over_append.mpr ⟨hmiddle, hname⟩, hP.bare (by decide)⟩

theorem importDocs (hu : u.Spells letters) :
    P (u.imports.flatMap Import.doc ++ if u.imports.isEmpty then [] else Doc.newline) := by
  refine hP.append (hP.composes.flatMap fun i hi =>
    hP.importDoc (hu.imports i hi) (hu.importComments i hi)) ?_
  split
  · exact hP.nil
  · exact hP.newline

theorem packageLines {cx : Context} (h : ∀ a ∈ u.packageAnnotations, P (a.script cx))
    {package : Package} (hpackage : u.package = some package) :
    P (Script.annotationLines (package.annotations.map fun a => a.script cx)) := by
  apply hP.composes.annotationLines
  intro d hd
  obtain ⟨a, ha, rfl⟩ := List.mem_map.mp hd
  exact h a (by simpa [CompilationUnit.packageAnnotations, hpackage] using ha)

theorem stacked {ds : List Doc} (h : ∀ d ∈ ds, P d) : P (CompilationUnit.stacked ds) := by
  induction ds with
  | nil => exact hP.nil
  | cons d rest ih =>
    obtain ⟨hd, hrest⟩ := List.forall_mem_cons.mp h
    cases rest with
    | nil => exact hP.append hd hP.newline
    | cons e rest => exact hP.append (hP.append (hP.append hd hP.newline) hP.newline) (ih hrest)

end Uniform

namespace CompilationUnit

theorem package_of_namespace? {u : CompilationUnit} {wrap : Bool} {package : Package}
    (h : u.namespace? wrap = some package) : u.package = some package := by
  unfold namespace? at h
  split at h
  · exact h
  · cases h

theorem mem_blocks {cx : Context} {place : Nat} {types : List TypeDecl} {d : Doc}
    (h : d ∈ blocks cx place types) :
    ∃ decl ∈ types, ∃ place, d = block (cx.child place) decl := by
  induction types generalizing place with
  | nil => cases h
  | cons decl rest ih =>
    rcases List.mem_cons.mp h with rfl | h
    · exact ⟨decl, List.mem_cons_self, place, rfl⟩
    · obtain ⟨other, hother, hd⟩ := ih h
      exact ⟨other, List.mem_cons_of_mem _ hother, hd⟩

/-- A property of the annotations of the package and of the blocks is one of the whole script. -/
theorem script_all {letters : Char → Bool} {P : Doc → Prop} (hP : Uniform (.over letters) P)
    {u : CompilationUnit} (hu : u.Spells letters) (wrap : Bool) (classPath : ClassIndex)
    (hannotations : ∀ a ∈ u.packageAnnotations, P (a.script { resolver := .ofUnit u classPath }))
    (hblocks : ∀ decl ∈ u.types, ∀ place,
      P (block (Context.child { resolver := .ofUnit u classPath } place) decl)) :
    P (u.script wrap classPath) := by
  have hstacked : P (stacked (blocks { resolver := .ofUnit u classPath } 0 u.types)) := by
    apply hP.stacked
    intro d hd
    obtain ⟨decl, hdecl, place, rfl⟩ := mem_blocks hd
    exact hblocks decl hdecl place
  have hcomment := hP.composes.commentDoc fun c hc => Spelling.remark_over (hu.comment c hc)
  have htrailing := hP.composes.comments fun c hc => Spelling.remark_over (hu.trailing c hc)
  have hcontent := hP.append (hP.append (hP.importDocs hu) hstacked) htrailing
  unfold script header footer
  cases hnamespace : u.namespace? wrap with
  | none => simpa using hP.append hcomment hcontent
  | some package =>
    have hpackage := package_of_namespace? hnamespace
    have hlines := hP.append hcomment (hP.packageLines hannotations hpackage)
    have hdoc := hP.append hlines
      (hP.bracedLines "namespace " rfl (hu.package package hpackage) hcontent)
    simpa [openNamespace, Doc.indented] using hdoc

variable {P : Piece → Prop} (hP : HoldsPlainly P) (u : CompilationUnit) (wrap : Bool)

include hP

theorem header_every (cx : Context) (h : ∀ a ∈ u.packageAnnotations, Doc.Every P (a.script cx)) :
    Doc.Every P (u.header wrap cx) := by
  obtain ⟨himports, hblank⟩ := Doc.every_append.mp (hP.uniform.importDocs u.spells_anyLetter)
  have hcomment := hP.composes.commentDoc fun c (_ : c ∈ u.comment) => Spelling.remark_any c.content
  unfold header
  refine Doc.every_append.mpr ⟨Doc.every_append.mpr ⟨Doc.every_append.mpr ⟨hcomment, ?_⟩,
    himports⟩, hblank⟩
  split
  · next package hnamespace =>
    have hlines := hP.uniform.packageLines h (package_of_namespace? hnamespace)
    simp [openNamespace, hlines, hP.line, hP.indent]
  · exact Doc.every_nil

theorem footer_every : Doc.Every P (u.footer wrap) := by
  have htrailing := hP.composes.comments fun c (_ : c ∈ u.trailing) => Spelling.remark_any c.content
  unfold footer
  split <;> simp [htrailing, hP.outdent, hP.line]

end CompilationUnit
end TypeScribe
