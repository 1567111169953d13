import TypeScribe.Proofs.Binding.Steps

/-!
# Reading along a way

The stretches of a node have the effects that they stand for: its own documents leave open what was,
and a node below is printed in a context of its own. So the script before a node can be read, and what
is open at the node is what the steps to it have opened.
-/
namespace TypeScribe
set_option autoImplicit false
open Text

variable {barred : {c : Category} → Node c → Bool}

/-- The node and the context can be read in code, and no node is barred. -/
structure Readable (barred : {c : Category} → Node c → Bool) {c : Category} (n : Node c)
    (cx : Context) : Prop where
  lacks : n.any @barred = false
  spelled : n.any (Node.misspells codeSpelling) = false
  speaks : cx.Speaks codeSpelling.letters

theorem Readable.of_admits {c : Category} {n : Node c} {cx : Context}
    (h : cx.Admits codeSpelling (fun _ => False) (n.any @barred)
      (n.any (Node.misspells codeSpelling))) : Readable @barred n cx :=
  ⟨Bool.eq_false_iff.mpr h.inherits, h.spelled, h.speaks⟩

namespace Readable

variable {c : Category} {n : Node c} {cx : Context} (h : Readable @barred n cx)

include h

theorem admits : cx.Admits codeSpelling (fun _ => False) (n.any @barred)
    (n.any (Node.misspells codeSpelling)) :=
  ⟨Bool.eq_false_iff.mp h.lacks, h.spelled, h.speaks⟩

theorem script : Script.All codeSpelling Doc.IsQuiet Doc.IsQuiet Doc.IsQuiet c (n.script cx) :=
  Node.script_isQuiet h.spelled h.speaks

end Readable

/-- What is printed in one piece leaves open what was. -/
theorem Script.code_isQuiet {c : Category} {s : Script c}
    (h : Script.All codeSpelling Doc.IsQuiet Doc.IsQuiet Doc.IsQuiet c s) :
    (Script.code c s).IsQuiet := by
  cases c with
  | typeDecl => exact h.2
  | stmt => exact h
  | member => exact h
  | creationLevel => exact Doc.isQuiet_composes.getD h
  | enumConstant => exact h
  | block => exact h
  | switchEntry => exact h
  | catchClause => exact h
  | variableGroup => exact h
  | lambdaBody => exact h
  | expr => exact h
  | _ => exact Doc.isQuiet_nil

theorem Readable.code {c : Category} {n : Node c} {cx : Context} (h : Readable @barred n cx) :
    (n.code cx).IsQuiet :=
  Script.code_isQuiet h.script

namespace Stretch

/-- Reading the stretch has the effect that it stands for. -/
def Reads (barred : {c : Category} → Node c → Bool) : Stretch → Prop
  | own d => d.IsQuiet
  | opens s x => ∀ st, read (Doc.text s) ⟨st, .code⟩ = some ⟨x :: st, .code⟩
  | closes s x => ∀ st, read (Doc.text s) ⟨x :: st, .code⟩ = some ⟨st, .code⟩
  | node n cx => Readable @barred n cx

theorem Reads.read_docs {ps : List Stretch} (h : Every (Reads @barred) ps) {st st' : List Opened}
    (hscan : scan ps st = some st') : read (docs ps) ⟨st, .code⟩ = some ⟨st', .code⟩ := by
  induction ps generalizing st with
  | nil =>
    cases hscan
    rfl
  | cons p rest ih =>
    obtain ⟨hp, hrest⟩ := List.forall_mem_cons.mp h
    rw [docs_cons, read_append]
    cases p with
    | own d =>
      rw [doc_own, hp st]
      exact ih hrest hscan
    | opens s x =>
      rw [doc_opens, hp st]
      exact ih hrest hscan
    | closes s x =>
      rw [scan] at hscan
      split at hscan
      · next hhead =>
        obtain ⟨rest, rfl⟩ := List.head?_eq_some_iff.mp hhead
        rw [doc_closes, hp rest]
        exact ih hrest hscan
      · cases hscan
    | node n cx =>
      rw [doc_node, hp.code st]
      exact ih hrest hscan

end Stretch

theorem mem_of_mem_inSequence {c : Category} {cx : Context} {ns : List (Node c)}
    {p : Node c × Context} (h : p ∈ inSequence cx ns) : p.1 ∈ ns := by
  induction ns generalizing cx with
  | nil => cases h
  | cons n ns ih =>
    rcases List.mem_cons.mp h with rfl | h
    · exact List.mem_cons_self
    · exact List.mem_cons_of_mem _ (ih h)

theorem Context.Speaks.child {letters : Char → Bool} {cx : Context} (h : cx.Speaks letters)
    (place : Nat) : (cx.child place).Speaks letters :=
  ⟨h.resolved, h.scope, h.frames⟩

theorem Readable.inSequence {c : Category} {ns : Node (.many c)} {cx : Context}
    (h : Readable @barred ns cx) : ∀ p ∈ inSequence cx ns.toList, Readable @barred p.1 p.2 := by
  intro p hp
  exact ⟨Node.any_eq_false_of_mem h.lacks p.1 (mem_of_mem_inSequence hp),
    Node.any_eq_false_of_mem h.spelled p.1 (mem_of_mem_inSequence hp),
    forall_mem_inSequence (fun _ place hspeaks => hspeaks.child place) h.speaks _ p hp⟩

theorem Readable.content? {c : Category} {o : Node (.optional c)} {cx : Context}
    (h : Readable @barred o cx) : ∀ p ∈ o.content? cx, Readable @barred p.1 p.2 := by
  cases o with
  | absent => exact fun p hp => nomatch hp
  | present n =>
    rintro p ⟨⟩
    exact ⟨(Bool.or_eq_false_iff.mp h.lacks).2, (Bool.or_eq_false_iff.mp h.spelled).2,
      h.speaks.resolved, h.speaks.scope,
      h.speaks.frames⟩

instance : Stretch.Lenient (Stretch.Reads @barred) where
  quiet hd := hd

namespace Stretch.Reads

variable {ps qs : List Stretch} {c : Category} {cx : Context}

theorem braced {brace : String} {x : Opened} (hx : x.isBrace = true)
    (hbrace : ∀ st, read (Doc.text brace) ⟨st, .code⟩ = some ⟨x :: st, .code⟩)
    (h : Every (Reads @barred) ps) :
    Every (Reads @barred) (Stretch.braced brace x ps) := by
  have hclose (st : List Opened) : read (Doc.text "\x7d") ⟨x :: st, .code⟩ = some ⟨st, .code⟩ := by
    cases x with
    | block => rfl
    | body => rfl
    | closure => cases hx
  have hopens : Every (Reads @barred) [.opens brace x, .own [.newline, .indent]] :=
    List.forall_mem_cons.mpr ⟨hbrace, Every.own (fun _ => rfl) .nil⟩
  have hcloses : Every (Reads @barred) [.own [.outdent], .closes "\x7d" x] :=
    .own (fun _ => rfl) (List.forall_mem_cons.mpr ⟨hclose, Every.nil⟩)
  exact (hopens.append h).append hcloses

theorem closure {parameter after : String} (hparameter : Over codeSpelling.letters parameter)
    (hafter : after = ")(this)" ∨ after = ")(this);") (h : Every (Reads @barred) ps) :
    Every (Reads @barred) (Stretch.closure parameter after ps) :=
  List.forall_mem_cons.mpr ⟨Doc.read_closure hparameter,
    h.append (List.forall_mem_cons.mpr ⟨Doc.read_application hafter parameter, Every.nil⟩)⟩

theorem constantBody {ms : List (Member × Context)} (h : ∀ m ∈ ms, Readable @barred m.1 m.2) :
    Every (Reads @barred) (Stretch.constantBody ms) :=
  .ite .nil ((braced rfl (fun _ => rfl) (.members h)).append (.own (fun _ => rfl) .nil))

theorem sizedArray {elementType : Doc} (htype : elementType.IsQuiet)
    {levels : List (Node .creationLevel × Context)} (h : ∀ l ∈ levels, Readable @barred l.1 l.2) :
    Every (Reads @barred) (Stretch.sizedArray elementType levels) := by
  have hdimensions : (Doc.concat (levels.tail.map fun _ => Doc.text "[]")).IsQuiet :=
    Doc.isQuiet_composes.concat fun d hd => by
      obtain ⟨_, _, rfl⟩ := List.mem_map.mp hd
      exact fun _ => rfl
  have hstart : (Doc.text "new Array<").IsQuiet := fun _ => rfl
  have hend : (Doc.text ">(").IsQuiet := fun _ => rfl
  exact Every.sizedArray (((hstart.append htype).append hdimensions).append hend) h

theorem declarator {base : Option Doc} (hbase : ∀ d ∈ base, d.IsQuiet)
    {d : Node .declarator × Context} (h : Readable @barred d.1 d.2) :
    Every (Reads @barred) (Stretch.declarator base d) := by
  obtain ⟨d, cx⟩ := d
  cases d with
  | declarator name dimensions initial =>
    have hname := Doc.isQuiet_composes.identifier (h.admits.names name List.mem_cons_self)
    have hdimensions := Doc.isQuiet_composes.concat
      (Readable.of_admits (h.admits.left.right.child Context.inherited_false 0)).script
    have hinitial := Readable.content? (.of_admits (h.admits.right.initialValue Context.inherited_false))
    refine .own (hname.append ?_) ?_
    · cases base with
      | none => exact Doc.isQuiet_nil
      | some type =>
        have hcolon : (Doc.text ": ").IsQuiet := fun _ => rfl
        exact (hcolon.append (hbase type rfl)).append hdimensions
    · cases initial with
      | absent => exact .nil
      | present value => exact .own (fun _ => rfl) (.node (hinitial _ rfl) .nil)

theorem declarators {base : Option Doc} (hbase : ∀ d ∈ base, d.IsQuiet)
    {ds : Node (.many .declarator)} (h : Readable @barred ds cx) :
    Every (Reads @barred) (Stretch.declarators base ds cx) :=
  Every.declarators fun d hd => declarator hbase (h.inSequence d hd)

section

variable {decl : TypeDecl} (h : Readable @barred decl cx)

include h

theorem nestedEnum : Every (Reads @barred) (Stretch.nestedEnum decl cx) := by
  have hcomment := Doc.isQuiet_composes.commentDoc (decl.spelledBy h.spelled).comment
  exact .own ((hcomment.append h.script.1).append (Doc.isQuiet_composes.modifiers _)) (.node h .nil)

theorem nestedClass {enclosing : String} (henclosing : Over codeSpelling.letters enclosing) :
    Every (Reads @barred) (Stretch.nestedClass enclosing decl cx) := by
  have hdecl := decl.spelledBy h.spelled
  have hcomment := Doc.isQuiet_composes.commentDoc hdecl.comment
  have hname : (Doc.text decl.name ++ Doc.text " = ").IsQuiet :=
    (Doc.isQuiet_word hdecl.name).append fun _ => rfl
  have hmodifiers := Doc.isQuiet_composes.modifiers (decl.modifiers.erase .abstract)
  refine .own ?_ (.ite (.node h .nil) (closure ?_ (.inr rfl) (.node h .nil)))
  · rw [List.append_assoc]
    exact ((hcomment.append h.script.1).append hmodifiers).append hname
  · exact over_append.mpr ⟨henclosing, by decide⟩

theorem nestedType : Every (Reads @barred) (Stretch.nestedType cx decl) := by
  unfold Stretch.nestedType
  split
  · exact .own (fun _ => rfl) .nil
  · next enclosing hname =>
    have henclosing : Over codeSpelling.letters enclosing := by
      obtain ⟨d, hd, rfl⟩ := Option.map_eq_some_iff.mp hname
      exact h.speaks.scope d (List.mem_of_mem_head? hd)
    split
    · exact .own (Doc.isQuiet_placeholder (decl.spelledBy h.spelled).name) .nil
    · split
      · exact nestedEnum h
      · exact nestedClass h henclosing

end

theorem localType {decl : TypeDecl} {inner : Context} (hspeaks : cx.Speaks codeSpelling.letters)
    (h : Readable @barred decl inner) : Every (Reads @barred) (Stretch.localType cx decl inner) := by
  unfold Stretch.localType
  split
  · exact .own (fun _ => rfl) .nil
  · next enclosing hname =>
    have henclosing : Over codeSpelling.letters enclosing := by
      obtain ⟨d, hd, rfl⟩ := Option.map_eq_some_iff.mp hname
      exact hspeaks.scope d (List.mem_of_mem_head? hd)
    split
    · have hdecl := TypeDecl.spelledBy _ h.spelled
      have hcomment := Doc.isQuiet_composes.commentDoc hdecl.comment
      have hnamed := Doc.isQuiet_composes.named hdecl.name
      exact .own ((hcomment.append h.script.1).append hnamed)
        (closure (over_append.mpr ⟨henclosing, by decide⟩) (.inr rfl) (.node h .nil))
    · exact .own (fun _ => rfl) .nil

theorem anonymousClass {type : ClassType} {arguments : Node (.many .expr)}
    {body : List (Member × Context)} (htype : (Doc.IsQuiet (type.script (cx.child 1))))
    (harguments : Readable @barred arguments (cx.child 2))
    (hbody : ∀ m ∈ body, Readable @barred m.1 m.2) :
    Every (Reads @barred) (Stretch.anonymousClass cx type arguments body) := by
  have hword : (Doc.text (if cx.isInterface type then "new class implements "
      else "new class extends ")).IsQuiet := by
    split <;> exact fun _ => rfl
  exact .own (hword.append htype)
    ((braced rfl (fun _ => rfl) (.members hbody)).append (.parenthesized harguments.inSequence))

end Stretch.Reads

open Stretch

/-- A text that a fixed word begins. -/
theorem Doc.IsQuiet.after {a : String} {d : Doc} (h : d.IsQuiet)
    (ha : ∀ st, read (Doc.text a) ⟨st, .code⟩ = some ⟨st, .code⟩) : (Doc.text a ++ d).IsQuiet :=
  Doc.IsQuiet.append ha h

/-- The stretches of a node that can be read have the effects that they stand for. -/
theorem Node.stretches_read {c : Category} {n : Node c} {cx : Context} (hn : Readable @barred n cx) :
    Every (Reads @barred) (n.stretches cx) := by
  have h := hn.admits
  have hI := Context.inherited_false
  have hP := Doc.isQuiet_composes
  have r {c' : Category} {m : Node c'} {cx' : Context}
      (hm : cx'.Admits codeSpelling (fun _ => False) (m.any @barred)
        (m.any (Node.misspells codeSpelling))) : Readable @barred m cx' := .of_admits hm
  cases n with
  -- Type declarations
  | classDecl name isInterface modifiers comment annotations typeParameters extended implemented
      members trailing =>
    have hdecl := TypeDecl.spelledBy _ hn.spelled
    have htrailing := (List.forall_mem_append.mp h.comments).2
    have hparameters := hP.angled (r ((h.left.left.left.right.enter hI hdecl.name).child hI 1)).script
    have hextended := hP.listed " extends " rfl
      (r ((h.left.left.right.enter hI hdecl.name).child hI 2)).script
    have himplemented := hP.listed " implements " rfl
      (r ((h.left.right.enter hI hdecl.name).child hI 3)).script
    have hmembers := (r (((h.right.enter hI hdecl.name).membersOf hI isInterface).child hI 4)).inSequence
    have hword := (hP.classWord isInterface modifiers).append (hP.word hdecl.name)
    exact .own (((hword.append hparameters).append hextended).append himplemented)
      (Reads.braced rfl (fun _ => rfl) (.append (.classMembers hmembers)
        (.own (hP.comments htrailing) .nil)))
  | enumDecl name modifiers comment annotations implemented constants members =>
    have hdecl := TypeDecl.spelledBy _ hn.spelled
    have himplemented := hP.listed " implements " rfl
      (r ((h.left.left.right.enter hI hdecl.name).child hI 1)).script
    have hconstants := (r ((h.left.right.enter hI hdecl.name).child hI 2)).inSequence
    have hmembers := (r (((h.right.enter hI hdecl.name).membersOf hI false).child hI 3)).inSequence
    exact .own (((hP.word hdecl.name).after fun _ => rfl).append himplemented)
      (Reads.braced rfl (fun _ => rfl) (.own (fun _ => rfl)
        (.append (.listing hconstants) (.afterConstants _ hmembers))))
  | annotationDecl name modifiers comment annotations members =>
    have hdecl := TypeDecl.spelledBy _ hn.spelled
    have hmembers := (r (((h.right.enter hI hdecl.name).membersOf hI true).child hI 1)).inSequence
    exact .own ((hP.word hdecl.name).after fun _ => rfl)
      (Reads.braced rfl (fun _ => rfl) (.classMembers hmembers))
  | enumConstant name comment annotations arguments body =>
    have hcomment := hP.commentDoc fun c hc => h.comments c (Option.mem_toList.mpr hc)
    have hannotations := hP.annotationLines (r (h.left.left.right.child hI 0)).script
    have hname := hP.word (h.names name List.mem_cons_self)
    have hbody := (r ((h.right.membersOf hI false).child hI 2)).inSequence
    exact .own ((hcomment.append hannotations).append hname)
      (.append (.constantArguments (r (h.left.right.child hI 1)).inSequence) (Reads.constantBody hbody))
  -- Members
  | nestedType decl => exact Reads.nestedType (r (h.right.child hI 0))
  | field modifiers comment annotations base declarators =>
    have hcomment := hP.commentDoc fun c hc => h.comments c (Option.mem_toList.mpr hc)
    have hannotations := hP.annotationLines (r (h.left.left.right.child hI 0)).script
    have hbase := hP.knownType base (r (h.left.right.child hI 1)).script
    have hdeclarators := Reads.declarators hbase
      (r ((h.right.declarators hI (modifiers.contains .static)).child hI 2))
    exact .own ((hcomment.append hannotations).append (hP.memberModifiers cx modifiers))
      (hdeclarators.append (.own (fun _ => rfl) .nil))
  | method name modifiers comment annotations typeParameters result parameters thrown body =>
    have hcomment := hP.commentDoc fun c hc => h.comments c (Option.mem_toList.mpr hc)
    have hannotations := hP.annotationLines (r (h.left.left.left.left.left.right.child hI 0)).script
    have hname := hP.identifier (h.names name List.mem_cons_self)
    have htypes := hP.angled (r (h.left.left.left.left.right.child hI 1)).script
    have hresult := hP.typeDoc (r (h.left.left.left.right.child hI 2)).script
    have hparameters := hP.parenthesized (r (h.left.left.right.child hI 3)).script
    have hbody := (r (h.right.child hI 4)).content?
    have hcolon : (Doc.text ": ").IsQuiet := fun _ => rfl
    refine .own ((((((((hcomment.append hannotations).append
      (hP.memberModifiers cx modifiers)).append hname).append htypes).append hparameters).append
      hcolon).append hresult).append (hP.thrownMarker _)) ?_
    cases body with
    | absent => exact .own (fun _ => rfl) .nil
    | present body => exact .own (fun _ => rfl) (.node (hbody _ rfl) .nil)
  | constructor name modifiers comment annotations typeParameters parameters thrown body =>
    have hcomment := hP.commentDoc fun c hc => h.comments c (Option.mem_toList.mpr hc)
    have hannotations := hP.annotationLines (r (h.left.left.left.left.right.child hI 0)).script
    have hword : (Doc.text "constructor").IsQuiet := fun _ => rfl
    have hblank : (Doc.text " ").IsQuiet := fun _ => rfl
    have hparameters := hP.parenthesized (r (h.left.left.right.child hI 1)).script
    exact .own (((((hcomment.append hannotations).append hword).append hparameters).append
      (hP.thrownMarker _)).append hblank) (.node (r (h.right.child hI 2)) .nil)
  | initializer isStatic comment body =>
    have hcomment := hP.commentDoc fun c hc => h.comments c (Option.mem_toList.mpr hc)
    have hstatic : (if isStatic then Doc.text "static " else []).IsQuiet := by
      split <;> exact fun _ => rfl
    exact .own (hcomment.append hstatic) (.node (r (h.right.child hI 0)) .nil)
  -- Statements
  | block statements trailing =>
    have hlines := (r (h.right.child hI 0)).inSequence
    exact Reads.braced rfl (fun _ => rfl)
      (.append (.stmtLines hlines) (.own (hP.comments h.comments) .nil))
  | switchEntry label statements =>
    have hlabel := (r (h.left.right.child hI 0)).content?
    have hlines := (r (h.right.child hI 1)).inSequence
    refine .append (.append ?_ (.own (fun _ => rfl) (.stmtLines hlines))) (.own (fun _ => rfl) .nil)
    cases label with
    | absent => exact .own (fun _ => rfl) .nil
    | present label => exact .own (fun _ => rfl) (.node (hlabel _ rfl) (.own (fun _ => rfl) .nil))
  | catchClause caught body =>
    have hname := hP.identifier (over_parameterName h.left.right.names)
    have hend : (Doc.text ") ").IsQuiet := fun _ => rfl
    exact .own ((hname.after fun _ => rfl).append hend) (.node (r (h.right.child hI 0)) .nil)
  | variableGroup modifiers annotations base declarators =>
    have hannotations := hP.inlineAnnotations (r (h.left.left.right.child hI 0)).script
    have hbase := hP.knownType base (r (h.left.right.child hI 1)).script
    exact .own ((hannotations.append (hP.modifiers modifiers)).append (hP.declarationWord modifiers))
      (Reads.declarators hbase (r ((h.right.declarators hI _).child hI 2)))
  | blockStmt body => exact .node (r (h.right.child hI 0)) .nil
  | exprStmt expr => exact .node (r (h.right.child hI 0)) (.own (fun _ => rfl) .nil)
  | localType decl => exact Reads.localType hn.speaks (r (h.right.child hI 0))
  | labeled label statement =>
    have hlabel := hP.word (h.names label List.mem_cons_self)
    exact .own (hlabel.append fun _ => rfl) (.node (r (h.right.child hI 0)) .nil)
  | switchStmt selector entries =>
    exact .own (fun _ => rfl) (.node (r (h.left.right.child hI 0))
      (Reads.braced rfl (fun _ => rfl) (.placed (r (h.right.child hI 1)).inSequence)))
  | returnStmt expr =>
    have hexpr := (r (h.right.child hI 0)).content?
    cases expr with
    | absent => exact .own (fun _ => rfl) (.own (fun _ => rfl) .nil)
    | present expr =>
      exact .own (fun _ => rfl) (.own (fun _ => rfl)
        (.node (hexpr _ rfl) (.own (fun _ => rfl) .nil)))
  | ifStmt condition thenStmt elseStmt =>
    have hthen : Every (Reads @barred) (consequent (thenStmt, cx.child 1)) :=
      .consequent (r (h.left.right.child hI 1))
    have helse := (r (h.right.child hI 2)).content?
    refine .own (fun _ => rfl) (.node (r (h.left.left.right.child hI 0)) (hthen.append ?_))
    cases elseStmt with
    | absent => exact .nil
    | present elseStmt =>
      have hgap : (if (stmtShape (thenStmt, cx.child 1)).form = .block then Doc.text " "
          else Doc.newline).IsQuiet := by
        split <;> exact fun _ => rfl
      exact .own hgap (.alternative (helse _ rfl))
  | whileStmt condition body =>
    exact .own (fun _ => rfl) (.node (r (h.left.right.child hI 0)) (.own (fun _ => rfl)
      (.node (r (h.right.child hI 1)) .nil)))
  | doStmt body condition =>
    exact .own (fun _ => rfl) (.node (r (h.left.right.child hI 0)) (.own (fun _ => rfl)
      (.node (r (h.right.child hI 1)) (.own (fun _ => rfl) .nil))))
  | forEachStmt loopVariable iterable body =>
    have hnames := VariableGroup.over_names h.left.left.right.spelled
    have hdocs : ∀ d ∈ (VariableGroup.names loopVariable).map fun name =>
        Doc.text (escapeIdentifier name), Doc.IsQuiet d := by
      intro d hd
      obtain ⟨name, hname, rfl⟩ := List.mem_map.mp hd
      exact hP.identifier (hnames name hname)
    have hword := hP.declarationWord (VariableGroup.modifiers loopVariable)
    have hof : (Doc.text " of ").IsQuiet := fun _ => rfl
    exact .own (((hword.after fun _ => rfl).append (hP.listing hdocs)).append hof)
      (.node (r (h.left.right.child hI 0)) (.own (fun _ => rfl)
        (.node (r (h.right.child hI 1)) .nil)))
  | forStmt init compare update body =>
    have hinit := (r (h.left.left.left.right.child hI 0)).inSequence
    have hcompare := (r (h.left.left.right.child hI 1)).content?
    have hupdate := (r (h.left.right.child hI 2)).inSequence
    exact .append (.append (.append (.own (fun _ => rfl) (.listing hinit))
      (.own (fun _ => rfl) (.optional hcompare))) (.own (fun _ => rfl) (.listing hupdate)))
      (.own (fun _ => rfl) (.node (r (h.right.child hI 3)) .nil))
  | throwStmt expr =>
    exact .own (fun _ => rfl) (.node (r (h.right.child hI 0)) (.own (fun _ => rfl) .nil))
  | synchronizedStmt lock body =>
    exact .own (fun _ => rfl) (.node (r (h.right.child hI 0)) .nil)
  | tryStmt resources body catches finallyBlock =>
    have hresources := (r (h.left.left.left.right.child hI 0)).inSequence
    have hcatches := (r (h.left.right.child hI 2)).inSequence
    have hfinally := (r (h.right.child hI 3)).content?
    refine .append (.append (.resources hresources) (.own (fun _ => rfl)
      (.node (r (h.left.left.right.child hI 1)) (.placed hcatches)))) ?_
    cases finallyBlock with
    | absent => exact .nil
    | present last => exact .own (fun _ => rfl) (.node (hfinally _ rfl) .nil)
  | constructorCall isThis expr typeArguments arguments =>
    have hscope := (r (h.left.left.right.child hI 0)).content?
    have harguments := (r (h.right.child hI 1)).inSequence
    exact .append (.append (.ite (.own (fun _ => rfl) .nil)
      (.append (.scope hscope) (.own (fun _ => rfl) .nil))) (.parenthesized harguments))
      (.own (fun _ => rfl) .nil)
  -- Expressions
  | creationLevel size annotations => exact .optional (r (h.left.right.child hI 0)).content?
  | lambdaExpr expr => exact .node (r (h.right.child hI 0)) .nil
  | lambdaBlock body => exact .node (r (h.right.child hI 0)) .nil
  | fieldAccess scope name =>
    have hname := hP.identifier (h.names name List.mem_cons_self)
    exact .node (r (h.right.child hI 0)) (.own (fun _ => rfl) (.own hname .nil))
  | arrayAccess base index =>
    exact .node (r (h.left.right.child hI 0)) (.own (fun _ => rfl)
      (.node (r (h.right.child hI 1)) (.own (fun _ => rfl) .nil)))
  | arrayCreation elementType levels initial =>
    have htype := hP.typeDoc (r (h.left.left.right.child hI 0)).script
    have hinitial := (r (h.right.child hI 2)).content?
    cases initial with
    | present values =>
      exact .own (fun _ => rfl)
        (.append (.listing (hinitial _ rfl).inSequence) (.own (fun _ => rfl) .nil))
    | absent => exact Reads.sizedArray htype (r (h.left.right.child hI 1)).inSequence
  | arrayInitializer values =>
    exact .own (fun _ => rfl) (.append (.listing (r (h.right.child hI 0)).inSequence)
      (.own (fun _ => rfl) .nil))
  | assign target op value =>
    exact .node (r (h.left.right.child hI 0)) (.own (hP.assigned op)
      (.node (r (h.right.child hI 1)) .nil))
  | binary left op right =>
    exact .node (r (h.left.right.child hI 0)) (.own (hP.related op)
      (.node (r (h.right.child hI 1)) .nil))
  | unary op expr =>
    have hexpr := r (h.right.child hI 0)
    have hsymbol := Doc.isQuiet_calm op.symbol_isCalm
    exact .ite (.node hexpr (.own hsymbol .nil)) (.own hsymbol (.node hexpr .nil))
  | cast type expr =>
    have htype := hP.between (s := "<") (t := ">") rfl rfl
      (hP.typeDoc (r (h.left.right.child hI 0)).script)
    have hexpr := r (h.right.child hI 1)
    exact .ite (.own (fun _ => rfl) (.node hexpr (.own (fun _ => rfl) .nil)))
      (.own htype (.node hexpr .nil))
  | conditional condition thenExpr elseExpr =>
    exact .node (r (h.left.left.right.child hI 0)) (.own (fun _ => rfl)
      (.node (r (h.left.right.child hI 1)) (.own (fun _ => rfl)
        (.node (r (h.right.child hI 2)) .nil))))
  | enclosed inner =>
    exact .own (fun _ => rfl) (.node (r (h.right.child hI 0)) (.own (fun _ => rfl) .nil))
  | instanceOf expr type =>
    have htype := hP.typeDoc (r (h.right.child hI 1)).script
    have hword : (Doc.text " " ++ Doc.text "instanceof" ++ Doc.text " ").IsQuiet := fun _ => rfl
    exact .node (r (h.left.right.child hI 0)) (.own (hword.append htype) .nil)
  | methodCall receiver typeArguments name arguments =>
    have hname := hP.identifier (h.names name List.mem_cons_self)
    have htypes := hP.angled (hP.typeDocs (r (h.left.right.child hI 1)).script)
    exact .append (.scope (r (h.left.left.right.child hI 0)).content?)
      (.own (hname.append htypes) (.parenthesized (r (h.right.child hI 2)).inSequence))
  | objectCreation receiver type typeArguments arguments anonymousBody =>
    have htype := (r (h.left.left.left.right.child hI 1)).script
    have harguments := r (h.left.right.child hI 2)
    have hbody := (r ((h.right.enterAnonymous hI hP.letter
      (cx.createsStatic receiver)).child hI 3)).content?
    cases anonymousBody with
    | absent =>
      have hnew : (Doc.text "new ").IsQuiet := fun _ => rfl
      exact .append (.scope (r (h.left.left.left.left.right.child hI 0)).content?)
        (.own (hnew.append htype) (.parenthesized harguments.inSequence))
    | present body =>
      have hclass := Reads.anonymousClass htype harguments (hbody _ rfl).inSequence
      have hmarker : (if receiver.toOption.isSome then Doc.unsupported (.qualifiedAnonymousClass
          (ClassType.name type)) else []).IsQuiet := by
        split <;> exact fun _ => rfl
      exact .own hmarker (.ite hclass (Reads.closure (hP.bare cx.over_captureName) (.inl rfl) hclass))
  | lambda parameters isEnclosed body =>
    have hparameters := (r (h.left.right.child hI 0)).script
    have harrow : (Doc.text " => ").IsQuiet := fun _ => rfl
    refine .own (Doc.IsQuiet.append ?_ harrow) (.node (r (h.right.child hI 1)) .nil)
    split
    · exact hP.parenthesized hparameters
    · exact hP.listing hparameters
  | methodReference scope typeArguments identifier =>
    have hidentifier := hP.identifier (h.names identifier List.mem_cons_self)
    exact .own (fun _ => rfl) (.node (r (h.left.right.child hI 0)) (.own (fun _ => rfl)
      (.own hidentifier .nil)))
  | variableDeclaration decl => exact .node (r (h.right.child hI 0)) .nil
  | _ => exact .own hn.code .nil

namespace Stretch

/-- What is open further out does not matter. -/
theorem scan_append_right {ps : List Stretch} {st st' : List Opened} (h : scan ps st = some st')
    (rest : List Opened) : scan ps (st ++ rest) = some (st' ++ rest) := by
  induction ps generalizing st with
  | nil =>
    cases h
    rfl
  | cons p ps ih =>
    cases p with
    | closes s x =>
      rw [scan] at h
      split at h
      · next hhead =>
        obtain ⟨st, rfl⟩ := List.head?_eq_some_iff.mp hhead
        exact (if_pos rfl).trans (ih h)
      · cases h
    | opens s x => exact @ih (x :: st) h
    | _ => exact ih h

/-- Before a node that is one step below, what the step opens is opened; after it, it is closed. -/
theorem Each.at_node {Q : List Opened → {c : Category} → Node c → Context → Prop}
    {before after : List Stretch} {c : Category} {n : Node c} {cx : Context}
    (h : Each Q (before ++ .node n cx :: after)) :
    ∃ ops, Q ops n cx ∧
      ∀ st, scan before st = some (ops ++ st) ∧ scan after (ops ++ st) = some st := by
  have hbefore (st : List Opened) :
      ∃ st', scan before st = some st' ∧ scan after st' = some st := by
    have hscan := (h st).1
    rw [scan_append] at hscan
    exact Option.bind_eq_some_iff.mp hscan
  obtain ⟨ops, hops, -⟩ := hbefore []
  obtain ⟨ops', hopened, hQ⟩ := (h []).2 _ (mem_located hops)
  obtain rfl : ops = ops' := by simpa using hopened
  refine ⟨ops, hQ, ?_⟩
  intro st
  have hopen : scan before st = some (ops ++ st) := scan_append_right hops st
  obtain ⟨st', hst', hafter⟩ := hbefore st
  obtain rfl : ops ++ st = st' := Option.some_inj.mp (hopen.symm.trans hst')
  exact ⟨hopen, hafter⟩

end Stretch

/-- Reading up to a node below opens what the step to it opens, and reading on closes it. -/
theorem Readable.step {c c' : Category} {n : Node c} {m : Node c'} {cx cx' : Context}
    {before after : List Stretch} (h : Readable @barred n cx)
    (hplace : n.stretches cx = before ++ .node m cx' :: after) :
    Readable @barred m cx' ∧ ∃ ops, Step n cx ops m cx' ∧
      ∀ st, read (docs before) ⟨st, .code⟩ = some ⟨ops ++ st, .code⟩ ∧
        read (docs after) ⟨ops ++ st, .code⟩ = some ⟨st, .code⟩ := by
  have hread := Node.stretches_read h
  have hstep := n.stretches_step cx
  rw [hplace] at hread hstep
  obtain ⟨hbefore, hrest⟩ := List.forall_mem_append.mp hread
  obtain ⟨hm, hafter⟩ := List.forall_mem_cons.mp hrest
  obtain ⟨ops, hops, hscan⟩ := hstep.at_node
  refine ⟨hm, ops, hops, ?_⟩
  intro st
  exact ⟨Reads.read_docs hbefore (hscan st).1, Reads.read_docs hafter (hscan st).2⟩

/-- Steps one after the other, with what is open after them. -/
inductive Steps (test : {c : Category} → Node c → Bool) : {c c' : Category} → Node c → Context →
    List Opened → Node c' → Context → List Opened → Prop where
  | refl {c : Category} (n : Node c) (cx : Context) (st : List Opened) :
      Steps @test n cx st n cx st
  | next {c c' c'' : Category} {n : Node c} {m : Node c'} {k : Node c''} {cx cx' cx'' : Context}
      {ops st st' : List Opened} (hstep : Step n cx ops m cx') (htest : test m = true)
      (hrest : Steps @test m cx' (ops ++ st) k cx'' st') : Steps @test n cx st k cx'' st'

/-- A way can be read: before the node that it leads to, its steps have opened what is open. -/
theorem Reaches.steps {test : {c : Category} → Node c → Bool} {c c' : Category} {n : Node c}
    {m : Node c'} {cx cx' : Context} {a b : Doc} (h : Reaches @test n cx m cx' a b)
    (hn : Readable @barred n cx) (st : List Opened) :
    Readable @barred m cx' ∧ ∃ st', Steps @test n cx st m cx' st' ∧
      read a ⟨st, .code⟩ = some ⟨st', .code⟩ ∧ read b ⟨st', .code⟩ = some ⟨st, .code⟩ := by
  induction h generalizing st with
  | refl n cx => exact ⟨hn, st, .refl n cx st, rfl, rfl⟩
  | next hplace htest hrest ih =>
    obtain ⟨hm, ops, hstep, hread⟩ := hn.step hplace
    obtain ⟨hk, st', hsteps, ha, hb⟩ := ih hm (ops ++ st)
    refine ⟨hk, st', .next hstep htest hsteps, ?_, ?_⟩
    · rw [read_append, (hread st).1]
      exact ha
    · rw [read_append, hb]
      exact (hread st).2

/-- A way through a node without barred nodes enters none. -/
theorem Reaches.unbarred {test : {c : Category} → Node c → Bool} {c c' : Category} {n : Node c}
    {m : Node c'} {cx cx' : Context} {a b : Doc} (h : Reaches @test n cx m cx' a b)
    (hn : Readable @barred n cx) : Reaches (fun n => !barred n) n cx m cx' a b := by
  induction h with
  | refl n cx => exact .refl n cx
  | @next _ _ _ _ m _ _ _ _ _ _ _ _ hplace htest hrest ih =>
    have hm := (hn.step hplace).1
    have htest' : barred m = false := Node.eq_false_of_lacks hm.lacks
    exact .next hplace (by rw [htest']; rfl) (ih hm)

/-- What every step preserves holds after all of them. -/
theorem Steps.invariant {test : {c : Category} → Node c → Bool}
    {I : {c : Category} → Node c → Context → List Opened → Prop}
    (hI : ∀ {c c' : Category} {n : Node c} {m : Node c'} {cx cx' : Context}
      {ops st : List Opened}, Step n cx ops m cx' → test m = true → I n cx st → I m cx' (ops ++ st))
    {c c' : Category} {n : Node c} {m : Node c'} {cx cx' : Context} {st st' : List Opened}
    (h : Steps @test n cx st m cx' st') (hn : I n cx st) : I m cx' st' := by
  induction h with
  | refl => exact hn
  | next hstep htest hrest ih => exact ih (hI hstep htest hn)

end TypeScribe
