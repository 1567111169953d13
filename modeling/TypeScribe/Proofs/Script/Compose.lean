import TypeScribe.Proofs.Text.Brackets
import TypeScribe.Script.Unit

/-!
# Properties of documents that compose

A script is put together from texts, comments, markers and layout steps. A property of documents
composes if it holds of those and passes to documents in order, to an indented document and to
documents between texts that close what they open. Then every way of putting scripts together passes
it on. Only an annotation and a declaration that is out of place or moved need more.

What ends with a semicolon may have less than what stands inside an expression, so there are three
properties: one of expressions, one of statements and one of members. A property that makes no such
difference is uniform. Names are texts over an alphabet, and a spelling says what else a tree may
hold: the weakest one asks nothing of the texts, the one without brackets makes them keep out of the
nesting.
-/
namespace TypeScribe
set_option autoImplicit false
open Text

/-- The name that the reason for a construct gives. -/
def Construct.name? : Construct → Option String
  | .wildcardImport name => some name
  | .localType name => some name
  | .qualifiedSuper name => some name
  | .qualifiedAnonymousClass name => some name
  | _ => none

/-- What the texts of a tree may be. -/
structure Spelling where
  /-- The characters of names and numbers. -/
  letters : Char → Bool
  /-- What may stand between quotes of the kind. -/
  quotable : (quote value : String) → Bool
  /-- What may stand in a comment. -/
  remark : String → Bool
  /-- The annotations that may be used. -/
  usable : AnnotationUse → Bool

/-- Every text is over one alphabet. -/
def Spelling.over (letters : Char → Bool) : Spelling where
  letters := letters
  quotable _ s := decide (Over letters s)
  remark s := decide (Over letters s)
  usable _ := true

-- Fixed texts

/-- Whether the character is one that names have, or the dot between them. -/
def isNameChar (c : Char) : Bool := c.isAlphanum || c == '_' || c == '$' || c == '.'

/-- Whether the character is a sign for a reader of code, other than a bracket. -/
def isSign (c : Char) : Bool := c == '"' || c == '\'' || c == '/' || c == ';'

/-- Whether the word closes the brackets that it opens and has no signs. -/
def isCalm (cs : List Char) : Bool :=
  match openAfter cs [] with
  | some [] => !cs.any isSign
  | _ => false

/-- Whether the one word opens a bracket that the other one closes, and they have no others. -/
def isPair (cs ds : List Char) : Bool :=
  match openAfter cs [] with
  | some [b] =>
    openAfter ds [b] == some [] && cs.countP isBracket == 1 && ds.countP isBracket == 1
  | _ => false

/-- Whether the words are a pair and have no signs. -/
def isCalmPair (cs ds : List Char) : Bool := isPair cs ds && !cs.any isSign && !ds.any isSign

theorem isNested_of_isCalm {cs : List Char} (h : isCalm cs = true) : IsNested cs := by
  unfold isCalm at h
  split at h
  · assumption
  · cases h

theorem isPair_iff {cs ds : List Char} :
    isPair cs ds = true ↔ ∃ b, openAfter cs [] = some [b] ∧ openAfter ds [b] = some [] ∧
      cs.countP isBracket = 1 ∧ ds.countP isBracket = 1 := by
  unfold isPair
  split
  · next b h => simp [h, and_assoc]
  · next h =>
    constructor
    · intro hfalse
      cases hfalse
    · rintro ⟨b, hb, -⟩
      exact absurd hb (h b)

theorem isPair_of_isCalmPair {cs ds : List Char} (h : isCalmPair cs ds = true) :
    isPair cs ds = true := by
  rw [isCalmPair, Bool.and_eq_true, Bool.and_eq_true] at h
  exact h.1.1

/-- The property `P` passes to every expression that is put together from documents that have it,
`Q` to every statement and `R` to every member. -/
structure Composes (sp : Spelling) (P Q R : Doc → Prop) : Prop where
  letter : ∀ c, isNameChar c = true → sp.letters c = true
  nil : P []
  append : ∀ {d e : Doc}, P d → P e → P (d ++ e)
  literal : ∀ {s : String}, isCalm s.toList = true → P (Doc.text s)
  word : ∀ {s : String}, Over sp.letters s → P (Doc.text s)
  assigned : ∀ op : AssignOp, P (Doc.text " " ++ Doc.text op.symbol ++ Doc.text " ")
  related : ∀ op : BinaryOp, P (Doc.text " " ++ Doc.text op.scriptSymbol ++ Doc.text " ")
  quoted : ∀ {q v : String}, q = "'" ∨ q = "\"" → sp.quotable q v = true →
    P (Doc.between q q (Doc.text v))
  newline : P Doc.newline
  comment : ∀ {c : Comment}, sp.remark c.content = true → P [.comment c]
  unsupported : ∀ {c : Construct}, (∀ s ∈ c.name?, Over sp.letters s) → P (Doc.unsupported c)
  /-- A bracket keeps what it encloses apart from what stands around it. -/
  enclosed : ∀ {a t : String} {d : Doc}, isCalmPair a.toList t.toList = true → Q d →
    P (Doc.between a t d)
  applied : ∀ {s : String} {d : Doc}, Over sp.letters s → P d →
    P (Doc.between ("((" ++ s ++ ") => ") ")(this)" d)
  switched : ∀ {d e : Doc}, P d → Q e →
    P (Doc.text "switch(" ++ d ++ Doc.text ") \x7b" ++ e ++ Doc.text "\x7d")
  solid : ∀ {d : Doc}, P d → Q d
  join : ∀ {d e : Doc}, Q d → Q e → Q (d ++ e)
  indented : ∀ {d : Doc}, Q d → Q (Doc.indented d)
  stop : ∀ {s : String}, s = ";" ∨ s = "; " ∨ s = "???;" → Q (Doc.text s)
  repeated : ∀ {d : Doc}, P d → Q (Doc.between " while (" ");" d)
  appliedLast : ∀ {s : String} {d : Doc}, Over sp.letters s → P d →
    Q (Doc.between ("((" ++ s ++ ") => ") ")(this);" d)
  named : ∀ {s : String}, Over sp.letters s → P (Doc.text ("const " ++ s ++ " = "))
  member : ∀ {d : Doc}, Q d → R d
  placed : ∀ {d : Doc}, R d → Q (Doc.newline ++ d ++ Doc.newline)
  placeholder : ∀ {d : Doc} {s : String}, P d → Over sp.letters s →
    R (d ++ Doc.text (Script.placeholder s))

section

variable {letters : Char → Bool}

theorem over_of_all (hletters : ∀ c, isNameChar c = true → letters c = true) {s : String}
    (h : Over isNameChar s) : Over letters s :=
  over_iff.mpr fun c hc => hletters c (over_iff.mp h c hc)

theorem over_escapeIdentifier (hletters : ∀ c, isNameChar c = true → letters c = true)
    {name : String} (h : Over letters name) : Over letters (escapeIdentifier name) := by
  unfold escapeIdentifier
  split
  · exact over_append.mpr ⟨over_of_all hletters (by decide), h⟩
  · exact h

theorem over_dropSuffix (isSuffix : Char → Bool) {s : String} (h : Over letters s) :
    Over letters (dropSuffix isSuffix s) := by
  unfold dropSuffix
  split
  · split
    · rw [over_ofList]
      intro c hc
      exact over_iff.mp h c (List.dropLast_subset _ hc)
    · exact h
  · exact h

theorem Script.closure_eq (enclosing : String) (d : Doc) :
    Script.closure enclosing d =
      Doc.between ("((" ++ (enclosing ++ "_this") ++ ") => ") ")(this);" d := by
  have htext : "((" ++ enclosing ++ "_this) => " = "((" ++ (enclosing ++ "_this") ++ ") => " := by
    simp [String.append_assoc]
  rw [Script.closure, htext]

theorem isCalm_append {cs ds : List Char} (hcs : isCalm cs = true) (hds : isCalm ds = true) :
    isCalm (cs ++ ds) = true := by
  have hnested : openAfter (cs ++ ds) [] = some [] := by
    rw [openAfter_append, isNested_of_isCalm hcs]
    exact isNested_of_isCalm hds
  have hsigns {cs : List Char} (h : isCalm cs = true) : cs.any isSign = false := by
    unfold isCalm at h
    split at h
    · simpa using h
    · cases h
  simp [isCalm, hnested, hsigns hcs, hsigns hds]

theorem isCalm_joinWith {s : String} {texts : List String} (hs : isCalm s.toList = true)
    (h : ∀ t ∈ texts, isCalm t.toList = true) : isCalm (joinWith s texts).toList = true := by
  induction texts with
  | nil => rfl
  | cons t rest ih =>
    obtain ⟨ht, hrest⟩ := List.forall_mem_cons.mp h
    cases rest with
    | nil => exact ht
    | cons u rest =>
      rw [joinWith, String.toList_append, String.toList_append]
      exact isCalm_append (isCalm_append ht hs) (ih hrest)

theorem ModifierProjection.lead_isCalm (p : ModifierProjection) : isCalm p.lead.toList = true := by
  unfold lead
  split
  · rfl
  · rw [String.toList_append]
    refine isCalm_append (isCalm_joinWith rfl ?_) rfl
    intro t ht
    obtain ⟨m, -, rfl⟩ := List.mem_map.mp ht
    cases m <;> rfl

theorem UnaryOp.symbol_isCalm (op : UnaryOp) : isCalm op.symbol.toList = true := by
  cases op <;> rfl

theorem Primitive.scriptName_isCalm (p : Primitive) : isCalm p.scriptName.toList = true := by
  cases p <;> rfl

theorem builtinUnder?_isCalm {scope : List String} {name builtin : String}
    (h : builtinUnder? scope name = some builtin) : isCalm builtin.toList = true := by
  unfold builtinUnder? at h
  split at h
  · unfold builtinType? at h
    split at h <;> cases h <;> rfl
  · cases h

end

namespace Composes

variable {sp : Spelling} {P Q R : Doc → Prop} (hP : Composes sp P Q R) {d e : Doc} {ds : List Doc}

include hP

theorem bare {s : String} (h : Over isNameChar s) : Over sp.letters s := over_of_all hP.letter h

theorem identifier {name : String} (h : Over sp.letters name) :
    P (Doc.text (escapeIdentifier name)) :=
  hP.word (over_escapeIdentifier hP.letter h)

theorem between {s t : String} (hs : isCalm s.toList = true) (ht : isCalm t.toList = true)
    (hd : P d) : P (Doc.between s t d) :=
  hP.append (hP.append (hP.literal hs) hd) (hP.literal ht)

theorem brackets {s t : String} (h : isCalmPair s.toList t.toList = true) (hd : P d) :
    P (Doc.between s t d) :=
  hP.enclosed h (hP.solid hd)

theorem line {s : String} (h : P (Doc.text s)) : P (Doc.line s) := hP.append h hP.newline

theorem flatMap {α : Type} {as : List α} {f : α → Doc} (h : ∀ a ∈ as, P (f a)) :
    P (as.flatMap f) := by
  induction as with
  | nil => exact hP.nil
  | cons a rest ih =>
    obtain ⟨ha, hrest⟩ := List.forall_mem_cons.mp h
    exact hP.append ha (ih hrest)

theorem joined {α : Type} {as : List α} {f : α → Doc} (h : ∀ a ∈ as, Q (f a)) :
    Q (as.flatMap f) := by
  induction as with
  | nil => exact hP.solid hP.nil
  | cons a rest ih =>
    obtain ⟨ha, hrest⟩ := List.forall_mem_cons.mp h
    exact hP.join ha (ih hrest)

theorem concat (h : ∀ d ∈ ds, P d) : P (Doc.concat ds) := by
  have hdocs := hP.flatMap (f := id) h
  rwa [List.flatMap_id] at hdocs

theorem getD {d : Option Doc} (h : ∀ e ∈ d, P e) : P (d.getD []) := by
  cases d with
  | none => exact hP.nil
  | some e => exact h e rfl

theorem commentDoc {c : Option Comment} (h : ∀ b ∈ c, sp.remark b.content = true) :
    P (Doc.comment c) := by
  cases c with
  | none => exact hP.nil
  | some c => exact hP.comment (h c rfl)

theorem comments {cs : List Comment} (h : ∀ c ∈ cs, sp.remark c.content = true) :
    P (Doc.comments cs) := by
  induction cs with
  | nil => exact hP.nil
  | cons c rest ih =>
    obtain ⟨hc, hrest⟩ := List.forall_mem_cons.mp h
    exact hP.append (hP.comment hc) (ih hrest)

theorem separated {s : String} (hs : P (Doc.text s)) (h : ∀ d ∈ ds, P d) :
    P (Doc.separated s ds) := by
  induction ds with
  | nil => exact hP.nil
  | cons d rest ih =>
    obtain ⟨hd, hrest⟩ := List.forall_mem_cons.mp h
    cases rest with
    | nil => exact hd
    | cons e rest => exact hP.append (hP.append hd hs) (ih hrest)

theorem listing (h : ∀ d ∈ ds, P d) : P (Doc.separated ", " ds) := hP.separated (hP.literal rfl) h

/-- What ends with a semicolon is a statement. -/
theorem ended (h : P d) : Q (d ++ Doc.text ";") := hP.join (hP.solid h) (hP.stop (.inl rfl))

/-- A body in braces: the brace ends its line and the body is indented. -/
theorem braces (h : Q d) : P (Doc.line " \x7b" ++ Doc.indented d ++ Doc.text "\x7d") := by
  have hbody : Q (Doc.newline ++ Doc.indented d) := hP.join (hP.solid hP.newline) (hP.indented h)
  exact hP.enclosed rfl hbody

-- Annotations, modifiers and types

theorem element {name : String} (hname : Over sp.letters name) (h : P d) :
    P (Script.element name d) :=
  hP.append (hP.append (hP.word hname) (hP.literal rfl)) h

theorem annotationLines (h : ∀ d ∈ ds, P d) : P (Script.annotationLines ds) :=
  hP.flatMap fun d hd => hP.append (h d hd) hP.newline

theorem inlineAnnotations (h : ∀ d ∈ ds, P d) : P (Script.inlineAnnotations ds) :=
  hP.flatMap fun d hd => hP.append (h d hd) (hP.literal rfl)

theorem levelAnnotations (h : ∀ d ∈ ds, P d) : P (Script.levelAnnotations ds) :=
  hP.flatMap fun d hd => hP.append (hP.append (hP.literal rfl) (h d hd)) (hP.literal rfl)

theorem modifiers (s : ModifierSet) : P (Script.modifiers s) := by
  refine hP.append ?_ (hP.literal s.project.lead_isCalm)
  split
  · exact hP.nil
  · exact hP.append (hP.unsupported fun _ h => nomatch h) (hP.literal rfl)

theorem angled (h : ∀ d ∈ ds, P d) : P (Script.angled ds) := by
  unfold Script.angled
  split
  · exact hP.nil
  · exact hP.between rfl rfl (hP.listing h)

theorem parenthesized (h : ∀ d ∈ ds, P d) : P (Script.parenthesized ds) :=
  hP.brackets rfl (hP.listing h)

theorem level (h : ∀ d ∈ ds, P d) : P (Script.level ds) :=
  hP.append (hP.levelAnnotations h) (hP.literal rfl)

end Composes

/-- Both parts of the type have the property. -/
def TypeShape.All (P : Doc → Prop) (t : TypeShape) : Prop := P t.element ∧ P t.levels

namespace Composes

variable {sp : Spelling} {P Q R : Doc → Prop} (hP : Composes sp P Q R) {d e : Doc} {ds : List Doc}
  {t : TypeShape}

include hP

theorem typeDoc (h : t.All P) : P t.doc := hP.append h.1 h.2

theorem typeDocs {ts : List TypeShape} (h : ∀ t ∈ ts, t.All P) :
    ∀ d ∈ ts.map TypeShape.doc, P d := by
  intro d hd
  obtain ⟨t, ht, rfl⟩ := List.mem_map.mp hd
  exact hP.typeDoc (h t ht)

theorem plainType (h : P d) : (Script.plainType d).All P := ⟨h, hP.nil⟩

theorem knownType (type : TypeUse) (ht : t.All P) : ∀ d ∈ knownType type t, P d := by
  intro d hd
  unfold TypeScribe.knownType at hd
  split at hd
  · cases hd
  · cases hd
    exact hP.typeDoc ht

theorem arrayType (ht : t.All P) (h : ∀ d ∈ ds, P d) : (Script.arrayType t ds).All P :=
  ⟨ht.1, hP.append (hP.level h) ht.2⟩

theorem boundOrAny {lower upper : Option TypeShape} (hl : ∀ t ∈ lower, t.All P)
    (hu : ∀ t ∈ upper, t.All P) : P (Script.boundOrAny lower upper) := by
  unfold Script.boundOrAny
  split
  · next bound h =>
    rcases Option.or_eq_some_iff.mp h with h | ⟨-, h⟩
    · exact hP.typeDoc (hl bound h)
    · exact hP.typeDoc (hu bound h)
  · exact hP.literal rfl

theorem classType {cx : Context} (segments : List String) {name : String} {scope : Option Doc}
    {arguments : Option (List TypeShape)} (hname : Over sp.letters name)
    (hcx : Over sp.letters (cx.typeName name)) (hs : ∀ d ∈ scope, P d)
    (ha : ∀ ts ∈ arguments, ∀ t ∈ ts, t.All P) (h : ∀ d ∈ ds, P d) :
    P (Script.classType cx segments scope name arguments ds) := by
  have harguments : P (Script.angled ((arguments.getD []).map TypeShape.doc)) := by
    apply hP.angled
    apply hP.typeDocs
    cases arguments with
    | none => simp
    | some ts => exact ha ts rfl
  unfold Script.classType
  split
  · next builtin hbuiltin => exact hP.literal (builtinUnder?_isCalm hbuiltin)
  · refine hP.append ?_ harguments
    cases scope with
    | none => exact hP.append (hP.inlineAnnotations h) (hP.word hcx)
    | some d =>
      exact hP.append (hP.append (hP.append (hs d rfl) (hP.literal rfl)) (hP.inlineAnnotations h))
        (hP.word hname)

theorem typeParameter {name : String} (hname : Over sp.letters name) {bounds : List Doc}
    (hb : ∀ d ∈ bounds, P d) (h : ∀ d ∈ ds, P d) : P (Script.typeParameter name bounds ds) := by
  refine hP.append (hP.append (hP.inlineAnnotations h) (hP.word hname)) ?_
  split
  · exact hP.nil
  · exact hP.append (hP.literal rfl) (hP.separated (hP.literal rfl) hb)

theorem typed {type : Option Doc} (ht : ∀ d ∈ type, P d) : P (Script.typed type) := by
  cases type with
  | none => exact hP.nil
  | some d => exact hP.append (hP.literal rfl) (ht d rfl)

theorem parameter {name : String} (hname : Over sp.letters name) {type : Option Doc}
    (ht : ∀ d ∈ type, P d) (mods : ModifierSet) (h : ∀ d ∈ ds, P d) (isVarArgs : Bool)
    {es : List Doc} (he : ∀ d ∈ es, P d) :
    P (Script.parameter name type mods ds isVarArgs es) := by
  have hdots : P (Script.inlineAnnotations es ++ Doc.text "...") :=
    hP.append (hP.inlineAnnotations he) (hP.literal rfl)
  refine hP.append (hP.append (hP.append (hP.append (hP.append (hP.inlineAnnotations h)
    (hP.modifiers mods)) ?_) (hP.identifier hname)) (hP.typed ht)) ?_
  · split
    · exact hdots
    · exact hP.nil
  · split
    · exact hP.literal rfl
    · exact hP.nil

-- Expressions

theorem underScope {scope : Option Doc} (hs : ∀ d ∈ scope, P d) (h : P d) :
    P (Script.underScope scope d) := by
  cases scope with
  | none => exact h
  | some s => exact hP.append (hP.append (hs s rfl) (hP.literal rfl)) h

theorem arrayAccess (hd : P d) (he : P e) : P (Script.arrayAccess d e) := by
  have hindex : P (Doc.between "[" "]" e) := hP.brackets rfl he
  simpa [Script.arrayAccess, Doc.between] using hP.append hd hindex

theorem infixed {symbol : String} (hs : P (Doc.text " " ++ Doc.text symbol ++ Doc.text " "))
    (hd : P d) (he : P e) : P (Script.infixed d symbol e) := by
  simpa [Script.infixed] using hP.append (hP.append hd hs) he

theorem unary (op : UnaryOp) (h : P d) : P (Script.unary op d) := by
  have hsymbol : P (Doc.text op.symbol) := hP.literal op.symbol_isCalm
  unfold Script.unary
  split
  · exact hP.append h hsymbol
  · exact hP.append hsymbol h

theorem cast (isIntegral : Bool) (hd : P d) (he : P e) : P (Script.cast isIntegral d e) := by
  unfold Script.cast
  split
  · exact hP.brackets rfl he
  · exact hP.append (hP.between rfl rfl hd) he

theorem arrayLiteral (h : ∀ d ∈ ds, P d) : P (Script.arrayLiteral ds) :=
  hP.brackets rfl (hP.listing h)

theorem sizedArray {sizes : List (Option Doc)} (hd : P d)
    (h : ∀ size ∈ sizes, ∀ e ∈ size, P e) : P (Script.sizedArray d sizes) := by
  have hhead : P ((sizes.head?.getD none).getD []) := by
    cases sizes with
    | nil => exact hP.nil
    | cons size rest => exact hP.getD (h size List.mem_cons_self)
  have htail : P (Doc.concat (sizes.tail.map fun _ => Doc.text "[]")) := by
    apply hP.concat
    intro e he
    obtain ⟨-, -, rfl⟩ := List.mem_map.mp he
    exact hP.literal rfl
  have hsize : P (Doc.between ">(" ")" ((sizes.head?.getD none).getD [])) := hP.brackets rfl hhead
  simpa [Script.sizedArray, Doc.between] using
    hP.append (hP.append (hP.append (hP.literal (s := "new Array<") rfl) hd) htail) hsize

theorem arrayCreation {sizes : List (Option Doc)} {values : Option (List Doc)} (hd : P d)
    (h : ∀ size ∈ sizes, ∀ e ∈ size, P e) (hv : ∀ es ∈ values, ∀ e ∈ es, P e) :
    P (Script.arrayCreation d sizes values) := by
  cases values with
  | none => exact hP.sizedArray hd h
  | some es => exact hP.arrayLiteral (hv es rfl)

theorem conditional {f : Doc} (hd : P d) (he : P e) (hf : P f) : P (Script.conditional d e f) :=
  hP.append (hP.append (hP.append (hP.append hd (hP.literal rfl)) he) (hP.literal rfl)) hf

theorem methodCall {scope : Option Doc} {ts : List TypeShape} {name : String}
    (hname : Over sp.letters name) (hs : ∀ d ∈ scope, P d) (ht : ∀ t ∈ ts, t.All P)
    (h : ∀ d ∈ ds, P d) : P (Script.methodCall scope ts name ds) :=
  hP.append (hP.append (hP.underScope hs (hP.identifier hname)) (hP.angled (hP.typeDocs ht)))
    (hP.parenthesized h)

theorem superDoc {qualifier : Option String} (h : ∀ s ∈ qualifier, Over sp.letters s) :
    P (Script.superDoc qualifier) := by
  cases qualifier with
  | none => exact hP.literal rfl
  | some name => exact hP.append (hP.unsupported h) (hP.literal rfl)

theorem members {ms : List MemberShape} (h : ∀ m ∈ ms, R m.doc) : Q (Script.members ms) :=
  hP.joined fun m hm => hP.placed (h m hm)

theorem anonymousClass {cx : Context} (type : ClassType) {ms : List MemberShape} (isStatic : Bool)
    (hcx : Over sp.letters cx.captureName) (hd : P d) (h : ∀ d ∈ ds, P d)
    (hm : ∀ m ∈ ms, R m.doc) : P (Script.anonymousClass cx type d ds ms isStatic) := by
  have hword : P (Doc.text
      (if cx.isInterface type then "new class implements " else "new class extends ")) := by
    split <;> exact hP.literal rfl
  have hclass := hP.append (hP.append (hP.append hword hd) (hP.braces (hP.members hm)))
    (hP.parenthesized h)
  cases isStatic with
  | true => simpa [Script.anonymousClass, Context.outerThis] using hclass
  | false =>
    simpa [Script.anonymousClass, Context.outerThis, Doc.between] using hP.applied hcx hclass

theorem objectCreation {cx : Context} {type : ClassType} {scope : Option Doc}
    {body : Option (List MemberShape)} (isStatic : Bool) (hcx : Over sp.letters cx.captureName)
    (hname : Over sp.letters type.name) (hs : ∀ d ∈ scope, P d) (hd : P d) (h : ∀ d ∈ ds, P d)
    (hm : ∀ ms ∈ body, ∀ m ∈ ms, R m.doc) :
    P (Script.objectCreation cx scope type d ds body isStatic) := by
  cases body with
  | none =>
    exact hP.underScope hs (hP.append (hP.append (hP.literal rfl) hd) (hP.parenthesized h))
  | some ms =>
    refine hP.append ?_ (hP.anonymousClass type isStatic hcx hd h (hm ms rfl))
    split
    · refine hP.unsupported ?_
      rintro s ⟨⟩
      exact hname
    · exact hP.nil

theorem lambda (isEnclosed : Bool) (h : ∀ d ∈ ds, P d) (hd : P d) :
    P (Script.lambda ds isEnclosed d) := by
  refine hP.append (hP.append ?_ (hP.literal rfl)) hd
  split
  · exact hP.parenthesized h
  · exact hP.listing h

theorem initialValue {value : Option Doc} (h : ∀ d ∈ value, P d) :
    P (Script.initialValue value) := by
  cases value with
  | none => exact hP.nil
  | some d => exact hP.append (hP.literal rfl) (h d rfl)

end Composes

/-- The name of the declarator is over the alphabet, and its documents have the property. -/
structure DeclaratorShape.All (letters : Char → Bool) (P : Doc → Prop) (d : DeclaratorShape) :
    Prop where
  name : Over letters d.name
  dimensions : P d.dimensions
  initializer : P d.initializer

namespace Composes

variable {sp : Spelling} {P Q R : Doc → Prop} (hP : Composes sp P Q R) {d e : Doc} {ds : List Doc}

include hP

theorem declarator {base : Option Doc} {v : DeclaratorShape} (hb : ∀ d ∈ base, P d)
    (hv : v.All sp.letters P) : P (Script.declarator base v) := by
  refine hP.append (hP.append (hP.identifier hv.name) ?_) hv.initializer
  cases base with
  | none => exact hP.nil
  | some type => exact hP.append (hP.append (hP.literal rfl) (hb type rfl)) hv.dimensions

theorem declarators {base : Option Doc} {vs : List DeclaratorShape} (hb : ∀ d ∈ base, P d)
    (hv : ∀ v ∈ vs, v.All sp.letters P) : P (Script.declarators base vs) := by
  refine hP.listing ?_
  intro d hd
  obtain ⟨v, hmem, rfl⟩ := List.mem_map.mp hd
  exact hP.declarator hb (hv v hmem)

theorem declarationWord (mods : ModifierSet) : P (Doc.text (Script.declarationWord mods)) := by
  unfold Script.declarationWord
  split <;> exact hP.literal rfl

theorem variableGroup (mods : ModifierSet) {base : Option Doc} {vs : List DeclaratorShape}
    (h : ∀ d ∈ ds, P d) (hb : ∀ d ∈ base, P d) (hv : ∀ v ∈ vs, v.All sp.letters P) :
    P (Script.variableGroup mods ds base vs) :=
  hP.append (hP.append (hP.append (hP.inlineAnnotations h) (hP.modifiers mods))
    (hP.declarationWord mods)) (hP.declarators hb hv)

-- Statements

theorem stmtLine {s : StmtShape} (h : Q s.doc) : Q (Script.stmtLine s) := by
  unfold Script.stmtLine
  split
  · exact h
  · exact hP.join h (hP.solid hP.newline)

theorem stmtLines {ss : List StmtShape} (h : ∀ s ∈ ss, Q s.doc) : Q (Script.stmtLines ss) :=
  hP.joined fun s hs => hP.stmtLine (h s hs)

theorem block {ss : List StmtShape} {trailing : List Comment} (h : ∀ s ∈ ss, Q s.doc)
    (ht : ∀ c ∈ trailing, sp.remark c.content = true) : P (Script.block ss trailing) := by
  have hlines := hP.join (hP.stmtLines h) (hP.solid (hP.comments ht))
  have hbody := hP.join (hP.solid hP.newline) (hP.indented hlines)
  exact hP.enclosed (a := "\x7b") (t := "\x7d") rfl hbody

theorem jump (word : String) (hword : isCalm word.toList = true) {label : Option String}
    (h : ∀ s ∈ label, Over sp.letters s) : Q (Script.jump word label) := by
  cases label with
  | none => exact hP.ended (hP.literal hword)
  | some name =>
    exact hP.ended (hP.append (hP.append (hP.literal hword) (hP.literal rfl))
      (hP.word (h name rfl)))

theorem returnStmt {value : Option Doc} (h : ∀ d ∈ value, P d) : Q (Script.returnStmt value) := by
  cases value with
  | none => exact hP.ended (hP.literal rfl)
  | some d =>
    exact hP.ended (hP.append (hP.append (hP.literal rfl) (hP.literal rfl)) (h d rfl))

/-- The condition of a branch stands in parentheses that its consequent closes. -/
theorem branch {s : StmtShape} (hd : P d) (h : Q s.doc) :
    Q (Doc.text "if (" ++ d ++ Script.consequent s) := by
  unfold Script.consequent
  split
  · have hcondition := hP.solid (hP.brackets (s := "if (") (t := ") ") rfl hd)
    simpa [Doc.between] using hP.join hcondition h
  · have hcondition := hP.brackets (s := "if (") (t := ")") rfl hd
    simpa [Doc.between, Doc.line, Doc.text, Doc.newline] using
      hP.join (hP.solid (hP.append hcondition hP.newline)) (hP.indented h)

theorem alternative {s : StmtShape} (h : Q s.doc) : Q (Script.alternative s) := by
  unfold Script.alternative
  split
  · exact hP.join (hP.solid (hP.literal rfl)) h
  · exact hP.join (hP.solid (hP.line (hP.literal rfl))) (hP.indented h)

theorem ifStmt {thenStmt : StmtShape} {elseStmt : Option StmtShape} (hd : P d)
    (ht : Q thenStmt.doc) (he : ∀ s ∈ elseStmt, Q s.doc) :
    Q (Script.ifStmt d thenStmt elseStmt) := by
  refine hP.join (hP.branch hd ht) ?_
  cases elseStmt with
  | none => exact hP.solid hP.nil
  | some s =>
    refine hP.join (hP.solid ?_) (hP.alternative (he s rfl))
    split
    · exact hP.literal rfl
    · exact hP.newline

theorem switchEntry {label : Option Doc} {ss : List StmtShape} (hl : ∀ d ∈ label, P d)
    (h : ∀ s ∈ ss, Q s.doc) : Q (Script.switchEntry label ss) := by
  refine hP.join (hP.solid (hP.append ?_ hP.newline)) (hP.indented (hP.stmtLines h))
  cases label with
  | none => exact hP.literal rfl
  | some d => exact hP.between rfl rfl (hl d rfl)

theorem switchEntries (h : ∀ d ∈ ds, Q d) : Q (Doc.concat ds) := by
  have hdocs := hP.joined (f := id) h
  rwa [List.flatMap_id] at hdocs

theorem switchStmt (hd : P d) (h : ∀ d ∈ ds, Q d) : Q (Script.switchStmt d ds) := by
  have hbody := hP.join (hP.solid hP.newline) (hP.indented (hP.switchEntries h))
  simpa [Script.switchStmt, Doc.line, Doc.text, Doc.newline] using
    hP.solid (hP.switched hd hbody)

theorem whileStmt {s : StmtShape} (hd : P d) (h : Q s.doc) : Q (Script.whileStmt d s) :=
  hP.join (hP.solid (hP.brackets (s := "while (") (t := ") ") rfl hd)) h

theorem doStmt {s : StmtShape} (h : Q s.doc) (hd : P d) : Q (Script.doStmt s d) := by
  simpa [Script.doStmt, Doc.between] using
    hP.join (hP.join (hP.solid (hP.literal (s := "do ") rfl)) h) (hP.repeated hd)

theorem forEachHead (mods : ModifierSet) {names : List String}
    (hnames : ∀ name ∈ names, Over sp.letters name) (hd : P d) :
    P (Doc.text (Script.declarationWord mods)
      ++ Doc.separated ", " (names.map fun name => Doc.text (escapeIdentifier name))
      ++ Doc.text " of " ++ d) := by
  refine hP.append (hP.append (hP.append (hP.declarationWord mods) (hP.listing ?_))
    (hP.literal rfl)) hd
  intro e he
  obtain ⟨name, hname, rfl⟩ := List.mem_map.mp he
  exact hP.identifier (hnames name hname)

theorem forEachStmt (mods : ModifierSet) {names : List String} {s : StmtShape}
    (hnames : ∀ name ∈ names, Over sp.letters name) (hd : P d) (h : Q s.doc) :
    Q (Script.forEachStmt mods names d s) := by
  have hhead := hP.brackets (s := "for (") (t := ") ") rfl (hP.forEachHead mods hnames hd)
  simpa [Script.forEachStmt, Doc.between] using hP.join (hP.solid hhead) h

theorem forHead {init update : List Doc} {compare : Option Doc} (hi : ∀ d ∈ init, P d)
    (hc : ∀ d ∈ compare, P d) (hu : ∀ d ∈ update, P d) :
    Q (Doc.separated ", " init ++ Doc.text "; " ++ compare.getD [] ++ Doc.text "; "
      ++ Doc.separated ", " update) := by
  have hsemicolon : Q (Doc.text "; ") := hP.stop (.inr (.inl rfl))
  exact hP.join (hP.join (hP.join (hP.join (hP.solid (hP.listing hi)) hsemicolon)
    (hP.solid (hP.getD hc))) hsemicolon) (hP.solid (hP.listing hu))

theorem forStmt {init update : List Doc} {compare : Option Doc} {s : StmtShape}
    (hi : ∀ d ∈ init, P d) (hc : ∀ d ∈ compare, P d) (hu : ∀ d ∈ update, P d) (h : Q s.doc) :
    Q (Script.forStmt init compare update s) := by
  have hhead := hP.enclosed (a := "for (") (t := ") ") rfl (hP.forHead hi hc hu)
  simpa [Script.forStmt, Doc.between] using hP.join (hP.solid hhead) h

theorem synchronizedStmt (h : P d) : Q (Script.synchronizedStmt d) :=
  hP.solid (hP.append (hP.append (hP.unsupported fun _ h => nomatch h) hP.newline) h)

theorem catchClause {name : String} (hname : Over sp.letters name) (h : P d) :
    P (Script.catchClause name d) :=
  hP.append (hP.brackets (s := " catch (") (t := ") ") rfl (hP.identifier hname)) h

theorem resources (h : ∀ d ∈ ds, P d) : Q (Script.resources ds) := by
  unfold Script.resources
  split
  · exact hP.solid hP.nil
  · refine hP.join (hP.solid (hP.append (hP.unsupported fun _ h => nomatch h) hP.newline)) ?_
    refine hP.joined fun d hd => ?_
    simpa [Doc.line, Doc.text, Doc.newline] using
      hP.join (hP.ended (h d hd)) (hP.solid hP.newline)

theorem tryStmt {catches : List Doc} {finallyBlock : Option Doc} (h : ∀ d ∈ ds, P d) (hd : P d)
    (hc : ∀ d ∈ catches, P d) (hf : ∀ d ∈ finallyBlock, P d) :
    Q (Script.tryStmt ds d catches finallyBlock) := by
  refine hP.join (hP.join (hP.join (hP.join (hP.resources h) (hP.solid (hP.literal rfl)))
    (hP.solid hd)) (hP.solid (hP.concat hc))) (hP.solid ?_)
  cases finallyBlock with
  | none => exact hP.nil
  | some e => exact hP.append (hP.literal rfl) (hf e rfl)

theorem constructorCall (isThis : Bool) {scope : Option Doc} (hs : ∀ d ∈ scope, P d)
    (h : ∀ d ∈ ds, P d) : Q (Script.constructorCall isThis scope ds) := by
  refine hP.ended (hP.append ?_ (hP.parenthesized h))
  split
  · exact hP.literal rfl
  · exact hP.underScope hs (hP.literal rfl)

-- Declarations

theorem classBody {ms : List MemberShape} (h : ∀ m ∈ ms, R m.doc) : Q (Script.classBody ms) := by
  have hfilter (q : MemberShape → Bool) : ∀ m ∈ ms.filter q, R m.doc :=
    fun m hm => h m (List.mem_filter.mp hm).1
  exact hP.join (hP.members (hfilter _)) (hP.members (hfilter _))

theorem listed (word : String) (hword : isCalm word.toList = true) (h : ∀ d ∈ ds, P d) :
    P (Script.listed word ds) := by
  unfold Script.listed
  split
  · exact hP.nil
  · exact hP.append (hP.literal hword) (hP.listing h)

theorem classWord (isInterface : Bool) (mods : ModifierSet) :
    P (Doc.text (Script.classWord isInterface mods)) := by
  unfold Script.classWord
  split
  · exact hP.literal rfl
  · split <;> exact hP.literal rfl

theorem classContent {name : String} (isInterface : Bool) (mods : ModifierSet)
    {parameters extended implemented : List Doc} {ms : List MemberShape} {trailing : List Comment}
    (hname : Over sp.letters name) (hp : ∀ d ∈ parameters, P d) (he : ∀ d ∈ extended, P d)
    (hi : ∀ d ∈ implemented, P d) (hm : ∀ m ∈ ms, R m.doc)
    (ht : ∀ c ∈ trailing, sp.remark c.content = true) :
    P (Script.classContent name isInterface mods parameters extended implemented ms trailing) := by
  have hhead := hP.append (hP.append (hP.append (hP.append (hP.classWord isInterface mods)
    (hP.word hname)) (hP.angled hp)) (hP.listed " extends " rfl he))
    (hP.listed " implements " rfl hi)
  have hbody := hP.braces (hP.join (hP.classBody hm) (hP.solid (hP.comments ht)))
  simpa [Script.classContent] using hP.append hhead hbody

theorem afterConstants (constants : List Doc) {ms : List MemberShape} (hm : ∀ m ∈ ms, R m.doc) :
    Q (Script.afterConstants constants ms) := by
  unfold Script.afterConstants
  split
  · refine hP.solid ?_
    split
    · exact hP.nil
    · exact hP.newline
  · have hend := hP.join (hP.stop (s := ";") (.inl rfl)) (hP.solid hP.newline)
    exact hP.join hend (hP.members hm)

theorem enumContent {name : String} {implemented constants : List Doc} {ms : List MemberShape}
    (hname : Over sp.letters name) (hi : ∀ d ∈ implemented, P d) (hc : ∀ d ∈ constants, P d)
    (hm : ∀ m ∈ ms, R m.doc) : P (Script.enumContent name implemented constants ms) := by
  have hhead := hP.append (hP.append (hP.literal (s := "enum ") rfl) (hP.word hname))
    (hP.listed " implements " rfl hi)
  have hbody := hP.braces (hP.join (hP.solid (hP.append hP.newline (hP.listing hc)))
    (hP.afterConstants constants hm))
  simpa [Script.enumContent] using hP.append hhead hbody

theorem enumConstant {name : String} {comment : Option Comment} {arguments : List Doc}
    {ms : List MemberShape} (hname : Over sp.letters name)
    (hcomment : ∀ c ∈ comment, sp.remark c.content = true) (h : ∀ d ∈ ds, P d)
    (ha : ∀ d ∈ arguments, P d) (hm : ∀ m ∈ ms, R m.doc) :
    P (Script.enumConstant name comment ds arguments ms) := by
  refine hP.append (hP.append (hP.append (hP.append (hP.commentDoc hcomment)
    (hP.annotationLines h)) (hP.word hname)) ?_) ?_
  · split
    · exact hP.nil
    · exact hP.parenthesized ha
  · split
    · exact hP.nil
    · have hbody := hP.append (hP.braces (hP.members hm)) hP.newline
      simpa [Doc.line, Doc.text, Doc.newline] using hbody

theorem annotationContent {name : String} (hname : Over sp.letters name) {ms : List MemberShape}
    (hm : ∀ m ∈ ms, R m.doc) : P (Script.annotationContent name ms) := by
  have hhead := hP.append (hP.literal (s := "interface ") rfl) (hP.word hname)
  simpa [Script.annotationContent] using hP.append hhead (hP.braces (hP.classBody hm))

theorem memberModifiers (cx : Context) (mods : ModifierSet) :
    P (Script.memberModifiers cx mods) := by
  unfold Script.memberModifiers
  split
  · exact hP.nil
  · exact hP.modifiers mods

theorem field (cx : Context) (mods : ModifierSet) {comment : Option Comment} {base : Option Doc}
    {vs : List DeclaratorShape} (hcomment : ∀ c ∈ comment, sp.remark c.content = true)
    (h : ∀ d ∈ ds, P d) (hb : ∀ d ∈ base, P d) (hv : ∀ v ∈ vs, v.All sp.letters P) :
    Q (Script.field cx mods comment ds base vs) :=
  hP.ended (hP.append (hP.append (hP.append (hP.commentDoc hcomment) (hP.annotationLines h))
    (hP.memberModifiers cx mods)) (hP.declarators hb hv))

theorem thrownMarker (throwsAny : Bool) : P (Script.thrownMarker throwsAny) := by
  unfold Script.thrownMarker
  split
  · exact hP.append (hP.literal rfl) (hP.unsupported fun _ h => nomatch h)
  · exact hP.nil

theorem method (cx : Context) {name : String} (mods : ModifierSet) {comment : Option Comment}
    (throwsAny : Bool) {typeParameters parameters : List Doc} {body : Option Doc}
    (hname : Over sp.letters name) (hcomment : ∀ c ∈ comment, sp.remark c.content = true)
    (h : ∀ d ∈ ds, P d) (ht : ∀ d ∈ typeParameters, P d) (hd : P d) (hp : ∀ d ∈ parameters, P d)
    (hb : ∀ d ∈ body, P d) :
    Q (Script.method cx name mods comment ds typeParameters d parameters throwsAny body) := by
  have hhead := hP.append (hP.append (hP.append (hP.append (hP.append (hP.commentDoc hcomment)
    (hP.annotationLines h)) (hP.memberModifiers cx mods)) (hP.identifier hname)) (hP.angled ht))
    (hP.parenthesized hp)
  have hsignature := hP.append (hP.append (hP.append hhead (hP.literal (s := ": ") rfl)) hd)
    (hP.thrownMarker throwsAny)
  cases body with
  | none => exact hP.ended hsignature
  | some e => exact hP.solid (hP.append hsignature (hP.append (hP.literal rfl) (hb e rfl)))

theorem constructor {comment : Option Comment} (throwsAny : Bool) {parameters : List Doc}
    (hcomment : ∀ c ∈ comment, sp.remark c.content = true) (h : ∀ d ∈ ds, P d)
    (hp : ∀ d ∈ parameters, P d) (hd : P d) :
    P (Script.constructor comment ds parameters throwsAny d) :=
  hP.append (hP.append (hP.append (hP.append (hP.append (hP.append (hP.commentDoc hcomment)
    (hP.annotationLines h)) (hP.literal rfl)) (hP.parenthesized hp)) (hP.thrownMarker throwsAny))
    (hP.literal rfl)) hd

theorem initializer (isStatic : Bool) {comment : Option Comment}
    (hcomment : ∀ c ∈ comment, sp.remark c.content = true) (h : P d) :
    P (Script.initializer isStatic comment d) := by
  refine hP.append (hP.append (hP.commentDoc hcomment) ?_) h
  split
  · exact hP.literal rfl
  · exact hP.nil

theorem annotationMember {name : String} {comment : Option Comment} (hname : Over sp.letters name)
    (hcomment : ∀ c ∈ comment, sp.remark c.content = true) (h : ∀ d ∈ ds, P d) (hd : P d) :
    Q (Script.annotationMember name comment ds d) :=
  hP.ended (hP.append (hP.append (hP.append (hP.append (hP.commentDoc hcomment)
    (hP.annotationLines h)) (hP.identifier hname)) (hP.literal rfl)) hd)

end Composes

/-- Both parts of the declaration have the property. -/
def DeclShape.All (P : Doc → Prop) (s : DeclShape) : Prop := P s.annotations ∧ P s.content

/-- The texts of a declaration's own: its name and its comment. -/
structure TypeDecl.SpelledBy (sp : Spelling) (decl : TypeDecl) : Prop where
  name : Over sp.letters decl.name
  comment : ∀ c ∈ decl.comment, sp.remark c.content = true

namespace Composes

variable {sp : Spelling} {P Q R : Doc → Prop} (hP : Composes sp P Q R) {decl : TypeDecl}
  {shape : DeclShape}

include hP

theorem rootDecl (hdecl : decl.SpelledBy sp) (h : shape.All P) :
    P (Script.rootDecl decl shape) := by
  refine hP.append (hP.append (hP.append (hP.commentDoc hdecl.comment) h.1) ?_) h.2
  split
  · exact hP.literal rfl
  · exact hP.nil

theorem moduleDecl (hdecl : decl.SpelledBy sp) (h : shape.All P) :
    P (Script.moduleDecl decl shape) :=
  hP.append (hP.append (hP.append (hP.commentDoc hdecl.comment) h.1) (hP.literal rfl)) h.2

theorem closure {enclosing : String} (henclosing : Over sp.letters enclosing) {d : Doc} (h : P d) :
    Q (Script.closure enclosing d) := by
  have hparameter : Over sp.letters (enclosing ++ "_this") :=
    over_append.mpr ⟨henclosing, hP.bare (by decide)⟩
  rw [Script.closure_eq]
  exact hP.appliedLast hparameter h

theorem nestedClass {enclosing : String} (henclosing : Over sp.letters enclosing)
    (hdecl : decl.SpelledBy sp) (h : shape.All P) :
    Q (Script.nestedClass enclosing decl shape) := by
  refine hP.join (hP.solid (hP.append (hP.append (hP.append (hP.append (hP.commentDoc hdecl.comment)
    h.1) (hP.modifiers _)) (hP.word hdecl.name)) (hP.literal rfl))) ?_
  split
  · exact hP.solid h.2
  · exact hP.closure henclosing h.2

theorem nestedEnum (hdecl : decl.SpelledBy sp) (h : shape.All P) :
    P (Script.nestedEnum decl shape) :=
  hP.append (hP.append (hP.append (hP.commentDoc hdecl.comment) h.1) (hP.modifiers _)) h.2

/-- A nested declaration may be a flaw, if nothing stands around it, or be moved. -/
theorem nestedType {cx : Context} (hscope : ∀ d ∈ cx.scope, Over sp.letters d.name)
    (hflaw : cx.scope = [] → ∀ f, P (Doc.flaw f))
    (hmoved : mustMove decl cx.scope = true → P (Script.moduleDecl decl shape) →
      P [.moved cx.route (cx.scope.reverse.map TypeDecl.name) (Script.moduleDecl decl shape)])
    (hdecl : decl.SpelledBy sp) (h : shape.All P) : R (Script.nestedType cx decl shape) := by
  unfold Script.nestedType
  split
  · next hname =>
    have hempty : cx.scope = [] := by simpa [Context.enclosingName?] using hname
    exact hP.member (hP.solid (hflaw hempty _))
  · next enclosing hname =>
    have henclosing : Over sp.letters enclosing := by
      obtain ⟨d, hd, rfl⟩ := Option.map_eq_some_iff.mp hname
      exact hscope d (List.mem_of_mem_head? hd)
    split
    · next hmoves => exact hP.placeholder (hmoved hmoves (hP.moduleDecl hdecl h)) hdecl.name
    · split
      · exact hP.member (hP.solid (hP.nestedEnum hdecl h))
      · exact hP.member (hP.nestedClass henclosing hdecl h)

theorem localType {cx : Context} (hscope : ∀ d ∈ cx.scope, Over sp.letters d.name)
    (hflaw : cx.scope = [] → ∀ f, P (Doc.flaw f)) (hdecl : decl.SpelledBy sp)
    (h : shape.All P) : Q (Script.localType cx decl shape) := by
  unfold Script.localType
  split
  · next hname =>
    have hempty : cx.scope = [] := by simpa [Context.enclosingName?] using hname
    exact hP.solid (hflaw hempty _)
  · next enclosing hname =>
    have henclosing : Over sp.letters enclosing := by
      obtain ⟨d, hd, rfl⟩ := Option.map_eq_some_iff.mp hname
      exact hscope d (List.mem_of_mem_head? hd)
    split
    · exact hP.join (hP.solid (hP.append (hP.append (hP.commentDoc hdecl.comment) h.1)
        (hP.named hdecl.name))) (hP.closure henclosing h.2)
    · refine hP.solid (hP.unsupported ?_)
      rintro s ⟨⟩
      exact hdecl.name

end Composes

-- Uniform properties

/-- The property passes to every document that is put together from documents that have it. -/
structure Uniform (sp : Spelling) (P : Doc → Prop) : Prop where
  letter : ∀ c, isBracket c = false → sp.letters c = true
  nil : P []
  append : ∀ {d e : Doc}, P d → P e → P (d ++ e)
  /-- A fixed text may hold a name. -/
  text : ∀ {a s b : String}, IsNested (a.toList ++ b.toList) → Over sp.letters s →
    P (Doc.text (a ++ s ++ b))
  value : ∀ {q v : String}, sp.quotable q v = true → P (Doc.text v)
  newline : P Doc.newline
  comment : ∀ {c : Comment}, sp.remark c.content = true → P [.comment c]
  unsupported : ∀ {c : Construct}, (∀ s ∈ c.name?, Over sp.letters s) → P (Doc.unsupported c)
  indented : ∀ {d : Doc}, P d → P (Doc.indented d)
  enclosed : ∀ {a b s t : String} {d : Doc}, isPair (a.toList ++ b.toList) t.toList = true →
    Over sp.letters s → P d → P (Doc.between (a ++ s ++ b) t d)
  applied : ∀ {s t : String} {d : Doc}, t = ")(this)" ∨ t = ")(this);" → Over sp.letters s → P d →
    P (Doc.between ("((" ++ s ++ ") => ") t d)
  switched : ∀ {d e : Doc}, P d → P e →
    P (Doc.text "switch(" ++ d ++ Doc.text ") \x7b" ++ e ++ Doc.text "\x7d")

theorem isBracket_of_isNameChar {c : Char} (h : isNameChar c = true) : isBracket c = false :=
  isBracket_eq_false (by decide) h

theorem BinaryOp.isNested_scriptSymbol (op : BinaryOp) : IsNested op.scriptSymbol.toList := by
  cases op <;> rfl

theorem AssignOp.isNested_symbol (op : AssignOp) : IsNested op.symbol.toList := by
  cases op <;> rfl

namespace Uniform

variable {sp : Spelling} {P : Doc → Prop} (hP : Uniform sp P) {d : Doc}

include hP

theorem bare {s : String} (h : IsBracketless s) : Over sp.letters s := h.over hP.letter

theorem fixed {s : String} (h : IsNested s.toList) : P (Doc.text s) := by
  have htext : s ++ "" ++ "" = s := by simp
  have hnested : IsNested (s.toList ++ "".toList) := by simpa using h
  rw [← htext]
  exact hP.text hnested (hP.bare (by decide))

theorem word {s : String} (h : Over sp.letters s) : P (Doc.text s) := by
  have htext : "" ++ s ++ "" = s := by simp
  rw [← htext]
  exact hP.text rfl h

theorem between {s t : String} (h : isPair s.toList t.toList = true) (hd : P d) :
    P (Doc.between s t d) := by
  have htext : s ++ "" ++ "" = s := by simp
  have hpair : isPair (s.toList ++ "".toList) t.toList = true := by simpa using h
  rw [← htext]
  exact hP.enclosed hpair (hP.bare (by decide)) hd

theorem composes : Composes sp P P P where
  letter c hc := hP.letter c (isBracket_of_isNameChar hc)
  nil := hP.nil
  append := hP.append
  literal hs := hP.fixed (isNested_of_isCalm hs)
  word := hP.word
  assigned op := hP.append (hP.append (hP.fixed rfl) (hP.fixed op.isNested_symbol)) (hP.fixed rfl)
  related op :=
    hP.append (hP.append (hP.fixed rfl) (hP.fixed op.isNested_scriptSymbol)) (hP.fixed rfl)
  quoted hq hv := by
    rcases hq with rfl | rfl <;>
      exact hP.append (hP.append (hP.fixed rfl) (hP.value hv)) (hP.fixed rfl)
  newline := hP.newline
  comment := hP.comment
  unsupported := hP.unsupported
  enclosed hpair hd := hP.between (isPair_of_isCalmPair hpair) hd
  applied := hP.applied (.inl rfl)
  switched := hP.switched
  solid := id
  join := hP.append
  indented := hP.indented
  stop hs := by rcases hs with rfl | rfl | rfl <;> exact hP.fixed rfl
  repeated := hP.between rfl
  appliedLast := hP.applied (.inr rfl)
  named hs := hP.text rfl hs
  member := id
  placed hd := hP.append (hP.append hP.newline hd) hP.newline
  placeholder hd hs := hP.append hd (hP.text rfl hs)

theorem annotationComment {name : String} (hname : Over sp.letters name) (h : P d) :
    P (Script.annotationComment name d) :=
  hP.append (hP.append (hP.append (hP.fixed rfl) (hP.word hname)) h) (hP.fixed rfl)

/-- Lines in the braces of a namespace or a module of the given name. -/
theorem bracedLines (word : String) {name : String}
    (hword : isPair (word.toList ++ " \x7b".toList) "\x7d".toList = true)
    (hname : Over sp.letters name) (h : P d) :
    P (Doc.line (word ++ name ++ " \x7b") ++ Doc.indented d ++ Doc.line "\x7d") := by
  have hbraces := hP.enclosed hword hname (hP.append hP.newline (hP.indented h))
  simpa [Doc.between, Doc.line, Doc.text, Doc.newline] using hP.append hbraces hP.newline

end Uniform
end TypeScribe
