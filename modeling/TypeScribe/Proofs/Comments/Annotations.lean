import TypeScribe.Proofs.ClassIndex.Resolved
import TypeScribe.Proofs.Layout.Texts

/-!
# Annotations as comments

An annotation is written as a comment, and so is an annotation among its arguments. Comments do not
nest, so the text of an annotation is one comment if and only if no annotation is written inside it.
Texts are put together at seams: fixed texts that neither complete nor begin the end of a comment.
-/
namespace TypeScribe
set_option autoImplicit false

/-- How often a comment is closed, if a star stands right before the characters or not. -/
def closings : (starred : Bool) → List Char → Nat
  | _, [] => 0
  | starred, c :: cs => (starred && c == '/').toNat + closings (c == '*') cs

/-- How often `*/` stands in a text. -/
def commentEnds (s : String) : Nat := closings false s.toList

/-- Whether a star stands right before what follows the characters. -/
def endsStarred : (starred : Bool) → List Char → Bool
  | starred, [] => starred
  | _, c :: cs => endsStarred (c == '*') cs

theorem closings_append (starred : Bool) (cs ds : List Char) :
    closings starred (cs ++ ds) = closings starred cs + closings (endsStarred starred cs) ds := by
  induction cs generalizing starred with
  | nil => exact (Nat.zero_add _).symm
  | cons c cs ih =>
    rw [List.cons_append, closings, closings, ih, Nat.add_assoc]
    rfl

theorem closings_eq_zero_of_append {cs ds : List Char} (h : closings false (cs ++ ds) = 0) :
    closings false cs = 0 := by
  rw [closings_append] at h
  omega

theorem commentEnds_dropSuffix {isSuffix : Char → Bool} {s : String} (h : commentEnds s = 0) :
    commentEnds (dropSuffix isSuffix s) = 0 := by
  unfold dropSuffix
  split
  · next c hlast =>
    split
    · have hsplit := List.dropLast_append_getLast? c hlast
      rw [commentEnds, ← hsplit] at h
      rw [commentEnds, String.toList_ofList]
      exact closings_eq_zero_of_append h
    · exact h
  · exact h

theorem commentEnds_escapeIdentifier {name : String} (h : commentEnds name = 0) :
    commentEnds (escapeIdentifier name) = 0 := by
  unfold escapeIdentifier
  split
  · rw [commentEnds, String.toList_append, closings_append]
    exact (Nat.zero_add _).trans h
  · exact h

theorem commentEnds_builtinUnder? {scope : List String} {name builtin : String}
    (h : builtinUnder? scope name = some builtin) : commentEnds builtin = 0 := by
  unfold builtinUnder? at h
  split at h
  · unfold builtinType? at h
    split at h <;> cases h <;> decide
  · cases h

/-- The numbers that stand for the elements of a list, added up. -/
inductive Totals {α : Type} (P : α → Nat → Prop) : List α → Nat → Prop where
  | nil : Totals P [] 0
  | cons {a : α} {as : List α} {m n : Nat} (ha : P a m) (has : Totals P as n) :
      Totals P (a :: as) (m + n)

theorem Totals.map {α β : Type} {P : α → Nat → Prop} {Q : β → Nat → Prop} {f : α → β}
    (hf : ∀ a n, P a n → Q (f a) n) {as : List α} {n : Nat} (h : Totals P as n) :
    Totals Q (as.map f) n := by
  induction h with
  | nil => exact .nil
  | cons ha has ih => exact .cons (hf _ _ ha) ih

namespace Doc

/-- The document consists of texts that close `n` comments, unless a star stands right before. -/
def Closes (d : Doc) (n : Nat) : Prop := d.IsPlain ∧ closings false d.chars = n

/-- The document consists of texts that close `n` comments, whatever stands right before. -/
def ClosesAnywhere (d : Doc) (n : Nat) : Prop := d.IsPlain ∧ ∀ starred, closings starred d.chars = n

/-- The document may stand between any two others: it closes no comment, not even with the character
before it or the one behind it. -/
def IsSeam (d : Doc) : Prop :=
  d.IsPlain ∧ ∀ starred, closings starred d.chars = 0 ∧ endsStarred starred d.chars = false

variable {d e t : Doc} {m n : Nat}

theorem ClosesAnywhere.closes (h : d.ClosesAnywhere n) : d.Closes n := ⟨h.1, h.2 false⟩

theorem closesAnywhere_nil : ClosesAnywhere [] 0 := ⟨isPlain_nil, fun _ => rfl⟩

theorem closes_text {s : String} (h : commentEnds s = 0) : (text s).Closes 0 := by
  refine ⟨isPlain_text s, ?_⟩
  rwa [chars_text]

theorem isSeam_text {s : String}
    (h : ∀ starred, closings starred s.toList = 0 ∧ endsStarred starred s.toList = false) :
    (text s).IsSeam := by
  refine ⟨isPlain_text s, ?_⟩
  rwa [chars_text]

theorem Closes.append (hd : d.Closes m) (he : e.ClosesAnywhere n) : (d ++ e).Closes (m + n) := by
  refine ⟨hd.1.append he.1, ?_⟩
  rw [chars_append, closings_append, hd.2, he.2]

theorem ClosesAnywhere.append (hd : d.ClosesAnywhere m) (he : e.ClosesAnywhere n) :
    (d ++ e).ClosesAnywhere (m + n) := by
  refine ⟨hd.1.append he.1, fun starred => ?_⟩
  rw [chars_append, closings_append, hd.2, he.2]

theorem IsSeam.closesAnywhere (ht : t.IsSeam) : t.ClosesAnywhere 0 :=
  ⟨ht.1, fun starred => (ht.2 starred).1⟩

/-- Behind a seam a document may stand anywhere. -/
theorem IsSeam.append (ht : t.IsSeam) (hd : d.Closes n) : (t ++ d).ClosesAnywhere n := by
  refine ⟨ht.1.append hd.1, fun starred => ?_⟩
  rw [chars_append, closings_append, (ht.2 starred).1, (ht.2 starred).2, hd.2, Nat.zero_add]

theorem Closes.join (hd : d.Closes m) (ht : t.IsSeam) (he : e.Closes n) :
    (d ++ t ++ e).Closes (m + n) := by
  rw [List.append_assoc]
  exact hd.append (ht.append he)

theorem Closes.enclosed {before after : String} (hd : d.Closes n) (hbefore : (text before).IsSeam)
    (hafter : (text after).IsSeam) : (between before after d).ClosesAnywhere n :=
  (hbefore.append hd).append hafter.closesAnywhere

/-- The sign of an operation stands between blanks. -/
theorem closes_infixed {symbol : String} (hd : d.Closes m)
    (h : ∀ starred, closings starred (' ' :: symbol.toList ++ [' ']) = 0 ∧
      endsStarred starred (' ' :: symbol.toList ++ [' ']) = false)
    (he : e.Closes n) : (Script.infixed d symbol e).Closes (m + n) := by
  have hseam : (text " " ++ text symbol ++ text " ").IsSeam := by
    refine ⟨((isPlain_text _).append (isPlain_text _)).append (isPlain_text _), ?_⟩
    rw [chars_append, chars_append, chars_text, chars_text]
    exact h
  have hjoined := hd.join hseam he
  rwa [← List.append_assoc, ← List.append_assoc] at hjoined

theorem closes_separated {separator : String} (hs : (text separator).IsSeam) {ds : List Doc}
    (h : Totals Closes ds n) : (separated separator ds).Closes n := by
  induction h with
  | nil => exact closesAnywhere_nil.closes
  | cons hd hrest ih =>
    cases hrest with
    | nil => exact hd
    | cons he hrest => exact hd.join hs ih

theorem closesAnywhere_levelAnnotations {ds : List Doc} (h : Totals Closes ds n) :
    (Script.levelAnnotations ds).ClosesAnywhere n := by
  have hblank : (text " ").IsSeam := isSeam_text (by decide)
  induction h with
  | nil => exact closesAnywhere_nil
  | cons hd hrest ih => exact ((hblank.append hd).append hblank.closesAnywhere).append ih

theorem closes_inlineAnnotations {ds : List Doc} (h : Totals Closes ds m) (hd : d.Closes n) :
    (Script.inlineAnnotations ds ++ d).Closes (m + n) := by
  have hblank : (text " ").IsSeam := isSeam_text (by decide)
  induction h with
  | nil => rwa [Nat.zero_add]
  | @cons a ds k m ha hrest ih =>
    rw [Nat.add_assoc]
    change (((a ++ text " ") ++ Script.inlineAnnotations ds) ++ d).Closes _
    rw [List.append_assoc]
    exact ha.join hblank ih

theorem closes_annotationComment {name : String} (hname : commentEnds name = 0)
    (hd : d.ClosesAnywhere n) : (Script.annotationComment name d).Closes (n + 1) := by
  have hopening : (text "/* @" ++ text name).Closes 0 := by
    refine ⟨(isPlain_text _).append (isPlain_text _), ?_⟩
    rw [chars_append, chars_text, chars_text, closings_append]
    exact (Nat.zero_add _).trans hname
  have hend : (text " */").ClosesAnywhere 1 := by
    refine ⟨isPlain_text _, ?_⟩
    rw [chars_text]
    decide
  have h := (hopening.append hd).append hend
  rwa [Nat.zero_add] at h

end Doc

/-- Whether the node may stand in an annotation: it is an annotation, a literal, a name, a class, or an
operation on such. -/
def Node.isConstant : {c : Category} → Node c → Bool
  | _, .nil => true
  | _, .cons _ _ => true
  | _, .absent => true
  | _, .present _ => true
  | _, .annotationMarker _ => true
  | _, .annotationSingle _ _ => true
  | _, .annotationNormal _ _ => true
  | _, .element _ _ => true
  | _, .primitive _ _ => true
  | _, .classUse _ => true
  | _, .array _ _ => true
  | _, .void _ => true
  | _, .intersection _ => true
  | _, .union _ => true
  | _, .wildcard _ _ _ => true
  | _, .unknown => true
  | _, .classType _ _ _ _ => true
  | _, .nameExpr _ => true
  | _, .fieldAccess _ _ => true
  | _, .arrayInitializer _ => true
  | _, .unary _ _ => true
  | _, .binary _ _ _ => true
  | _, .conditional _ _ _ => true
  | _, .enclosed _ => true
  | _, .classLiteral _ => true
  | _, .integerLiteral _ => true
  | _, .longLiteral _ => true
  | _, .doubleLiteral _ => true
  | _, .charLiteral _ => true
  | _, .stringLiteral _ => true
  | _, .booleanLiteral _ => true
  | _, .nullLiteral => true
  | _, .annotationExpr _ => true
  | _, _ => false

/-- Whether the node may not stand in an annotation or a text of its own closes a comment. -/
def Node.leavesComment {c : Category} (n : Node c) : Bool :=
  !n.isConstant || n.ownTexts.any fun s => commentEnds s != 0

theorem Node.commentEnds_ownTexts {c : Category} {n : Node c} (h : Lacks (n.any Node.leavesComment)) :
    ∀ s ∈ n.ownTexts, commentEnds s = 0 := by
  have hself := (Bool.or_eq_false_iff.mp (eq_false_of_lacks (p := Node.leavesComment) h)).2
  intro s hs
  simpa using List.any_eq_false.mp hself s hs

/-- How many annotations are written for a node: of a bound only the one that counts, and none for a
type that has a built-in counterpart. -/
def Node.uses : {c : Category} → Node c → Nat
  | _, .cons head tail => head.uses + tail.uses
  | _, .present node => node.uses
  | _, .annotationMarker _ => 1
  | _, .annotationSingle _ value => value.uses + 1
  | _, .annotationNormal _ elements => elements.uses + 1
  | _, .element _ value => value.uses
  | _, .primitive _ annotations => annotations.uses
  | _, .classUse type => type.uses
  | _, .array component annotations => component.uses + annotations.uses
  | _, .intersection elements => elements.uses
  | _, .union elements => elements.uses
  | _, .wildcard extendsBound superBound _ =>
    if extendsBound.toOption.isSome then extendsBound.uses else superBound.uses
  | _, .classType scope name typeArguments annotations =>
    if (builtinUnder? scope.segments name).isSome then 0
    else scope.uses + annotations.uses + typeArguments.uses
  | _, .fieldAccess scope _ => scope.uses
  | _, .arrayInitializer values => values.uses
  | _, .unary _ expr => expr.uses
  | _, .binary left _ right => left.uses + right.uses
  | _, .conditional condition consequent alternative =>
    condition.uses + consequent.uses + alternative.uses
  | _, .enclosed inner => inner.uses
  | _, .classLiteral type => type.uses
  | _, .annotationExpr use => use.uses
  | _, _ => 0

/-- The documents of the script close so many comments altogether. -/
def Script.Closes : (c : Category) → Script c → Nat → Prop
  | .many c => fun (ss : List (Script c)) n => Totals (Script.Closes c) ss n
  | .optional c => fun (s : Option (Script c)) n =>
    (s = none ∧ n = 0) ∨ ∃ t, s = some t ∧ Script.Closes c t n
  | .typeUse => fun (t : TypeShape) n =>
    ∃ k m, t.element.Closes k ∧ t.levels.ClosesAnywhere m ∧ k + m = n
  | .annotationUse => Doc.Closes
  | .element => Doc.Closes
  | .classType => Doc.Closes
  | .expr => Doc.Closes
  | _ => fun _ _ => False

theorem Script.closes_doc {t : TypeShape} {n : Nat} (h : Script.Closes .typeUse t n) :
    t.doc.Closes n := by
  obtain ⟨k, m, helement, hlevels, rfl⟩ := h
  exact helement.append hlevels

theorem Script.closes_docs {ts : List TypeShape} {n : Nat} (h : Script.Closes (.many .typeUse) ts n) :
    Totals Doc.Closes (ts.map TypeShape.doc) n := by
  refine Totals.map (P := Script.Closes .typeUse) ?_ h
  intro t k ht
  exact Script.closes_doc ht

theorem Script.closes_between {before after : String} {d : Doc} {n : Nat} (hd : d.Closes n)
    (hbefore : (Doc.text before).IsSeam) (hafter : (Doc.text after).IsSeam) :
    (Doc.between before after d).Closes n :=
  (hd.enclosed hbefore hafter).closes

theorem Script.closes_plainType {d : Doc} {n : Nat} (h : d.Closes n) :
    Script.Closes .typeUse (Script.plainType d) n :=
  ⟨n, 0, h, Doc.closesAnywhere_nil, Nat.add_zero n⟩

theorem Script.closesAnywhere_angled {ds : List Doc} {n : Nat} (h : Totals Doc.Closes ds n) :
    (Script.angled ds).ClosesAnywhere n := by
  unfold Script.angled
  split
  · next hempty =>
    rw [List.isEmpty_iff.mp hempty] at h
    cases h
    exact Doc.closesAnywhere_nil
  · exact (Doc.closes_separated (Doc.isSeam_text (s := ", ") (by decide)) h).enclosed
      (Doc.isSeam_text (by decide)) (Doc.isSeam_text (by decide))

theorem Script.closes_arguments {ts : Option (List TypeShape)} {n : Nat}
    (h : Script.Closes (.optional (.many .typeUse)) ts n) :
    Totals Doc.Closes ((ts.getD []).map TypeShape.doc) n := by
  rcases h with ⟨rfl, rfl⟩ | ⟨ts, rfl, hts⟩
  · exact .nil
  · exact Script.closes_docs hts

theorem Script.closes_classType {cx : Context} {segments : List String} {scope : Option Doc}
    {name : String} {ts : Option (List TypeShape)} {ds : List Doc} {k m n : Nat}
    (hname : commentEnds name = 0) (htypeName : commentEnds (cx.typeName name) = 0)
    (hscope : Script.Closes (.optional .classType) scope k)
    (hts : Script.Closes (.optional (.many .typeUse)) ts n)
    (hds : Script.Closes (.many .annotationUse) ds m) :
    (Script.classType cx segments scope name ts ds).Closes
      (if (builtinUnder? segments name).isSome then 0 else k + m + n) := by
  unfold Script.classType
  split
  · next builtin hbuiltin =>
    rw [hbuiltin]
    exact Doc.closes_text (commentEnds_builtinUnder? hbuiltin)
  · next hbuiltin =>
    rw [hbuiltin]
    refine Doc.Closes.append ?_ (Script.closesAnywhere_angled (Script.closes_arguments hts))
    rcases hscope with ⟨rfl, rfl⟩ | ⟨d, rfl, hd⟩
    · have h := Doc.closes_inlineAnnotations hds (Doc.closes_text htypeName)
      rwa [Nat.add_zero, ← Nat.zero_add m] at h
    · have h := hd.join (Doc.isSeam_text (s := ".") (by decide))
        (Doc.closes_inlineAnnotations hds (Doc.closes_text hname))
      rwa [Nat.add_zero, ← List.append_assoc] at h

theorem Context.after_resolver {c : Category} (cx : Context) (head : Node c) :
    (cx.after head).resolver = cx.resolver := by
  unfold Context.after
  split <;> rfl

section

variable {r : Resolver} (hr : ∀ {name : String} {scope : Scope} {d : TypeDescriptor},
  r.resolveSimple name scope = .ok d → commentEnds d.qualifiedName = 0)

include hr

theorem Context.commentEnds_typeName {cx : Context} (hcx : cx.resolver = r) {name : String}
    (h : commentEnds name = 0) : commentEnds (cx.typeName name) = 0 := by
  unfold typeName
  split
  · next d hd => exact hr (hcx ▸ hd)
  · exact h

/-- What is written for a node that may stand in an annotation closes as many comments as annotations
are written for it. -/
theorem Node.script_closes {c : Category} (n : Node c) (cx : Context) (hcx : cx.resolver = r)
    (h : Lacks (n.any Node.leavesComment)) : Script.Closes c (n.script cx) n.uses := by
  have hseam {s : String} (hs : ∀ starred, closings starred s.toList = 0 ∧
      endsStarred starred s.toList = false) := Doc.isSeam_text hs
  have hcomma := hseam (s := ", ") (by decide)
  have hopening := hseam (s := "(") (by decide)
  have hclosing := hseam (s := ")") (by decide)
  induction n generalizing cx with
  | nil => exact .nil
  | cons head tail ihHead ihTail =>
    have htail := ihTail (cx.after head) ((cx.after_resolver head).trans hcx) h.right
    exact .cons (ihHead (cx.child 0) hcx h.left.right) htail
  | absent => exact .inl ⟨rfl, rfl⟩
  | present node ih => exact .inr ⟨_, rfl, ih cx.content hcx h.right⟩
  | annotationMarker name =>
    exact Doc.closes_annotationComment (commentEnds_ownTexts h name List.mem_cons_self)
      Doc.closesAnywhere_nil
  | annotationSingle name value ih =>
    have hvalue := (ih (cx.child 0) hcx h.right).enclosed hopening hclosing
    exact Doc.closes_annotationComment (commentEnds_ownTexts h name List.mem_cons_self) hvalue
  | annotationNormal name elements ih =>
    have helements := Doc.closes_separated hcomma (ih (cx.child 0) hcx h.right)
    exact Doc.closes_annotationComment (commentEnds_ownTexts h name List.mem_cons_self)
      (helements.enclosed hopening hclosing)
  | element name value ih =>
    have hname := Doc.closes_text (commentEnds_ownTexts h name List.mem_cons_self)
    have helement := hname.join (hseam (s := " = ") (by decide)) (ih (cx.child 0) hcx h.right)
    rwa [Nat.zero_add] at helement
  | primitive base annotations ih =>
    have hannotations := Doc.closesAnywhere_levelAnnotations (ih (cx.child 0) hcx h.right)
    have hbase : (Doc.text base.scriptName).ClosesAnywhere 0 := by
      cases base <;> exact (hseam (by decide)).closesAnywhere
    exact Script.closes_plainType (hannotations.append hbase).closes
  | classUse type ih => exact Script.closes_plainType (ih (cx.child 0) hcx h.right)
  | array component annotations ihComponent ihAnnotations =>
    obtain ⟨k, m, helement, hlevels, hcount⟩ := ihComponent (cx.child 0) hcx h.left.right
    have hannotations := Doc.closesAnywhere_levelAnnotations (ihAnnotations (cx.child 1) hcx h.right)
    have hlevel := (hannotations.append (hseam (s := "[]") (by decide)).closesAnywhere).append hlevels
    refine ⟨k, _, helement, hlevel, ?_⟩
    change _ = component.uses + annotations.uses
    omega
  | void annotations ih =>
    exact Script.closes_plainType (hseam (s := "void") (by decide)).closesAnywhere.closes
  | intersection elements ih =>
    exact Script.closes_plainType (Doc.closes_separated (hseam (s := " & ") (by decide))
      (Script.closes_docs (ih (cx.child 0) hcx h.right)))
  | union elements ih =>
    exact Script.closes_plainType (Doc.closes_separated (hseam (s := " | ") (by decide))
      (Script.closes_docs (ih (cx.child 0) hcx h.right)))
  | wildcard extendsBound superBound annotations ihExtends ihSuper ihAnnotations =>
    have hextends := ihExtends (cx.child 0) hcx h.left.left.right
    have hsuper := ihSuper (cx.child 1) hcx h.left.right
    cases extendsBound with
    | present bound =>
      rcases hextends with ⟨⟨⟩, -⟩ | ⟨t, ⟨⟩, hbound⟩
      exact Script.closes_plainType (Script.closes_doc hbound)
    | absent =>
      cases superBound with
      | present bound =>
        rcases hsuper with ⟨⟨⟩, -⟩ | ⟨t, ⟨⟩, hbound⟩
        exact Script.closes_plainType (Script.closes_doc hbound)
      | absent => exact Script.closes_plainType (Doc.closes_text (s := "any") (by decide))
  | unknown => exact Script.closes_plainType Doc.closesAnywhere_nil.closes
  | classType scope name typeArguments annotations ihScope ihArguments ihAnnotations =>
    have hname := commentEnds_ownTexts h name List.mem_cons_self
    exact Script.closes_classType hname (Context.commentEnds_typeName hr hcx hname)
      (ihScope (cx.child 0) hcx h.left.left.right) (ihArguments (cx.child 1) hcx h.left.right)
      (ihAnnotations (cx.child 2) hcx h.right)
  | nameExpr name =>
    exact Doc.closes_text
      (commentEnds_escapeIdentifier (commentEnds_ownTexts h name List.mem_cons_self))
  | fieldAccess scope name ih =>
    have hname := commentEnds_escapeIdentifier (commentEnds_ownTexts h name List.mem_cons_self)
    exact (ih (cx.child 0) hcx h.right).join (hseam (s := ".") (by decide)) (Doc.closes_text hname)
  | arrayInitializer values ih =>
    have hvalues := Doc.closes_separated hcomma (ih (cx.child 0) hcx h.right)
    exact Script.closes_between hvalues (hseam (s := "[") (by decide)) (hseam (s := "]") (by decide))
  | binary left op right ihLeft ihRight =>
    refine Doc.closes_infixed (ihLeft (cx.child 0) hcx h.left.right) ?_
      (ihRight (cx.child 1) hcx h.right)
    cases op <;> decide
  | unary op expr ih =>
    have hsymbol : (Doc.text op.symbol).IsSeam := by cases op <;> exact hseam (by decide)
    have hexpr := ih (cx.child 0) hcx h.right
    change (Script.unary op _).Closes expr.uses
    unfold Script.unary
    split
    · exact hexpr.append hsymbol.closesAnywhere
    · exact (hsymbol.append hexpr).closes
  | conditional condition consequent alternative ihCondition ihConsequent ihAlternative =>
    have hfirst := (ihCondition (cx.child 0) hcx h.left.left.right).join
      (hseam (s := " ? ") (by decide)) (ihConsequent (cx.child 1) hcx h.left.right)
    exact hfirst.join (hseam (s := " : ") (by decide)) (ihAlternative (cx.child 2) hcx h.right)
  | enclosed inner ih =>
    exact Script.closes_between (ih (cx.child 0) hcx h.right) hopening hclosing
  | classLiteral type ih =>
    exact (Script.closes_doc (ih (cx.child 0) hcx h.right)).append
      (hseam (s := ".class") (by decide)).closesAnywhere
  | integerLiteral value =>
    exact Doc.closes_text (commentEnds_ownTexts h value List.mem_cons_self)
  | longLiteral value =>
    exact Doc.closes_text (commentEnds_dropSuffix (commentEnds_ownTexts h value List.mem_cons_self))
  | doubleLiteral value =>
    exact Doc.closes_text (commentEnds_dropSuffix (commentEnds_ownTexts h value List.mem_cons_self))
  | charLiteral value =>
    have hquote := hseam (s := "'") (by decide)
    exact Script.closes_between (Doc.closes_text (commentEnds_ownTexts h value List.mem_cons_self))
      hquote hquote
  | stringLiteral value =>
    have hquote := hseam (s := "\"") (by decide)
    exact Script.closes_between (Doc.closes_text (commentEnds_ownTexts h value List.mem_cons_self))
      hquote hquote
  | booleanLiteral value => cases value <;> exact Doc.closes_text (by decide)
  | nullLiteral => exact Doc.closes_text (s := "null") (by decide)
  | annotationExpr use ih => exact ih (cx.child 0) hcx h.right
  | _ => exact nomatch eq_false_of_lacks (p := Node.leavesComment) h

end

/-- Whether the node uses an annotation. -/
def Node.isUse {c : Category} (n : Node c) : Bool := n.ownUse.isSome

theorem Node.uses_eq_zero {c : Category} (n : Node c) (h : Lacks (n.any Node.isUse)) :
    n.uses = 0 := by
  have hadd {k m : Nat} (hk : k = 0) (hm : m = 0) : k + m = 0 := Nat.add_eq_zero_iff.mpr ⟨hk, hm⟩
  induction n with
  | cons head tail ihHead ihTail => exact hadd (ihHead h.left.right) (ihTail h.right)
  | annotationMarker name => cases h
  | annotationSingle name value ih => cases h.left
  | annotationNormal name elements ih => cases h.left
  | array component annotations ihComponent ihAnnotations =>
    exact hadd (ihComponent h.left.right) (ihAnnotations h.right)
  | wildcard extendsBound superBound annotations ihExtends ihSuper ihAnnotations =>
    unfold uses
    split
    · exact ihExtends h.left.left.right
    · exact ihSuper h.left.right
  | classType scope name typeArguments annotations ihScope ihArguments ihAnnotations =>
    unfold uses
    split
    · rfl
    · exact hadd (hadd (ihScope h.left.left.right) (ihAnnotations h.right)) (ihArguments h.left.right)
  | binary left op right ihLeft ihRight => exact hadd (ihLeft h.left.right) (ihRight h.right)
  | conditional condition consequent alternative ihCondition ihConsequent ihAlternative =>
    exact hadd (hadd (ihCondition h.left.left.right) (ihConsequent h.left.right))
      (ihAlternative h.right)
  | present node ih | element _ node ih | primitive _ node ih | classUse node ih
  | intersection node ih | union node ih | fieldAccess node _ ih | arrayInitializer node ih
  | unary _ node ih | enclosed node ih | classLiteral node ih | annotationExpr node ih =>
    exact ih h.right
  | _ => rfl

namespace AnnotationUse

/-- How many annotations are written among the arguments of an annotation. -/
def nestedUses : AnnotationUse → Nat
  | .annotationMarker _ => 0
  | .annotationSingle _ value => value.uses
  | .annotationNormal _ elements => elements.uses

/-- Whether an annotation stands among the arguments of the annotation. -/
def nests : AnnotationUse → Bool
  | .annotationMarker _ => false
  | .annotationSingle _ value => value.any Node.isUse
  | .annotationNormal _ elements => elements.any Node.isUse

theorem uses_eq (a : AnnotationUse) : a.uses = a.nestedUses + 1 := by cases a <;> rfl

theorem nestedUses_eq_zero {a : AnnotationUse} (h : a.nests = false) : a.nestedUses = 0 := by
  cases a with
  | annotationMarker name => rfl
  | annotationSingle name value => exact value.uses_eq_zero h
  | annotationNormal name elements => exact elements.uses_eq_zero h

/-- The text of an annotation stands between the signs of a comment. -/
theorem exists_chars (a : AnnotationUse) (cx : Context) :
    ∃ cs, Doc.chars (a.script cx) = "/*".toList ++ cs ++ "*/".toList := by
  have hcomment (name : String) (d : Doc) :
      ∃ cs, Doc.chars (Script.annotationComment name d) = "/*".toList ++ cs ++ "*/".toList :=
    ⟨" @".toList ++ name.toList ++ d.chars ++ [' '], by simp [Script.annotationComment]⟩
  cases a <;> exact hcomment _ _

end AnnotationUse

/-- The text is one block comment. -/
def IsBlockComment (s : String) : Prop :=
  "/*".toList <+: s.toList ∧ "*/".toList <:+ s.toList ∧ commentEnds s = 1

/-- The text of an annotation begins and ends as a comment, and holds one more end of a comment for each
annotation that is written among its arguments. So it is one comment if and only if there is no such
annotation. -/
theorem AnnotationUse.written_as_comment_iff (a : AnnotationUse) (cx : Context) (config : Config)
    (ha : a.any Node.leavesComment = false)
    (hnames : ∀ d, cx.resolver.Knows d → commentEnds d.qualifiedName = 0) :
    ∃ s, Doc.textAt config 0 (a.script cx) = .ok s ∧
      "/*".toList <+: s.toList ∧ "*/".toList <:+ s.toList ∧ commentEnds s = a.nestedUses + 1 ∧
      (IsBlockComment s ↔ a.nestedUses = 0) ∧ (a.nests = false → IsBlockComment s) := by
  have hscript : Doc.Closes (a.script cx) a.uses :=
    a.script_closes (fun hd => hnames _ (Resolver.knows_of_resolveSimple hd)) cx rfl ha
  obtain ⟨cs, hcs⟩ := a.exists_chars cx
  refine ⟨_, hscript.1.textAt_zero config, ?_⟩
  generalize hs : String.ofList (Doc.chars (a.script cx)) = s
  have hlist : s.toList = Doc.chars (a.script cx) := by rw [← hs, String.toList_ofList]
  have hbegins : "/*".toList <+: s.toList := by
    rw [hlist, hcs, List.append_assoc]
    exact List.prefix_append _ _
  have hends : "*/".toList <:+ s.toList := by
    rw [hlist, hcs]
    exact List.suffix_append _ _
  have hcount : commentEnds s = a.nestedUses + 1 := by
    rw [commentEnds, hlist, hscript.2, a.uses_eq]
  have hiff : IsBlockComment s ↔ a.nestedUses = 0 := by
    refine ⟨fun h => Nat.succ.inj (hcount.symm.trans h.2.2), fun h => ⟨hbegins, hends, ?_⟩⟩
    rw [hcount, h]
  exact ⟨hbegins, hends, hcount, hiff, fun h => hiff.mpr (nestedUses_eq_zero h)⟩

/-- `@Uses({@Use, @Use})`. -/
def repeatedUse : AnnotationUse :=
  .annotationSingle "Uses" (.arrayInitializer (.ofList
    [.annotationExpr (.annotationMarker "Use"), .annotationExpr (.annotationMarker "Use")]))

/-- `@Use(String.class)`. -/
def classTakingUse : AnnotationUse :=
  .annotationSingle "Use" (.classLiteral (.classUse (.classType .absent "String" .absent .nil)))

/-- An annotation with two others among its arguments is written with three ends of comments, one that
takes a class with one. -/
theorem repeatedUse_not_one_comment :
    ∃ cx : Context, ∀ config, ∃ s t,
      Doc.textAt config 0 (repeatedUse.script cx) = .ok s ∧ commentEnds s = 3 ∧ ¬IsBlockComment s ∧
      Doc.textAt config 0 (classTakingUse.script cx) = .ok t ∧ IsBlockComment t := by
  have hempty : ∀ d, (Resolver.ofUnit {} {}).Knows d → commentEnds d.qualifiedName = 0 := by
    rintro d (hd | hd) <;> cases hd
  refine ⟨{ resolver := .ofUnit {} {} }, fun config => ?_⟩
  obtain ⟨s, hs, -, -, hcount, hiff, -⟩ :=
    repeatedUse.written_as_comment_iff { resolver := .ofUnit {} {} } config rfl hempty
  obtain ⟨t, ht, -, -, -, -, hflat⟩ :=
    classTakingUse.written_as_comment_iff { resolver := .ofUnit {} {} } config rfl hempty
  refine ⟨s, t, hs, hcount, fun h => ?_, ht, hflat rfl⟩
  cases hiff.mp h

end TypeScribe
