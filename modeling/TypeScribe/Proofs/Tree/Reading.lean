import TypeScribe.Proofs.Tree.Written
import TypeScribe.Tree.Decode

/-!
# Reading the fields of a node

What a reader makes of a field that it finds: a text, a flag, a set of modifiers, comments, a child.
A node is then read back as soon as the reader of its kind reads it from its fields
(`Node.Reads.of_fields`, `Node.Reads.of_kind`), or as soon as another node in the same object is
read back (`Node.Reads.of_inner`).
-/
namespace TypeScribe
set_option autoImplicit false

open Json
open Json.Pattern (must tag word flag modifierSet option list)

theorem Modifier.ofString?_keyword (m : Modifier) :
    Keyword.ofString? (Keyword.keyword m) = some m := by
  cases m <;> rfl

theorem mapM_keyword? (place : Place) (given : List Modifier) :
    (given.map Json.ofKeyword).mapM (keyword? place) = some given := by
  induction given with
  | nil => rfl
  | cons m rest ih =>
    have hm : keyword? place (Json.ofKeyword m) = some m := m.ofString?_keyword
    rw [List.map_cons, List.mapM_cons, hm, ih]
    rfl

/-- A set of modifiers is read from any list of them. -/
theorem modifiers?_of_matches {set : ModifierSet} {j : Json} (place : Place)
    (h : (Pattern.modifiers set).Matches j) : j.modifiers? place = some set := by
  cases h with
  | modifiers given hgiven =>
    have hread : (Json.array (given.map .ofKeyword)).keywords? place = some given :=
      mapM_keyword? place given
    rw [Json.modifiers?, hread]
    refine congrArg some ?_
    obtain ⟨contains⟩ := set
    refine congrArg ModifierSet.mk (funext fun m => ?_)
    rw [Bool.eq_iff_iff, List.contains_iff_mem]
    exact hgiven m

namespace Json.Entries.Finds

variable {e : Entries} {levels : Nat} {key : String} {α : Type} {a : α} {read : Json → Option α}

theorem required {p : Pattern} (h : e.Finds levels (key, false, p))
    (hread : ∀ j, p.Matches j → j.depth ≤ levels → read j = some a) :
    e.required key read = some a := by
  rcases h with ⟨j, hfield, hmatches, hdepth⟩ | ⟨hmiss, -⟩
  · rw [Entries.required, hfield]
    exact hread j hmatches hdepth
  · cases hmiss

theorem defaulted {p : Pattern} {mayMiss : Bool} {default : α}
    (h : e.Finds levels (key, mayMiss, p))
    (hread : ∀ j, p.Matches j → j.depth ≤ levels → read j = some a)
    (hdefault : mayMiss = true → a = default) : e.defaulted key default read = some a := by
  unfold Entries.defaulted
  rcases h with ⟨j, hfield, hmatches, hdepth⟩ | ⟨hmiss, hfield⟩
  · rw [hfield]
    exact hread j hmatches hdepth
  · rw [hfield, hdefault hmiss]

theorem optional {pattern : α → Pattern} {o : Option α}
    (h : e.Finds levels (key, o.isNone, Pattern.ofOption pattern o))
    (hread : ∀ a j, (pattern a).Matches j → j.depth ≤ levels → read j = some a)
    (hnull : read .null = none) : e.optional key read = some o := by
  unfold Entries.optional
  rcases h with ⟨j, hfield, hmatches, hdepth⟩ | ⟨hmiss, hfield⟩
  · rw [hfield]
    cases o with
    | none =>
      cases hmatches
      rfl
    | some a =>
      have ha := hread a j hmatches hdepth
      split
      · next heq =>
        cases heq
        rw [hnull] at ha
        cases ha
      · next heq =>
        cases heq
        rw [ha]
        rfl
      · next heq => cases heq
      · next heq => cases heq
  · rw [hfield, Option.isNone_iff_eq_none.mp hmiss]

theorem string {s : String} (h : e.Finds levels (must key (.string s))) :
    e.required key string? = some s :=
  h.required fun j hj _ => by
    cases hj
    rfl

theorem bool {b : Bool} (h : e.Finds levels (must key (.bool b))) :
    e.required key bool? = some b :=
  h.required fun j hj _ => by
    cases hj
    rfl

theorem word [Keyword α] {place : Place} (h : e.Finds levels (Pattern.word key a))
    (ha : Keyword.ofString? (Keyword.keyword a) = some a) :
    e.required key (keyword? place) = some a :=
  h.required fun j hj _ => by
    cases hj
    exact ha

theorem flag {b : Bool} (h : e.Finds levels (Pattern.flag key b)) : e.flag? key = some b := by
  refine h.defaulted (fun j hj _ => ?_) fun hb => by simpa using hb
  cases hj
  rfl

theorem text {o : Option String} (h : e.Finds levels (option key .string o)) :
    e.optional key string? = some o := by
  refine h.optional (fun s j hj _ => ?_) rfl
  cases hj
  rfl

theorem modifiers {set : ModifierSet} {r : NodeReader} (h : e.Finds levels (modifierSet set)) :
    e.modifiers? r = some set := by
  refine h.defaulted (fun j hj _ => modifiers?_of_matches r.place hj) fun hempty => ?_
  rw [← set.ofList_toList, List.isEmpty_iff.mp hempty]
  rfl

end Json.Entries.Finds

/-- A list is read element by element. -/
theorem mapM_of_matchesAll {α : Type} {pattern : α → Pattern} {read : Json → Option α}
    {levels : Nat} {as : List α} {js : List Json} (h : Pattern.MatchesAll (as.map pattern) js)
    (hdepth : depthElements js ≤ levels)
    (hread : ∀ a j, (pattern a).Matches j → j.depth ≤ levels → read j = some a) :
    js.mapM read = some as := by
  induction as generalizing js with
  | nil =>
    cases h
    rfl
  | cons a as ih =>
    cases h with
    | cons hhead htail =>
      rw [depthElements, Nat.max_le] at hdepth
      rw [List.mapM_cons, hread a _ hhead hdepth.1, ih htail hdepth.2]
      rfl

theorem Json.Entries.Finds.list {e : Entries} {levels : Nat} {key : String} {α : Type}
    {pattern : α → Pattern} {as : List α} {read : Json → Option α}
    (h : e.Finds levels (Pattern.list key pattern as))
    (hread : ∀ a j, (pattern a).Matches j → j.depth ≤ levels → read j = some a) :
    e.defaulted key [] (fun j => do (← j.array?).mapM read) = some as := by
  refine h.defaulted (fun j hj hdepth => ?_) List.isEmpty_iff.mp
  cases hj with
  | array hall => exact mapM_of_matchesAll hall (Nat.le_of_succ_le hdepth) hread

theorem bind_of_eq {α β : Type} {x : Option α} {a : α} {f : α → Option β} {y : Option β}
    (hx : x = some a) (hf : f a = y) : x >>= f = y := by
  rw [hx]
  exact hf

theorem Comment.ofEntries?_of_finds {c : Comment} {e : Entries} {levels : Nat} (place : Place)
    (h : e.FindsAll levels [word "kind" c.kind, must "content" (.string c.content)]) :
    Comment.ofEntries? place e = some c := by
  obtain ⟨hkind, hcontent, -⟩ := h
  have hword : Keyword.ofString? (Keyword.keyword c.kind) = some c.kind := by
    cases c.kind <;> rfl
  exact bind_of_eq (hkind.word hword) (bind_of_eq hcontent.string rfl)

theorem Comment.ofJson?_of_matches {c : Comment} {j : Json} (place : Place)
    (h : c.pattern.Matches j) : Comment.ofJson? place j = some c := by
  obtain ⟨e, rfl, he⟩ := h.finds (of_decide_eq_true rfl) (Nat.le_succ j.depth)
  exact Comment.ofEntries?_of_finds place he

namespace Json.Entries.Finds

variable {e : Entries} {levels : Nat} {r : NodeReader}

theorem comment {c : Option Comment} (h : e.Finds levels (option "comment" Comment.pattern c)) :
    e.comment? r = some c :=
  h.optional (fun _ _ hj _ => Comment.ofJson?_of_matches r.place hj) rfl

theorem trailing {cs : List Comment}
    (h : e.Finds levels (Pattern.list "trailing_comments" Comment.pattern cs)) :
    e.trailingComments? r = some cs :=
  h.list fun _ _ hj _ => Comment.ofJson?_of_matches r.place hj

end Json.Entries.Finds

/-- Whether an absent child can be told from a present one everywhere. -/
def Category.isDistinct : Category → Bool
  | .optional (.optional _) => false
  | .optional c => c.isDistinct
  | .many c => c.isDistinct
  | _ => true

/-- The reader for nodes in a place, whose values nest at most `levels` deep. -/
abbrev Decode.reader (place : Place) (levels : Nat) : NodeReader :=
  { place := place, read := Decode.nodeWithin levels }

/-- However the node is written, it is read back. -/
def Node.Reads {c : Category} (n : Node c) : Prop :=
  c.isDistinct = true → ∀ (levels : Nat) (place : Place) (j : Json), n.pattern.Matches j →
    j.depth ≤ levels → Decode.nodeWithin levels place c j = some n

theorem Node.eq_nil_of_isDefault {c : Category} {ns : Node (.many c)} (h : ns.isDefault = true) :
    ns = .nil := by
  cases ns with
  | nil => rfl
  | cons => cases h

theorem Node.eq_absent_of_isDefault {c : Category} {n : Node (.optional c)}
    (h : n.isDefault = true) : n = .absent := by
  cases n with
  | absent => rfl
  | present => cases h

theorem Block.eq_of_isDefault {b : Block} (h : b.isDefault = true) : b = .block .nil [] := by
  cases b with
  | block statements trailing =>
    cases statements with
    | nil =>
      cases trailing with
      | nil => rfl
      | cons => cases h
    | cons => cases h

namespace Json.Entries.Finds

variable {e : Entries} {levels : Nat} {place : Place} {key : String} {c : Category}

theorem child {n : Node c} (h : e.Finds levels (must key n.pattern)) (hn : n.Reads)
    (hc : c.isDistinct = true := by rfl) : e.child? (Decode.reader place levels) c key = some n :=
  h.required fun j hj hdepth => hn hc levels place j hj hdepth

theorem children {ns : Node (.many c)} (h : e.Finds levels (key, ns.isDefault, ns.pattern))
    (hns : ns.Reads) (hc : c.isDistinct = true := by rfl) :
    e.children? (Decode.reader place levels) c key = some ns :=
  h.defaulted (fun j hj hdepth => hns hc levels place j hj hdepth) Node.eq_nil_of_isDefault

theorem optionalChild {n : Node (.optional c)} (h : e.Finds levels (key, n.isDefault, n.pattern))
    (hn : n.Reads) (hc : (Category.optional c).isDistinct = true := by rfl) :
    e.optionalChild? (Decode.reader place levels) c key = some n :=
  h.defaulted (fun j hj hdepth => hn hc levels place j hj hdepth) Node.eq_absent_of_isDefault

theorem blockOrEmpty {b : Block} (h : e.Finds levels (key, b.isDefault, b.pattern)) (hb : b.Reads) :
    e.defaulted key (.block .nil []) ((Decode.reader place levels).here .block) = some b :=
  h.defaulted (fun j hj hdepth => hb rfl levels place j hj hdepth) Block.eq_of_isDefault

end Json.Entries.Finds

theorem tagged?_of_matches {key name : String} {kind : Kind} {rows : List Pattern.Row} {j : Json}
    {levels : Nat} (place : Place) (kinds : List Kind)
    (h : (Pattern.object (tag key name :: rows)).Matches j)
    (hnodup : (key :: Pattern.keys rows).Nodup)
    (hkind : (kinds.find? fun k => k.name == name) = some kind) (hdepth : j.depth ≤ levels + 1) :
    ∃ e : Entries, j = .object e ∧ e.FindsAll levels rows
      ∧ j.tagged? place key kinds = some { kind := kind, content := j } := by
  have hsound := h.isSound
  obtain ⟨e, rfl, htag, hrows⟩ := h.finds hnodup hdepth
  refine ⟨e, rfl, hrows, ?_⟩
  rcases htag with ⟨j, hfield, hj, -⟩ | ⟨hmiss, -⟩
  · cases hj
    have hsplit : (Json.object e).splitTag? key = some (.string name, .object e) := by
      rw [splitTag?]
      change e.field? key = _ at hfield
      rw [hfield]
    rw [tagged?, hsound, Bool.or_true, if_pos rfl]
    exact bind_of_eq hsplit (bind_of_eq hkind rfl)
  · cases hmiss

/-- A field that holds a tagged object. -/
theorem Json.Entries.Finds.tagged {e : Entries} {levels : Nat} {key name : String} {mayMiss : Bool}
    {kind : Kind} {rows : List Pattern.Row} (place : Place) (kinds : List Kind)
    (h : e.Finds levels (key, mayMiss, .object (tag "kind" name :: rows)))
    (hnodup : ("kind" :: Pattern.keys rows).Nodup)
    (hkind : (kinds.find? fun k => k.name == name) = some kind) :
    (∃ inner : Entries, e.field? key = some (some (.object inner)) ∧ inner.FindsAll levels rows
      ∧ (Json.object inner).tagged? place "kind" kinds
        = some { kind := kind, content := .object inner })
    ∨ mayMiss = true ∧ e.field? key = some none := by
  rcases h with ⟨j, hfield, hj, hdepth⟩ | hmissing
  · obtain ⟨inner, rfl, hrows, htagged⟩ :=
      tagged?_of_matches place kinds hj hnodup hkind (Nat.le_succ_of_le hdepth)
    exact .inl ⟨inner, hfield, hrows, htagged⟩
  · exact .inr hmissing

namespace Node.Reads

variable {c : Category} {n : Node c}

theorem of_node (h : c.isDistinct = true → ∀ (levels : Nat) (place : Place) (j : Json),
    n.pattern.Matches j → j.depth ≤ levels + 1 →
      Decode.node (Decode.reader place levels) c j = some n) : n.Reads := by
  intro hc levels place j hj hdepth
  cases levels with
  | zero => exact absurd j.depth_pos (Nat.not_lt.mpr hdepth)
  | succ levels => exact h hc levels place j hj hdepth

/-- A node without a tag. -/
theorem of_fields {rows : List Pattern.Row} (hpattern : n.pattern = .object rows)
    (hnodup : (Pattern.keys rows).Nodup)
    (hread : ∀ (place : Place) (levels : Nat) (e : Entries), e.FindsAll levels rows →
      Decode.node (Decode.reader place levels) c (.object e) = some n) : n.Reads := by
  refine of_node fun _ levels place j hj hdepth => ?_
  rw [hpattern] at hj
  obtain ⟨e, rfl, he⟩ := hj.finds hnodup hdepth
  exact hread place levels e he

/-- A node with a tag, whose kinds `of` tells apart. -/
theorem of_kind {of : NodeReader → String → Entries → Option (Node c)} {key name : String}
    {kinds : List Kind} {kind : Kind} {rows : List Pattern.Row}
    (hnode : ∀ (r : NodeReader) (j : Json) (t : Tagged) (e : Entries),
      j.tagged? r.place key kinds = some t → t.entries? = some e → t.kind.name = name →
      Decode.node r c j = of r.inside name e)
    (hkinds : ∀ kind ∈ kinds, (key :: kind.fields).Nodup)
    (hpattern : n.pattern = .object (tag key name :: rows))
    (hkind : (kinds.find? fun k => k.name == name) = some kind)
    (hkeys : Pattern.keys rows = kind.fields)
    (hread : ∀ (levels : Nat) (e : Entries), e.FindsAll levels rows →
      of (Decode.reader .inside levels) name e = some n) : n.Reads := by
  refine of_node fun _ levels place j hj hdepth => ?_
  rw [hpattern] at hj
  have hnodup := hkinds kind (List.mem_of_find?_eq_some hkind)
  rw [← hkeys] at hnodup
  obtain ⟨e, rfl, he, htagged⟩ := tagged?_of_matches place kinds hj hnodup hkind hdepth
  have hname : kind.name = name := by simpa using List.find?_some hkind
  rw [hnode _ _ _ e htagged rfl hname]
  exact hread levels e he

/-- A node that is another one with a tag in front of its fields. -/
theorem of_inner {c' : Category} {inner : Node c'} {key name : String} {kind : Kind}
    {rows : List Pattern.Row} (kinds : List Kind) (hinner : inner.Reads) (hc : c'.isDistinct = true)
    (hrows : inner.pattern = .object rows) (hnodup : (key :: Pattern.keys rows).Nodup)
    (hpattern : n.pattern = inner.pattern.tagged key name)
    (hkind : (kinds.find? fun k => k.name == name) = some kind)
    (hread : ∀ (place : Place) (levels : Nat) (e : Entries),
      (Json.object e).tagged? place key kinds = some { kind := kind, content := .object e } →
      Decode.node (Decode.reader .inside levels) c' (.object e) = some inner →
      Decode.node (Decode.reader place levels) c (.object e) = some n) : n.Reads := by
  refine of_node fun _ levels place j hj hdepth => ?_
  rw [hpattern, hrows] at hj
  -- the tag is one more entry that the reader of the inner node passes over
  have hwithout : inner.pattern.Matches j := hrows ▸ hj.tail (List.nodup_cons.mp hnodup).1
  have hread' := hinner hc (levels + 1) .inside j hwithout hdepth
  obtain ⟨e, rfl, -, htagged⟩ := tagged?_of_matches place kinds hj hnodup hkind hdepth
  exact hread place levels e htagged hread'

end Node.Reads

section Kinds

variable {name : String} {kind : Kind} {rows : List Pattern.Row}

theorem TypeDecl.reads {n : TypeDecl} (hpattern : n.pattern = .object (tag "kind" name :: rows))
    (hkind : (Schema.typeDecl.find? fun k => k.name == name) = some kind)
    (hkeys : Pattern.keys rows = kind.fields)
    (hread : ∀ (levels : Nat) (e : Entries), e.FindsAll levels rows →
      Decode.typeDeclOf (Decode.reader .inside levels) name e = some n) : n.Reads := by
  refine .of_kind ?_ (by decide) hpattern hkind hkeys hread
  rintro r j t e ht he rfl
  exact bind_of_eq ht (bind_of_eq he rfl)

theorem TypeUse.reads {n : TypeUse} (hpattern : n.pattern = .object (tag "kind" name :: rows))
    (hkind : (Schema.typeUse.find? fun k => k.name == name) = some kind)
    (hkeys : Pattern.keys rows = kind.fields)
    (hread : ∀ (levels : Nat) (e : Entries), e.FindsAll levels rows →
      Decode.typeUseOf (Decode.reader .inside levels) name e = some n) : n.Reads := by
  refine .of_kind ?_ (by decide) hpattern hkind hkeys hread
  rintro r j t e ht he rfl
  exact bind_of_eq ht (bind_of_eq he rfl)

theorem LambdaBody.reads {n : Node .lambdaBody}
    (hpattern : n.pattern = .object (tag "kind" name :: rows))
    (hkind : (Schema.lambdaBody.find? fun k => k.name == name) = some kind)
    (hkeys : Pattern.keys rows = kind.fields)
    (hread : ∀ (levels : Nat) (e : Entries), e.FindsAll levels rows →
      Decode.lambdaBodyOf (Decode.reader .inside levels) name e = some n) : n.Reads := by
  refine .of_kind ?_ (by decide) hpattern hkind hkeys hread
  rintro r j t e ht he rfl
  exact bind_of_eq ht (bind_of_eq he rfl)

theorem Expr.reads {n : Expr} (hpattern : n.pattern = .object (tag "kind" name :: rows))
    (hkind : (Schema.expr.find? fun k => k.name == name) = some kind)
    (hkeys : Pattern.keys rows = kind.fields)
    (hread : ∀ (levels : Nat) (e : Entries), e.FindsAll levels rows →
      Decode.exprOf (Decode.reader .inside levels) name e = some n) : n.Reads := by
  refine .of_kind ?_ (by decide) hpattern hkind hkeys hread
  rintro r j t e ht he rfl
  exact bind_of_eq ht (bind_of_eq he rfl)

theorem Member.reads {n : Member} (hpattern : n.pattern = .object (tag "member" name :: rows))
    (hkind : (Schema.member.find? fun k => k.name == name) = some kind)
    (hkeys : Pattern.keys rows = kind.fields)
    (hread : ∀ (levels : Nat) (e : Entries), e.FindsAll levels rows →
      Decode.memberOf (Decode.reader .inside levels) name e = some n)
    (hname : (name == "type") = false := by rfl) : n.Reads := by
  refine .of_kind ?_ (by decide) hpattern hkind hkeys hread
  rintro r j t e ht he rfl
  refine bind_of_eq ht ?_
  rw [hname]
  exact bind_of_eq he rfl

theorem Stmt.reads {n : Stmt} (hpattern : n.pattern = .object (tag "stmt" name :: rows))
    (hkind : (Schema.stmt.find? fun k => k.name == name) = some kind)
    (hkeys : Pattern.keys rows = kind.fields)
    (hread : ∀ (levels : Nat) (e : Entries), e.FindsAll levels rows →
      Decode.stmtOf (Decode.reader .inside levels) name e = some n)
    (hname : (name == "local_class") = false := by rfl) : n.Reads := by
  refine .of_kind ?_ (by decide) hpattern hkind hkeys hread
  rintro r j t e ht he rfl
  refine bind_of_eq ht ?_
  rw [hname]
  exact bind_of_eq he rfl

end Kinds

end TypeScribe
