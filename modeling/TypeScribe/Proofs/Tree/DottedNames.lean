import TypeScribe.Proofs.Text.Segments
import TypeScribe.Tree.ClassType

/-!
# Dotted names of class types

A class type is read from a dotted name by putting one name after the other under the chain so far,
and written by walking from its last name to its root. Every text is the dotted name of the type
that is read from it, empty names included. A type whose names have no dot is read back from its
dotted name, except for what a dotted name does not show: type arguments and annotations.
-/
namespace TypeScribe
set_option autoImplicit false

/-- A class type with its names alone: neither it nor a scope of it keeps type arguments or
annotations. -/
def Node.namesOnly : {c : Category} → Node c → Node c
  | _, .classType scope name _ _ => .classType scope.namesOnly name .absent .nil
  | _, .present n => .present n.namesOnly
  | _, n => n

namespace ClassType

@[elab_as_elim]
theorem inductionOn {motive : ClassType → Prop} (t : ClassType)
    (outermost : ∀ name typeArguments annotations,
      motive (.classType .absent name typeArguments annotations))
    (nested : ∀ scope name typeArguments annotations, motive scope →
      motive (.classType (.present scope) name typeArguments annotations)) : motive t :=
  match t with
  | .classType .absent name typeArguments annotations => outermost name typeArguments annotations
  | .classType (.present scope) name typeArguments annotations =>
    nested scope name typeArguments annotations (inductionOn scope outermost nested)
termination_by sizeOf t

/-- The chain of names that starts with `first` and goes on under it. -/
def chain (first : String) (rest : List String) : ClassType := rest.foldl inScope (simple first)

theorem segments_foldl (names : List String) (scope : ClassType) :
    (names.foldl inScope scope).segments = scope.segments ++ names := by
  induction names generalizing scope with
  | nil => exact (List.append_nil _).symm
  | cons name names ih =>
    rw [List.foldl_cons, ih, List.append_cons]
    rfl

theorem root_foldl (names : List String) (scope : ClassType) :
    (names.foldl inScope scope).root = scope.root := by
  induction names generalizing scope with
  | nil => rfl
  | cons name names ih =>
    rw [List.foldl_cons, ih]
    rfl

theorem segments_chain (first : String) (rest : List String) :
    (chain first rest).segments = first :: rest :=
  segments_foldl rest (simple first)

theorem root_chain (first : String) (rest : List String) : (chain first rest).root = simple first :=
  root_foldl rest (simple first)

theorem namesOnly_eq_chain (t : ClassType) :
    ∃ first rest, t.segments = first :: rest ∧ t.namesOnly = chain first rest := by
  -- The type ends in its last name and the chain starts with its first, so a name is added behind.
  induction t using inductionOn with
  | outermost name typeArguments annotations => exact ⟨name, [], rfl, rfl⟩
  | nested scope name typeArguments annotations ih =>
    obtain ⟨first, rest, hsegments, hnames⟩ := ih
    refine ⟨first, rest ++ [name], congrArg (· ++ [name]) hsegments, ?_⟩
    rw [chain, List.foldl_append]
    exact congrArg (inScope · name) hnames

theorem parse_eq_chain {s first : String} {rest : List String}
    (h : Text.segments (· == '.') s = first :: rest) : parse s = chain first rest := by
  change Text.segments isDot s = _ at h
  rw [parse, h]
  rfl

theorem segments_parse (s : String) : (parse s).segments = Text.segments (· == '.') s := by
  rw [parse_eq_chain rfl, segments_chain]
  rfl

theorem dotted_parse (s : String) : (parse s).dotted = s := by
  rw [dotted, segments_parse]
  exact Text.joinWith_segments '.' s

theorem head?_segments_parse (s : String) :
    (Text.segments (· == '.') s).head? = some (name (parse s).root) := by
  rw [parse_eq_chain rfl, root_chain]
  rfl

theorem parse_dotted {t : ClassType} (h : ∀ name ∈ t.segments, '.' ∉ name.toList) :
    parse t.dotted = t.namesOnly := by
  obtain ⟨first, rest, hsegments, hnames⟩ := t.namesOnly_eq_chain
  rw [hsegments] at h
  rw [hnames, dotted, hsegments]
  exact parse_eq_chain (Text.segments_joinWith h)

/-- Reading and writing dotted names undo each other. A text is the dotted name of the type read
from it, whose names are the parts of the text between dots, from its root on. A type whose names
have no dot is read back from its dotted name without its type arguments and annotations. -/
theorem dotted_reads_back :
    (∀ s : String,
      (parse s).dotted = s ∧
      (parse s).segments = (s.split '.').toList.map String.Slice.copy ∧
      ((s.split '.').toList.map String.Slice.copy).head? = some (name (parse s).root)) ∧
    ∀ t : ClassType, (∀ name ∈ t.segments, '.' ∉ name.toList) → parse t.dotted = t.namesOnly := by
  refine ⟨fun s => ?_, fun t => parse_dotted⟩
  rw [← Text.segments_eq_split]
  exact ⟨dotted_parse s, segments_parse s, head?_segments_parse s⟩

/-- The type `.Map<K>.@Valid Entry<>`, under a scope without a name. -/
def annotatedEntry : ClassType :=
  .classType (.present ((inScope (simple "") "Map").withTypeArguments [.ofDotted "K"])) "Entry"
    (.present .nil) (.cons (.annotationMarker "Valid") .nil)

theorem annotatedEntry_reads_back :
    annotatedEntry.segments = ["", "Map", "Entry"] ∧
      (∀ name ∈ annotatedEntry.segments, '.' ∉ name.toList) ∧
      parse ".Map.Entry" = inScope (inScope (simple "") "Map") "Entry" := by
  have hdots : ∀ name ∈ annotatedEntry.segments, '.' ∉ name.toList := by decide
  exact ⟨rfl, hdots, dotted_reads_back.2 annotatedEntry hdots⟩

end ClassType
end TypeScribe
