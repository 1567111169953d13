import TypeScribe.Proofs.ClassIndex.History
import TypeScribe.Proofs.Resolution.Endings

/-!
# The parts of a binary name

A binary name is written from a package, an outermost type and the types nested in it. A descriptor
reads them off again, the package from the front up to the first nesting sign, the simple name from
the end. Names without separators make every such reading exact, also where they are empty.
-/
namespace TypeScribe
set_option autoImplicit false

theorem packageLead_sign {package : String} (h : nestingSign ∉ package.toList) :
    nestingSign ∉ (packageLead package).toList := by
  rcases packageLead_cases package with ⟨-, hlead⟩ | hlead
  · rw [hlead]
    exact List.not_mem_nil
  · have hdot : nestingSign ≠ '.' := by decide
    rw [hlead]
    simp [h, hdot]

namespace TypeDescriptor

theorem map_dotted_joinWith {names : List String} (h : ∀ s ∈ names, nestingSign ∉ s.toList) :
    (Text.joinWith "$" names).map dotted = Text.joinWith "." names := by
  induction names with
  | nil => exact map_dotted_eq (List.not_mem_nil)
  | cons first rest ih =>
    obtain ⟨hfirst, hrest⟩ := List.forall_mem_cons.mp h
    cases rest with
    | nil => exact map_dotted_eq hfirst
    | cons next rest =>
      have hsign : ("$").map dotted = "." := by
        refine String.toList_inj.mp ?_
        simp [dotted, isNestingSign, nestingSign]
      change (first ++ "$" ++ Text.joinWith "$" (next :: rest)).map dotted = _
      rw [map_dotted_append, map_dotted_append, ih hrest, map_dotted_eq hfirst, hsign]
      rfl

section

variable {package first : String} {rest : List String}

/-- The simple name is the last of the nested names, or the outermost one. -/
theorem lastName_joined (hnames : ∀ s ∈ first :: rest, IsPlainName s) :
    lastName (packageLead package ++ Text.joinWith "$" (first :: rest)) = rest.getLastD first := by
  rcases List.eq_nil_or_concat' rest with rfl | ⟨between, last, rfl⟩
  · exact ((packageLead_isTop package).endsIn first).lastName_eq (hnames first List.mem_cons_self)
  · have hend : EndsIn last (packageLead package ++ Text.joinWith "$" (first :: between ++ [last])) := by
      rw [Text.joinWith_concat, ← String.append_assoc, ← String.append_assoc]
      exact endsIn_behind nestingSign (by decide) _ last
    rw [List.getLastD_concat]
    exact hend.lastName_eq (hnames last (by simp))

/-- The package is what stands before the last dot in front of the first nesting sign. -/
theorem package_joined (hpackage : nestingSign ∉ package.toList)
    (hnames : ∀ s ∈ first :: rest, IsPlainName s) (isInterface : Bool) :
    (ofBinaryName (packageLead package ++ Text.joinWith "$" (first :: rest)) isInterface).package =
      package := by
  obtain ⟨hfirst, hrest⟩ := List.forall_mem_cons.mp hnames
  -- The lead has no nesting sign, so it stays in one segment with the outermost name.
  have houtermost : Text.firstSegment isNestingSign
      (packageLead package ++ Text.joinWith "$" (first :: rest)) = packageLead package ++ first := by
    rw [← Text.joinWith_append_cons]
    refine (List.cons.inj (Text.segments_joinWith ?_)).1
    refine List.forall_mem_cons.mpr ⟨?_, fun s hs => (hrest s hs).2⟩
    have hsign := packageLead_sign hpackage
    simp [hsign, hfirst.2]
  change Text.joinWith "." (Text.segments (· == '.') (Text.firstSegment isNestingSign
    (packageLead package ++ Text.joinWith "$" (first :: rest)))).dropLast = _
  rw [houtermost]
  -- Without a lead the name is the only segment, which is dropped.
  rcases packageLead_cases package with ⟨hempty, hlead⟩ | hlead
  · rw [hlead, hempty, String.empty_append, Text.segments_of_notMem hfirst.1]
    rfl
  · have hsegments := Text.segments_concat package hfirst.1
    rw [hlead]
    change Text.joinWith "." (Text.segments _ (package ++ String.singleton '.' ++ first)).dropLast = _
    rw [hsegments, List.dropLast_concat]
    exact Text.joinWith_segments '.' package

theorem isTopLevel_joined (hpackage : nestingSign ∉ package.toList) (hfirst : IsPlainName first)
    (isInterface : Bool) :
    (ofBinaryName (packageLead package ++ Text.joinWith "$" (first :: rest))
      isInterface).isTopLevel = true ↔ rest = [] := by
  have hlead := packageLead_sign hpackage
  rw [isTopLevel_iff]
  change nestingSign ∉ (packageLead package ++ Text.joinWith "$" (first :: rest)).toList ↔ _
  cases rest with
  | nil => simp [Text.joinWith, hlead, hfirst.2]
  | cons next rest => simp [Text.joinWith, nestingSign]

theorem map_dotted_joined (hpackage : nestingSign ∉ package.toList)
    (hnames : ∀ s ∈ first :: rest, IsPlainName s) :
    (packageLead package ++ Text.joinWith "$" (first :: rest)).map dotted =
      packageLead package ++ Text.joinWith "." (first :: rest) := by
  rw [map_dotted_append, map_dotted_eq (packageLead_sign hpackage),
    map_dotted_joinWith fun name hname => (hnames name hname).2]

end
end TypeDescriptor

/-- Where a type is declared: the segments of a package, an outermost type, and the names nested in
it from there inwards. No name has a separator of binary names. -/
structure TypePath where
  package : List String
  topLevel : String
  nested : List String
  plain : ∀ name ∈ package ++ topLevel :: nested, IsPlainName name

namespace TypePath

variable (p : TypePath)

/-- The joined package and a dot, if there is one, the outermost type, and each nested name behind a
sign. -/
def spelled (sign : String) : String :=
  packageLead (".".intercalate p.package) ++ p.topLevel ++ String.join (p.nested.map (sign ++ ·))

/-- The descriptor of the binary name that the path spells. -/
def descriptor (isInterface : Bool) : TypeDescriptor := .ofBinaryName (p.spelled "$") isInterface

theorem spelled_eq (sign : String) :
    p.spelled sign = packageLead (".".intercalate p.package) ++
      Text.joinWith sign (p.topLevel :: p.nested) := by
  rw [spelled, String.append_assoc, Text.joinWith_cons_eq_join]

theorem package_sign : nestingSign ∉ (".".intercalate p.package).toList := by
  rw [← Text.joinWith_eq_intercalate]
  refine @Text.notMem_joinWith '.' nestingSign (by decide) _ fun name hname => ?_
  exact (p.plain name (List.mem_append_left _ hname)).2

theorem names_plain : ∀ name ∈ p.topLevel :: p.nested, IsPlainName name := fun name hname =>
  p.plain name (List.mem_append_right _ hname)

/-- The descriptor of a path has the simple name, the package and the depth of the path. Its
qualified name is the binary name with dots for nesting signs, which spells the path with dots. -/
theorem descriptor_splits (isInterface : Bool) :
    (p.descriptor isInterface).simpleName = p.nested.getLastD p.topLevel ∧
    (p.descriptor isInterface).package = ".".intercalate p.package ∧
    ((p.descriptor isInterface).isTopLevel = true ↔ p.nested = []) ∧
    (p.descriptor isInterface).qualifiedName =
      (p.spelled "$").map (fun c => if c = '$' then '.' else c) ∧
    (p.descriptor isInterface).qualifiedName = p.spelled "." ∧
    '$' ∉ (p.descriptor isInterface).qualifiedName.toList := by
  have hpackage := p.package_sign
  have hnames := p.names_plain
  have hdots : (fun c => if c = '$' then '.' else c) = TypeDescriptor.dotted := by
    funext c
    simp [TypeDescriptor.dotted, isNestingSign, nestingSign]
  rw [descriptor, hdots, p.spelled_eq "$", p.spelled_eq "."]
  refine ⟨TypeDescriptor.lastName_joined hnames, TypeDescriptor.package_joined hpackage hnames _,
    TypeDescriptor.isTopLevel_joined hpackage (hnames _ List.mem_cons_self) _, rfl,
    TypeDescriptor.map_dotted_joined hpackage hnames, ?_⟩
  exact sign_notMem_map_dotted _

/-- A path with empty names in the package and at its end. -/
def gaps : TypePath where
  package := ["", "a", ""]
  topLevel := "B"
  nested := ["", "C", ""]
  plain := by decide

theorem gaps_splits :
    gaps.spelled "$" = ".a..B$$C$" ∧
      (gaps.descriptor true).simpleName = "" ∧
      (gaps.descriptor true).package = ".a." ∧
      (gaps.descriptor true).isTopLevel = false ∧
      (gaps.descriptor true).qualifiedName = ".a..B..C." := by
  obtain ⟨hsimple, hpackage, htop, -, hqualified, -⟩ := gaps.descriptor_splits true
  refine ⟨by decide, hsimple, ?_, ?_, ?_⟩
  · rw [hpackage]
    decide
  · rw [Bool.eq_false_iff, ne_eq, htop]
    exact List.cons_ne_nil _ _
  · rw [hqualified]
    decide

end TypePath
end TypeScribe
