import TypeScribe.Proofs.Moves.Layout
import TypeScribe.Proofs.Moves.Level

/-!
# The modules behind a root

The script of a declaration moves the first level below it, and the body of a moved declaration
moves what stands directly in it. No route is met twice, so the queue accepts every declaration, and
its waves are the levels below the root. The modules behind a root are those of its moved sites, in
order.
-/
namespace TypeScribe
set_option autoImplicit false

/-- A document inside modules with the given names, outermost first. -/
def inModules (names : List String) (d : Doc) : Doc :=
  (names.flatMap fun name => Doc.line ("export module " ++ name ++ " \x7b") ++ [.indent])
    ++ d ++ Doc.newline ++ names.flatMap fun _ => .outdent :: Doc.line "\x7d"

namespace Site

def content (s : Site) : Doc := DeclShape.content (s.decl.script s.context)

def body (s : Site) : Doc := Script.moduleDecl s.decl (s.decl.script s.context)

def asModule (s : Site) : Module := { names := s.chain.map TypeDecl.name, body := s.body }

def entry (s : Site) : Route × Module := (s.route, s.asModule)

/-- The name of the declaration directly around the site. -/
def enclosing (s : Site) : String := (s.chain.getLast?.map TypeDecl.name).getD ""

/-- The declaration in its place, around what follows its modifiers. A class is the value of a
property, and unless it is static it stands in a closure over the instance of the declaration around
it. -/
def inline (s : Site) (content : Doc) : Doc :=
  match s.decl with
  | .enumDecl .. =>
    Doc.comment s.decl.comment ++ s.annotations ++ Script.modifiers s.decl.modifiers ++ content
  | _ =>
    Doc.comment s.decl.comment ++ s.annotations
      ++ Script.modifiers (s.decl.modifiers.erase .abstract)
      ++ Doc.text s.decl.name ++ Doc.text " = "
      ++ if s.decl.isStatic then content
        else Doc.text ("((" ++ s.enclosing ++ "_this) => ") ++ content ++ Doc.text ")(this);"

/-- What is left in the place of a moved declaration. -/
def placeholder (s : Site) : Doc :=
  Doc.text ("// class or interface '" ++ s.decl.name ++ "' is export in module after root class")

theorem memberDoc_eq {s e : Site} (h : e ∈ s.nested) :
    e.memberDoc =
      if e.IsMoved then
        .moved e.route (e.chain.map TypeDecl.name) e.body :: e.placeholder
      else e.inline e.content := by
  have henclosing : e.context.enclosingName? = some s.decl.name := by
    rw [Context.enclosingName?, scope_of_mem_nested h]
    rfl
  have hname : e.enclosing = s.decl.name := by
    rw [enclosing, chain_of_mem_nested h, List.getLast?_concat]
    rfl
  simp only [isMoved_iff, memberDoc, inline, Script.nestedType, henclosing, hname,
    ← script_annotations]
  rfl

theorem IsRegular.moves_inline {s : Site} (h : s.IsRegular) (d : Doc) :
    moves (s.inline d) = moves d := by
  have hannotations := h.annotations_still.moves_eq
  have hmodifiers (mods : ModifierSet) := Doc.IsStill.moves_eq (stays_plainly.composes.modifiers mods)
  unfold inline
  split
  · simp [hannotations, hmodifiers]
  · simp only [moves_append, moves_comment, moves_text, hannotations, hmodifiers]
    split <;> simp

theorem IsRegular.moves_body {s : Site} (h : s.IsRegular) : moves s.body = moves s.content := by
  have hannotations := h.annotations_still.moves_eq
  simp [body, Script.moduleDecl, script_annotations, hannotations, content]

/-- The script of a declaration moves the first level below it. -/
theorem IsRegular.moves_content {s : Site} (h : s.IsRegular) :
    moves s.content = (s.atLevel (s.level + 1)).map entry := by
  induction s using inductionOn with
  | step s ih =>
    rw [content, s.script_content h.frames, h.layout_ownStill.moves_flatMap, layout_sites,
      atLevel_next, List.map_flatMap]
    refine List.flatMap_congr ?_
    intro e he
    rw [memberDoc_eq he]
    split
    · rfl
    · rw [(h.nested he).moves_inline, ih e he (h.nested he)]

theorem IsRegular.moves_body_of_isMoved {s : Site} (h : s.IsRegular) (hmoved : s.IsMoved) :
    moves s.body = s.nested.map entry := by
  rw [h.moves_body, h.moves_content, atLevel_next_of_isMoved hmoved]

end Site

theorem ModuleQueue.enqueueMany_fresh {α : Type} (q : ModuleQueue α) {entries : List (Route × α)}
    (hnodup : (entries.map Prod.fst).Nodup) (hfresh : ∀ entry ∈ entries, entry.1 ∉ q.seen) :
    q.enqueueMany entries =
      { pending := q.pending ++ entries, seen := (entries.map Prod.fst).reverse ++ q.seen } := by
  induction entries generalizing q with
  | nil => simp [enqueueMany]
  | cons entry rest ih =>
    obtain ⟨hentry, hrest⟩ := List.nodup_cons.mp hnodup
    obtain ⟨hfirst, hfresh⟩ := List.forall_mem_cons.mp hfresh
    have haccepts : q.accepts entry.1 = true := by simpa [accepts] using hfirst
    change (q.enqueue entry.1 entry.2).enqueueMany rest = _
    rw [enqueue, if_pos haccepts, ih _ hrest ?_]
    · simp
    · intro e he hseen
      rcases List.mem_cons.mp hseen with heq | hseen
      · exact hentry (heq ▸ List.mem_map_of_mem he)
      · exact hfresh e he hseen

namespace Site

/-- A wave of moved sites is queued, and nothing that stands in them has been met. -/
structure Queued (wave : List Site) (q : ModuleQueue Module) : Prop where
  pending : q.pending = wave.map entry
  regular : ∀ s ∈ wave, s.IsRegular
  moved : ∀ s ∈ wave, s.IsMoved
  nodup : ((wave.flatMap within).map route).Nodup
  fresh : ∀ e ∈ wave.flatMap within, e.route ∉ q.seen

theorem routes_eq (wave : List Site) : (wave.map entry).map Prod.fst = wave.map route := by
  rw [List.map_map]
  rfl

theorem within_perm (wave : List Site) :
    (wave.flatMap within).Perm
      (wave.flatMap nested ++ (wave.flatMap nested).flatMap within) := by
  have hsplit : wave.flatMap within =
      (wave.flatMap nested).flatMap fun e => [e] ++ e.within := by
    rw [List.flatMap_assoc]
    refine List.flatMap_congr ?_
    intro s _
    exact s.within_eq
  have hperm := (List.flatMap_append_perm (wave.flatMap nested) (fun e => [e]) within).symm
  rw [List.flatMap_singleton'] at hperm
  rw [hsplit]
  exact hperm

theorem Queued.enqueue {wave : List Site} {q : ModuleQueue Module} (hpending : q.pending = [])
    (hregular : ∀ s ∈ wave, s.IsRegular) (hmoved : ∀ s ∈ wave, s.IsMoved)
    (hnodup : ((wave ++ wave.flatMap within).map route).Nodup)
    (hfresh : ∀ e ∈ wave ++ wave.flatMap within, e.route ∉ q.seen) :
    Queued wave (q.enqueueMany (wave.map entry)) := by
  rw [List.map_append, List.nodup_append] at hnodup
  obtain ⟨hwave, hinner, hdisjoint⟩ := hnodup
  have hentries : ∀ queued ∈ wave.map entry, queued.1 ∉ q.seen := by
    intro queued hqueued
    obtain ⟨s, hs, rfl⟩ := List.mem_map.mp hqueued
    exact hfresh s (List.mem_append_left _ hs)
  rw [← routes_eq] at hwave
  rw [q.enqueueMany_fresh hwave hentries]
  refine ⟨?_, hregular, hmoved, hinner, ?_⟩
  · rw [hpending, List.nil_append]
  · intro e he hseen
    rcases List.mem_append.mp hseen with hseen | hseen
    · rw [List.mem_reverse, routes_eq] at hseen
      exact hdisjoint _ hseen _ (List.mem_map_of_mem he) rfl
    · exact hfresh e (List.mem_append_right _ he) hseen

theorem Queued.moves_eq {wave : List Site} {q : ModuleQueue Module} (h : Queued wave q) :
    ((wave.map asModule).flatMap fun m => moves m.body) = (wave.flatMap nested).map entry := by
  rw [List.flatMap_map, List.map_flatMap]
  refine List.flatMap_congr ?_
  intro s hs
  exact (h.regular s hs).moves_body_of_isMoved (h.moved s hs)

theorem Queued.step {wave : List Site} {q : ModuleQueue Module} (h : Queued wave q) :
    Queued (wave.flatMap nested)
      (q.takeWave.2.enqueueMany ((wave.flatMap nested).map entry)) := by
  have hperm := within_perm wave
  refine Queued.enqueue rfl ?_ ?_ ?_ ?_
  · intro e he
    obtain ⟨s, hs, he⟩ := List.mem_flatMap.mp he
    exact (h.regular s hs).nested he
  · intro e he
    obtain ⟨s, hs, he⟩ := List.mem_flatMap.mp he
    exact isMoved_of_mem_nested he (h.moved s hs)
  · exact (hperm.map route).nodup_iff.mp h.nodup
  · intro e he
    exact h.fresh e (hperm.mem_iff.mpr he)

theorem drain_eq_waves (n : Nat) {wave : List Site} {q : ModuleQueue Module} (h : Queued wave q) :
    drain n q = (waves n wave).map asModule := by
  induction n generalizing wave q with
  | zero => rfl
  | succ n ih =>
    have hwave : q.takeWave.1.map Prod.snd = wave.map asModule := by
      change q.pending.map Prod.snd = _
      rw [h.pending, List.map_map]
      rfl
    rw [drain, waves, List.map_append, hwave, h.moves_eq]
    exact congrArg _ (ih h.step)

end Site

theorem depth_le_depthOf {p : Piece} {d : Doc} (h : p ∈ d) : p.depth ≤ depthOf d := by
  induction d with
  | nil => cases h
  | cons q rest ih =>
    rw [depthOf]
    rcases List.mem_cons.mp h with rfl | h
    · exact Nat.le_max_left _ _
    · exact Nat.le_trans (ih h) (Nat.le_max_right _ _)

theorem depthOf_mono {d e : Doc} (h : ∀ p ∈ d, p ∈ e) : depthOf d ≤ depthOf e := by
  induction d with
  | nil => exact Nat.zero_le _
  | cons p rest ih =>
    obtain ⟨hp, hrest⟩ := List.forall_mem_cons.mp h
    rw [depthOf]
    exact Nat.max_le.mpr ⟨depth_le_depthOf hp, ih hrest⟩

namespace Site

theorem depthOf_le_inline (s : Site) (d : Doc) : depthOf d ≤ depthOf (s.inline d) := by
  refine depthOf_mono ?_
  intro p hp
  unfold inline
  split
  · simp [hp]
  · simp only [List.mem_append]
    split <;> simp [hp]

theorem depthOf_le_body (s : Site) : depthOf s.content ≤ depthOf s.body := by
  refine depthOf_mono ?_
  intro p hp
  exact List.mem_append_right _ hp

theorem IsRegular.depthOf_memberDoc {s e : Site} (h : s.IsRegular) (he : e ∈ s.nested) :
    depthOf e.memberDoc ≤ depthOf s.content := by
  refine depthOf_mono ?_
  intro p hp
  rw [content, s.script_content h.frames]
  have hpart : e ∈ s.layout.filterMap Part.site? := by rwa [layout_sites]
  obtain ⟨part, hpart, hsite⟩ := List.mem_filterMap.mp hpart
  refine List.mem_flatMap.mpr ⟨part, hpart, ?_⟩
  cases part with
  | own d => cases hsite
  | nested e' =>
    cases hsite
    exact hp

/-- The levels below a site are bounded by the depth of its script. -/
theorem IsRegular.level_le {s e : Site} (h : s.IsRegular) (he : e ∈ s.within) :
    e.level ≤ s.level + depthOf s.content := by
  induction s using inductionOn with
  | step s ih =>
    rw [within_eq] at he
    obtain ⟨d, hd, he⟩ := List.mem_flatMap.mp he
    have hlevel := level_of_mem_nested hd
    have hinner : e.level ≤ d.level + depthOf d.content := by
      rcases List.mem_cons.mp he with rfl | he
      · exact Nat.le_add_right _ _
      · exact ih d hd (h.nested hd) he
    have hdepth := h.depthOf_memberDoc hd
    rw [memberDoc_eq hd] at hdepth
    split at hlevel
    · next hmoved =>
      rw [if_pos hmoved] at hdepth
      have hbody := d.depthOf_le_body
      have hpiece : depthOf d.body + 1 ≤ depthOf s.content :=
        Nat.le_trans (depth_le_depthOf (p := .moved d.route _ d.body) List.mem_cons_self) hdepth
      omega
    · next hmoved =>
      rw [if_neg hmoved] at hdepth
      have hinline := d.depthOf_le_inline d.content
      omega

def root (s : Site) : Doc := Script.rootDecl s.decl (s.decl.script s.context)

theorem IsRegular.moves_root {s : Site} (h : s.IsRegular) : moves s.root = moves s.content := by
  have hannotations := h.annotations_still.moves_eq
  simp only [root, Script.rootDecl, moves_append, moves_comment, script_annotations, hannotations,
    content]
  split <;> rfl

theorem IsRegular.height_le_depthOf {s : Site} (h : s.IsRegular) (hs : s.level = 0) :
    s.height ≤ depthOf s.root := by
  have hroot : depthOf s.content ≤ depthOf s.root :=
    depthOf_mono fun p hp => List.mem_append_right _ hp
  refine height_le ?_
  intro e he
  have hlevel := h.level_le he
  omega

theorem waves_eq_moved {s : Site} (hs : s.level = 0) {n : Nat} (hn : s.height ≤ n) :
    waves n (s.atLevel 1) = s.moved := by
  obtain ⟨extra, rfl⟩ := Nat.exists_eq_add_of_le hn
  have hextra : ((List.range extra).flatMap fun j => s.atLevel (1 + (s.height + j))) = [] := by
    refine List.flatMap_eq_nil_iff.mpr ?_
    intro j _
    refine List.filter_eq_nil_iff.mpr ?_
    intro e he
    have hle := level_le_height he
    simp only [decide_eq_true_eq]
    omega
  rw [waves_atLevel hs _ Nat.one_pos, List.range_add, List.flatMap_append, List.flatMap_map, hextra,
    List.append_nil, moved]
  simp only [Nat.add_comm 1]

/-- The modules behind a root hold what is moved out of it, level by level. -/
theorem IsRegular.modules_root {s : Site} (h : s.IsRegular) (hs : s.level = 0) :
    modules s.root = s.moved.map asModule := by
  have hfirst : moves s.root = (s.atLevel 1).map entry := by
    rw [h.moves_root, h.moves_content, hs]
  have hmem {e : Site} (he : e ∈ s.atLevel 1) : e ∈ s.within ∧ e.level = 1 := by
    simpa [atLevel] using he
  have hnodup : ((s.atLevel 1 ++ (s.atLevel 1).flatMap Site.within).map route).Nodup := by
    have hperm := s.filter_level_perm
    rw [hs] at hperm
    refine (hperm.map route).nodup_iff.mp ?_
    exact s.within_routes_nodup.sublist (List.filter_sublist.map route)
  have hqueued : Queued (s.atLevel 1)
      (({} : ModuleQueue Module).enqueueMany ((s.atLevel 1).map entry)) := by
    refine Queued.enqueue rfl (fun e he => h.within (hmem he).1) ?_ hnodup ?_
    · intro e he
      exact isMoved_of_level_pos (by rw [(hmem he).2]; exact Nat.one_pos)
    · intro e _ hseen
      cases hseen
  rw [modules, hfirst, drain_eq_waves _ hqueued, waves_eq_moved hs (h.height_le_depthOf hs)]

end Site
end TypeScribe
