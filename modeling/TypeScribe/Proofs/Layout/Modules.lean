import TypeScribe.Proofs.Script.Compose

/-!
# The modules behind a document

What holds of the modules that a document moves, and passes from a module to those that it moves in
turn, holds of every module behind the document, however many waves there are.
-/
namespace TypeScribe
set_option autoImplicit false
open Text

@[simp] theorem moves_append (d e : Doc) : moves (d ++ e) = moves d ++ moves e := by
  induction d with
  | nil => rfl
  | cons p rest ih => cases p <;> simp [moves, ih]

@[simp] theorem moves_text (s : String) : moves (Doc.text s) = [] := rfl

@[simp] theorem moves_comment (c : Option Comment) : moves (Doc.comment c) = [] := by
  cases c <;> rfl

theorem depthOf_append (d e : Doc) : depthOf (d ++ e) = max (depthOf d) (depthOf e) := by
  induction d with
  | nil => exact (Nat.zero_max _).symm
  | cons p rest ih =>
    change max p.depth (depthOf (rest ++ e)) = max (max p.depth (depthOf rest)) (depthOf e)
    rw [ih, Nat.max_assoc]

theorem mem_moves {d : Doc} {route : Route} {m : Module} :
    (route, m) ∈ moves d ↔ Piece.moved route m.names m.body ∈ d := by
  induction d with
  | nil => simp [moves]
  | cons p rest ih =>
    cases p with
    | moved route' names body =>
      cases m
      simp [moves, ih]
    | _ => simp [moves, ih]

namespace ModuleQueue

variable {α : Type}

theorem mem_pending_enqueue {q : ModuleQueue α} {route : Route} {a : α} {entry : Route × α}
    (h : entry ∈ (q.enqueue route a).pending) : entry ∈ q.pending ∨ entry = (route, a) := by
  unfold enqueue at h
  split at h
  · simpa using h
  · exact .inl h

theorem mem_pending_enqueueMany {q : ModuleQueue α} {entries : List (Route × α)}
    {entry : Route × α} (h : entry ∈ (q.enqueueMany entries).pending) :
    entry ∈ q.pending ∨ entry ∈ entries := by
  induction entries generalizing q with
  | nil => exact .inl h
  | cons first rest ih =>
    rcases ih h with h | h
    · rcases mem_pending_enqueue h with h | rfl
      · exact .inl h
      · exact .inr List.mem_cons_self
    · exact .inr (List.mem_cons_of_mem _ h)

end ModuleQueue

variable {Q : Module → Prop}

theorem drain_forall (hstep : ∀ m, Q m → ∀ entry ∈ moves m.body, Q entry.2) (waves : Nat)
    (q : ModuleQueue Module) (hq : ∀ entry ∈ q.pending, Q entry.2) : ∀ m ∈ drain waves q, Q m := by
  induction waves generalizing q with
  | zero =>
    intro m hm
    cases hm
  | succ waves ih =>
    have hwave : ∀ m ∈ q.takeWave.1.map Prod.snd, Q m := by
      intro m hm
      obtain ⟨entry, hentry, rfl⟩ := List.mem_map.mp hm
      exact hq entry hentry
    intro m hm
    rcases List.mem_append.mp hm with hm | hm
    · exact hwave m hm
    · refine ih _ ?_ m hm
      intro entry hentry
      -- The queue was emptied, so what is pending was moved by this wave.
      rcases ModuleQueue.mem_pending_enqueueMany hentry with hentry | hentry
      · cases hentry
      · obtain ⟨m', hm', hentry⟩ := List.mem_flatMap.mp hentry
        exact hstep m' (hwave m' hm') entry hentry

theorem modules_forall (hstep : ∀ m, Q m → ∀ entry ∈ moves m.body, Q entry.2) {d : Doc}
    (hd : ∀ entry ∈ moves d, Q entry.2) : ∀ m ∈ modules d, Q m := by
  refine drain_forall hstep _ _ ?_
  intro entry hentry
  rcases ModuleQueue.mem_pending_enqueueMany hentry with hentry | hentry
  · cases hentry
  · exact hd entry hentry

/-- The first module stands around the others. -/
theorem Module.doc_cons (name : String) (rest : List String) (body : Doc) :
    Module.doc { names := name :: rest, body := body } =
      Doc.line ("export module " ++ name ++ " \x7b")
        ++ Doc.indented (Module.doc { names := rest, body := body }) ++ Doc.line "\x7d" := by
  have hclose : (Piece.outdent :: Doc.line "\x7d")
        ++ (rest.flatMap fun _ => Piece.outdent :: Doc.line "\x7d") =
      (rest.flatMap fun _ => Piece.outdent :: Doc.line "\x7d")
        ++ (Piece.outdent :: Doc.line "\x7d") := by
    induction rest with
    | nil => rfl
    | cons _ rest ih => rw [List.flatMap_cons, ih, ← List.append_assoc, ih]
  simp only [Module.doc, List.flatMap_cons, hclose]
  simp [Doc.indented]

/-- The names of the modules are over the alphabet, and the declaration inside them has the
property. -/
structure Module.All (letters : Char → Bool) (P : Doc → Prop) (m : Module) : Prop where
  names : ∀ name ∈ m.names, Over letters name
  body : P m.body

namespace Uniform

variable {sp : Spelling} {P : Doc → Prop} (hP : Uniform sp P)

include hP

theorem moduleDoc {m : Module} (h : m.All sp.letters P) : P m.doc := by
  obtain ⟨names, body⟩ := m
  obtain ⟨hnames, hbody⟩ := h
  induction names with
  | nil => simpa [Module.doc] using hP.append hbody hP.newline
  | cons name rest ih =>
    obtain ⟨hname, hrest⟩ := List.forall_mem_cons.mp hnames
    rw [Module.doc_cons]
    exact hP.bracedLines "export module " rfl hname (ih hrest hbody)

/-- A property that a document shares with what it moves passes to the modules behind it. -/
theorem withModules (hmoves : ∀ d, P d → ∀ entry ∈ moves d, entry.2.All sp.letters P) {d : Doc}
    (h : P d) : P (withModules d) := by
  have hmodules : ∀ m ∈ modules d, m.All sp.letters P :=
    modules_forall (fun m hm => hmoves m.body hm.body) (hmoves d h)
  have hdocs : P ((modules d).flatMap Module.doc) :=
    hP.composes.flatMap fun m hm => hP.moduleDoc (hmodules m hm)
  refine hP.append (hP.append h ?_) hdocs
  split
  · exact hP.nil
  · exact hP.newline

end Uniform
end TypeScribe
