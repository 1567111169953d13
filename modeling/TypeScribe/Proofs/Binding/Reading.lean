import TypeScribe.Proofs.Script.Every

/-!
# Reading closures and bodies

A script is read text by text with what is open: braces, the bodies of classes, and closures that are
applied to `this`. Where several bodies are open, `this` is an instance of the innermost one, and the
parameter of a closure is what `this` was where the closure begins. What is printed for a node closes
what it opens, so reading it leaves everything open that was.
-/
namespace TypeScribe
set_option autoImplicit false
open Text

/-- What is open at a place of a script. -/
inductive Opened where
  | block
  /-- The body of a class, named or anonymous. -/
  | body
  /-- A closure that is applied to `this`. -/
  | closure (parameter : String)
  deriving DecidableEq

/-- How a script goes on: with code, with what stands between quotes, or with the quote after it. -/
inductive Mode where
  | code
  | value
  | quote
  deriving DecidableEq

structure Reading where
  opened : List Opened
  mode : Mode := .code
  deriving DecidableEq

/-- The parameter of the closure that a text begins. -/
def closureParameter? (s : String) : Option String :=
  match s.toList with
  | '(' :: '(' :: rest =>
    if rest.drop (rest.length - 5) = ") => ".toList
        ∧ (rest.take (rest.length - 5)).all (fun c => !isBracket c) then
      some (String.ofList (rest.take (rest.length - 5)))
    else none
  | _ => none

def closeBrace : List Opened → Option (List Opened)
  | .block :: rest => some rest
  | .body :: rest => some rest
  | _ => none

/-- What is open after a character of an ordinary text. Round and square brackets do not matter. -/
def braceStep (c : Char) (st : List Opened) : Option (List Opened) :=
  if c = '\x7b' then some (.block :: st) else if c = '\x7d' then closeBrace st else some st

def braces : List Char → List Opened → Option (List Opened)
  | [], st => some st
  | c :: cs, st => (braceStep c st).bind (braces cs)

/-- The end of a closure that is applied to `this`. -/
def isApplication (s : String) : Bool := s == ")(this)" || s == ")(this);"

def closeClosure : List Opened → Option (List Opened)
  | .closure _ :: rest => some rest
  | _ => none

/-- What is open after a text of code. -/
def readText (s : String) (st : List Opened) : Option (List Opened) :=
  if s = " \x7b" then some (.body :: st)
  else if isApplication s then closeClosure st
  else match closureParameter? s with
    | some parameter => some (.closure parameter :: st)
    | none => braces s.toList st

def isQuote (s : String) : Bool := s == "'" || s == "\""

namespace Reading

def step (r : Reading) : Piece → Option Reading
  | .text s =>
    match r.mode with
    | .code =>
      if isQuote s then some { r with mode := .value }
      else (readText s r.opened).map fun st => { r with opened := st }
    | .value => some { r with mode := .quote }
    | .quote => if isQuote s then some { r with mode := .code } else none
  | _ => some r

end Reading

/-- What is open after a document. -/
def read : Doc → Reading → Option Reading
  | [], r => some r
  | p :: rest, r => (r.step p).bind (read rest)

/-- How many bodies are open: the number of the instance that `this` is, the outermost one being the
first. -/
def thisInstance (st : List Opened) : Nat := st.countP (· == .body)

/-- The number of the instance that the parameter of a closure is. -/
def binding (name : String) : List Opened → Option Nat
  | [] => none
  | .closure parameter :: rest =>
    if parameter = name then some (thisInstance rest) else binding name rest
  | _ :: rest => binding name rest

/-- The number of the instance that a name denotes. -/
def denotes (name : String) (st : List Opened) : Option Nat :=
  if name = "this" then some (thisInstance st) else binding name st

theorem closureParameter?_closure {p : String} (h : IsBracketless p) :
    closureParameter? ("((" ++ p ++ ") => ") = some p := by
  have hlist : ("((" ++ p ++ ") => ").toList = '(' :: '(' :: (p.toList ++ ") => ".toList) := by
    simp
  have hlength : (p.toList ++ ") => ".toList).length - 5 = p.toList.length := by simp
  unfold closureParameter?
  rw [hlist]
  simp only [hlength, List.drop_left, List.take_left, true_and, String.ofList_toList]
  exact if_pos h

theorem closureParameter?_eq_some {s p : String} (h : closureParameter? s = some p) :
    s = "((" ++ p ++ ") => " ∧ IsBracketless p := by
  unfold closureParameter? at h
  split at h
  · next rest hrest =>
    split at h
    · next hend =>
      cases h
      refine ⟨String.toList_inj.mp ?_, ?_⟩
      · have hcut := List.take_append_drop (rest.length - 5) rest
        rw [hend.1] at hcut
        simpa [hrest] using hcut.symm
      · exact over_ofList.mpr (List.all_eq_true.mp hend.2)
    · cases h
  · cases h

/-- The texts in which only braces matter. -/
structure IsOrdinary (s : String) : Prop where
  notBody : s ≠ " \x7b"
  notApplication : isApplication s = false
  notClosure : closureParameter? s = none
  notQuote : isQuote s = false

theorem IsOrdinary.read_eq {s : String} (h : IsOrdinary s) {st st' : List Opened}
    (hst : braces s.toList st = some st') : read (Doc.text s) ⟨st, .code⟩ = some ⟨st', .code⟩ := by
  have htext : readText s st = some st' := by
    rw [readText, if_neg h.notBody, h.notApplication, h.notClosure]
    exact hst
  change (Reading.step ⟨st, .code⟩ (.text s)).bind (read []) = _
  simp [Reading.step, h.notQuote, htext, read]

/-- A text that begins a closure opens two brackets and closes one. -/
theorem brackets_of_closureParameter? {s p : String} (h : closureParameter? s = some p) :
    openAfter s.toList [] = some [.round] ∧ s.toList.countP isBracket = 3 := by
  obtain ⟨rfl, hfree⟩ := closureParameter?_eq_some h
  have hcount : p.toList.countP isBracket = 0 :=
    List.countP_eq_zero.mpr fun c hc => by simpa using over_iff.mp hfree c hc
  rw [String.toList_append, String.toList_append, List.countP_append, List.countP_append, hcount,
    openAfter_append, openAfter_append]
  refine ⟨?_, rfl⟩
  change ((openAfter p.toList [.round, .round]).bind _) = _
  rw [hfree.openAfter_eq]
  rfl

theorem closureParameter?_eq_none {s : String} (h : IsNested s.toList) :
    closureParameter? s = none := by
  refine Option.eq_none_iff_forall_not_mem.mpr fun p hp => ?_
  have hround := h.symm.trans (brackets_of_closureParameter? hp).1
  cases hround

theorem eq_of_isApplication {s : String} (h : isApplication s = true) :
    s = ")(this)" ∨ s = ")(this);" := by
  simpa [isApplication] using h

theorem eq_of_isQuote {s : String} (h : isQuote s = true) : s = "'" ∨ s = "\"" := by
  simpa [isQuote] using h

/-- A property that no text with a meaning of its own has makes a text ordinary. -/
theorem IsOrdinary.of_not {p : String → Prop} {s : String} (hs : p s) (hbody : ¬p " \x7b")
    (happlied : ¬p ")(this)") (hended : ¬p ")(this);") (hsingle : ¬p "'") (hdouble : ¬p "\"")
    (hclosure : closureParameter? s = none) : IsOrdinary s where
  notBody := by
    rintro rfl
    exact hbody hs
  notApplication := by
    rw [← Bool.not_eq_true]
    intro h
    rcases eq_of_isApplication h with rfl | rfl
    · exact happlied hs
    · exact hended hs
  notClosure := hclosure
  notQuote := by
    rw [← Bool.not_eq_true]
    intro h
    rcases eq_of_isQuote h with rfl | rfl
    · exact hsingle hs
    · exact hdouble hs

/-- What is open where a curly bracket is. -/
def Opened.isBrace : Opened → Bool
  | .closure _ => false
  | _ => true

theorem braceStep_close {x : Opened} (h : x.isBrace = true) (st : List Opened) :
    braceStep '\x7d' (x :: st) = some st := by
  cases x with
  | closure p => cases h
  | _ => rfl

theorem braceStep_of_ne {c : Char} (hopen : c ≠ '\x7b') (hclose : c ≠ '\x7d') (st : List Opened) :
    braceStep c st = some st := by
  rw [braceStep, if_neg hopen, if_neg hclose]

theorem opening?_eq_curly {c : Char} : opening? c = some .curly ↔ c = '\x7b' := by
  unfold opening?
  split <;> simp_all

theorem closing?_eq_curly {c : Char} : closing? c = some .curly ↔ c = '\x7d' := by
  unfold closing?
  split <;> simp_all

/-- What is open where some brackets are: one brace for each curly one of them. -/
structure AreBraces (bs : List Bracket) (xs : List Opened) : Prop where
  isBrace : ∀ x ∈ xs, x.isBrace = true
  length : xs.length = bs.count .curly

namespace AreBraces

variable {bs bs' : List Bracket} {xs : List Opened}

theorem nil : AreBraces [] [] := ⟨List.forall_mem_nil _, rfl⟩

theorem eq_nil (h : AreBraces [] xs) : xs = [] := List.length_eq_zero_iff.mp h.length

theorem curly (h : AreBraces bs xs) {x : Opened} (hx : x.isBrace = true) :
    AreBraces (.curly :: bs) (x :: xs) where
  isBrace := List.forall_mem_cons.mpr ⟨hx, h.isBrace⟩
  length := by rw [List.length_cons, h.length, List.count_cons_self]

theorem cons_iff {b : Bracket} (hb : b ≠ .curly) : AreBraces (b :: bs) xs ↔ AreBraces bs xs := by
  have hcount : (b :: bs).count .curly = bs.count .curly := List.count_cons_of_ne hb
  exact ⟨fun h => ⟨h.isBrace, h.length.trans hcount⟩, fun h => ⟨h.isBrace, h.length.trans hcount.symm⟩⟩

theorem exists_of_curly (h : AreBraces (.curly :: bs) xs) :
    ∃ x ys, xs = x :: ys ∧ x.isBrace = true ∧ AreBraces bs ys := by
  have hlength := h.length
  rw [List.count_cons_self] at hlength
  obtain ⟨x, ys, rfl⟩ := List.exists_cons_of_length_eq_add_one hlength
  obtain ⟨hx, hys⟩ := List.forall_mem_cons.mp h.isBrace
  exact ⟨x, ys, rfl, hx, hys, Nat.succ.inj hlength⟩

/-- A character that meets the brackets around it meets what is open there. -/
theorem step (h : AreBraces bs xs) {c : Char} (hstep : bracketStep c bs = some bs')
    (st : List Opened) :
    ∃ xs', AreBraces bs' xs' ∧ braceStep c (xs ++ st) = some (xs' ++ st) := by
  rcases bracketStep_cases hstep with ⟨hplain, rfl⟩ | ⟨b, hb, rfl⟩ | ⟨b, hb, rfl⟩
  · refine ⟨xs, h, braceStep_of_ne ?_ ?_ _⟩ <;> rintro rfl <;> cases hplain
  · by_cases hcurly : b = .curly
    · subst hcurly
      cases opening?_eq_curly.mp hb
      exact ⟨.block :: xs, h.curly rfl, rfl⟩
    · refine ⟨xs, (cons_iff hcurly).mpr h, braceStep_of_ne ?_ ?_ _⟩
      · exact fun hc => hcurly (Option.some.inj (hb.symm.trans (opening?_eq_curly.mpr hc)))
      · rintro rfl
        cases hb
  · by_cases hcurly : b = .curly
    · subst hcurly
      cases closing?_eq_curly.mp hb
      obtain ⟨x, ys, rfl, hx, hys⟩ := h.exists_of_curly
      exact ⟨ys, hys, braceStep_close hx _⟩
    · refine ⟨xs, (cons_iff hcurly).mp h, braceStep_of_ne ?_ ?_ _⟩
      · rintro rfl
        cases hb
      · exact fun hc => hcurly (Option.some.inj (hb.symm.trans (closing?_eq_curly.mpr hc)))

theorem run (h : AreBraces bs xs) {cs : List Char} (hcs : openAfter cs bs = some bs')
    (st : List Opened) : ∃ xs', AreBraces bs' xs' ∧ braces cs (xs ++ st) = some (xs' ++ st) := by
  induction cs generalizing bs xs with
  | nil =>
    cases hcs
    exact ⟨xs, h, rfl⟩
  | cons c rest ih =>
    obtain ⟨middle, hstep, hrest⟩ := Option.bind_eq_some_iff.mp hcs
    obtain ⟨ys, hys, hbrace⟩ := h.step hstep st
    obtain ⟨xs', hxs', hbraces⟩ := ih hys hrest
    exact ⟨xs', hxs', by rw [braces, hbrace]; exact hbraces⟩

end AreBraces

theorem braces_of_isNested {cs : List Char} (h : IsNested cs) (st : List Opened) :
    braces cs st = some st := by
  obtain ⟨xs, hxs, hbraces⟩ := AreBraces.nil.run h st
  cases hxs.eq_nil
  exact hbraces

theorem read_append (d e : Doc) (r : Reading) : read (d ++ e) r = (read d r).bind (read e) := by
  induction d generalizing r with
  | nil => rfl
  | cons p rest ih =>
    rw [List.cons_append, read, read]
    cases r.step p with
    | none => rfl
    | some next => exact ih next

/-- Reading the document closes what it opens and nothing else. -/
def Doc.IsQuiet (d : Doc) : Prop := ∀ st, read d ⟨st, .code⟩ = some ⟨st, .code⟩

/-- Names without brackets and quotes, and any comments and quoted values. -/
def codeSpelling : Spelling where
  letters c := !isBracket c && c != '\'' && c != '"'
  quotable _ _ := true
  remark _ := true
  usable _ := true

theorem isBracketless_of_over {s : String} (h : Over codeSpelling.letters s) : IsBracketless s := by
  refine over_iff.mpr ?_
  intro c hc
  have hletter := Bool.and_eq_true_iff.mp (over_iff.mp h c hc)
  exact (Bool.and_eq_true_iff.mp hletter.1).1

namespace Doc

theorem isQuiet_nil : IsQuiet [] := fun _ => rfl

theorem IsQuiet.append {d e : Doc} (hd : d.IsQuiet) (he : e.IsQuiet) : IsQuiet (d ++ e) := by
  intro st
  rw [read_append, hd st]
  exact he st

/-- A document between two texts of which the second closes what the first one opens. -/
theorem IsQuiet.between {a t : String} {d : Doc} (hd : d.IsQuiet)
    (h : ∀ st, ∃ st', read (text a) ⟨st, .code⟩ = some ⟨st', .code⟩ ∧
      read (text t) ⟨st', .code⟩ = some ⟨st, .code⟩) : IsQuiet (between a t d) := by
  intro st
  obtain ⟨st', ha, ht⟩ := h st
  rw [Doc.between, read_append, read_append, ha, Option.bind_some, hd st']
  exact ht

theorem isQuiet_calm {s : String} (h : isCalm s.toList = true) : IsQuiet (text s) := by
  have hordinary : IsOrdinary s := by
    refine IsOrdinary.of_not (p := fun s => isCalm s.toList = true) h ?_ ?_ ?_ ?_ ?_
      (closureParameter?_eq_none (isNested_of_isCalm h)) <;> decide
  intro st
  exact hordinary.read_eq (braces_of_isNested (isNested_of_isCalm h) st)

theorem isQuiet_bracketless {s : String} (h : IsBracketless s) (hquote : isQuote s = false) :
    IsQuiet (text s) := by
  have hordinary : IsOrdinary s := by
    refine IsOrdinary.of_not (p := fun s => IsBracketless s ∧ isQuote s = false) ⟨h, hquote⟩
      ?_ ?_ ?_ ?_ ?_ (closureParameter?_eq_none (h.openAfter_eq [])) <;> decide
  intro st
  exact hordinary.read_eq (braces_of_isNested (h.openAfter_eq []) st)

theorem isQuiet_word {s : String} (h : Over codeSpelling.letters s) : IsQuiet (text s) := by
  refine isQuiet_bracketless (isBracketless_of_over h) ?_
  rw [← Bool.not_eq_true]
  intro hquote
  rcases eq_of_isQuote hquote with rfl | rfl <;> exact absurd h (by decide)

theorem isQuiet_newline : IsQuiet newline := fun _ => rfl

/-- A value may be any text: it is only counted. -/
theorem isQuiet_quoted {q : String} (hq : q = "'" ∨ q = "\"") (v : String) :
    IsQuiet (Doc.between q q (text v)) := by
  intro st
  rcases hq with rfl | rfl <;> rfl

/-- A text with one bracket and no signs is ordinary, unless it is the brace of a body. -/
theorem isOrdinary_of_single {s : String} (hcount : s.toList.countP isBracket = 1)
    (hsigns : s.toList.any isSign = false) (hbody : s ≠ " \x7b") : IsOrdinary s := by
  have hclosure : closureParameter? s = none := by
    refine Option.eq_none_iff_forall_not_mem.mpr fun p hp => ?_
    have hthree := (brackets_of_closureParameter? hp).2
    omega
  refine IsOrdinary.of_not
    (p := fun s => s.toList.countP isBracket = 1 ∧ s.toList.any isSign = false ∧ s ≠ " \x7b")
    ⟨hcount, hsigns, hbody⟩ ?_ ?_ ?_ ?_ ?_ hclosure <;> decide

theorem read_single {s : String} (hcount : s.toList.countP isBracket = 1)
    (hsigns : s.toList.any isSign = false) {bs bs' : List Bracket}
    (h : openAfter s.toList bs = some bs') {xs : List Opened} (hxs : AreBraces bs xs)
    (st : List Opened) : ∃ xs', AreBraces bs' xs' ∧
      read (text s) ⟨xs ++ st, .code⟩ = some ⟨xs' ++ st, .code⟩ := by
  by_cases hbody : s = " \x7b"
  · subst hbody
    cases h
    exact ⟨.body :: xs, hxs.curly rfl, rfl⟩
  · obtain ⟨xs', hxs', hbraces⟩ := hxs.run h st
    exact ⟨xs', hxs', (isOrdinary_of_single hcount hsigns hbody).read_eq hbraces⟩

theorem isQuiet_enclosed {a t : String} {d : Doc} (h : isCalmPair a.toList t.toList = true)
    (hd : d.IsQuiet) : IsQuiet (Doc.between a t d) := by
  obtain ⟨b, ha, ht, hcountA, hcountT⟩ := isPair_iff.mp (isPair_of_isCalmPair h)
  have hsigns : a.toList.any isSign = false ∧ t.toList.any isSign = false := by
    simp only [isCalmPair, Bool.and_eq_true, Bool.not_eq_true'] at h
    exact ⟨h.1.2, h.2⟩
  refine hd.between ?_
  intro st
  obtain ⟨xs, hxs, hopened⟩ := read_single hcountA hsigns.1 ha .nil st
  obtain ⟨ys, hys, hread⟩ := read_single hcountT hsigns.2 ht hxs st
  cases hys.eq_nil
  exact ⟨xs ++ st, hopened, hread⟩

theorem read_closure {p : String} (hp : Over codeSpelling.letters p) (st : List Opened) :
    read (text ("((" ++ p ++ ") => ")) ⟨st, .code⟩ = some ⟨.closure p :: st, .code⟩ := by
  have hparameter := closureParameter?_closure (isBracketless_of_over hp)
  have hcount := (brackets_of_closureParameter? hparameter).2
  generalize hs : "((" ++ p ++ ") => " = s at hparameter hcount
  have hbody : s ≠ " \x7b" := by
    rintro rfl
    cases hcount
  have happlication : isApplication s = false := by
    rw [← Bool.not_eq_true]
    intro h
    rcases eq_of_isApplication h with rfl | rfl <;> cases hparameter
  have hquote : isQuote s = false := by
    rw [← Bool.not_eq_true]
    intro h
    rcases eq_of_isQuote h with rfl | rfl <;> cases hcount
  change (Reading.step ⟨st, .code⟩ (.text s)).bind (read []) = _
  simp [Reading.step, hquote, readText, hbody, happlication, hparameter, read]

theorem read_application {t : String} (ht : t = ")(this)" ∨ t = ")(this);") (p : String)
    (st : List Opened) : read (text t) ⟨.closure p :: st, .code⟩ = some ⟨st, .code⟩ := by
  rcases ht with rfl | rfl <;> rfl

theorem isQuiet_closure {p t : String} {d : Doc} (hp : Over codeSpelling.letters p)
    (ht : t = ")(this)" ∨ t = ")(this);") (hd : d.IsQuiet) :
    IsQuiet (Doc.between ("((" ++ p ++ ") => ") t d) :=
  hd.between fun st => ⟨.closure p :: st, read_closure hp st, read_application ht p st⟩

theorem isQuiet_switched {d e : Doc} (hd : d.IsQuiet) (he : e.IsQuiet) :
    IsQuiet (text "switch(" ++ d ++ text ") \x7b" ++ e ++ text "\x7d") := by
  intro st
  have hselector : read (text "switch(" ++ d ++ text ") \x7b") ⟨st, .code⟩ =
      some ⟨.block :: st, .code⟩ := by
    rw [read_append, read_append]
    change ((read d ⟨st, .code⟩).bind _) = _
    rw [hd st]
    rfl
  rw [read_append, read_append, hselector, Option.bind_some, he]
  rfl

theorem isQuiet_placeholder {s : String} (h : Over codeSpelling.letters s) :
    IsQuiet (text (Script.placeholder s)) := by
  have hfree : IsBracketless (Script.placeholder s) :=
    over_append.mpr ⟨over_append.mpr ⟨by decide, isBracketless_of_over h⟩, by decide⟩
  have hlist : (Script.placeholder s).toList = _ := String.toList_append
  refine isQuiet_bracketless hfree ?_
  generalize Script.placeholder s = t at hlist
  rw [← Bool.not_eq_true]
  intro hquote
  rcases eq_of_isQuote hquote with rfl | rfl <;> simp at hlist

theorem isQuiet_symbol {s : String} (h : Over codeSpelling.letters s) :
    IsQuiet (text " " ++ text s ++ text " ") :=
  ((isQuiet_calm rfl).append (isQuiet_word h)).append (isQuiet_calm rfl)

theorem isQuiet_composes : Composes codeSpelling IsQuiet IsQuiet IsQuiet where
  letter c hc := by
    have hbracket := isBracket_of_isNameChar hc
    have hsingle : c ≠ '\'' := by
      rintro rfl
      cases hc
    have hdouble : c ≠ '"' := by
      rintro rfl
      cases hc
    simp [codeSpelling, hbracket, hsingle, hdouble]
  nil := isQuiet_nil
  append := .append
  literal := isQuiet_calm
  word := isQuiet_word
  assigned op := isQuiet_symbol (by cases op <;> decide)
  related op := isQuiet_symbol (by cases op <;> decide)
  quoted hq _ := isQuiet_quoted hq _
  newline := isQuiet_newline
  comment _ := fun _ => rfl
  unsupported _ := fun _ => rfl
  enclosed := isQuiet_enclosed
  applied hs hd := isQuiet_closure hs (.inl rfl) hd
  switched := isQuiet_switched
  solid := id
  join := .append
  indented hd := by
    intro st
    rw [Doc.indented, read_append, read]
    change ((read _ ⟨st, .code⟩).bind _) = _
    rw [hd st]
    rfl
  stop hs := by rcases hs with rfl | rfl | rfl <;> exact isQuiet_word (by decide)
  repeated hd := hd.between fun st => ⟨st, rfl, rfl⟩
  appliedLast hs hd := isQuiet_closure hs (.inr rfl) hd
  named hs := isQuiet_word (over_append.mpr ⟨over_append.mpr ⟨by decide, hs⟩, by decide⟩)
  member := id
  placed hd := (isQuiet_newline.append hd).append isQuiet_newline
  placeholder hd hs := hd.append (isQuiet_placeholder hs)

end Doc

/-- What is printed for a node closes what it opens. -/
theorem Node.script_isQuiet {c : Category} {n : Node c} {cx : Context}
    (hspelled : n.any (Node.misspells codeSpelling) = false)
    (hspeaks : cx.Speaks codeSpelling.letters) :
    Script.All codeSpelling Doc.IsQuiet Doc.IsQuiet Doc.IsQuiet c (n.script cx) := by
  have hP := Doc.isQuiet_composes
  refine n.script_composes hP Context.inherited_true ?_ (fun _ _ _ _ _ => rfl)
    (fun _ _ _ _ _ _ _ => rfl) cx ⟨fun _ => trivial, hspelled, hspeaks⟩
  intro a cx ha _ harguments
  have hstart : Doc.IsQuiet (Doc.text "/* @") := Doc.isQuiet_word (by decide)
  have hend : Doc.IsQuiet (Doc.text " */") := Doc.isQuiet_word (by decide)
  have hnames := Node.over_ownNames ha
  have hopened (name : String) (hname : name ∈ a.ownNames) :=
    (hstart.append (hP.word (hnames name hname))).append harguments
  cases a <;> exact (hopened _ List.mem_cons_self).append hend

end TypeScribe
