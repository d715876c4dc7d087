import Mathlib.Control.Monad.Basic
import Mathlib.Data.List.Forall2
import NnetText.Proofs.Faults
import NnetText.Proofs.Stages

/-!
# One component for each opener

The openers of a text can be counted without reading it: scan its words from left to
right, and each `<ComponentName>` opens a declaration, except that the word right behind
an opener is a name whatever it looks like. `Section.openings` is that scan.

The result is that reading a section agrees with the scan: it yields one component for
each opening, in order (`Section.components_of_openings`), and gives up over the number
of components exactly when it gets to the opening that is one too many. The invariant
behind it is `Section.Accounted`. It describes the words read so far by what they do to
the scan of *whatever comes after them*, since the words read so far may end between an
opener and its name, where the scan of them alone says too little.
-/

namespace NnetText

namespace Section

/-! ### The scan -/

/-- **An opening**: the word in the place of the name, and the word in the place of the
type, as far as there are any. -/
structure Opening where
  name : Option String
  type : Option String
deriving DecidableEq, Repr

/-- **The openings of a list of words.** The word behind an opener is a name and opens
nothing. -/
def openings : List String → List Opening
  | [] => []
  | [word] => if word = Tag.opener then [⟨none, none⟩] else []
  | word :: name :: rest =>
    if word = Tag.opener then ⟨some name, rest.head?⟩ :: openings rest
    else openings (name :: rest)

@[simp] theorem openings_nil : openings [] = [] := rfl

theorem openings_cons_of_ne {word : String} (h : word ≠ Tag.opener) (rest : List String) :
    openings (word :: rest) = openings rest := by
  cases rest with
  | nil => simp [openings, h]
  | cons next rest => simp [openings, h]

theorem openings_opener_cons (name : String) (rest : List String) :
    openings (Tag.opener :: name :: rest) = ⟨some name, rest.head?⟩ :: openings rest := by
  simp [openings]

/-- Words without an opener among them open nothing. -/
theorem openings_append_of_not_mem {words : List String} (h : Tag.opener ∉ words)
    (rest : List String) : openings (words ++ rest) = openings rest := by
  induction words with
  | nil => rfl
  | cons word words ih =>
    have hword : word ≠ Tag.opener := fun heq => h (heq ▸ List.mem_cons_self)
    rw [List.cons_append, openings_cons_of_ne hword,
      ih (fun hmem => h (List.mem_cons_of_mem _ hmem))]

/-! ### The invariant -/

/-- The component answers to the opening: it has its name and its type. -/
def Answers (component : Component) (o : Opening) : Prop :=
  o.name = some component.name ∧ o.type.map Tag.name = some component.typeTag

/-- **What has been read is accounted for.** The words read are `consumed`; to the scan of
anything behind them they contribute one opening for each component found, and an opener
if one has just been passed. -/
structure Accounted (limits : Limits) (text : List Char) (s : Stage)
    (consumed : List String) (done : List Opening) : Prop where
  words_eq : words text = consumed ++ s.cursor.unreadWords
  scan : ∀ rest, openings (consumed ++ rest) =
    done ++ openings (if s.opened then Tag.opener :: rest else rest)
  answers : List.Forall₂ Answers s.found.reverse done
  ids : s.found.reverse.map Component.id = List.range s.found.length
  bound : s.found.length ≤ limits.components
  last : s.opened = true → consumed.getLast? = some Tag.opener
  readable : s.cursor.Readable

variable {limits : Limits} {text : List Char} {s t : Stage} {consumed : List String}
  {done : List Opening}

theorem accounted_start (limits : Limits) (text : List Char) :
    Accounted limits text (Stage.start (.ofText text)) [] [] where
  words_eq := (Cursor.unreadWords_ofText text).symm
  scan := fun _ => rfl
  answers := .nil
  ids := rfl
  bound := Nat.zero_le _
  last := fun h => by cases h
  readable := Cursor.readable_ofText text

/-- A token outside of declarations is accounted for: it contributes nothing, unless it is
an opener. -/
theorem Accounted.token (h : Accounted limits text s consumed done) (hs : s.opened = false)
    {token : String} {d : Cursor} (hpull : s.cursor.pull = (some token, d)) :
    Accounted limits text ⟨s.found, token == Tag.opener, d⟩ (consumed ++ [token]) done where
  words_eq := by
    rw [h.words_eq, Cursor.unreadWords_of_pull hpull, List.append_assoc]
    rfl
  scan := by
    intro rest
    rw [List.append_assoc, List.singleton_append, h.scan, hs]
    by_cases htoken : token = Tag.opener
    · simp [htoken]
    · simp [htoken, openings_cons_of_ne htoken]
  answers := h.answers
  ids := h.ids
  bound := h.bound
  last := fun hopened => by
    rw [List.getLast?_append, List.getLast?_singleton, Option.some_or, beq_iff_eq.mp hopened]
  readable := (Cursor.moves_of_pull hpull).readable h.readable

/-- A declaration is accounted for: it contributes its own opening, and the opener it may
have ended at. -/
theorem Accounted.declaration (h : Accounted limits text s consumed done)
    (hs : s.opened = true) (hroom : s.found.length < limits.components)
    {component : Component} {next : Bool} {d : Cursor}
    (hd : declaration limits s.found.length s.cursor = (.ok (component, next), d)) :
    ∃ consumed' done', Accounted limits text ⟨component :: s.found, next, d⟩ consumed' done' := by
  obtain ⟨tag, body, last, hwords, hid, htype, htag, hbody, hnext⟩ :=
    exists_unreadWords_of_declaration hd
  refine ⟨consumed ++ component.name :: tag :: (body ++ [last]),
    done ++ [⟨some component.name, some tag⟩], ?_, ?_, ?_, ?_, ?_, ?_, ?_⟩
  · rw [h.words_eq, hwords]
    simp
  · intro rest
    -- the opener was passed before the declaration, so the scan meets it in front of the name
    have hscan := h.scan (component.name :: tag :: (body ++ last :: rest))
    rw [hs, if_pos rfl, openings_opener_cons, openings_cons_of_ne htag,
      openings_append_of_not_mem hbody, List.head?_cons] at hscan
    have hlast : openings (last :: rest) =
        openings (if next then Tag.opener :: rest else rest) := by
      by_cases heq : last = Tag.opener
      · rw [if_pos (hnext.mpr heq), heq]
      · rw [if_neg (fun hn => heq (hnext.mp hn)), openings_cons_of_ne heq]
    rw [hlast] at hscan
    simpa using hscan
  · rw [List.reverse_cons]
    refine List.rel_append h.answers (.cons ⟨rfl, ?_⟩ .nil)
    rw [htype, Option.map_some]
  · rw [List.reverse_cons, List.map_append, h.ids, List.length_cons, List.range_succ,
      List.map_singleton, hid]
  · exact hroom
  · intro hn
    rw [← hnext.mp hn, List.getLast?_append, List.getLast?_cons_cons, List.getLast?_cons]
    simp
  · exact ((moves_declaration limits s.found.length s.cursor).of_eq hd).readable h.readable

/-- **A step keeps the account.** -/
theorem exists_accounted_of_step (h : s.step limits = .inl t)
    (hs : ∃ consumed done, Accounted limits text s consumed done) :
    ∃ consumed done, Accounted limits text t consumed done := by
  obtain ⟨consumed, done, hs⟩ := hs
  rcases Stage.step_eq_inl h with ⟨hopened, hroom, component, next, d, hd, rfl⟩ |
    ⟨hopened, token, d, hd, -, rfl⟩
  · exact hs.declaration hopened hroom hd
  · exact ⟨_, done, hs.token hopened hd⟩

/-- **A run keeps the account**, wherever it gets. -/
theorem exists_accounted_of_reaches (h : Stage.Reaches limits (Stage.start (.ofText text)) s) :
    ∃ consumed done, Accounted limits text s consumed done := by
  induction h with
  | refl => exact ⟨[], [], accounted_start limits text⟩
  | tail _ hstep ih => exact exists_accounted_of_step hstep ih

/-! ### Openers and components -/

/-- Behind an opener, the words read hold one opening more than there are components. -/
theorem Accounted.length_openings (h : Accounted limits text s consumed done)
    (hs : s.opened = true) : (openings consumed).length = s.found.length + 1 := by
  have hscan := h.scan []
  rw [hs, if_pos rfl, List.append_nil] at hscan
  have hlength := h.answers.length_eq
  rw [List.length_reverse] at hlength
  rw [hscan, List.length_append, ← hlength]
  rfl

/-- At a place between declarations, the openings of the words read are those of the
components. -/
theorem Accounted.openings_eq (h : Accounted limits text s consumed done)
    (hs : s.opened = false) (last : List String) (hlast : Tag.opener ∉ last) :
    openings (consumed ++ last) = done := by
  have hnone : openings last = [] := by
    simpa using openings_append_of_not_mem hlast []
  rw [h.scan, hs, if_neg (by decide), hnone, List.append_nil]

/-- **The words that reading a text takes**: all of them if it comes to the end of the
input, and otherwise those up to the tag that ends the section. -/
def Consumes (limits : Limits) (text : List Char) (consumed : List String) : Prop :=
  words text = consumed ++ (read limits (.ofText text)).2.unreadWords ∧
    ((ending limits text).cause = .inputEnd ∧ consumed = words text ∨
      (ending limits text).cause = .sectionEnd ∧ consumed.getLast? = some Tag.sectionEnd)

/-- A section that can be read yields one component for each opening. -/
theorem openings_of_read_ok {components : List Component}
    (h : (read limits (.ofText text)).1 = .ok components) :
    ∃ consumed, Consumes limits text consumed ∧
      List.Forall₂ Answers components (openings consumed) ∧
      components.map Component.id = List.range components.length ∧
      components.length ≤ limits.components := by
  obtain ⟨rfl, hcause⟩ := ending_of_read_ok h
  obtain ⟨s, hreach, hstop⟩ := exists_reaches_ending limits text
  obtain ⟨consumed, done, hs⟩ := exists_accounted_of_reaches hreach
  simp only [Consumes, unreadWords_read]
  rcases Stage.step_eq_inr hstop with ⟨-, -, hend⟩ | ⟨-, -, e, d, -, hend⟩ |
    ⟨hopened, d, hd, hend⟩ | ⟨hopened, d, hd, hend⟩
  · rw [hend] at hcause
    simp at hcause
  · rw [hend] at hcause
    simp at hcause
  · obtain ⟨hleft, hleft'⟩ := Cursor.unreadWords_of_pull_none hs.readable hd
    have hall : consumed = words text := by simpa [hleft] using hs.words_eq.symm
    have hopenings := hs.openings_eq hopened [] (by simp)
    rw [List.append_nil] at hopenings
    refine ⟨consumed, ⟨?_, Or.inl ⟨by rw [hend], hall⟩⟩, ?_, ?_, ?_⟩
    · rw [hend, hleft', List.append_nil, hall]
    · rw [hend, hopenings]
      exact hs.answers
    · simpa [hend] using hs.ids
    · simpa [hend] using hs.bound
  · have hopenings := hs.openings_eq hopened [Tag.sectionEnd] (by decide)
    refine ⟨consumed ++ [Tag.sectionEnd], ⟨?_, Or.inr ⟨by rw [hend], by simp⟩⟩, ?_, ?_, ?_⟩
    · rw [hend, hs.words_eq, Cursor.unreadWords_of_pull hd, List.append_assoc]
      rfl
    · rw [hend, hopenings]
      exact hs.answers
    · simpa [hend] using hs.ids
    · simpa [hend] using hs.bound

/-- A section is given up over the number of its components exactly where the run comes to
the opening that is one too many. -/
theorem tooManyComponents_iff {n : Nat} :
    (read limits (.ofText text)).1 = .error (.tooManyComponents n) ↔
      n = limits.components ∧
        ∃ s consumed, Stage.Reaches limits (Stage.start (.ofText text)) s ∧ s.opened = true ∧
          words text = consumed ++ s.cursor.unreadWords ∧
          consumed.getLast? = some Tag.opener ∧
          (openings consumed).length = limits.components + 1 := by
  rw [ending_of_read_error]
  constructor
  · intro h
    obtain ⟨s, hreach, hstop⟩ := exists_reaches_ending limits text
    obtain ⟨consumed, done, hs⟩ := exists_accounted_of_reaches hreach
    rcases Stage.step_eq_inr hstop with ⟨hopened, hfull, hend⟩ | ⟨-, -, e, d, hd, hend⟩ |
      ⟨-, d, -, hend⟩ | ⟨-, d, -, hend⟩
    · rw [hend] at h
      have hn : limits.components = n := by simpa using h
      have hlength : s.found.length = limits.components := Nat.le_antisymm hs.bound hfull
      refine ⟨hn.symm, s, consumed, hreach, hopened, hs.words_eq, hs.last hopened, ?_⟩
      rw [hs.length_openings hopened, hlength]
    · -- a declaration has faults of its own, but never this one
      rw [hend] at h
      have he : e = .tooManyComponents n := by simpa using h
      have hcount := isCount_declaration hd
      rw [he] at hcount
      cases hcount
    · rw [hend] at h
      cases h
    · rw [hend] at h
      cases h
  · rintro ⟨rfl, s, consumed, hreach, hopened, hwords, -, hlength⟩
    obtain ⟨consumed', done, hs⟩ := exists_accounted_of_reaches hreach
    obtain rfl : consumed = consumed' :=
      List.append_cancel_right (hwords.symm.trans hs.words_eq)
    have hfull : limits.components ≤ s.found.length := by
      rw [hs.length_openings hopened] at hlength
      omega
    rw [ending, Stage.run_eq_of_reaches hreach,
      Stage.run_of_stop (Stage.step_of_full hopened hfull)]

/-- **No declaration is lost, duplicated or reordered.** A section that can be read yields
one component for each opening of the words read, in order, with the number, the name and
the type that belong to it, and never more than there is room for. It is given up over the
number of its components exactly where the run comes to the opening that is one too
many. -/
theorem components_of_openings (limits : Limits) (text : List Char) :
    (∀ components, (read limits (.ofText text)).1 = .ok components →
      ∃ consumed, Consumes limits text consumed ∧
        List.Forall₂ Answers components (openings consumed) ∧
        components.map Component.id = List.range components.length ∧
        components.length ≤ limits.components) ∧
    ∀ n, (read limits (.ofText text)).1 = .error (.tooManyComponents n) ↔
      n = limits.components ∧
        ∃ s consumed, Stage.Reaches limits (Stage.start (.ofText text)) s ∧ s.opened = true ∧
          words text = consumed ++ s.cursor.unreadWords ∧
          consumed.getLast? = some Tag.opener ∧
          (openings consumed).length = limits.components + 1 :=
  ⟨fun _ h => openings_of_read_ok h, fun _ => tooManyComponents_iff⟩

/-- A section whose first declaration is not closed and whose second is named like an
opener. -/
def openersInARow : List Char :=
  "<ComponentName> a <NoOpComponent> <Dim> 4 <ComponentName> <ComponentName> ".toList ++
    "<NoOpComponent>\n</NoOpComponent> </Nnet3> <ComponentName>".toList

/-- The two components of that section. -/
def componentsInARow : List Component :=
  [{ id := 0, name := "a", kind := .generic, typeTag := "NoOpComponent", inputs := [],
      dim := some 4 },
    { id := 1, name := "<ComponentName>", kind := .generic, typeTag := "NoOpComponent",
      inputs := [] }]

theorem components_of_openersInARow :
    (read .standard (.ofText openersInARow)).1 = .ok componentsInARow ∧
      ∃ consumed, Consumes .standard openersInARow consumed ∧
        List.Forall₂ Answers componentsInARow (openings consumed) ∧
        componentsInARow.map Component.id = List.range componentsInARow.length ∧
        componentsInARow.length ≤ Limits.standard.components := by
  have hread : (read .standard (.ofText openersInARow)).1 = .ok componentsInARow := by
    decide +kernel
  exact ⟨hread, (components_of_openings .standard openersInARow).1 _ hread⟩

end Section

end NnetText
