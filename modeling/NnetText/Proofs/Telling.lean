import NnetText.Command
import NnetText.Proofs.Encoding
import NnetText.Proofs.Trails

/-!
# What is told changes nothing

Reading a section leaves a notice of everything that might be told, and the preferences are asked
when it is over. They might as well be asked on the way: a notice of a tag that is passed over is
left only if such tags are told, and one of a component only if components are.
`Section.readTelling` reads in this way, and both ways come to the same (`Section.readTelling_eq`).

The invariant is that the two cursors are *told alike*, `c.told p = d.told p`. It holds while both
go the same way, since all readers are blind (`NnetText.Proofs.Trails`), and it survives a notice
that one of them leaves and the other does not, if that is not told. So a preference decides over
the trail and over nothing else, in a section (`Section.read_alike`) and in what the command shows
(`Command.preferences_change_nothing`).
-/

namespace NnetText

open Cursor

variable {p : ReadingPreferences}

/-! ### Bodies -/

namespace Component

/-- A token that is passed over leaves a notice if it starts like a tag and such tags are told. -/
def tellSkipped (p : ReadingPreferences) (component token : String) (c : Cursor) : Cursor :=
  if p.skippedTags then noteSkipped component token c else c

theorem remaining_tellSkipped (p : ReadingPreferences) (component token : String) (c : Cursor) :
    (tellSkipped p component token c).remaining = c.remaining := by
  unfold tellSkipped
  split
  · exact remaining_noteSkipped component token c
  · rfl

/-- Writes attributes into a record, and asks the preferences at each token passed over. -/
def collectTelling (p : ReadingPreferences) (limits : Limits) (ends : List String)
    (record : Component) (c : Cursor) : Except ParseError String × Component × Cursor :=
  match _h : c.pull with
  | (none, d) => (.error (.unexpectedEndOfInput d.position), record, d)
  | (some token, d) =>
    if token ∈ ends then (.ok token, record, d)
    else
      match record.kind.rule? token with
      | none => collectTelling p limits ends record (tellSkipped p record.name token d)
      | some rule =>
        match _hd : rule.literal.read limits d with
        | (.error e, e') => (.error e, record, e')
        | (.ok value, e') => collectTelling p limits ends (record.setAttribute rule.key value) e'
termination_by c.remaining
decreasing_by
  · rw [remaining_tellSkipped]
    exact Cursor.remaining_pull_lt _h
  · have hread := Literal.remaining_read_le limits rule.literal d
    rw [_hd] at hread
    exact Nat.lt_of_le_of_lt hread (Cursor.remaining_pull_lt _h)

/-- Reads the body of a declaration, asking the preferences on the way. -/
def readAttributesTelling (p : ReadingPreferences) (limits : Limits) (ends : List String)
    (record : Component) (c : Cursor) : Except ParseError String × Component × Cursor :=
  match collectTelling p limits ends record c with
  | (.error e, collected, d) => (.error e, collected, d)
  | (.ok token, collected, d) =>
    match collected.finish limits.arithmetic with
    | (.error e, left) => (.error e, left, d)
    | (.ok (), finished) => (.ok token, finished, d)

end Component

/-! ### Sections -/

namespace Section

/-- A declaration, of which a notice is left only if components are told. -/
def declarationTelling (p : ReadingPreferences) (limits : Limits) (id : Nat) (c : Cursor) :
    Reading (Component × Bool) :=
  match c.nextToken with
  | (none, d) => (.error (.missingValue .componentName d.position), d)
  | (some name, d) =>
    match typeTag d with
    | (.error e, e') => (.error e, e')
    | (.ok tag, e') =>
      match Component.declare id name tag [] d.position with
      | .error e => (.error e, e')
      | .ok record =>
        match record.readAttributesTelling p limits [Tag.closing tag, Tag.opener] e' with
        | (.error e, _, f) => (.error e, f)
        | (.ok token, component, f) =>
          (.ok (component, token == Tag.opener),
            if p.componentSummaries then f.note (completed component) else f)

end Section

namespace Component

theorem told_tellSkipped {c d : Cursor} (h : c.told p = d.told p) (component token : String) :
    (noteSkipped component token c).told p = (tellSkipped p component token d).told p := by
  rw [tellSkipped, noteSkipped, noteSkipped, position_eq_of_told h]
  by_cases htag : ['<'].isPrefixOf token.toList = true
  · rw [if_pos htag, if_pos htag, ← p.wants_skippedTag component token d.position]
    exact told_note_eq h _
  · rw [if_neg htag, if_neg htag, ite_self, h]

/-- **Two bodies are told alike**: they end in the same way, with the same record and with cursors
that are told alike. -/
inductive BodiesAlike (p : ReadingPreferences) : Except ParseError String × Component × Cursor →
    Except ParseError String × Component × Cursor → Prop
  | told {r : Except ParseError String} {record : Component} {c d : Cursor}
      (h : c.told p = d.told p) : BodiesAlike p (r, record, c) (r, record, d)

theorem collect_alike (limits : Limits) (ends : List String) (record : Component) {c d : Cursor}
    (h : c.told p = d.told p) :
    BodiesAlike p (record.collect limits ends c) (record.collectTelling p limits ends d) := by
  fun_induction collect limits ends record c generalizing d with
  | case1 record c c' hc =>
    obtain ⟨d', hd, htold⟩ := blind_pull.exists_of_eq h hc
    rw [collectTelling, hd, position_eq_of_told htold]
    exact .told htold
  | case2 record c token c' hc hmem =>
    obtain ⟨d', hd, htold⟩ := blind_pull.exists_of_eq h hc
    rw [collectTelling, hd]
    simp only [if_pos hmem]
    exact .told htold
  | case3 record c token c' hc hmem hrule ih =>
    obtain ⟨d', hd, htold⟩ := blind_pull.exists_of_eq h hc
    rw [collectTelling, hd]
    simp only [if_neg hmem, hrule]
    exact ih (told_tellSkipped htold _ _)
  | case4 record c token c' hc hmem rule hrule e c'' hread =>
    obtain ⟨d', hd, htold⟩ := blind_pull.exists_of_eq h hc
    obtain ⟨d'', hread', htold'⟩ := (Literal.blind_read limits _).exists_of_eq htold hread
    rw [collectTelling, hd]
    simp only [if_neg hmem, hrule]
    rw [hread']
    exact .told htold'
  | case5 record c token c' hc hmem rule hrule value c'' hread ih =>
    obtain ⟨d', hd, htold⟩ := blind_pull.exists_of_eq h hc
    obtain ⟨d'', hread', htold'⟩ := (Literal.blind_read limits _).exists_of_eq htold hread
    rw [collectTelling, hd]
    simp only [if_neg hmem, hrule]
    rw [hread']
    exact ih htold'

theorem readAttributes_alike (limits : Limits) (ends : List String) (record : Component)
    {c d : Cursor} (h : c.told p = d.told p) :
    BodiesAlike p (record.readAttributes limits ends c)
      (record.readAttributesTelling p limits ends d) := by
  have hcollect := collect_alike limits ends record h
  rw [readAttributes, readAttributesTelling]
  generalize record.collect limits ends c = r at hcollect ⊢
  generalize record.collectTelling p limits ends d = r' at hcollect ⊢
  cases hcollect with
  | @told r collected _ _ htold =>
    cases r with
    | error e => exact .told htold
    | ok token =>
      dsimp only
      rcases collected.finish limits.arithmetic with ⟨e | ⟨⟩, finished⟩
      · exact .told htold
      · exact .told htold

end Component

namespace Section

/-- **Two readings are told alike**: they come to the same, with cursors that are told alike. -/
inductive Alike (p : ReadingPreferences) {α : Type} : Reading α → Reading α → Prop
  | told {r : Except ParseError α} {c d : Cursor} (h : c.told p = d.told p) :
      Alike p (r, c) (r, d)

theorem Alike.exists_of_eq {α : Type} {r r' : Reading α} {a : Except ParseError α} {c : Cursor}
    (h : Alike p r r') (heq : r = (a, c)) : ∃ d, r' = (a, d) ∧ c.told p = d.told p := by
  subst heq
  cases h with
  | told htold => exact ⟨_, rfl, htold⟩

theorem told_completed {c d : Cursor} (h : c.told p = d.told p) (component : Component) :
    (c.note (completed component)).told p =
      (if p.componentSummaries then d.note (completed component) else d).told p := by
  rw [told_note_eq h, completed, p.wants_componentRead]

theorem declaration_alike (limits : Limits) (id : Nat) {c d : Cursor} (h : c.told p = d.told p) :
    Alike p (declaration limits id c) (declarationTelling p limits id d) := by
  rcases hc : c.nextToken with ⟨token, c'⟩
  obtain ⟨d', hd, htold⟩ := blind_nextToken.exists_of_eq h hc
  rw [declaration, declarationTelling, hc, hd]
  cases token with
  | none =>
    dsimp only
    rw [position_eq_of_told htold]
    exact .told htold
  | some name =>
    rcases hc' : typeTag c' with ⟨tag, c''⟩
    obtain ⟨d'', hd', htold'⟩ := blind_typeTag.exists_of_eq htold hc'
    dsimp only
    rw [hc', hd', position_eq_of_told htold]
    cases tag with
    | error e => exact .told htold'
    | ok tag =>
      dsimp only
      cases Component.declare id name tag [] d'.position with
      | error e => exact .told htold'
      | ok record =>
        have hbody :=
          Component.readAttributes_alike limits [Tag.closing tag, Tag.opener] record htold'
        dsimp only
        generalize record.readAttributes limits _ c'' = r at hbody ⊢
        generalize record.readAttributesTelling p limits _ d'' = r' at hbody ⊢
        cases hbody with
        | @told r finished _ _ htold'' =>
          cases r with
          | error e => exact .told htold''
          | ok token => exact .told (told_completed htold'' finished)

/-- A declaration that is told takes what a declaration takes. -/
theorem remaining_declarationTelling_lt {limits : Limits} {id : Nat} {c d : Cursor}
    {result : Component × Bool} (h : declarationTelling p limits id c = (.ok result, d)) :
    d.remaining < c.remaining := by
  rcases hc : declaration limits id c with ⟨r, d'⟩
  obtain ⟨d'', hd, htold⟩ := (declaration_alike limits id rfl).exists_of_eq hc
  obtain ⟨rfl, rfl⟩ := Prod.mk.inj (h.symm.trans hd)
  have hsame : d'.remaining = d.remaining := by
    change (d'.told p).remaining = (d.told p).remaining
    rw [htold]
  rw [← hsame]
  exact remaining_declaration_lt hc

/-- The declarations from behind an opener on, with preferences that are asked on the way. -/
def declarationsTelling (p : ReadingPreferences) (limits : Limits) (found : List Component)
    (c : Cursor) : Reading (List Component) :=
  if limits.components ≤ found.length then (.error (.tooManyComponents limits.components), c)
  else
    match _h : declarationTelling p limits found.length c with
    | (.error e, d) => (.error e, d)
    | (.ok (component, true), d) => declarationsTelling p limits (component :: found) d
    | (.ok (component, false), d) =>
      match _hd : seekOpener d with
      | (true, e) => declarationsTelling p limits (component :: found) e
      | (false, e) => close (component :: found) e
termination_by c.remaining
decreasing_by
  · exact remaining_declarationTelling_lt _h
  · have hseek := remaining_seekOpener_le d
    rw [_hd] at hseek
    exact Nat.lt_of_le_of_lt hseek (remaining_declarationTelling_lt _h)

/-- **Reads the section with preferences that are asked on the way**: at each tag that is passed
over, and at each component that is complete. -/
def readTelling (p : ReadingPreferences) (limits : Limits) (c : Cursor) :
    Reading (List Component) :=
  match seekOpener c with
  | (true, d) => declarationsTelling p limits [] d
  | (false, d) => close [] d

theorem close_alike (found : List Component) {c d : Cursor} (h : c.told p = d.told p) :
    Alike p (close found c) (close found d) := by
  have hline : c.lineNumber = d.lineNumber := congrArg Position.line (position_eq_of_told h)
  rw [close, close, hline]
  refine .told ?_
  rw [told_note_of_wants rfl, told_note_of_wants rfl, h]

theorem declarations_alike (limits : Limits) (found : List Component) {c d : Cursor}
    (h : c.told p = d.told p) :
    Alike p (declarations limits found c) (declarationsTelling p limits found d) := by
  fun_induction declarations limits found c generalizing d with
  | case1 found c hfull =>
    rw [declarationsTelling, if_pos hfull]
    exact .told h
  | case2 found c hroom e c' hc =>
    obtain ⟨d', hd, htold⟩ := (declaration_alike limits found.length h).exists_of_eq hc
    rw [declarationsTelling, if_neg hroom, hd]
    exact .told htold
  | case3 found c hroom component c' hc ih =>
    obtain ⟨d', hd, htold⟩ := (declaration_alike limits found.length h).exists_of_eq hc
    rw [declarationsTelling, if_neg hroom, hd]
    exact ih htold
  | case4 found c hroom component c' hc c'' hseek ih =>
    obtain ⟨d', hd, htold⟩ := (declaration_alike limits found.length h).exists_of_eq hc
    obtain ⟨d'', hseek', htold'⟩ := blind_seekOpener.exists_of_eq htold hseek
    rw [declarationsTelling, if_neg hroom, hd]
    dsimp only
    rw [hseek']
    exact ih htold'
  | case5 found c hroom component c' hc c'' hseek =>
    obtain ⟨d', hd, htold⟩ := (declaration_alike limits found.length h).exists_of_eq hc
    obtain ⟨d'', hseek', htold'⟩ := blind_seekOpener.exists_of_eq htold hseek
    rw [declarationsTelling, if_neg hroom, hd]
    dsimp only
    rw [hseek']
    exact close_alike _ htold'

/-- **Asking on the way or afterwards comes to the same.** -/
theorem read_alike (limits : Limits) {c d : Cursor} (h : c.told p = d.told p) :
    Alike p (read limits c) (readTelling p limits d) := by
  rcases hc : seekOpener c with ⟨opened, c'⟩
  obtain ⟨d', hd, htold⟩ := blind_seekOpener.exists_of_eq h hc
  rw [read, readTelling, hc, hd]
  cases opened with
  | false => exact close_alike [] htold
  | true => exact declarations_alike limits [] htold

/-- **Reading with preferences is reading**, with what they tell: the same comes of it, the cursor
is left at the same place, and the events are those that are worked out afterwards. -/
theorem readTelling_eq (p : ReadingPreferences) (limits : Limits) (c : Cursor) :
    (readTelling p limits c).1 = (read limits c).1 ∧
      (readTelling p limits c).2.untrailed = (read limits c).2.untrailed ∧
      Notice.events p (readTelling p limits c).2.notices =
        Notice.events p (read limits c).2.notices := by
  rcases hc : read limits c with ⟨r, d⟩
  obtain ⟨d', hd, htold⟩ := (read_alike limits (rfl : c.told p = c.told p)).exists_of_eq hc
  rw [hd]
  refine ⟨rfl, ?_, ?_⟩
  · rw [← untrailed_told (p := p) d', ← htold, untrailed_told]
  · rw [← events_notices_told d', ← htold, events_notices_told]

end Section

/-! ### Invocations -/

namespace Command

/-- **The surroundings have the same model**: on the standard input, if it is taken from there, and
otherwise where its path leads. -/
structure SameModel (model : String) (s s' : Surroundings) : Prop where
  input : model = "-" → s.input = s'.input
  lookup : model ≠ "-" → s.lookup model = s'.lookup model

variable {limits : Limits} {model : String} {s s' : Surroundings} {options options' : Options}

theorem SameModel.run_eq (h : SameModel model s s') (limits : Limits) :
    run limits model s = run limits model s' := by
  by_cases hmodel : model = "-"
  · rw [run, run, if_pos hmodel, if_pos hmodel, h.input hmodel]
  · rw [run, run, if_neg hmodel, if_neg hmodel, h.lookup hmodel]

/-- Of the options, the result depends on its form only. -/
theorem result_congr (h : options.json = options'.json) (title : String) (elapsed : Duration)
    (c : Conversion) : result title options elapsed c = result title options' elapsed c := by
  rw [result, result, h]

/-- **Two outcomes show the same**: the same status, and the same output if the same time was
measured. -/
def ShowSame (timing timing' : Timing) (o o' : Outcome) : Prop :=
  o.status = o'.status ∧ (timing.total = timing'.total → o.output = o'.output)

/-- **Reports of one run show the same**, whatever is logged with them. -/
theorem showSame_report (h : options.json = options'.json) (limits : Limits) (title : String)
    (warnings warnings' : List Warning) (p p' : Preferences) (r : Run) (program : String)
    (timing timing' : Timing) (stamp stamp' : String) :
    ShowSame timing timing'
      ((Plan.report title options warnings p r).outcome limits program timing stamp)
      ((Plan.report title options' warnings' p' r).outcome limits program timing' stamp') := by
  rw [Plan.outcome, Plan.outcome]
  rcases Setup.start limits with ⟨ready, _ | e⟩
  · cases r.conversion with
    | error e => exact ⟨rfl, fun _ => rfl⟩
    | ok c =>
      refine ⟨rfl, fun htime => ?_⟩
      change result title options timing.total c = result title options' timing'.total c
      rw [htime, result_congr h]
  · exact ⟨rfl, fun _ => rfl⟩

theorem plan_of_preferences {rest : List String} {p : Preferences} (hmodel : model ≠ "--help")
    (h : preferences (Options.parse rest).1 s = .ok p) :
    plan limits (model :: rest) s =
      .report model (Options.parse rest).1 (Options.parse rest).2 p (run limits model s) := by
  simp only [plan, if_neg hmodel, h]

/-- **What is told changes nothing.** Whatever the preferences, reading a section with them comes to
the same result and leaves the cursor at the same place, and what it tells is what is worked out
from the notices of reading without them. So it is for the command: where the model is the same and
the form of the result, and the preferences can be had, it ends with the same status and, but for
the time that it shows, prints the same. -/
theorem preferences_change_nothing (limits : Limits) :
    (∀ (p q : ReadingPreferences) (c : Cursor),
      (Section.readTelling p limits c).1 = (Section.readTelling q limits c).1 ∧
        (Section.readTelling p limits c).2.untrailed =
          (Section.readTelling q limits c).2.untrailed ∧
        (Section.readTelling p limits c).1 = (Section.read limits c).1 ∧
        Notice.events p (Section.readTelling p limits c).2.notices =
          Notice.events p (Section.read limits c).2.notices) ∧
    ∀ (model : String) (rest rest' : List String) (s s' : Surroundings) (p p' : Preferences),
      (Options.parse rest).1.json = (Options.parse rest').1.json → SameModel model s s' →
      preferences (Options.parse rest).1 s = .ok p →
      preferences (Options.parse rest').1 s' = .ok p' →
      ∀ (program : String) (timing timing' : Timing) (stamp stamp' : String),
        ShowSame timing timing'
          ((plan limits (model :: rest) s).outcome limits program timing stamp)
          ((plan limits (model :: rest') s').outcome limits program timing' stamp') := by
  refine ⟨fun p q c => ?_, ?_⟩
  · obtain ⟨hresult, hcursor, hevents⟩ := Section.readTelling_eq p limits c
    obtain ⟨hresult', hcursor', -⟩ := Section.readTelling_eq q limits c
    exact ⟨hresult.trans hresult'.symm, hcursor.trans hcursor'.symm, hresult, hevents⟩
  · intro model rest rest' s s' p p' hjson hsame hp hp' program timing timing' stamp stamp'
    by_cases hmodel : model = "--help"
    · rw [plan, plan, if_pos hmodel, if_pos hmodel]
      exact ⟨rfl, fun _ => rfl⟩
    · rw [plan_of_preferences hmodel hp, plan_of_preferences hmodel hp', hsame.run_eq limits]
      exact showSame_report hjson ..

/-- A model on the standard input, with a tag that no table has. -/
def surroundings : Surroundings where
  environment := fun _ => none
  input :=
    (encodeUtf8 "<ComponentName> a <NoOpComponent> <Odd> </NoOpComponent>\n".toList).map .ok
  lookup := fun _ => .directory
  decoder := Toml.decoder

/-- The same model, and a document that asks for such tags to be told. -/
def talkative : Surroundings :=
  { surroundings with
    lookup := fun path => .file ⟨path, 33, none,
      .ok (encodeUtf8 "[parser]\nlog_skipped_tags = true\n".toList)⟩ }

theorem preferences_change_nothing_talkative :
    preferences (Options.parse ["--quiet"]).1 surroundings =
        .ok ⟨⟨true⟩, ⟨false, true⟩, ⟨false, .error⟩⟩ ∧
      preferences (Options.parse ["--config", "p"]).1 talkative =
        .ok ⟨⟨true⟩, ⟨true, true⟩, ⟨false, .info⟩⟩ ∧
      ShowSame .zero .zero
        ((plan .standard ["-", "--quiet"] surroundings).outcome .standard "nnet" .zero "")
        ((plan .standard ["-", "--config", "p"] talkative).outcome .standard "nnet" .zero "") := by
  have hquiet : preferences (Options.parse ["--quiet"]).1 surroundings =
      .ok ⟨⟨true⟩, ⟨false, true⟩, ⟨false, .error⟩⟩ := by decide +kernel
  have htold : preferences (Options.parse ["--config", "p"]).1 talkative =
      .ok ⟨⟨true⟩, ⟨true, true⟩, ⟨false, .info⟩⟩ := by decide +kernel
  have hjson : (Options.parse ["--quiet"]).1.json = (Options.parse ["--config", "p"]).1.json := by
    decide
  have hsame : SameModel "-" surroundings talkative := ⟨fun _ => rfl, fun h => absurd rfl h⟩
  have hshow := (preferences_change_nothing .standard).2 "-" _ _ _ _ _ _ hjson hsame hquiet htold
  exact ⟨hquiet, htold, hshow "nnet" .zero .zero "" ""⟩

end Command

end NnetText
