import Mathlib.Logic.Function.Basic
import Mathlib.Tactic.Choose
import NnetText.Preferences.Document

/-!
# Preferences are layered key by key

Each of the five preferences comes from three places, one below the other: a document, a variable
of the environment, and the built-in choice. This file says which of them decides, one preference
at a time: `Choice` names the five, with the section and the key of each in a document, its
variable, and what is built in. `Gives` and `Supplies` say what a document and an environment have
to say about a choice, and `Resolves` puts the layers on top of each other.

Preferences are read in groups, a section of the document for each, with the defaults of the group
below it. But a group is read choice by choice (`Toml.Entries.group?_pair`), and so are all of them
(`Preferences.ofEntries?_eq`): each choice is what is found for it in its section, above its own
default. So nothing that is said about one choice, in a document or in the environment, reaches
another one.
-/

namespace NnetText

open Toml (Item Entries)

/-! ### Five choices -/

/-- **What can be chosen.** -/
inductive Choice where
  | performance
  | skippedTags
  | componentSummaries
  | structured
  | least
deriving DecidableEq, Repr

namespace Choice

/-- What is chosen: a level, or a truth value. -/
abbrev Value : Choice → Type
  | least => Level
  | performance | skippedTags | componentSummaries | structured => Bool

/-- The section of a document that a choice belongs to. -/
def sectionName : Choice → String
  | performance => "file_processor"
  | skippedTags | componentSummaries => "parser"
  | structured | least => "logging"

/-- The key of a choice in its section. -/
def key : Choice → String
  | performance => "enable_performance_logging"
  | skippedTags => "log_skipped_tags"
  | componentSummaries => "log_component_summaries"
  | structured => "use_structured_logging"
  | least => "min_log_level"

/-- The place of a choice in a section that lists its choices in order. -/
def place : Choice → Nat
  | performance | skippedTags | structured => 0
  | componentSummaries | least => 1

/-- The variable that a choice is taken from. -/
def variableName : Choice → String
  | performance => "NNET3_ENABLE_PERFORMANCE_LOGGING"
  | skippedTags => "NNET3_PARSER_LOG_SKIPPED_TAGS"
  | componentSummaries => "NNET3_PARSER_LOG_COMPONENT_SUMMARIES"
  | structured => "NNET3_LOGGING_USE_STRUCTURED"
  | least => "NNET3_LOGGING_MIN_LEVEL"

/-- What is chosen where nothing is said. -/
def builtIn : (choice : Choice) → choice.Value
  | performance | componentSummaries => true
  | skippedTags | structured => false
  | least => Level.info

/-- **What an item of a document stands for**: a truth value for itself, and a string, or the one
key of a table with nothing in it, for the level of that name. -/
def Denotes : (choice : Choice) → Item → choice.Value → Prop
  | least => fun item level => item = .string level.name ∨
      ∃ origin inner, item = .table origin [(level.name, inner)] ∧ inner.isHollow = true
  | performance | skippedTags | componentSummaries | structured => fun item b => item = .boolean b

/-- **What the text of a variable means**: `true` and `false` are themselves, and a level is told as
anywhere else. -/
def Means : (choice : Choice) → String → choice.Value → Prop
  | least => fun s level => Level.parse s = .ok level
  | performance | skippedTags | componentSummaries | structured => fun s b =>
      s = "true" ∧ b = true ∨ s = "false" ∧ b = false

/-- Each choice has a variable of its own. -/
theorem variableName_injective : Function.Injective variableName := by
  intro choice choice' h
  revert h
  cases choice <;> cases choice' <;> decide

end Choice

/-- One of the preferences. -/
def Preferences.value (p : Preferences) : (choice : Choice) → choice.Value
  | .performance => p.file.performance
  | .skippedTags => p.reading.skippedTags
  | .componentSummaries => p.reading.componentSummaries
  | .structured => p.log.structured
  | .least => p.log.least

/-- The preferences with given values. -/
def Preferences.ofValues (values : (choice : Choice) → choice.Value) : Preferences where
  file := ⟨values .performance⟩
  reading := ⟨values .skippedTags, values .componentSummaries⟩
  log := ⟨values .structured, values .least⟩

theorem Preferences.value_ofValues (values : (choice : Choice) → choice.Value)
    (choice : Choice) : (ofValues values).value choice = values choice := by
  cases choice <;> rfl

/-- Preferences are their five values. -/
theorem Preferences.ext_value {p q : Preferences} (h : ∀ choice, p.value choice = q.value choice) :
    p = q := by
  obtain ⟨⟨performance⟩, ⟨skippedTags, componentSummaries⟩, ⟨structured, least⟩⟩ := p
  obtain rfl : performance = _ := h .performance
  obtain rfl : skippedTags = _ := h .skippedTags
  obtain rfl : componentSummaries = _ := h .componentSummaries
  obtain rfl : structured = _ := h .structured
  obtain rfl : least = _ := h .least
  rfl

/-! ### What a document and an environment say -/

/-- The elements of an item that is an array, also of one whose tables have headers of their own. -/
def Toml.Item.elements? : Item → Option (List Item)
  | .array elements => some elements
  | .tables latest earlier => some ((latest :: earlier).reverse.map (.table .header))
  | _ => none

/-- **What can stand for a section**: a table, an array, or a date, in which nothing is said. -/
def Toml.Item.IsSection (item : Item) : Prop :=
  (∃ origin inner, item = .table origin inner) ∨ (∃ elements, item.elements? = some elements) ∨
    item = .dateTime

/-- **A document gives an item for a choice**: under the key of the choice in its section, or at its
place in a section that is written as an array. -/
inductive Gives (entries : Entries) (choice : Choice) (item : Item) : Prop
  | named {origin : Toml.Origin} {inner : Entries}
      (hsection : entries.lookup choice.sectionName = some (.table origin inner))
      (hkey : inner.lookup choice.key = some item) : Gives entries choice item
  | listed {found : Item} {elements : List Item}
      (hsection : entries.lookup choice.sectionName = some found)
      (helements : found.elements? = some elements)
      (hplace : elements[choice.place]? = some item) : Gives entries choice item

/-- **An environment supplies a value for a choice**, by its variable. -/
def Supplies (env : Environment) (choice : Choice) (v : choice.Value) : Prop :=
  ∃ s, env choice.variableName = some s ∧ choice.Means s v

/-- **What a choice comes to**: what the document gives, else what the environment supplies, else
what is built in. -/
inductive Resolves (env : Environment) (entries : Entries) (choice : Choice) :
    choice.Value → Prop
  | document {item : Item} {v : choice.Value} (given : Gives entries choice item)
      (denotes : choice.Denotes item v) : Resolves env entries choice v
  | environment {v : choice.Value} (silent : ∀ item, ¬ Gives entries choice item)
      (supplied : Supplies env choice v) : Resolves env entries choice v
  | builtIn (silent : ∀ item, ¬ Gives entries choice item)
      (unsupplied : ∀ v, ¬ Supplies env choice v) : Resolves env entries choice choice.builtIn

/-- **A choice depends on nothing else** than what is said about it. -/
theorem Resolves.congr {env env' : Environment} {entries entries' : Entries} {choice : Choice}
    {v : choice.Value} (hgives : ∀ item, Gives entries choice item ↔ Gives entries' choice item)
    (hsupplies : ∀ v, Supplies env choice v ↔ Supplies env' choice v)
    (h : Resolves env entries choice v) : Resolves env' entries' choice v := by
  have hsilent : (∀ item, ¬ Gives entries choice item) → ∀ item, ¬ Gives entries' choice item :=
    fun hnone item hgiven => hnone item ((hgives item).mpr hgiven)
  cases h with
  | document given denotes => exact .document ((hgives _).mp given) denotes
  | environment silent supplied =>
    exact .environment (hsilent silent) ((hsupplies v).mp supplied)
  | builtIn silent unsupplied =>
    exact .builtIn (hsilent silent) fun v hv => unsupplied v ((hsupplies v).mpr hv)

/-- **A document fits the preferences**: its sections are sections, and what it gives for a choice
stands for a value. -/
structure FitsPreferences (entries : Entries) : Prop where
  sections : ∀ choice : Choice, ∀ item, entries.lookup choice.sectionName = some item →
    item.IsSection
  values : ∀ choice item, Gives entries choice item → ∃ v, choice.Denotes item v

/-! ### Reading items and texts -/

namespace Choice

/-- The value of an item. -/
def ofItem? : (choice : Choice) → Item → Option choice.Value
  | least => Item.level?
  | performance | skippedTags | componentSummaries | structured => Item.truth?

/-- The value of a text. -/
def ofText? : (choice : Choice) → String → Option choice.Value
  | least => fun s => (Level.parse s).toOption
  | performance | skippedTags | componentSummaries | structured => Environment.truth?

theorem truth?_item_eq_some {item : Item} {b : Bool} :
    item.truth? = some b ↔ item = .boolean b := by
  cases item <;> simp [Item.truth?]

theorem ofName?_eq_some {s : String} {level : Level} :
    Level.ofName? s = some level ↔ s = level.name := by
  constructor
  · intro h
    have hname := List.find?_some h
    exact (of_decide_eq_true hname).symm
  · rintro rfl
    cases level <;> decide

theorem level?_item_eq_some {item : Item} {level : Level} :
    item.level? = some level ↔ item = .string level.name ∨
      ∃ origin inner, item = .table origin [(level.name, inner)] ∧ inner.isHollow = true := by
  rcases item with s | _ | _ | _ | _ | _ | ⟨origin, _ | ⟨⟨name, inner⟩, _ | _⟩⟩ | _
  case table.cons.nil =>
    simp only [Item.level?, Option.ite_none_right_eq_some, ofName?_eq_some]
    constructor
    · rintro ⟨hhollow, rfl⟩
      exact Or.inr ⟨origin, inner, rfl, hhollow⟩
    · rintro (h | ⟨origin', inner', h, hhollow⟩)
      · cases h
      · cases h
        exact ⟨hhollow, rfl⟩
  all_goals simp [Item.level?, ofName?_eq_some]

theorem ofItem?_eq_some {choice : Choice} {item : Item} {v : choice.Value} :
    choice.ofItem? item = some v ↔ choice.Denotes item v := by
  cases choice with
  | least => exact level?_item_eq_some
  | performance | skippedTags | componentSummaries | structured => exact truth?_item_eq_some

theorem truth?_text_eq_some {s : String} {b : Bool} :
    Environment.truth? s = some b ↔ s = "true" ∧ b = true ∨ s = "false" ∧ b = false := by
  unfold Environment.truth?
  split
  · rename_i h
    subst h
    cases b <;> simp
  · rename_i h
    split
    · rename_i h'
      subst h'
      cases b <;> simp
    · rename_i h'
      simp [h, h']

theorem ofText?_eq_some {choice : Choice} {s : String} {v : choice.Value} :
    choice.ofText? s = some v ↔ choice.Means s v := by
  cases choice with
  | least =>
    change (Level.parse s).toOption = some v ↔ Level.parse s = .ok v
    cases Level.parse s <;> simp [Except.toOption]
  | performance | skippedTags | componentSummaries | structured => exact truth?_text_eq_some

end Choice

/-! ### Groups, choice by choice -/

namespace Toml.Entries

/-- The section of a given name; one that is left out says nothing. -/
def section? (entries : Entries) (name : String) : Option PreferenceSection :=
  match entries.lookup name with
  | none => some .blank
  | some item => PreferenceSection.ofItem? item

variable {α β γ : Type} (entries : Entries) (name : String)

/-- **A group of one choice** is read as the choice is. -/
theorem group?_single (first : PreferenceSection → Option β) (mk : β → α) (b : β) :
    entries.group? name (fun s => (first s).bind fun x => some (mk x)) (mk b) =
      (entries.group? name first b).bind fun x => some (mk x) := by
  unfold group?
  cases entries.lookup name with
  | none => rfl
  | some item => exact (Option.bind_assoc _ _ _).symm

/-- **A group of two choices** is read choice by choice. -/
theorem group?_pair (first : PreferenceSection → Option β) (second : PreferenceSection → Option γ)
    (mk : β → γ → α) (b : β) (c : γ) :
    entries.group? name (fun s => (first s).bind fun x => (second s).bind fun y => some (mk x y))
        (mk b c) =
      (entries.group? name first b).bind fun x =>
        (entries.group? name second c).bind fun y => some (mk x y) := by
  unfold group?
  cases entries.lookup name with
  | none => rfl
  | some item =>
    dsimp only
    cases PreferenceSection.ofItem? item <;> rfl

end Toml.Entries

/-- **What a choice comes to below a document.** -/
def Choice.fallback (env : Environment) (choice : Choice) : choice.Value :=
  ((env choice.variableName).bind choice.ofText?).getD choice.builtIn

/-- **What is found for a choice**, if its section and what it gives are in order. -/
def Choice.found? (env : Environment) (entries : Entries) (choice : Choice) :
    Option choice.Value :=
  (entries.section? choice.sectionName).bind
    (fun s => s.choice? choice.ofItem? choice.place choice.key (choice.fallback env))

/-- A choice that is left open is its default, whether its section is there or not. -/
theorem Choice.found?_eq_group? (env : Environment) (entries : Entries) (choice : Choice) :
    choice.found? env entries = entries.group? choice.sectionName
      (fun s => s.choice? choice.ofItem? choice.place choice.key (choice.fallback env))
      (choice.fallback env) := by
  unfold found? Toml.Entries.section? Toml.Entries.group?
  cases entries.lookup choice.sectionName <;> rfl

namespace Preferences

theorem value_default (env : Environment) (choice : Choice) :
    (Preferences.default env).value choice = choice.fallback env := by
  cases choice <;> rfl

/-- **Preferences are read choice by choice.** -/
theorem ofEntries?_eq (env : Environment) (entries : Entries) :
    ofEntries? env entries = (do
      let performance ← Choice.performance.found? env entries
      let skippedTags ← Choice.skippedTags.found? env entries
      let componentSummaries ← Choice.componentSummaries.found? env entries
      let structured ← Choice.structured.found? env entries
      let least ← Choice.least.found? env entries
      some ⟨⟨performance⟩, ⟨skippedTags, componentSummaries⟩, ⟨structured, least⟩⟩) := by
  have hfile : entries.group? "file_processor" (FilePreferences.ofSection? env) (.default env) =
      (Choice.performance.found? env entries).bind fun performance => some ⟨performance⟩ := by
    rw [Choice.found?_eq_group?]
    exact entries.group?_single _ _ FilePreferences.mk _
  have hreading : entries.group? "parser" (ReadingPreferences.ofSection? env) (.default env) =
      (Choice.skippedTags.found? env entries).bind fun skippedTags =>
        (Choice.componentSummaries.found? env entries).bind fun componentSummaries =>
          some ⟨skippedTags, componentSummaries⟩ := by
    rw [Choice.found?_eq_group?, Choice.found?_eq_group?]
    exact entries.group?_pair _ _ _ ReadingPreferences.mk _ _
  have hlog : entries.group? "logging" (LogPreferences.ofSection? env) (.default env) =
      (Choice.structured.found? env entries).bind fun structured =>
        (Choice.least.found? env entries).bind fun least => some ⟨structured, least⟩ := by
    rw [Choice.found?_eq_group?, Choice.found?_eq_group?]
    exact entries.group?_pair _ _ _ LogPreferences.mk _ _
  change ((entries.group? _ _ (FilePreferences.default env)).bind fun file =>
    (entries.group? _ _ (ReadingPreferences.default env)).bind fun reading =>
      (entries.group? _ _ (LogPreferences.default env)).bind fun log =>
        some (Preferences.mk file reading log)) = _
  rw [hfile, hreading, hlog]
  simp only [Option.bind_assoc, Option.bind_some]
  rfl

/-- The preferences of a document are what is found for each choice. -/
theorem ofEntries?_eq_some_iff {env : Environment} {entries : Entries} {prefs : Preferences} :
    ofEntries? env entries = some prefs ↔
      ∀ choice : Choice, choice.found? env entries = some (prefs.value choice) := by
  rw [ofEntries?_eq]
  constructor
  · intro h
    obtain ⟨performance, hperformance, h⟩ := Option.bind_eq_some_iff.mp h
    obtain ⟨skippedTags, hskippedTags, h⟩ := Option.bind_eq_some_iff.mp h
    obtain ⟨componentSummaries, hcomponentSummaries, h⟩ := Option.bind_eq_some_iff.mp h
    obtain ⟨structured, hstructured, h⟩ := Option.bind_eq_some_iff.mp h
    obtain ⟨least, hleast, h⟩ := Option.bind_eq_some_iff.mp h
    obtain rfl := Option.some.inj h
    intro choice
    cases choice <;> assumption
  · intro h
    refine Option.bind_eq_some_iff.mpr ⟨_, h .performance, ?_⟩
    refine Option.bind_eq_some_iff.mpr ⟨_, h .skippedTags, ?_⟩
    refine Option.bind_eq_some_iff.mpr ⟨_, h .componentSummaries, ?_⟩
    refine Option.bind_eq_some_iff.mpr ⟨_, h .structured, ?_⟩
    exact Option.bind_eq_some_iff.mpr ⟨_, h .least, rfl⟩

end Preferences

/-! ### Which layer decides -/

section

variable {env : Environment} {entries : Entries} {choice : Choice} {v : choice.Value}

theorem gives_iff_of_lookup {found item : Item}
    (h : entries.lookup choice.sectionName = some found) :
    Gives entries choice item ↔
      (∃ origin inner, found = .table origin inner ∧ inner.lookup choice.key = some item) ∨
      ∃ elements, found.elements? = some elements ∧ elements[choice.place]? = some item := by
  constructor
  · rintro (⟨hsection, hkey⟩ | ⟨hsection, helements, hplace⟩)
    · obtain rfl := Option.some.inj (h.symm.trans hsection)
      exact Or.inl ⟨_, _, rfl, hkey⟩
    · obtain rfl := Option.some.inj (h.symm.trans hsection)
      exact Or.inr ⟨_, helements, hplace⟩
  · rintro (⟨origin, inner, rfl, hkey⟩ | ⟨elements, helements, hplace⟩)
    · exact .named h hkey
    · exact .listed h helements hplace

theorem not_gives_of_lookup_none {item : Item} (h : entries.lookup choice.sectionName = none) :
    ¬ Gives entries choice item := by
  rintro (⟨hsection, -⟩ | ⟨hsection, -, -⟩)
  all_goals cases h.symm.trans hsection

/-- A section is found where something stands for it, or nothing is said. -/
theorem exists_section?_iff {name : String} :
    (∃ s, entries.section? name = some s) ↔
      ∀ item, entries.lookup name = some item → item.IsSection := by
  unfold Toml.Entries.section?
  cases hlookup : entries.lookup name with
  | none => simp
  | some found =>
    cases found <;>
      simp [PreferenceSection.ofItem?, Toml.Item.IsSection, Toml.Item.elements?]

/-- **What is found in a section** is what the document gives. -/
theorem item?_eq_some_iff {s : PreferenceSection} {item : Item}
    (h : entries.section? choice.sectionName = some s) :
    s.item? choice.place choice.key = some item ↔ Gives entries choice item := by
  unfold Toml.Entries.section? at h
  cases hlookup : entries.lookup choice.sectionName with
  | none =>
    rw [hlookup] at h
    obtain rfl := Option.some.inj h
    constructor
    · intro hblank
      cases hblank
    · exact fun hgiven => absurd hgiven (not_gives_of_lookup_none hlookup)
  | some found =>
    rw [hlookup] at h
    rw [gives_iff_of_lookup hlookup]
    cases found with
    | table origin inner =>
      cases h
      constructor
      · exact fun hkey => Or.inl ⟨origin, inner, rfl, hkey⟩
      · rintro (⟨_, _, hfound, hkey⟩ | ⟨_, helements, -⟩)
        · cases hfound
          exact hkey
        · cases helements
    | _ =>
      cases h <;> simp [PreferenceSection.item?, PreferenceSection.blank, Toml.Item.elements?]

theorem found?_of_gives {item : Item} {s : PreferenceSection}
    (h : entries.section? choice.sectionName = some s) (hgiven : Gives entries choice item) :
    choice.found? env entries = choice.ofItem? item := by
  rw [Choice.found?, h, Option.bind_some, PreferenceSection.choice?,
    (item?_eq_some_iff h).mpr hgiven]

theorem found?_of_silent {s : PreferenceSection}
    (h : entries.section? choice.sectionName = some s)
    (hsilent : ∀ item, ¬ Gives entries choice item) :
    choice.found? env entries = some (choice.fallback env) := by
  have hnone : s.item? choice.place choice.key = none := by
    refine Option.eq_none_iff_forall_not_mem.mpr fun item hitem => hsilent item ?_
    exact (item?_eq_some_iff h).mp hitem
  rw [Choice.found?, h, Option.bind_some, PreferenceSection.choice?, hnone]

/-- **Exactly in the documents that fit the preferences something is found for each choice.** -/
theorem fitsPreferences_iff (env : Environment) :
    FitsPreferences entries ↔ ∀ choice : Choice, ∃ v, choice.found? env entries = some v := by
  constructor
  · intro hfits choice
    obtain ⟨s, hs⟩ := exists_section?_iff.mpr (hfits.sections choice)
    by_cases hgiven : ∃ item, Gives entries choice item
    · obtain ⟨item, hgiven⟩ := hgiven
      obtain ⟨v, hv⟩ := hfits.values choice item hgiven
      exact ⟨v, (found?_of_gives hs hgiven).trans (Choice.ofItem?_eq_some.mpr hv)⟩
    · exact ⟨_, found?_of_silent hs (not_exists.mp hgiven)⟩
  · intro h
    have hsection (choice : Choice) : ∃ s, entries.section? choice.sectionName = some s := by
      obtain ⟨v, hv⟩ := h choice
      obtain ⟨s, hs, -⟩ := Option.bind_eq_some_iff.mp hv
      exact ⟨s, hs⟩
    refine ⟨fun choice => exists_section?_iff.mp (hsection choice), fun choice item hgiven => ?_⟩
    obtain ⟨s, hs⟩ := hsection choice
    obtain ⟨v, hv⟩ := h choice
    exact ⟨v, Choice.ofItem?_eq_some.mp ((found?_of_gives hs hgiven).symm.trans hv)⟩

theorem supplies_iff :
    Supplies env choice v ↔ (env choice.variableName).bind choice.ofText? = some v := by
  rw [Option.bind_eq_some_iff]
  exact exists_congr fun s => and_congr_right fun _ => Choice.ofText?_eq_some.symm

theorem fallback_of_supplies (h : Supplies env choice v) : choice.fallback env = v := by
  rw [Choice.fallback, supplies_iff.mp h, Option.getD_some]

theorem fallback_of_unsupplied (h : ∀ v, ¬ Supplies env choice v) :
    choice.fallback env = choice.builtIn := by
  have hnone : (env choice.variableName).bind choice.ofText? = none :=
    Option.eq_none_iff_forall_not_mem.mpr fun v hv => h v (supplies_iff.mpr hv)
  rw [Choice.fallback, hnone, Option.getD_none]

/-- **A choice comes to what is found for it.** -/
theorem resolves_iff {x : choice.Value} (h : choice.found? env entries = some x) :
    Resolves env entries choice v ↔ x = v := by
  obtain ⟨s, hs, -⟩ := Option.bind_eq_some_iff.mp h
  constructor
  · intro hresolves
    cases hresolves with
    | document given denotes =>
      rw [found?_of_gives hs given, Choice.ofItem?_eq_some.mpr denotes] at h
      exact (Option.some.inj h).symm
    | environment silent supplied =>
      rw [found?_of_silent hs silent, fallback_of_supplies supplied] at h
      exact (Option.some.inj h).symm
    | builtIn silent unsupplied =>
      rw [found?_of_silent hs silent, fallback_of_unsupplied unsupplied] at h
      exact (Option.some.inj h).symm
  · rintro rfl
    by_cases hgiven : ∃ item, Gives entries choice item
    · obtain ⟨item, hgiven⟩ := hgiven
      rw [found?_of_gives hs hgiven] at h
      exact .document hgiven (Choice.ofItem?_eq_some.mp h)
    · have hsilent := not_exists.mp hgiven
      rw [found?_of_silent hs hsilent] at h
      obtain rfl := Option.some.inj h
      by_cases hsupplied : ∃ v, Supplies env choice v
      · obtain ⟨v, hv⟩ := hsupplied
        exact fallback_of_supplies hv ▸ .environment hsilent hv
      · have hunsupplied := not_exists.mp hsupplied
        exact fallback_of_unsupplied hunsupplied ▸ .builtIn hsilent hunsupplied

/-- **A variable that means nothing is as good as none.** -/
theorem fallback_update (h : ∀ v, ¬ Supplies env choice v) (other : Choice) :
    other.fallback (Function.update env choice.variableName none) = other.fallback env := by
  by_cases hother : other = choice
  · subst hother
    rw [fallback_of_unsupplied h, Choice.fallback, Function.update_self, Option.bind_none,
      Option.getD_none]
  · have hname : other.variableName ≠ choice.variableName :=
      fun heq => hother (Choice.variableName_injective heq)
    rw [Choice.fallback, Choice.fallback, Function.update_of_ne hname]

end

/-! ### All preferences -/

namespace Preferences

variable {decoder : Toml.Decoder} {env : Environment} {text : List Char} {prefs : Preferences}

/-- **There are preferences in a document** exactly if it fits them. -/
theorem exists_ofEntries?_iff (env : Environment) {entries : Entries} :
    (∃ prefs, ofEntries? env entries = some prefs) ↔ FitsPreferences entries := by
  rw [fitsPreferences_iff env]
  constructor
  · rintro ⟨prefs, hprefs⟩ choice
    exact ⟨_, ofEntries?_eq_some_iff.mp hprefs choice⟩
  · intro h
    choose values hvalues using h
    refine ⟨ofValues values, ofEntries?_eq_some_iff.mpr fun choice => ?_⟩
    rw [value_ofValues, hvalues choice]

/-- **The preferences of a document** are what each choice comes to. -/
theorem ofDocument_eq_ok_iff :
    ofDocument decoder env text = .ok prefs ↔ ∃ entries, decoder.decode text = .ok entries ∧
      FitsPreferences entries ∧ ∀ choice, Resolves env entries choice (prefs.value choice) := by
  constructor
  · intro h
    cases hdecode : decoder.decode text with
    | error reason => simp only [ofDocument, hdecode, reduceCtorEq] at h
    | ok entries =>
      simp only [ofDocument, hdecode] at h
      cases hentries : ofEntries? env entries with
      | none => simp only [hentries, reduceCtorEq] at h
      | some found =>
        simp only [hentries] at h
        obtain rfl := Except.ok.inj h
        have hfound := ofEntries?_eq_some_iff.mp hentries
        refine ⟨entries, rfl, (fitsPreferences_iff env).mpr fun choice => ⟨_, hfound choice⟩, ?_⟩
        exact fun choice => (resolves_iff (hfound choice)).mpr rfl
  · rintro ⟨entries, hdecode, hfits, hresolves⟩
    have hentries : ofEntries? env entries = some prefs := by
      refine ofEntries?_eq_some_iff.mpr fun choice => ?_
      obtain ⟨v, hv⟩ := (fitsPreferences_iff env).mp hfits choice
      rw [hv, (resolves_iff hv).mp (hresolves choice)]
    simp only [ofDocument, hdecode, hentries]

/-- Without a document the other two layers decide. -/
theorem resolves_default (env : Environment) (choice : Choice) :
    Resolves env [] choice ((Preferences.default env).value choice) := by
  have hfound : choice.found? env [] = some (choice.fallback env) := by cases choice <;> rfl
  rw [resolves_iff hfound, value_default]

theorem default_update {choice : Choice} (h : ∀ v, ¬ Supplies env choice v) :
    Preferences.default (Function.update env choice.variableName none) = .default env := by
  refine ext_value fun other => ?_
  rw [value_default, value_default, fallback_update h]

theorem ofEntries?_update {choice : Choice} (h : ∀ v, ¬ Supplies env choice v)
    (entries : Entries) :
    ofEntries? (Function.update env choice.variableName none) entries = ofEntries? env entries := by
  simp only [ofEntries?_eq, Choice.found?, fallback_update h]

end Preferences

/-- **Preferences are layered key by key.** Whatever decodes the documents, one is accepted if it
can be decoded and fits the preferences, and then each of them is what the document gives, else what
its variable supplies, else what is built in; so it is without a document, but for the first. What
else a document says and what other variables are set to makes no difference to it, and a variable
that means nothing might as well not be set. -/
theorem Preferences.layered (decoder : Toml.Decoder) (env : Environment) (text : List Char) :
    (∀ prefs, ofDocument decoder env text = .ok prefs ↔
      ∃ entries, decoder.decode text = .ok entries ∧
        FitsPreferences entries ∧ ∀ choice, Resolves env entries choice (prefs.value choice)) ∧
    (∀ choice, Resolves env [] choice ((Preferences.default env).value choice)) ∧
    (∀ env' text' entries entries' prefs prefs' choice, decoder.decode text = .ok entries →
      decoder.decode text' = .ok entries' → ofDocument decoder env text = .ok prefs →
      ofDocument decoder env' text' = .ok prefs' →
      (∀ item, Gives entries choice item ↔ Gives entries' choice item) →
      (∀ v, Supplies env choice v ↔ Supplies env' choice v) →
      prefs.value choice = prefs'.value choice) ∧
    ∀ choice : Choice, (∀ v, ¬ Supplies env choice v) →
      ofDocument decoder (Function.update env choice.variableName none) text =
        ofDocument decoder env text ∧
      Preferences.default (Function.update env choice.variableName none) = .default env := by
  refine ⟨fun prefs => ofDocument_eq_ok_iff, resolves_default env, ?_, ?_⟩
  · intro env' text' entries entries' prefs prefs' choice hdecode hdecode' h h' hgives hsupplies
    obtain ⟨_, hentries, hfits, hresolves⟩ := ofDocument_eq_ok_iff.mp h
    obtain rfl := Except.ok.inj (hdecode.symm.trans hentries)
    obtain ⟨_, hentries', -, hresolves'⟩ := ofDocument_eq_ok_iff.mp h'
    obtain rfl := Except.ok.inj (hdecode'.symm.trans hentries')
    obtain ⟨x, hx⟩ := (fitsPreferences_iff env).mp hfits choice
    have hother := (hresolves' choice).congr (fun item => (hgives item).symm)
      (fun v => (hsupplies v).symm)
    exact ((resolves_iff hx).mp (hresolves choice)).symm.trans ((resolves_iff hx).mp hother)
  · intro choice h
    refine ⟨?_, default_update h⟩
    simp only [ofDocument, ofEntries?_update h]

/-- A document with one key of one section, and a section that says nothing. -/
def sparseDocument : List Char :=
  "[parser]\nlog_component_summaries = false\n[logging]\n".toList

/-- An environment with one variable that means something and one that does not. -/
def mixedEnvironment : Environment
  | "NNET3_PARSER_LOG_SKIPPED_TAGS" => some "yes"
  | "NNET3_LOGGING_MIN_LEVEL" => some "WARN"
  | _ => none

/-- All three layers decide here: the document about one choice, a variable about another, and what
is built in about the others, one of which has a variable that means nothing. -/
theorem Preferences.layered_sparseDocument :
    (∃ entries, Toml.decoder.decode sparseDocument = .ok entries ∧ FitsPreferences entries ∧
      Resolves mixedEnvironment entries .componentSummaries false ∧
      Resolves mixedEnvironment entries .skippedTags false ∧
      Resolves mixedEnvironment entries .least Level.warning ∧
      Resolves mixedEnvironment entries .performance true) ∧
    ofDocument Toml.decoder (Function.update mixedEnvironment "NNET3_PARSER_LOG_SKIPPED_TAGS" none)
      sparseDocument = ofDocument Toml.decoder mixedEnvironment sparseDocument := by
  have hread : (Toml.parse? sparseDocument).bind (ofEntries? mixedEnvironment) =
      some ⟨⟨true⟩, ⟨false, false⟩, ⟨false, .warning⟩⟩ := by decide +kernel
  have hloaded : ofDocument Toml.decoder mixedEnvironment sparseDocument =
      .ok ⟨⟨true⟩, ⟨false, false⟩, ⟨false, .warning⟩⟩ := by
    obtain ⟨entries, hparse, hentries⟩ := Option.bind_eq_some_iff.mp hread
    simp only [ofDocument, Toml.decoder, hparse, Option.elim_some, hentries]
  obtain ⟨hdocument, -, -, hunset⟩ :=
    Preferences.layered Toml.decoder mixedEnvironment sparseDocument
  obtain ⟨entries, hdecode, hfits, hresolves⟩ := (hdocument _).mp hloaded
  refine ⟨⟨entries, hdecode, hfits, hresolves .componentSummaries, hresolves .skippedTags,
    hresolves .least, hresolves .performance⟩, (hunset .skippedTags ?_).1⟩
  rintro v ⟨s, hs, hmeans⟩
  obtain rfl : "yes" = s := Option.some.inj hs
  rcases hmeans with ⟨h, -⟩ | ⟨h, -⟩
  · exact absurd h (by decide)
  · exact absurd h (by decide)

end NnetText
