import NnetText.Component.Synthesis

/-!
# Names joined from several parts

A node that fixes an index is named after its input, the variable and the index, and a sum after
all of its inputs. Such a name does not always say what it was joined from. The variable and the
index stand side by side with nothing between them, and what stands between the other parts is a
word between two points, which the parts may have in them as well.

What happens then is the same for both kinds of nodes. Where a text is cut at a word between
points in two ways (`append_pointed_eq_iff`), one of the two cuts is further back, and what is in
front of it runs on over the word at the other (`RunsOn`). The points of two words may be one
point, so that the two cuts need not be apart.

* Two nodes that fix an index share a name exactly if they have the input in common and the text
  behind it, or one input runs on (`name_replaceIndex_eq_iff`).
* Two sums share a name exactly if from some input on one of them is a regrouping of the other
  (`Regrouped`), or neither has anything to be named after (`name_sum_eq_iff`).

So the parts can be told from the name where they are free of the words that join them
(`eq_of_name_replaceIndex`, `eq_of_name_sum`). That a node is named after its inputs does not
keep it from being one of them either: a sum of one input has its name
(`name_mem_inputs_iff`).
-/

namespace NnetText.Component

/-! ### Cuts at a word between points -/

/-- A word between points, as it joins the parts of a name. -/
def pointed (word : String) : String := "." ++ word ++ "."

/-- **The second front runs on over the word at which the first ends.** The point behind that word
may be the one in front of the word at which the second ends. -/
def RunsOn (word front rest front' rest' : String) : Prop :=
  ∃ between, front' = front ++ ("." ++ word) ++ between ∧
    "." ++ rest = between ++ pointed word ++ rest'

/-- A word is there in a text behind a point, and behind it is a point or nothing. -/
def HasWord (word text : String) : Prop :=
  ∃ front back, text = front ++ ("." ++ word) ++ back ∧ (back = "" ∨ ∃ rest, back = "." ++ rest)

/-- A text without some character is passed over before the character comes. -/
theorem exists_between_of_notMem {a : Char} {front rest front' rest' : List Char} (h : a ∉ front)
    (heq : front ++ rest = front' ++ a :: rest') :
    ∃ between, front' = front ++ between ∧ rest = between ++ a :: rest' := by
  rcases List.append_eq_append_iff.mp heq with ⟨between, rfl, rfl⟩ | ⟨between, rfl, hrest⟩
  · exact ⟨between, rfl, rfl⟩
  · rcases between with _ | ⟨c, between⟩
    · exact ⟨[], by rw [List.append_nil, List.append_nil], hrest.symm⟩
    · obtain ⟨rfl, -⟩ := List.cons.inj hrest
      exact absurd (List.mem_append_right _ List.mem_cons_self) h

theorem toList_append_pointed (front word rest : String) :
    (front ++ pointed word ++ rest).toList =
      front.toList ++ '.' :: (word.toList ++ '.' :: rest.toList) := by
  simp [pointed]

theorem runsOn_iff {word front rest front' rest' : String} :
    RunsOn word front rest front' rest' ↔
      ∃ between : List Char, front'.toList = front.toList ++ '.' :: (word.toList ++ between) ∧
        '.' :: rest.toList = between ++ '.' :: (word.toList ++ '.' :: rest'.toList) := by
  constructor
  · rintro ⟨between, rfl, hrest⟩
    have hchars := congrArg String.toList hrest
    rw [toList_append_pointed, String.toList_append] at hchars
    exact ⟨between.toList, by simp, hchars⟩
  · rintro ⟨between, hfront, hrest⟩
    refine ⟨String.ofList between, String.toList_injective ?_, String.toList_injective ?_⟩
    · simp [hfront]
    · rw [toList_append_pointed]
      simpa using hrest

/-- Where the second cut is not in front of the first, they are the same or the second front runs
on: the word at the first cut has no point in it, so that the point at the second is behind it. -/
theorem eq_or_runsOn_of_append {word front rest front' rest' : String} (h : '.' ∉ word.toList)
    {between : List Char} (hfront : front'.toList = front.toList ++ between)
    (hrest : '.' :: (word.toList ++ '.' :: rest.toList) =
      between ++ '.' :: (word.toList ++ '.' :: rest'.toList)) :
    (front = front' ∧ rest = rest') ∨ RunsOn word front rest front' rest' := by
  rcases between with _ | ⟨c, between⟩
  · have hsame : word.toList ++ '.' :: rest.toList = word.toList ++ '.' :: rest'.toList :=
      (List.cons.inj hrest).2
    rw [List.append_nil] at hfront
    exact Or.inl ⟨String.toList_injective hfront.symm,
      String.toList_injective (List.cons.inj (List.append_cancel_left hsame)).2⟩
  · obtain ⟨rfl, hbehind⟩ := List.cons.inj hrest
    obtain ⟨later, rfl, hlater⟩ := exists_between_of_notMem h hbehind
    exact Or.inr (runsOn_iff.mpr ⟨later, hfront, hlater⟩)

theorem RunsOn.append_eq {word front rest front' rest' : String}
    (h : RunsOn word front rest front' rest') :
    front ++ pointed word ++ rest = front' ++ pointed word ++ rest' := by
  obtain ⟨between, rfl, hrest⟩ := h
  calc front ++ pointed word ++ rest = front ++ ("." ++ word) ++ ("." ++ rest) := by
        simp only [pointed, String.append_assoc]
    _ = front ++ ("." ++ word) ++ between ++ pointed word ++ rest' := by
        rw [hrest]
        simp only [String.append_assoc]

/-- **Two cuts of one text** at a word between points are the same, or one front runs on. -/
theorem append_pointed_eq_iff {word : String} (h : '.' ∉ word.toList)
    {front rest front' rest' : String} :
    front ++ pointed word ++ rest = front' ++ pointed word ++ rest' ↔
      (front = front' ∧ rest = rest') ∨ RunsOn word front rest front' rest' ∨
        RunsOn word front' rest' front rest := by
  constructor
  · intro heq
    have hchars := congrArg String.toList heq
    rw [toList_append_pointed, toList_append_pointed] at hchars
    rcases List.append_eq_append_iff.mp hchars with
      ⟨between, hfront, hrest⟩ | ⟨between, hfront, hrest⟩
    · rcases eq_or_runsOn_of_append h hfront hrest with hsame | hruns
      · exact Or.inl hsame
      · exact Or.inr (Or.inl hruns)
    · rcases eq_or_runsOn_of_append h hfront hrest with ⟨rfl, rfl⟩ | hruns
      · exact Or.inl ⟨rfl, rfl⟩
      · exact Or.inr (Or.inr hruns)
  · rintro (⟨rfl, rfl⟩ | hruns | hruns)
    · rfl
    · exact hruns.append_eq
    · exact hruns.append_eq.symm

/-- A front can only run on over a word that is in the text behind it. -/
theorem RunsOn.point_mem {word front rest front' rest' : String}
    (h : RunsOn word front rest front' rest') : '.' ∈ rest.toList := by
  obtain ⟨between, -, hrest⟩ := runsOn_iff.mp h
  rcases between with _ | ⟨c, between⟩
  · simp [(List.cons.inj hrest).2]
  · simp [(List.cons.inj hrest).2]

/-! ### Fixed indexes -/

theorem name_replaceIndex (id : Nat) (input var index : String) :
    (replaceIndex id input var index).name =
      input ++ pointed "ReplaceIndex" ++ (var ++ index) := String.append_assoc

/-- **Which nodes that fix an index share a name.** -/
theorem name_replaceIndex_eq_iff {id id' : Nat} {input var index input' var' index' : String} :
    (replaceIndex id input var index).name = (replaceIndex id' input' var' index').name ↔
      (input = input' ∧ var ++ index = var' ++ index') ∨
        RunsOn "ReplaceIndex" input (var ++ index) input' (var' ++ index') ∨
        RunsOn "ReplaceIndex" input' (var' ++ index') input (var ++ index) := by
  rw [name_replaceIndex, name_replaceIndex]
  exact append_pointed_eq_iff (by decide)

/-- What an index is written with: digits and a minus sign. -/
def isIndexChar (c : Char) : Bool := c.isDigit || c == '-'

/-- **A plain variable and a plain index**: there is a place where the one ends and the other
begins, and no point. -/
structure IsPlain (var index : String) : Prop where
  var_char : ∀ c ∈ var.toList, isIndexChar c = false ∧ c ≠ '.'
  index_char : ∀ c ∈ index.toList, isIndexChar c = true

theorem IsPlain.point_notMem {var index : String} (h : IsPlain var index) :
    '.' ∉ (var ++ index).toList := by
  rw [String.toList_append]
  refine List.not_mem_append (fun hmem => (h.var_char _ hmem).2 rfl) fun hmem => ?_
  exact absurd (h.index_char _ hmem) (by decide)

/-- What belongs to a plain variable and to a plain index is nothing. -/
theorem IsPlain.eq_nil {var index var' index' : String} (h : IsPlain var index)
    (h' : IsPlain var' index') {front between back : List Char}
    (hvar : var.toList = front ++ between) (hindex : index'.toList = between ++ back) :
    between = [] := by
  rcases between with _ | ⟨c, between⟩
  · rfl
  · have hno := (h.var_char c (hvar ▸ List.mem_append_right _ List.mem_cons_self)).1
    rw [h'.index_char c (hindex ▸ List.mem_cons_self)] at hno
    cases hno

/-- **A plain variable and the index behind it can be told apart.** -/
theorem IsPlain.append_inj {var index var' index' : String} (h : IsPlain var index)
    (h' : IsPlain var' index') (heq : var ++ index = var' ++ index') :
    var = var' ∧ index = index' := by
  have hchars := congrArg String.toList heq
  rw [String.toList_append, String.toList_append] at hchars
  rcases List.append_eq_append_iff.mp hchars with ⟨between, hvar, hindex⟩ | ⟨between, hvar, hindex⟩
  · obtain rfl := h'.eq_nil h hvar hindex
    rw [List.append_nil] at hvar
    exact ⟨String.toList_injective hvar.symm, String.toList_injective hindex⟩
  · obtain rfl := h.eq_nil h' hvar hindex
    rw [List.append_nil] at hvar
    exact ⟨String.toList_injective hvar, String.toList_injective hindex.symm⟩

/-- **A fixed index can be told from the name** if the variable and the index are plain, whatever
the input is called. -/
theorem eq_of_name_replaceIndex {id id' : Nat} {input var index input' var' index' : String}
    (h : IsPlain var index) (h' : IsPlain var' index')
    (heq : (replaceIndex id input var index).name = (replaceIndex id' input' var' index').name) :
    input = input' ∧ var = var' ∧ index = index' := by
  rcases name_replaceIndex_eq_iff.mp heq with ⟨rfl, hbehind⟩ | hruns | hruns
  · exact ⟨rfl, h.append_inj h' hbehind⟩
  · exact absurd hruns.point_mem h.point_notMem
  · exact absurd hruns.point_mem h'.point_notMem

/-! ### Sums -/

/-- The inputs of a sum joined to its name. -/
def joined (inputs : List String) : String := (pointed "sum").intercalate inputs

theorem name_sum (id : Nat) (inputs : List String) : (sum id inputs).name = joined inputs := rfl

@[simp] theorem joined_nil : joined [] = "" := String.intercalate_nil

@[simp] theorem joined_singleton (input : String) : joined [input] = input :=
  String.intercalate_singleton

theorem joined_cons {inputs : List String} (h : inputs ≠ []) (input : String) :
    joined (input :: inputs) = input ++ pointed "sum" ++ joined inputs :=
  String.intercalate_cons_of_ne_nil h

/-- There is nothing to name a sum after. -/
def Nameless (inputs : List String) : Prop := inputs = [] ∨ inputs = [""]

/-- **The second inputs are a regrouping of the first**: up to some input they are the same, and
there the second runs on over the word that joins the first input to those behind it. -/
def Regrouped (inputs inputs' : List String) : Prop :=
  ∃ (common : List String) (input between : String) (rest rest' : List String),
    inputs = common ++ input :: rest ∧ rest ≠ [] ∧
    inputs' = common ++ (input ++ ("." ++ "sum") ++ between) :: rest' ∧
    "." ++ joined rest = joined (between :: rest')

theorem joined_append {common inputs : List String} (hcommon : common ≠ []) (hne : inputs ≠ []) :
    joined (common ++ inputs) = joined common ++ pointed "sum" ++ joined inputs :=
  String.intercalate_append_of_ne_nil hcommon hne

theorem joined_append_congr {inputs inputs' : List String} (hne : inputs ≠ [])
    (hne' : inputs' ≠ []) (h : joined inputs = joined inputs') (common : List String) :
    joined (common ++ inputs) = joined (common ++ inputs') := by
  by_cases hcommon : common = []
  · rw [hcommon, List.nil_append, List.nil_append, h]
  · rw [joined_append hcommon hne, joined_append hcommon hne', h]

theorem Regrouped.joined_eq {inputs inputs' : List String} (h : Regrouped inputs inputs') :
    joined inputs = joined inputs' := by
  obtain ⟨common, input, between, rest, rest', rfl, hne, rfl, hrest⟩ := h
  refine joined_append_congr (by simp) (by simp) ?_ common
  calc joined (input :: rest) = input ++ ("." ++ "sum") ++ ("." ++ joined rest) := by
        rw [joined_cons hne]
        simp only [pointed, String.append_assoc]
    _ = joined ((input ++ ("." ++ "sum") ++ between) :: rest') := by
        rw [hrest, joined, joined, String.intercalate_cons_append]

theorem Regrouped.cons {inputs inputs' : List String} (h : Regrouped inputs inputs')
    (input : String) : Regrouped (input :: inputs) (input :: inputs') := by
  obtain ⟨common, first, between, rest, rest', rfl, hne, rfl, hrest⟩ := h
  exact ⟨input :: common, first, between, rest, rest', rfl, hne, rfl, hrest⟩

theorem joined_eq_empty_iff {inputs : List String} : joined inputs = "" ↔ Nameless inputs := by
  constructor
  · intro h
    rcases inputs with _ | ⟨input, _ | ⟨second, rest⟩⟩
    · exact Or.inl rfl
    · rw [joined_singleton] at h
      exact Or.inr (by rw [h])
    · have hlength := congrArg String.length h
      rw [joined_cons (List.cons_ne_nil _ _), String.length_append, String.length_append] at hlength
      have hmark : (pointed "sum").length = 5 := by decide
      have hempty : "".length = 0 := rfl
      omega
  · rintro (rfl | rfl)
    · exact joined_nil
    · exact joined_singleton ""

/-- **One input that is called like a sum** regroups the inputs of the sum. -/
theorem eq_or_regrouped_singleton {inputs : List String} (h : inputs ≠ []) :
    inputs = [joined inputs] ∨ Regrouped inputs [joined inputs] := by
  rcases inputs with _ | ⟨input, rest⟩
  · exact absurd rfl h
  · by_cases hrest : rest = []
    · rw [hrest, joined_singleton]
      exact Or.inl rfl
    · refine Or.inr ⟨[], input, "." ++ joined rest, rest, [], rfl, hrest, ?_, ?_⟩
      · rw [joined_cons hrest, List.nil_append]
        simp only [pointed, String.append_assoc]
      · rw [joined_singleton]

/-- Where the first input runs on, the inputs are regrouped from the start. -/
theorem regrouped_of_runsOn {input input' : String} {rest rest' : List String} (hne : rest ≠ [])
    (hne' : rest' ≠ []) (h : RunsOn "sum" input (joined rest) input' (joined rest')) :
    Regrouped (input :: rest) (input' :: rest') := by
  obtain ⟨between, rfl, hrest⟩ := h
  exact ⟨[], input, between, rest, rest', rfl, hne, rfl, by rw [hrest, joined_cons hne']⟩

/-- **Sums with one name** have the same inputs, or one regroups those of the other. The induction
takes off the first input as long as the two agree. -/
theorem eq_or_regrouped_of_joined_eq {inputs inputs' : List String} (hne : inputs ≠ [])
    (hne' : inputs' ≠ []) (h : joined inputs = joined inputs') :
    inputs = inputs' ∨ Regrouped inputs inputs' ∨ Regrouped inputs' inputs := by
  induction inputs generalizing inputs' with
  | nil => exact absurd rfl hne
  | cons input rest ih =>
    rcases inputs' with _ | ⟨input', rest'⟩
    · exact absurd rfl hne'
    · by_cases hrest : rest = []
      · -- the first sum has one input, which is called like the second sum
        rw [hrest, joined_singleton] at h
        rw [hrest, h]
        rcases eq_or_regrouped_singleton hne' with heq | hregrouped
        · exact Or.inl heq.symm
        · exact Or.inr (Or.inr hregrouped)
      · by_cases hrest' : rest' = []
        · rw [hrest', joined_singleton] at h
          rw [hrest', ← h]
          rcases eq_or_regrouped_singleton hne with heq | hregrouped
          · exact Or.inl heq
          · exact Or.inr (Or.inl hregrouped)
        · rw [joined_cons hrest, joined_cons hrest'] at h
          rcases (append_pointed_eq_iff (by decide)).mp h with ⟨rfl, hjoined⟩ | hruns | hruns
          · rcases ih hrest hrest' hjoined with rfl | hregrouped | hregrouped
            · exact Or.inl rfl
            · exact Or.inr (Or.inl (hregrouped.cons input))
            · exact Or.inr (Or.inr (hregrouped.cons input))
          · exact Or.inr (Or.inl (regrouped_of_runsOn hrest hrest' hruns))
          · exact Or.inr (Or.inr (regrouped_of_runsOn hrest' hrest hruns))

/-- **Which sums share a name.** -/
theorem name_sum_eq_iff {id id' : Nat} {inputs inputs' : List String} :
    (sum id inputs).name = (sum id' inputs').name ↔
      inputs = inputs' ∨ (Nameless inputs ∧ Nameless inputs') ∨ Regrouped inputs inputs' ∨
        Regrouped inputs' inputs := by
  rw [name_sum, name_sum]
  constructor
  · intro h
    by_cases hne : inputs = []
    · rw [hne, joined_nil] at h
      exact Or.inr (Or.inl ⟨Or.inl hne, joined_eq_empty_iff.mp h.symm⟩)
    · by_cases hne' : inputs' = []
      · rw [hne', joined_nil] at h
        exact Or.inr (Or.inl ⟨joined_eq_empty_iff.mp h, Or.inl hne'⟩)
      · rcases eq_or_regrouped_of_joined_eq hne hne' h with heq | hregrouped
        · exact Or.inl heq
        · exact Or.inr (Or.inr hregrouped)
  · rintro (rfl | ⟨hnone, hnone'⟩ | hregrouped | hregrouped)
    · rfl
    · rw [joined_eq_empty_iff.mpr hnone, joined_eq_empty_iff.mpr hnone']
    · exact hregrouped.joined_eq
    · exact hregrouped.joined_eq.symm

/-- An input that runs on has the word of the sums in it. -/
theorem Regrouped.exists_hasWord {inputs inputs' : List String} (h : Regrouped inputs inputs') :
    ∃ input ∈ inputs', HasWord "sum" input := by
  obtain ⟨common, input, between, rest, rest', rfl, -, rfl, hrest⟩ := h
  refine ⟨_, List.mem_append_right _ List.mem_cons_self, input, between, rfl, ?_⟩
  -- what follows the word is the start of a text that starts with a point
  rcases hchars : between.toList with _ | ⟨c, chars⟩
  · exact Or.inl (String.toList_injective hchars)
  · have hbetween : between = String.ofList [c] ++ String.ofList chars :=
      String.toList_injective (by simp [hchars])
    have hpoint := congrArg String.toList hrest
    rw [hbetween, joined, joined, String.intercalate_cons_append, String.toList_append,
      String.toList_append] at hpoint
    simp only [String.toList_ofList, List.cons_append, List.nil_append] at hpoint
    obtain ⟨rfl, -⟩ := List.cons.inj hpoint
    exact Or.inr ⟨String.ofList chars, hbetween⟩

/-- **The inputs of a sum can be told from its name** if there are some and the word of the sums is
in none of them. -/
theorem eq_of_name_sum {id id' : Nat} {inputs inputs' : List String} (hne : inputs ≠ [])
    (hne' : inputs' ≠ []) (h : ∀ input ∈ inputs, ¬HasWord "sum" input)
    (h' : ∀ input ∈ inputs', ¬HasWord "sum" input)
    (heq : (sum id inputs).name = (sum id' inputs').name) : inputs = inputs' := by
  rcases eq_or_regrouped_of_joined_eq hne hne' heq with hsame | hregrouped | hregrouped
  · exact hsame
  · obtain ⟨input, hmem, hword⟩ := hregrouped.exists_hasWord
    exact absurd hword (h' input hmem)
  · obtain ⟨input, hmem, hword⟩ := hregrouped.exists_hasWord
    exact absurd hword (h input hmem)

/-! ### Shared names -/

/-- **Which nodes named after several parts share a name**, and which parts can be told from the
name. The numbers of the nodes have no part in it. -/
theorem sharedName_iff (id id' : Nat) :
    (∀ input var index input' var' index' : String,
      (replaceIndex id input var index).name = (replaceIndex id' input' var' index').name ↔
        (input = input' ∧ var ++ index = var' ++ index') ∨
          RunsOn "ReplaceIndex" input (var ++ index) input' (var' ++ index') ∨
          RunsOn "ReplaceIndex" input' (var' ++ index') input (var ++ index)) ∧
    (∀ inputs inputs' : List String,
      (sum id inputs).name = (sum id' inputs').name ↔
        inputs = inputs' ∨ (Nameless inputs ∧ Nameless inputs') ∨ Regrouped inputs inputs' ∨
          Regrouped inputs' inputs) ∧
    (∀ input var index input' var' index' : String, IsPlain var index → IsPlain var' index' →
      (input, var, index) ≠ (input', var', index') →
      (replaceIndex id input var index).name ≠ (replaceIndex id' input' var' index').name) ∧
    (∀ inputs inputs' : List String, inputs ≠ [] → inputs' ≠ [] →
      (∀ input ∈ inputs, ¬HasWord "sum" input) → (∀ input ∈ inputs', ¬HasWord "sum" input) →
      inputs ≠ inputs' → (sum id inputs).name ≠ (sum id' inputs').name) := by
  refine ⟨fun _ _ _ _ _ _ => name_replaceIndex_eq_iff, fun _ _ => name_sum_eq_iff, ?_, ?_⟩
  · intro input var index input' var' index' h h' hne heq
    obtain ⟨rfl, rfl, rfl⟩ := eq_of_name_replaceIndex h h' heq
    exact hne rfl
  · intro inputs inputs' hnil hnil' h h' hne heq
    exact hne (eq_of_name_sum hnil hnil' h h' heq)

/-- The letters of a word that is in a text are in the text. -/
theorem HasWord.mem {word text : String} (h : HasWord word text) {c : Char} (hc : c ∈ word.toList) :
    c ∈ text.toList := by
  obtain ⟨front, back, rfl, -⟩ := h
  simp [hc]

/-- Names of earlier nodes are no exception, as long as they have no sum in them. -/
theorem sharedName_iff_earlierNodes :
    IsPlain "t" "0" ∧ IsPlain "t" "-10" ∧
    (replaceIndex 4 "ivector.ReplaceIndex.t-1" "t" "0").name ≠
      (replaceIndex 5 "ivector" "t" "-10").name ∧
    (∀ input ∈ ["x.offset.-1", "x"], ¬HasWord "sum" input) ∧
    (sum 6 ["x.offset.-1", "x"]).name ≠ (sum 7 ["x", "x.offset.-1"]).name := by
  have hplain : IsPlain "t" "0" := ⟨by simp [isIndexChar], by simp [isIndexChar]⟩
  have hplain' : IsPlain "t" "-10" := ⟨by simp [isIndexChar], by simp [isIndexChar]⟩
  have hfree : ¬HasWord "sum" "x.offset.-1" := fun h =>
    absurd (h.mem (show 'u' ∈ "sum".toList by decide)) (by decide)
  have hfree' : ¬HasWord "sum" "x" := fun h =>
    absurd (h.mem (show 'u' ∈ "sum".toList by decide)) (by decide)
  have hinputs : ∀ input ∈ ["x.offset.-1", "x"], ¬HasWord "sum" input := by
    simp [hfree, hfree']
  have hinputs' : ∀ input ∈ ["x", "x.offset.-1"], ¬HasWord "sum" input := by
    simp [hfree, hfree']
  have hindexes := (sharedName_iff 4 5).2.2.1 "ivector.ReplaceIndex.t-1" "t" "0" "ivector" "t" "-10"
    hplain hplain' (by decide)
  have hsums := (sharedName_iff 6 7).2.2.2 ["x.offset.-1", "x"] ["x", "x.offset.-1"]
    (by decide) (by decide) hinputs hinputs' (by decide)
  exact ⟨hplain, hplain', hindexes, hinputs, hsums⟩

/-- A variable that ends in a digit and a nested sum: different parts, one name. -/
theorem sharedName_digitAndNestedSum :
    (("x", "t1", "0") ≠ ("x", "t", "10") ∧
      (replaceIndex 1 "x" "t1" "0").name = (replaceIndex 2 "x" "t" "10").name) ∧
    (["a.sum.b"] ≠ ["a", "b"] ∧ (sum 3 ["a.sum.b"]).name = (sum 4 ["a", "b"]).name) := by
  decide

/-! ### Nodes among their own inputs -/

/-- A name with something put behind it is another name. -/
theorem append_notMem_singleton {input mark : String} (h : mark ≠ "") :
    input ++ mark ∉ [input] := by
  intro hmem
  have hlength := congrArg String.length (List.mem_singleton.mp hmem)
  have hmark : mark.length ≠ 0 := fun hzero => h (String.length_eq_zero_iff.mp hzero)
  rw [String.length_append] at hlength
  omega

/-- No input is longer than the name of the sum. -/
theorem length_le_length_joined {input : String} {inputs : List String} (h : input ∈ inputs) :
    input.length ≤ (joined inputs).length := by
  induction inputs with
  | nil => cases h
  | cons first rest ih =>
    by_cases hrest : rest = []
    · rw [hrest, List.mem_singleton] at h
      subst hrest h
      exact Nat.le_of_eq (congrArg String.length (joined_singleton input).symm)
    · rw [joined_cons hrest, String.length_append, String.length_append]
      rcases List.mem_cons.mp h with rfl | hmem
      · omega
      · have hle := ih hmem
        omega

/-- **A sum has the name of one of its inputs exactly if there is no other.** -/
theorem joined_mem_iff {inputs : List String} :
    joined inputs ∈ inputs ↔ ∃ input, inputs = [input] := by
  constructor
  · intro hmem
    rcases inputs with _ | ⟨first, rest⟩
    · cases hmem
    · by_cases hrest : rest = []
      · exact ⟨first, by rw [hrest]⟩
      · -- the name is longer than the first input, and longer than what joins the rest
        have hmark : (pointed "sum").length = 5 := by decide
        have hlength := congrArg String.length (joined_cons hrest first)
        rw [String.length_append, String.length_append] at hlength
        rcases List.mem_cons.mp hmem with heq | hmem
        · rw [heq] at hlength
          omega
        · have hle := length_le_length_joined hmem
          omega
  · rintro ⟨input, rfl⟩
    rw [joined_singleton]
    exact List.mem_singleton_self input

/-- **Which reductions are among their own inputs**: no shift in time, no multiple and no fixed
index, and a sum exactly if it has one input. -/
theorem name_mem_inputs_iff (id : Nat) :
    (∀ (input : String) (shift : Int),
      (offset id input shift).name ∉ (offset id input shift).inputs) ∧
    (∀ (input : String) (factor : Double),
      (scale id input factor).name ∉ (scale id input factor).inputs) ∧
    (∀ input var index : String,
      (replaceIndex id input var index).name ∉ (replaceIndex id input var index).inputs) ∧
    ∀ inputs : List String,
      (sum id inputs).name ∈ (sum id inputs).inputs ↔ ∃ input, inputs = [input] := by
  refine ⟨fun input shift => ?_, fun input factor => ?_, fun input var index => ?_,
    fun _ => joined_mem_iff⟩
  · show input ++ ".offset." ++ toString shift ∉ [input]
    rw [String.append_assoc]
    exact append_notMem_singleton (by simp)
  · show input ++ ".scale." ++ nameNumber factor ∉ [input]
    rw [String.append_assoc]
    exact append_notMem_singleton (by simp)
  · show input ++ ".ReplaceIndex." ++ var ++ index ∉ [input]
    rw [String.append_assoc, String.append_assoc]
    exact append_notMem_singleton (by simp)

/-- The sum of one input is fed by itself. -/
theorem name_mem_inputs_singleSum : (sum 0 ["a"]).name ∈ (sum 0 ["a"]).inputs := by
  decide

end NnetText.Component
