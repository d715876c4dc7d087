import NnetText.Proofs.NameNumbers

/-!
# Chains of reductions

A node that is shifted in time or multiplied by a constant is named after its input, and the node
made from it is named after that name. Such a name can be taken apart again, as long as the chain
does not start at a name that looks like one made so (`Component.Unmarked`): the name of the last
node says where the chain started and what was done, step after step
(`Component.chainName_eq_iff`).

The marks of the two reductions overlap in their points, and there are points in the numbers too.
What takes them apart is the letter `s`. There is one in either mark, none behind it, and the
letter behind it says which mark it is.
-/

namespace NnetText.Component

/-- What is done to an input that a name can tell: a shift in time, or a factor that is a number. -/
inductive Reduction where
  | offset (shift : Int)
  | scale (factor : Double) (number : factor.isNan = false)
deriving DecidableEq

namespace Reduction

/-- The component that a reduction makes from an input. -/
def make (id : Nat) (input : String) : Reduction → Component
  | .offset shift => Component.offset id input shift
  | .scale factor _ => Component.scale id input factor

/-- What a reduction puts behind the name of its input. -/
def mark : Reduction → String
  | .offset shift => ".offset." ++ toString shift
  | .scale factor _ => ".scale." ++ nameNumber factor

@[simp] theorem name_make (r : Reduction) (id : Nat) (input : String) :
    (r.make id input).name = input ++ r.mark := by
  cases r with
  | offset shift => exact String.append_assoc
  | scale factor number => exact String.append_assoc

@[simp] theorem inputs_make (r : Reduction) (id : Nat) (input : String) :
    (r.make id input).inputs = [input] := by
  cases r <;> rfl

/-! ### Marks -/

/-- A mark in front of its last `s`. -/
def front : Reduction → List Char
  | .offset _ => ".off".toList
  | .scale _ _ => ".".toList

/-- A mark behind its last `s`. -/
def back : Reduction → List Char
  | .offset shift => "et.".toList ++ (toString shift).toList
  | .scale factor _ => "cale.".toList ++ (nameNumber factor).toList

theorem toList_mark (r : Reduction) : r.mark.toList = r.front ++ 's' :: r.back := by
  cases r with
  | offset shift => rw [mark, String.toList_append]; rfl
  | scale factor number => rw [mark, String.toList_append]; rfl

theorem s_notMem_back (r : Reduction) : 's' ∉ r.back := by
  cases r with
  | offset shift =>
    refine List.not_mem_append (by decide) fun hmem => ?_
    rcases isDigit_or_minus_of_mem_toString hmem with hdigit | hminus
    · exact absurd hdigit (by decide)
    · exact absurd hminus (by decide)
  | scale factor number => exact List.not_mem_append (by decide) (s_notMem_nameNumber factor)

/-- The letter behind the `s` says which reduction it is, and the number can be told from its
text. -/
theorem back_injective {r r' : Reduction} (h : r.back = r'.back) : r = r' := by
  cases r with
  | offset shift =>
    cases r' with
    | offset shift' =>
      rw [toString_int_injective (String.toList_injective (List.append_cancel_left h))]
    | scale factor' number' => exact absurd (List.cons.inj h).1 (by decide)
  | scale factor number =>
    cases r' with
    | offset shift' => exact absurd (List.cons.inj h).1 (by decide)
    | scale factor' number' =>
      obtain rfl := nameNumber_injective number number'
        (String.toList_injective (List.append_cancel_left h))
      rfl

/-- A list is split in one way at the last of its members that are equal to one. -/
theorem split_unique {a : Char} {front front' back back' : List Char} (h : a ∉ back)
    (h' : a ∉ back') (heq : front ++ a :: back = front' ++ a :: back') :
    front = front' ∧ back = back' := by
  rcases List.append_eq_append_iff.mp heq with ⟨between, rfl, hback⟩ | ⟨between, rfl, hback⟩
  · rcases between with _ | ⟨c, between⟩
    · exact ⟨(List.append_nil _).symm, (List.cons.inj hback).2⟩
    · exact absurd (by rw [(List.cons.inj hback).2]; simp) h
  · rcases between with _ | ⟨c, between⟩
    · exact ⟨List.append_nil _, (List.cons.inj hback).2.symm⟩
    · exact absurd (by rw [(List.cons.inj hback).2]; simp) h'

/-- **A name with a mark behind it can be taken apart.** -/
theorem append_mark_inj {name name' : String} {r r' : Reduction}
    (h : name ++ r.mark = name' ++ r'.mark) : name = name' ∧ r = r' := by
  have hchars := congrArg String.toList h
  rw [String.toList_append, String.toList_append, toList_mark, toList_mark, ← List.append_assoc,
    ← List.append_assoc] at hchars
  obtain ⟨hfront, hback⟩ := split_unique r.s_notMem_back r'.s_notMem_back hchars
  obtain rfl := back_injective hback
  exact ⟨String.toList_injective (List.append_cancel_right hfront), rfl⟩

end Reduction

/-! ### Chains -/

/-- **The components of a chain of reductions**, each made from the name of the one before it, the
first from `base`. -/
def chain (base : String) : List (Nat × Reduction) → List Component
  | [] => []
  | (id, r) :: steps => r.make id base :: chain (r.make id base).name steps

/-- The name a chain ends with. -/
def chainName (base : String) (steps : List (Nat × Reduction)) : String :=
  ((chain base steps).getLast?.map Component.name).getD base

/-- **A name that no reduction has made.** -/
def Unmarked (base : String) : Prop :=
  ∀ (name : String) (r : Reduction), base ≠ name ++ r.mark

theorem chainName_nil (base : String) : chainName base [] = base := rfl

theorem chainName_cons (base : String) (id : Nat) (r : Reduction)
    (steps : List (Nat × Reduction)) :
    chainName base ((id, r) :: steps) = chainName (base ++ r.mark) steps := by
  rw [chainName, chainName, chain, Reduction.name_make, List.getLast?_cons]
  rcases (chain (base ++ r.mark) steps).getLast? with _ | last
  · exact r.name_make id base
  · rfl

/-- The last step puts its mark behind everything else. -/
theorem chainName_concat (base : String) (steps : List (Nat × Reduction)) (step : Nat × Reduction) :
    chainName base (steps ++ [step]) = chainName base steps ++ step.2.mark := by
  induction steps generalizing base with
  | nil => rw [List.nil_append, chainName_cons, chainName_nil, chainName_nil]
  | cons first steps ih => rw [List.cons_append, chainName_cons, chainName_cons, ih]

/-- Which numbers the components have does not show in their names. -/
theorem chainName_congr (base : String) {steps steps' : List (Nat × Reduction)}
    (h : steps.map Prod.snd = steps'.map Prod.snd) :
    chainName base steps = chainName base steps' := by
  induction steps generalizing base steps' with
  | nil => rw [List.map_eq_nil_iff.mp h.symm]
  | cons first steps ih =>
    obtain ⟨first', steps', rfl, hfirst, hsteps⟩ := List.map_eq_cons_iff.mp h.symm
    rw [chainName_cons, chainName_cons, hfirst, ih _ hsteps.symm]

/-- **A chain can be told from its last name.** The induction takes the last step off; it comes to
an end where a name has no mark. -/
theorem eq_of_chainName_eq {base base' : String} (hbase : Unmarked base) (hbase' : Unmarked base')
    {steps steps' : List (Nat × Reduction)}
    (h : chainName base steps = chainName base' steps') :
    base = base' ∧ steps.map Prod.snd = steps'.map Prod.snd := by
  induction steps using List.reverseRecOn generalizing steps' with
  | nil =>
    rcases List.eq_nil_or_concat' steps' with rfl | ⟨steps', last', rfl⟩
    · exact ⟨h, rfl⟩
    · rw [chainName_concat] at h
      exact absurd h (hbase _ _)
  | append_singleton steps last ih =>
    rcases List.eq_nil_or_concat' steps' with rfl | ⟨steps', last', rfl⟩
    · rw [chainName_concat] at h
      exact absurd h.symm (hbase' _ _)
    · rw [chainName_concat, chainName_concat] at h
      obtain ⟨hname, hlast⟩ := Reduction.append_mark_inj h
      obtain ⟨rfl, hsteps⟩ := ih hname
      rw [List.map_append, List.map_append, hsteps, List.map_singleton, List.map_singleton, hlast]
      exact ⟨rfl, rfl⟩

/-- Behind the last `s` of an unmarked name is not what stands there in a mark. -/
theorem unmarked_of_back {base : String} {front back : List Char}
    (hbase : base.toList = front ++ 's' :: back) (hback : 's' ∉ back)
    (hne : ∀ r : Reduction, r.back ≠ back) : Unmarked base := by
  rintro name r rfl
  rw [String.toList_append, Reduction.toList_mark, ← List.append_assoc] at hbase
  exact hne r (Reduction.split_unique r.s_notMem_back hback hbase).2

/-- A name is longer than the one it is made from. -/
theorem name_notMem_inputs_chain {base : String} {steps : List (Nat × Reduction)} :
    ∀ component ∈ chain base steps, component.name ∉ component.inputs := by
  induction steps generalizing base with
  | nil => exact List.forall_mem_nil _
  | cons first steps ih =>
    refine List.forall_mem_cons.mpr ⟨?_, ih⟩
    rw [Reduction.name_make, Reduction.inputs_make, List.mem_singleton]
    intro heq
    have hlength := congrArg (List.length ∘ String.toList) heq
    simp [Reduction.toList_mark] at hlength

/-- **Chains of reductions can be decoded.** From two names that no reduction has made, two chains
end with the same name exactly if they start at the same name and do the same at every step; and
no component of a chain is among its own inputs. -/
theorem chainName_eq_iff {base base' : String} (hbase : Unmarked base) (hbase' : Unmarked base')
    (steps steps' : List (Nat × Reduction)) :
    (chainName base steps = chainName base' steps' ↔
      base = base' ∧ steps.map Prod.snd = steps'.map Prod.snd) ∧
    ∀ component ∈ chain base steps, component.name ∉ component.inputs := by
  refine ⟨⟨eq_of_chainName_eq hbase hbase', ?_⟩, name_notMem_inputs_chain⟩
  rintro ⟨rfl, hsteps⟩
  exact chainName_congr base hsteps

/-- The name ends in a mark that lacks its number. -/
theorem unmarked_input : Unmarked "input.offset." := by
  have hbase : "input.offset.".toList = "input.off".toList ++ 's' :: "et.".toList := rfl
  refine unmarked_of_back hbase (by decide) ?_
  rintro (shift | ⟨factor, number⟩) heq
  · have hnil : (toString shift).toList = [] := List.append_right_eq_self.mp heq
    rw [toList_toString_int] at hnil
    split at hnil
    · exact Nat.toDigits_ne_nil hnil
    · cases hnil
  · exact absurd (List.cons.inj heq).1 (by decide)

/-- Zeros of either sign are two factors. -/
theorem chainName_eq_iff_zeros :
    Unmarked "input.offset." ∧
    chainName "input.offset." [(4, .offset (-3)), (5, .scale ⟨0⟩ rfl)] ≠
      chainName "input.offset." [(4, .offset (-3)), (5, .scale ⟨0x8000000000000000⟩ rfl)] ∧
    ∀ component ∈ chain "input.offset." [(4, .offset (-3)), (5, .scale ⟨0⟩ rfl)],
      component.name ∉ component.inputs := by
  have hdecoded := chainName_eq_iff unmarked_input unmarked_input
    [(4, .offset (-3)), (5, .scale ⟨0⟩ rfl)]
    [(4, .offset (-3)), (5, .scale ⟨0x8000000000000000⟩ rfl)]
  refine ⟨unmarked_input, fun heq => ?_, hdecoded.2⟩
  exact absurd (hdecoded.1.mp heq).2 (by decide)

end NnetText.Component
