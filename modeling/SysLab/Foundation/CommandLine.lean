import Mathlib.Data.List.Basic

/-!
# Options with values on a command line

A program reads its arguments in a loop that takes an option and the argument after
it, and stops with a message at anything else.

* `optionLoop_field` — the last value of an option is the one that counts.
-/

namespace SysLab.Foundation

variable {σ : Type*} {ε : Type*} {β : Type*}

/-- The loop, `set` saying what an option does with its value. -/
def optionLoop (usage : ε) (set : σ → String → String → Except ε σ) :
    List String → σ → Except ε σ
  | [], s => .ok s
  | [_], _ => .error usage
  | arg :: value :: rest, s =>
      match set s arg value with
      | .error e => .error e
      | .ok s => optionLoop usage set rest s

/-- The last value given to an option. -/
def lastValue (option : String) : List String → Option String
  | arg :: value :: rest =>
      (lastValue option rest).or (if arg = option then some value else none)
  | _ => none

section

variable {usage : ε} {set : σ → String → String → Except ε σ} {option : String}

/-- A field that one option sets is what its last value makes it; if the option is
not given, it is as before. -/
theorem optionLoop_field (field : σ → β) (R : String → β → Prop)
    (hset : ∀ s s' value, set s option value = .ok s' → R value (field s'))
    (hkeep : ∀ s s' arg value, arg ≠ option → set s arg value = .ok s' →
      field s' = field s) {args : List String} {s s' : σ}
    (h : optionLoop usage set args s = .ok s') :
    (∀ value, lastValue option args = some value → R value (field s')) ∧
      (lastValue option args = none → field s' = field s) := by
  induction args, s using optionLoop.induct set with
  | case1 s =>
      cases h
      constructor
      · intro value hlast
        cases hlast
      · exact fun _ => rfl
  | case2 arg s => cases h
  | case3 arg value rest s e hstep =>
      rw [optionLoop, hstep] at h
      cases h
  | case4 arg value rest s t hstep ih =>
      rw [optionLoop, hstep] at h
      obtain ⟨hgiven, hnone⟩ := ih h
      rw [lastValue]
      cases hlast : lastValue option rest with
      | some last =>
          constructor
          · rintro _ ⟨⟩
            exact hgiven last hlast
          · intro habsent
            cases habsent
      | none =>
          have hfield := hnone hlast
          by_cases harg : arg = option
          · subst harg
            rw [if_pos rfl, hfield]
            constructor
            · rintro _ ⟨⟩
              exact hset s t value hstep
            · intro habsent
              cases habsent
          · rw [if_neg harg, hfield]
            constructor
            · intro last hgiven
              cases hgiven
            · exact fun _ => hkeep s t arg value harg hstep

end

end SysLab.Foundation
