import Mathlib.Logic.Relation
import StackMachine.Fault

namespace StackMachine

namespace Fault

def Wraps (outer inner : Fault) : Prop := outer.unwrap = some inner

/-- Unwrapping leads from the first error, in any number of steps, to the second. -/
def Holds (outer inner : Fault) : Prop := Relation.ReflTransGen Wraps outer inner

variable {outer inner fault : Fault} {kind : Kind}

theorem Wraps.kindOf_eq (h : outer.Wraps inner) : outer.kindOf = inner.kindOf := by
  unfold Wraps at h
  cases outer with
  | bare _ | foreign _ => cases h
  | engine complaint | statement _ _ _ | context _ _ =>
    cases h
    rfl

theorem Holds.kindOf_eq (h : outer.Holds inner) : outer.kindOf = inner.kindOf := by
  induction h with
  | refl => rfl
  | tail _ step ih => rw [ih, step.kindOf_eq]

theorem holds_iff_of_innermost (h : outer.unwrap = none) : outer.Holds inner ↔ inner = outer := by
  constructor
  · intro hh
    rcases Relation.ReflTransGen.cases_head_iff.mp hh with he | ⟨next, hnext, -⟩
    · exact he.symm
    · cases h.symm.trans hnext
  · rintro rfl
    exact .refl

theorem holds_iff_of_unwrap {next : Fault} (h : outer.unwrap = some next) :
    outer.Holds inner ↔ inner = outer ∨ next.Holds inner := by
  constructor
  · intro hh
    rcases Relation.ReflTransGen.cases_head_iff.mp hh with he | ⟨other, hother, hrest⟩
    · exact .inl he.symm
    · obtain rfl : next = other := Option.some.inj (h.symm.trans hother)
      exact .inr hrest
  · rintro (rfl | hrest)
    · exact .refl
    · exact .head h hrest

theorem mem_layers_iff : inner ∈ fault.layers ↔ fault.Holds inner := by
  induction fault with
  | bare _ | foreign _ => rw [holds_iff_of_innermost rfl, layers, List.mem_singleton]
  | engine complaint =>
    -- the bare kind inside is no part of the engine error, so it is no case of the induction
    rw [holds_iff_of_unwrap rfl, holds_iff_of_innermost rfl, layers, List.mem_cons, List.mem_singleton]
  | statement _ _ _ ih | context _ _ ih => rw [holds_iff_of_unwrap rfl, layers, List.mem_cons, ih]

theorem isKind_iff : fault.isKind kind = true ↔ fault.Holds (.bare kind) := by
  rw [isKind, List.contains_iff_mem, mem_layers_iff]

theorem holds_kindOf (h : fault.kindOf ≠ ⟨0⟩) : fault.Holds (.bare fault.kindOf) := by
  induction fault with
  | bare _ => exact .refl
  | engine complaint => exact .single rfl
  | foreign _ => exact absurd rfl h
  | statement _ _ _ ih | context _ _ ih => exact .head rfl (ih h)

end Fault

/-- The two ways to classify an error agree. For every kind but zero, an error has the kind exactly when one of its
layers is the bare kind, which is when unwrapping leads to it; and the kind of an error is zero exactly when no other
kind is among its layers. -/
theorem kindOf_agrees_with_layers (fault : Fault) :
    (∀ kind : Kind, kind ≠ ⟨0⟩ → (fault.kindOf = kind ↔ fault.isKind kind = true)) ∧
      (fault.kindOf = ⟨0⟩ ↔ ∀ kind : Kind, kind ≠ ⟨0⟩ → fault.isKind kind = false) ∧
      ∀ kind, fault.isKind kind = true ↔ fault.Holds (.bare kind) := by
  have hof : ∀ kind, fault.isKind kind = true → fault.kindOf = kind := fun kind h =>
    (Fault.isKind_iff.mp h).kindOf_eq
  have hself : fault.kindOf ≠ ⟨0⟩ → fault.isKind fault.kindOf = true := fun h =>
    Fault.isKind_iff.mpr (Fault.holds_kindOf h)
  refine ⟨fun kind hkind => ⟨?_, hof kind⟩, ⟨fun hzero kind hkind => ?_, fun hnone => ?_⟩, fun kind => Fault.isKind_iff⟩
  · rintro rfl
    exact hself hkind
  · rw [Bool.eq_false_iff]
    intro h
    exact hkind (by rw [← hof kind h, hzero])
  · by_cases h : fault.kindOf = ⟨0⟩
    · exact h
    · have := hself h
      rw [hnone _ h] at this
      cases this

/-- A kind that has no name, under three layers, is found in both ways. -/
theorem kindOf_agrees_with_layers_unnamed :
    ∃ fault : Fault, fault = .context (utf8 "exec: line 3: DIV: DIV: error kind 42")
        (.statement 3 (utf8 "DIV") (.engine ⟨⟨42⟩, utf8 "DIV", []⟩)) ∧
      (⟨42⟩ : Kind) ≠ ⟨0⟩ ∧ fault.kindOf = ⟨42⟩ ∧ fault.isKind ⟨42⟩ = true ∧ fault.isKind .divideByZero = false := by
  refine ⟨_, rfl, by decide, rfl, ?_, ?_⟩
  · exact ((kindOf_agrees_with_layers _).1 ⟨42⟩ (by decide)).mp rfl
  · rw [Bool.eq_false_iff, Ne, ← (kindOf_agrees_with_layers _).1 .divideByZero (by decide)]
    decide

end StackMachine
