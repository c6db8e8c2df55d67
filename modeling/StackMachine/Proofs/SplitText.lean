import StackMachine.Text.Split

namespace StackMachine

variable {separator : UInt8}

theorem splitAt_eq_splitOnPPrepend (part text : Bytes) :
    splitAt separator part text = text.splitOnPPrepend (· == separator) part := by
  induction text generalizing part with
  | nil => rfl
  | cons c text ih =>
    by_cases hc : c = separator
    · simp [splitAt, List.splitOnPPrepend, hc, ih]
    · simp [splitAt, List.splitOnPPrepend, hc, ih]

theorem splitOn_eq (text : Bytes) : splitOn separator text = text.splitOn separator :=
  splitAt_eq_splitOnPPrepend [] text

theorem not_mem_of_mem_splitAt {part text p : Bytes} (hpart : separator ∉ part)
    (h : p ∈ splitAt separator part text) : separator ∉ p := by
  induction text generalizing part with
  | nil =>
    rw [List.mem_singleton.mp h]
    simpa using hpart
  | cons c text ih =>
    unfold splitAt at h
    split at h
    next =>
      rcases List.mem_cons.mp h with rfl | h
      · simpa using hpart
      · exact ih (by simp) h
    next hc => exact ih (List.not_mem_cons_of_ne_of_not_mem (Ne.symm hc) hpart) h

theorem not_mem_of_mem_splitOn {text p : Bytes} (h : p ∈ splitOn separator text) : separator ∉ p :=
  not_mem_of_mem_splitAt List.not_mem_nil h

/-- The parts of a text are those that a separator ends, and what follows the last separator. -/
theorem splitOn_terminated {parts : List Bytes} {last : Bytes} (hparts : ∀ part ∈ parts, separator ∉ part)
    (hlast : separator ∉ last) : splitOn separator (parts.flatMap (· ++ [separator]) ++ last) = parts ++ [last] := by
  induction parts with
  | nil =>
    rw [List.flatMap_nil, List.nil_append, splitOn_eq]
    exact List.splitOn_eq_singleton hlast
  | cons part parts ih =>
    obtain ⟨hpart, hparts⟩ := List.forall_mem_cons.mp hparts
    have hrest := ih hparts
    rw [splitOn_eq] at hrest ⊢
    rw [List.flatMap_cons, List.append_assoc, List.append_assoc, List.singleton_append,
      List.splitOn_append_cons_self_of_not_mem hpart, hrest, List.cons_append]

end StackMachine
