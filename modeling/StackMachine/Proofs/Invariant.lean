import Mathlib.Algebra.Group.Int.Defs
import Mathlib.Data.List.Induction
import StackMachine.Proofs.History
import StackMachine.Proofs.MachineView

namespace StackMachine

/-- The invariant of an engine that was set up with some options. -/
structure Engine.Valid (o : Options) (e : Engine) : Prop where
  machine : e.machine.Valid
  capacity_eq : e.capacity = Stack.capacityFor o.capacity
  latch_eq : e.latch = o.latch
  awaiting_iff : e.phase = .awaitingCommit ↔ e.pending.isSome
  planned : ∀ t, e.pending = some t → ∃ code operands, (e.plan code operands).2 = .ok t

namespace Engine

variable {o : Options} {e : Engine} {t : Transaction}

theorem plan_within (hm : e.machine.Valid) {code : UInt8} {operands : List Operand}
    (hp : (e.plan code operands).2 = .ok t) : t.Within e.machine.stack := by
  obtain ⟨_, _, _, _, hplan⟩ := plan_eq_ok hp
  exact Machine.plan_within hm.stack hplan

theorem Valid.pending_within (hv : e.Valid o) (hp : e.pending = some t) : t.Within e.machine.stack := by
  obtain ⟨_, _, hplan⟩ := hv.planned t hp
  exact plan_within hv.machine hplan

theorem Valid.pending_eq_none (hv : e.Valid o) (hi : e.phase = .idle) : e.pending = none := by
  cases hp : e.pending with
  | none => rfl
  | some t =>
    have ha := hv.awaiting_iff.mpr (by rw [hp]; rfl)
    rw [hi] at ha
    cases ha

theorem valid_ofOptions (o : Options) : (Engine.ofOptions o).Valid o := by
  have hs : (Stack.empty o.capacity).Valid := by
    rw [Stack.empty_eq_ofValues]
    exact Stack.valid_ofValues (by simp)
  have hc : (Stack.empty o.capacity).capacity = Stack.capacityFor o.capacity := by
    simp [Stack.capacity, Stack.empty]
  obtain ⟨hm, hcap⟩ := Machine.valid_baseline hs
  exact ⟨hm, hcap.trans hc, rfl, by simp [Engine.ofOptions], by simp [Engine.ofOptions]⟩

/-- Carrying out a transaction that fits leaves a valid engine if no transaction is announced then. -/
theorem Valid.afterTransaction (hv : e.Valid o) (hw : t.Within e.machine.stack) (hi : e.phase = .idle) :
    (e.afterTransaction t).Valid o := by
  have hn := hv.pending_eq_none hi
  obtain ⟨hm, hcap⟩ := hv.machine.commit hw
  refine ⟨hm, hcap.trans hv.capacity_eq, hv.latch_eq, hv.awaiting_iff, ?_⟩
  intro t' ht'
  have hpending : (e.afterTransaction t).pending = e.pending := rfl
  rw [hpending, hn] at ht'
  cases ht'

theorem Valid.withdrawn (hv : e.Valid o) : e.withdrawn.Valid o :=
  ⟨hv.machine, hv.capacity_eq, hv.latch_eq, by simp [Engine.withdrawn], by simp [Engine.withdrawn]⟩

theorem Valid.afterRejection (hv : e.Valid o) : e.afterRejection.Valid o :=
  ⟨hv.machine, hv.capacity_eq, hv.latch_eq, hv.awaiting_iff, hv.planned⟩

theorem Valid.begins {c : Command} {effect : Effect Reply} (hv : e.Valid o) (hb : e.Begins c effect) :
    effect.engine.Valid o := by
  cases hb with
  | refused | nothing => exact hv
  | rejected => exact hv.afterRejection
  | announced _ _ _ planned =>
    refine ⟨hv.machine, hv.capacity_eq, hv.latch_eq, by simp, ?_⟩
    intro t' ht'
    cases ht'
    exact ⟨_, _, planned⟩
  | executed _ idle _ _ planned => exact hv.afterTransaction (plan_within hv.machine planned) idle
  | committed _ announced => exact hv.withdrawn.afterTransaction (hv.pending_within announced) rfl
  | reset =>
    obtain ⟨hm, hcap⟩ := Machine.valid_baseline hv.machine.stack
    refine ⟨hm, hcap.trans hv.capacity_eq, hv.latch_eq, ?_, ?_⟩
    · simp [Effect.map, Engine.reset]
    · simp [Effect.map, Engine.reset]

theorem Valid.settle (hv : e.Valid o) (generation : Nat) : (e.settle generation).Valid o := by
  unfold Engine.settle
  split
  next => exact ⟨hv.machine, hv.capacity_eq, hv.latch_eq, hv.awaiting_iff, hv.planned⟩
  next => exact hv

end Engine

namespace Moment

variable {o : Options}

theorem valid_next {m : Moment} (move : Move) (hv : m.engine.Valid o) : (m.next move).engine.Valid o := by
  cases move with
  | call c => exact hv.begins (m.engine.begin_begins c)
  | spend =>
    rw [next_spend_engine]
    exact hv.afterRejection
  | settle =>
    cases hn : m.notices with
    | nil => rw [next_settle_nil hn]; exact hv
    | cons notice rest => rw [next_settle_cons hn]; exact hv.settle notice.generation

theorem valid_after (o : Options) (moves : List Move) : ((start o).after moves).engine.Valid o :=
  after_keeps (P := fun m => m.engine.Valid o) (fun move _ _ hm => valid_next move hm) (Engine.valid_ofOptions o)

/-- A transaction is announced by one move, and no other move lets it stand and changes what it was planned from. -/
theorem pending_next {m : Moment} {move : Move} {t : Transaction} (hv : m.engine.Valid o)
    (hp : (m.next move).engine.pending = some t) :
    (∃ mnemonic operands op, move = .call (.announce mnemonic operands) ∧ Opcode.ofName? mnemonic = some op ∧
      ((m.next move).engine.plan op.code operands).2 = .ok t) ∨
    (m.engine.pending = some t ∧ (m.next move).engine.plan = m.engine.plan) := by
  cases move with
  | call c =>
    have hb := m.engine.begin_begins c
    have hnext : (m.next (.call c)).engine = (m.engine.begin c).engine := rfl
    rw [hnext] at hp ⊢
    generalize m.engine.begin c = effect at hb hp
    cases hb with
    | refused | nothing | rejected => exact .inr ⟨hp, rfl⟩
    | announced _ _ named planned =>
      cases hp
      exact .inl ⟨_, _, _, rfl, named, planned⟩
    | executed _ idle =>
      -- an idle engine has announced nothing
      have hpending := hv.pending_eq_none idle
      rw [show m.engine.pending = some t from hp] at hpending
      cases hpending
    | committed => cases hp
    | reset => cases hp
  | spend =>
    rw [next_spend_engine] at hp ⊢
    exact .inr ⟨hp, rfl⟩
  | settle =>
    cases hn : m.notices with
    | nil => rw [next_settle_nil hn] at hp ⊢; exact .inr ⟨hp, rfl⟩
    | cons notice rest =>
      rw [next_settle_cons hn] at hp ⊢
      simp only [Engine.settle] at hp ⊢
      split at hp
      next hg => rw [if_pos hg]; exact .inr ⟨hp, rfl⟩
      next hg => rw [if_neg hg]; exact .inr ⟨hp, rfl⟩

/-- An announced transaction is what its announcement would plan now. -/
theorem pending_after {moves : List Move} {t : Transaction}
    (hp : ((start o).after moves).engine.pending = some t) :
    ∃ before mnemonic operands later op, moves = before ++ .call (.announce mnemonic operands) :: later ∧
      Opcode.ofName? mnemonic = some op ∧
      (((start o).after moves).engine.plan op.code operands).2 = .ok t := by
  -- on the last move: it announces the transaction, or it lets an earlier announcement stand
  induction moves using List.reverseRecOn with
  | nil => cases hp
  | append_singleton moves move ih =>
    rw [after_append] at hp ⊢
    rcases pending_next (valid_after o moves) hp with ⟨mnemonic, operands, op, rfl, named, planned⟩ | ⟨hold, hsame⟩
    · exact ⟨moves, mnemonic, operands, [], op, rfl, named, planned⟩
    · obtain ⟨before, mnemonic, operands, later, op, rfl, named, planned⟩ := ih hold
      refine ⟨before, mnemonic, operands, later ++ [move], op, by simp, named, ?_⟩
      simp only [after_cons, after_nil, hsame]
      exact planned

end Moment

namespace Engine

variable {o : Options} {e : Engine}

theorem Reachable.valid (hr : e.Reachable o) : e.Valid o := by
  obtain ⟨notices, moves, hm⟩ := hr
  have hv := Moment.valid_after o moves
  rw [hm] at hv
  exact hv

theorem Valid.cell_above (hv : e.Valid o) {i : Int} (hi : e.sp < i) : e.machine.stack.cell i = none := by
  obtain ⟨vs, hfit, hs⟩ := hv.machine.stack.exists_values
  have hsp : e.sp = vs.length - 1 := by
    rw [Engine.sp, Machine.sp, hs, Stack.sp_ofValues]
  obtain ⟨n, rfl⟩ : ∃ n : Nat, i = n := ⟨i.toNat, by omega⟩
  rw [hs, Stack.cell_ofValues, List.getElem?_eq_none]
  rw [List.length_reverse]
  omega

theorem Valid.toInt_spRegister (hv : e.Valid o) (hc : o.capacity < 2 ^ 63) :
    (e.machine.registers.get .sp).toInt = e.sp := by
  have hge := hv.machine.stack.sp_ge
  have hle := hv.machine.stack.sp_le
  have hcap : e.machine.stack.capacity = Stack.capacityFor o.capacity := hv.capacity_eq
  have hbound : (Stack.capacityFor o.capacity : Int) < 2 ^ 63 := by
    unfold Stack.capacityFor defaultCapacity
    split <;> omega
  rw [hv.machine.spRegister]
  exact Int64.toInt_ofInt_of_le (by simp only [Machine.sp]; omega) (by simp only [Machine.sp]; omega)

end Engine

/-- Every moment of every history, inside callbacks or not, satisfies the invariant, slots that are not occupied hold
zero, the announced transaction is the plan of its announcement in the present machine, and every transaction that can
be carried out fits the stack. Calls on sessions, from the outside or from a callback inside some notices, lead to such
moments only. -/
theorem valid_throughout (o : Options) :
    (∀ moves : List Move,
      let e := ((Moment.start o).after moves).engine
      e.Valid o ∧
      (∀ i, e.sp < i → e.machine.stack.cell i = none) ∧
      (∀ slot ∈ e.machine.stack.slots, slot.occupied = false → slot.value = 0) ∧
      (o.capacity < 2 ^ 63 → (e.machine.registers.get .sp).toInt = e.sp) ∧
      (∀ t, e.pending = some t →
        ∃ before mnemonic operands later op, moves = before ++ .call (.announce mnemonic operands) :: later ∧
          Opcode.ofName? mnemonic = some op ∧ (e.plan op.code operands).2 = .ok t) ∧
      (∀ t, (e.pending = some t ∨ ∃ code operands, (e.plan code operands).2 = .ok t) → t.Fits e.machine.stack)) ∧
    (∀ (ω : Type) (react : Reaction ω) (patience depth : Nat),
      (∀ (s : Session ω) (call : Call ω) (outer : List Notice), Moment.Reached o ⟨s.engine, outer⟩ →
        Moment.Reached o ⟨(s.perform react patience depth call).1.engine, outer⟩) ∧
      (∀ (observers : List ω) (calls : List (Call ω)),
        ((Session.opened o observers).converse react patience depth calls).1.engine.Valid o)) := by
  refine ⟨?_, ?_⟩
  · intro moves e
    have hv : e.Valid o := Moment.valid_after o moves
    refine ⟨hv, fun i hi => hv.cell_above hi, hv.machine.stack.zero, hv.toInt_spRegister,
      fun t hp => Moment.pending_after hp, ?_⟩
    · rintro t (hp | ⟨code, operands, hp⟩)
      · exact (hv.pending_within hp).fits hv.machine.stack
      · exact (Engine.plan_within hv.machine hp).fits hv.machine.stack
  · intro ω react patience depth
    refine ⟨fun s call outer => Session.perform_keeps fun m move => Moment.Reached.next move, ?_⟩
    intro observers calls
    exact Engine.Reachable.valid ⟨[], Session.reached_converse o react patience depth observers calls⟩

end StackMachine
