import StackMachine.Proofs.ChangeLog

namespace StackMachine

namespace Definition

/-- By how many values the stack grows in the picture. -/
def growth (d : Definition) : Int := d.diagram.elim 0 fun p => p.after.length - p.before.length

/-- The values in the picture that the instruction finds on top of the stack; the last box is the rest. -/
def reads (d : Definition) : Nat := d.diagram.elim 0 fun p => p.before.length - 1

end Definition

/-- So many cells from the top downwards, with their places. -/
def Machine.topCells (m : Machine) (n : Nat) : List (Int × Cell) :=
  (List.range n).map fun k : Nat => (m.sp - k, m.stack.cell (m.sp - k))

theorem Stack.Valid.cell_eq_some {s : Stack} (hs : s.Valid) {i : Int} (hge : 0 ≤ i) (hle : i ≤ s.sp) :
    s.cell i = some ((s.cell i).getD 0) := by
  obtain ⟨n, rfl⟩ : ∃ n : Nat, i = n := ⟨i.toNat, by omega⟩
  have htop := hs.sp_le
  have hsome : (s.cell n).isSome := (hs.occupied_iff n (by omega)).mpr hle
  obtain ⟨v, hv⟩ := Option.isSome_iff_exists.mp hsome
  rw [hv]
  rfl

/-- A transaction does to a machine what the picture of its opcode shows. -/
structure Transaction.Follows (t : Transaction) (m : Machine) : Prop where
  growth : (t.pushed.length : Int) - t.pops = t.op.definition.growth
  depth : (t.op.definition.reads : Int) ≤ m.sp + 1
  consumed : t.consumed.map (fun c => (c.index, c.cell)) = m.topCells t.op.definition.reads
  pops_le : t.pops ≤ t.op.definition.reads
  still : t.op.definition.diagram = none → t.pops = 0 ∧ t.push = none
  staged : t.op.isStaged = true ↔ 0 < t.pops

namespace Machine

variable {m : Machine} {latch : Bool} {action : Action} {t : Transaction}

theorem topCells_one (m : Machine) : m.topCells 1 = [(m.sp, m.stack.cell m.sp)] := by
  simp [topCells]

theorem topCells_two (m : Machine) :
    m.topCells 2 = [(m.sp, m.stack.cell m.sp), (m.sp - 1, m.stack.cell (m.sp - 1))] := by
  simp [topCells, List.range_succ]

/-- An instruction without a picture, or with one that begins with the rest of the stack, reads nothing. -/
theorem follows_of_unread (hs : m.stack.Valid) (hreads : t.op.definition.reads = 0)
    (hconsumed : t.consumed = []) (hpops : t.pops = 0)
    (hgrowth : (t.pushed.length : Int) = t.op.definition.growth) (hstaged : t.op.isStaged = false)
    (hstill : t.op.definition.diagram = none → t.push = none) : t.Follows m := by
  have hge : -1 ≤ m.sp := hs.sp_ge
  constructor
  · rw [hpops, ← hgrowth]
    exact Int.sub_zero _
  · rw [hreads]
    omega
  · rw [hconsumed, hreads]
    rfl
  · omega
  · exact fun h => ⟨hpops, hstill h⟩
  · rw [hstaged, hpops]
    simp

/-- A binary operation replaces the two topmost values by its result. -/
theorem follows_of_combined {f : BinaryOp} (hs : m.stack.Valid) (hdepth : 1 ≤ m.sp) (hop : t.op = f.opcode)
    (hconsumed : t.consumed.map (fun c => (c.index, c.cell)) =
      [(m.sp, some (m.operand 0)), (m.sp - 1, some (m.operand 1))])
    (hpops : t.pops = 2) (hpushed : t.pushed.length = 1) : t.Follows m := by
  have hgrowth : t.op.definition.growth = -1 := by rw [hop]; cases f <;> rfl
  have hreads : t.op.definition.reads = 2 := by rw [hop]; cases f <;> rfl
  have hstaged : t.op.isStaged = true := by rw [hop]; cases f <;> rfl
  have hpicture : t.op.definition.diagram ≠ none := by rw [hop]; cases f <;> exact Option.some_ne_none _
  have htop : m.stack.cell m.sp = some (m.operand 0) := by
    rw [operand, Int.sub_zero]
    exact hs.cell_eq_some (by omega) (Int.le_refl _)
  have hsecond : m.stack.cell (m.sp - 1) = some (m.operand 1) :=
    hs.cell_eq_some (by omega) (by simp only [Machine.sp]; omega)
  constructor
  · rw [hpops, hpushed, hgrowth]
    rfl
  · omega
  · rw [hconsumed, hreads, topCells_two, htop, hsecond]
  · omega
  · exact fun h => absurd h hpicture
  · simp [hstaged, hpops]

theorem plan_follows (hs : m.stack.Valid) (hp : m.plan latch action = .ok t) : t.Follows m := by
  cases plan_planned hp with
  | halt | nothing | report | copy | assign => exact follows_of_unread hs rfl rfl rfl rfl rfl fun _ => rfl
  | push | load => exact follows_of_unread hs rfl rfl rfl rfl rfl (by simp [Opcode.definition])
  | @jump c | @skip c =>
    have hreads : c.opcode.definition.reads = 0 := by cases c <;> rfl
    have hgrowth : c.opcode.definition.growth = 0 := by cases c <;> rfl
    have hstaged : c.opcode.isStaged = false := by cases c <;> rfl
    exact follows_of_unread hs hreads rfl rfl hgrowth.symm hstaged fun _ => rfl
  | drop depth =>
    have hdepth : ((Opcode.pop.definition.reads : Nat) : Int) ≤ m.sp + 1 := by
      have hreads : Opcode.pop.definition.reads = 1 := rfl
      omega
    exact ⟨rfl, hdepth, m.topCells_one.symm, Nat.le_refl _, fun h => absurd h (Option.some_ne_none _),
      by simp [Opcode.isStaged]⟩
  | store depth =>
    have hdepth : ((Opcode.gpt.definition.reads : Nat) : Int) ≤ m.sp + 1 := by
      have hreads : Opcode.gpt.definition.reads = 1 := rfl
      omega
    exact ⟨rfl, hdepth, m.topCells_one.symm, Nat.zero_le _, fun h => absurd h (Option.some_ne_none _),
      by simp [Opcode.isStaged, Opcode.isBinary]⟩
  | latched depth | compared depth => exact follows_of_combined hs depth rfl rfl rfl rfl

theorem sp_commit (hm : m.Valid) (hw : t.Within m.stack) :
    (m.commit t).1.sp = m.sp + (t.pushed.length - t.pops) := by
  obtain ⟨vs, hv, hs⟩ := hm.stack.exists_values
  have hafter := commit_stack_ofValues hs hv hw
  have hpops : t.pops ≤ vs.length := by
    rw [hs] at hw
    exact hw.pops_le_length
  have hbefore : m.sp = vs.length - 1 := by rw [Machine.sp, hs, Stack.sp_ofValues]
  rw [hbefore, Machine.sp, hafter, Stack.sp_ofValues, List.length_append, List.length_drop]
  omega

/-- What lies below the values that are read stays as it is. -/
theorem cell_commit_below (hm : m.Valid) (hw : t.Within m.stack) (hf : t.Follows m) {i : Int}
    (hi : i ≤ m.sp - t.op.definition.reads) : (m.commit t).1.stack.cell i = m.stack.cell i := by
  by_cases hneg : i < 0
  · simp only [Stack.cell, if_pos hneg]
  · obtain ⟨n, rfl⟩ : ∃ n : Nat, i = n := ⟨i.toNat, by omega⟩
    have hpops := hf.pops_le
    refine (cell_commit_unlabelled hm hw (Transaction.hintAt_eq_none_iff.mpr ⟨?_, fun _ => ?_⟩)).symm
    · omega
    · omega

/-- A transaction that neither pops nor pushes touches no cell. -/
theorem commit_still (hpops : t.pops = 0) (hpush : t.push = none) :
    (m.commit t).1.stack = m.stack ∧ (m.commit t).2.cells = [] := by
  have hstack : t.stackAfter m.stack = m.stack := by simp [Transaction.stackAfter, hpush, hpops, Stack.dropTops]
  have hhint : ∀ i, t.hintAt m.sp i = none := by
    intro i
    rw [Transaction.hintAt_eq_none_iff, hpush, hpops]
    exact ⟨by omega, by simp⟩
  have hcells : (m.commit t).2.cells = t.cellsAfter m.sp (t.stackAfter m.stack) := rfl
  refine ⟨hstack, ?_⟩
  rw [hcells, Transaction.cellsAfter]
  exact List.filterMap_eq_nil_iff.mpr fun i _ => by rw [hhint]; rfl

end Machine

namespace Engine

variable {e : Engine} {code : UInt8} {operands : List Operand}

/-- An instruction that succeeds was planned on an engine that takes work, and could have been announced. -/
theorem dispatch_eq_ok {result : Result} (h : (e.dispatch code operands).reply = .ok result) :
    ∃ op t, Opcode.ofCode? code = some op ∧ t.op = op ∧ (e.plan code operands).2 = .ok t ∧
      (e.dispatch code operands).engine.machine = (e.machine.commit t).1 ∧ result = (e.machine.commit t).2 ∧
      ∀ mnemonic, Opcode.ofName? mnemonic = some op →
        (e.announce mnemonic operands).reply = .ok ⟨op, operands, t.consumed, t.detail⟩ := by
  have hfree : ∀ name, e.refusal? name = none := by
    intro name
    cases hr : e.refusal? (Opcode.nameOfCode code) with
    | some error =>
      simp only [dispatch, hr, refuse] at h
      cases h
    | none => exact refusal?_eq_none_iff.mpr (refusal?_eq_none_iff.mp hr)
  cases hplan : e.plan code operands with
  | mk log planned =>
    cases planned with
    | error error =>
      simp only [dispatch, hfree, hplan, reject_eq, Effect.after] at h
      cases h
    | ok t =>
      have hplanned : (e.plan code operands).2 = .ok t := by rw [hplan]
      obtain ⟨op, action, hcode, hoperands, haction⟩ := plan_eq_ok hplanned
      have hop : t.op = op := by
        rw [(Machine.plan_course haction).1]
        exact (Action.canonical_of_ofOperands hoperands).1
      have hsame : op.code = code := Opcode.code_of_ofCode? hcode
      simp only [dispatch, hfree, hplan, Engine.apply, Effect.after] at h ⊢
      refine ⟨op, t, hcode, hop, rfl, rfl, (Except.ok.inj h).symm, fun mnemonic hname => ?_⟩
      simp only [announce, hname, hfree, hsame, hplan]

end Engine

/-- The stack pictures of the catalog match the engine. Where an instruction succeeds, the stack grows by as many values
as its picture does; its announcement lists the cells that the picture reads, and no others, from the top downwards and
with what is in them; nothing below them changes, and nothing at all where there is no picture. An opcode is staged
exactly when its transaction takes values off the stack, which is when the stack gets shorter. -/
theorem stack_pictures_match {o : Options} {e : Engine} (hr : e.Reachable o) {code : UInt8} {operands : List Operand}
    {result : Result} (h : (e.dispatch code operands).reply = .ok result) :
    let after := (e.dispatch code operands).engine
    ∃ op t, Opcode.ofCode? code = some op ∧ (e.plan code operands).2 = .ok t ∧
      after.sp - e.sp = op.definition.growth ∧
      (∀ mnemonic, Opcode.ofName? mnemonic = some op →
        ∃ preview, (e.announce mnemonic operands).reply = .ok preview ∧
          preview.consumed.map (fun c => (c.index, c.cell)) =
            (List.range op.definition.reads).map (fun k : Nat => (e.sp - k, e.machine.stack.cell (e.sp - k))) ∧
          ∀ c ∈ preview.consumed, 0 ≤ c.index ∧ c.cell.isSome) ∧
      (∀ i, i ≤ e.sp - op.definition.reads → after.machine.stack.cell i = e.machine.stack.cell i) ∧
      (op.definition.diagram = none → after.machine.stack.cells = e.machine.stack.cells ∧ result.cells = []) ∧
      (op.isStaged = true ↔ 0 < t.pops) ∧
      (op.isStaged = true ↔ after.sp < e.sp) := by
  intro after
  obtain ⟨op, t, hcode, rfl, hplan, hmachine, rfl, hannounce⟩ := Engine.dispatch_eq_ok h
  have hm := hr.valid.machine
  have hw := Engine.plan_within hm hplan
  have hf : t.Follows e.machine := by
    obtain ⟨_, _, _, _, haction⟩ := Engine.plan_eq_ok hplan
    exact Machine.plan_follows hm.stack haction
  have hsp : after.sp = e.sp + t.op.definition.growth := by
    rw [← hf.growth, Engine.sp, hmachine]
    exact Machine.sp_commit hm hw
  refine ⟨t.op, t, hcode, hplan, by omega, fun mnemonic hname => ?_, fun i hi => ?_, fun hnone => ?_, hf.staged, ?_⟩
  · refine ⟨_, hannounce mnemonic hname, hf.consumed, fun c hc => ?_⟩
    have hpair : (c.index, c.cell) ∈ e.machine.topCells t.op.definition.reads := by
      rw [← hf.consumed]
      exact List.mem_map_of_mem hc
    obtain ⟨k, hk, hcell⟩ := List.mem_map.mp hpair
    obtain ⟨hindex, hcontent⟩ := Prod.mk.inj hcell
    have hdepth := hf.depth
    have hlt := List.mem_range.mp hk
    have hplace : 0 ≤ e.machine.sp - k := by omega
    have hsome := hm.stack.cell_eq_some hplace (by simp only [Machine.sp]; omega)
    exact ⟨by omega, by rw [← hcontent, hsome]; rfl⟩
  · rw [hmachine]
    exact Machine.cell_commit_below hm hw hf hi
  · obtain ⟨hpops, hpush⟩ := hf.still hnone
    obtain ⟨hstack, hcells⟩ := Machine.commit_still (m := e.machine) hpops hpush
    exact ⟨by rw [hmachine, hstack], hcells⟩
  · have hshrinks : t.op.isStaged = true ↔ t.op.definition.growth < 0 := by
      cases t.op <;> decide
    rw [hshrinks]
    omega

/-- A sum on a stack of three: the one that lies lowest stays, and the two others are shown before they go. -/
theorem stack_pictures_match_sum :
    ∃ e : Engine, e.Reachable { capacity := 3 } ∧ e.machine.stack.cells = [some 7, some (-2), some 5] ∧
      (∃ result, (e.dispatch Opcode.add.code []).reply = .ok result) ∧
      (e.dispatch Opcode.add.code []).engine.sp = 1 ∧
      (e.dispatch Opcode.add.code []).engine.machine.stack.cell 0 = some 7 ∧
      ∃ preview, (e.announce (utf8 "add") []).reply = .ok preview ∧
        preview.consumed.map (fun c => (c.index, c.cell)) = [(2, some 5), (1, some (-2))] := by
  obtain ⟨e, hr, hsp, hcells, result, hresult⟩ : ∃ e : Engine, e.Reachable { capacity := 3 } ∧ e.sp = 2 ∧
      e.machine.stack.cells = [some 7, some (-2), some 5] ∧
      ∃ result, (e.dispatch Opcode.add.code []).reply = .ok result :=
    ⟨_, ⟨_, [.call (.dispatch Opcode.psh.code [.imm 7]), .settle, .call (.dispatch Opcode.psh.code [.imm (-2)]), .settle,
      .call (.dispatch Opcode.psh.code [.imm 5]), .settle], rfl⟩, rfl, rfl, _, rfl⟩
  have hcell : ∀ n : Nat, e.machine.stack.cell n = ([some 7, some (-2), some 5] : List Cell)[n]?.join := by
    intro n
    rw [Stack.cell_natCast, hcells]
  obtain ⟨op, t, hop, -, hgrowth, hpreview, hbelow, -⟩ := stack_pictures_match hr hresult
  obtain rfl : Opcode.add = op := Option.some.inj hop
  have hreads : Opcode.add.definition.reads = 2 := rfl
  have hshorter : Opcode.add.definition.growth = -1 := rfl
  obtain ⟨preview, hreply, hconsumed, -⟩ := hpreview (utf8 "add") rfl
  refine ⟨e, hr, hcells, ⟨result, hresult⟩, by omega, ?_, preview, hreply, ?_⟩
  · rw [hbelow 0 (by omega)]
    exact hcell 0
  · rw [hconsumed, hreads, hsp]
    have htop := hcell 2
    have hsecond := hcell 1
    simpa [List.range_succ] using ⟨htop, hsecond⟩

end StackMachine
