import Mathlib.Algebra.Group.Int.Defs
import StackMachine.Proofs.ByteForm
import StackMachine.Proofs.Delivery

namespace StackMachine

/-- The registers and the cells as an observer knows them. -/
structure Mirror where
  registers : RegisterFile
  cells : List Cell
  deriving DecidableEq

namespace Mirror

/-- Every register zero except SP, which is -1, and every cell empty. -/
def baseline (capacity : Nat) : Mirror := ⟨RegisterFile.zero.set .sp (-1), List.replicate capacity none⟩

/-- Applies an event; lines of the log change nothing. -/
def apply (m : Mirror) : Event → Mirror
  | .register name v =>
    match Register.ofName? name with
    | some r => { m with registers := m.registers.set r v }
    | none => m
  | .stack index cell _ => if index < 0 then m else { m with cells := m.cells.set index.toNat cell }
  | .ip v => { m with registers := m.registers.set .ip v }
  | .log .. | .error .. => m

def replay (m : Mirror) (events : List Event) : Mirror := events.foldl apply m

theorem replay_append (m : Mirror) (first second : List Event) :
    m.replay (first ++ second) = (m.replay first).replay second :=
  List.foldl_append

theorem replay_registers (m : Mirror) (writes : List (Register × Int64)) :
    m.replay (writes.map fun w => .register w.1.name w.2) = { m with registers := m.registers.setAll writes } := by
  induction writes generalizing m with
  | nil => rfl
  | cons w writes ih =>
    have hw : m.apply (.register w.1.name w.2) = { m with registers := m.registers.set w.1 w.2 } := by
      simp only [apply, Register.ofName?_name]
    have hnext := ih { m with registers := m.registers.set w.1 w.2 }
    rw [List.map_cons, replay, List.foldl_cons, hw]
    exact hnext

/-- The cells after some changes, made one after the other. -/
def changed (cells : List Cell) (changes : List CellChange) : List Cell :=
  changes.foldl (fun cells change => cells.set change.index.toNat change.cell) cells

theorem changed_append (cells : List Cell) (first second : List CellChange) :
    changed cells (first ++ second) = changed (changed cells first) second :=
  List.foldl_append

theorem replay_cells (m : Mirror) {changes : List CellChange} (h : ∀ change ∈ changes, 0 ≤ change.index) :
    m.replay (changes.map fun change => .stack change.index change.cell change.hint) =
      { m with cells := changed m.cells changes } := by
  induction changes generalizing m with
  | nil => rfl
  | cons change changes ih =>
    have hindex : ¬ change.index < 0 := by
      have := h change (by simp)
      omega
    have hchange : m.apply (.stack change.index change.cell change.hint) =
        { m with cells := m.cells.set change.index.toNat change.cell } := if_neg hindex
    have hnext := ih { m with cells := m.cells.set change.index.toNat change.cell }
      fun later hlater => h later (by simp [hlater])
    rw [List.map_cons, replay, List.foldl_cons, hchange]
    exact hnext

end Mirror

namespace Stack

theorem getElem?_cells {s : Stack} {i : Nat} (h : i < s.capacity) : s.cells[i]? = some (s.cell i) := by
  rw [cell_natCast, List.getElem?_eq_getElem (by rw [length_cells]; exact h)]
  rfl

end Stack

namespace Transaction

variable {t : Transaction} {capacity : Nat} {vs : List Int64}

/-- The labelled cells are the popped ones and the one that the pushed value takes. -/
theorem hintAt_eq_none_iff {sp i : Int} :
    t.hintAt sp i = none ↔ ¬ (sp - t.pops < i ∧ i ≤ sp) ∧ (t.push.isSome → i ≠ sp - t.pops + 1) := by
  unfold hintAt
  cases t.push with
  | none => simp
  | some p =>
    obtain ⟨v, hint⟩ := p
    by_cases hi : i = sp - t.pops + 1
    · simp [hi]
    · simp [hi]

theorem length_pushed (t : Transaction) : t.pushed.length = if t.push.isSome then 1 else 0 := by
  cases hp : t.push <;> simp [pushed, hp]

/-- A cell without a label is the same before and after. -/
theorem Within.cell_unlabelled (hw : t.Within (.ofValues capacity vs)) {i : Nat}
    (h : t.hintAt (Stack.ofValues capacity vs).sp i = none) :
    (Stack.ofValues capacity vs).cell i = (Stack.ofValues capacity (t.pushed ++ vs.drop t.pops)).cell i := by
  have hpops := hw.pops_le_length
  rw [Stack.cell_ofValues, Stack.cell_ofValues]
  by_cases hlow : i < (vs.drop t.pops).length
  · have hsplit : vs.reverse = (vs.drop t.pops).reverse ++ (vs.take t.pops).reverse := by
      rw [← List.reverse_append, List.take_append_drop]
    rw [hsplit, List.reverse_append, List.getElem?_append_left (by simpa using hlow),
      List.getElem?_append_left (by simpa using hlow)]
  · -- above what is kept, a cell without a label is above the old top and the new one
    rw [List.length_drop] at hlow
    have habove : vs.length ≤ i ∧ (t.pushed ++ vs.drop t.pops).length ≤ i := by
      obtain ⟨hkept, hpush⟩ := hintAt_eq_none_iff.mp h
      rw [Stack.sp_ofValues] at hkept hpush
      rw [List.length_append, List.length_drop, length_pushed]
      split
      next hsome =>
        have := hpush hsome
        omega
      next => omega
    rw [List.getElem?_eq_none (by rw [List.length_reverse]; exact habove.1),
      List.getElem?_eq_none (by rw [List.length_reverse]; exact habove.2)]

theorem cellsAfter_index {sp : Int} {after : Stack} {change : CellChange} (h : change ∈ t.cellsAfter sp after) :
    0 ≤ change.index ∧ change.cell = after.cell change.index := by
  obtain ⟨i, _, hi⟩ := List.mem_filterMap.mp h
  obtain ⟨hint, _, rfl⟩ := Option.map_eq_some_iff.mp hi
  exact ⟨by simp, rfl⟩

theorem cellsAfter_ascending (t : Transaction) (sp : Int) (after : Stack) :
    (t.cellsAfter sp after).Pairwise fun lower upper => lower.index < upper.index := by
  apply List.Pairwise.filterMap _ _ List.pairwise_lt_range
  intro i j hlt lower hlower upper hupper
  obtain ⟨_, _, rfl⟩ := Option.map_eq_some_iff.mp hlower
  obtain ⟨_, _, rfl⟩ := Option.map_eq_some_iff.mp hupper
  exact Int.ofNat_lt.mpr hlt

/-- Changing the labelled cells, from the bottom up, turns the old cells into the new ones. -/
theorem changed_cellsAfter {sp : Int} {before after : Stack} (hcapacity : before.capacity = after.capacity)
    (hsame : ∀ i : Nat, t.hintAt sp i = none → before.cell i = after.cell i) :
    Mirror.changed before.cells (t.cellsAfter sp after) = after.cells := by
  have hbefore := before.length_cells
  have hafter := after.length_cells
  -- on the number of cells gone through: those below are new, the others are old
  have hupto : ∀ n, n ≤ after.capacity →
      Mirror.changed before.cells ((List.range n).filterMap fun (i : Nat) =>
        (t.hintAt sp i).map fun hint => (⟨i, after.cell i, hint⟩ : CellChange)) =
      after.cells.take n ++ before.cells.drop n := by
    intro n hn
    induction n with
    | zero => simp [Mirror.changed]
    | succ n ih =>
      have htake : after.cells.take (n + 1) = after.cells.take n ++ [after.cell n] := by
        rw [List.take_add_one, Stack.getElem?_cells hn, Option.toList_some]
      have hdrop : before.cells.drop n = before.cell n :: before.cells.drop (n + 1) := by
        have hcell := Stack.getElem?_cells (show n < before.capacity by omega)
        obtain ⟨hlt', hget⟩ := List.getElem?_eq_some_iff.mp hcell
        rw [List.drop_eq_getElem_cons hlt', hget]
      have hlength : (after.cells.take n).length = n := by
        rw [List.length_take]
        omega
      rw [List.range_succ, List.filterMap_append, Mirror.changed_append, ih (by omega), htake, hdrop]
      cases hhint : t.hintAt sp n with
      | none =>
        rw [hsame n hhint]
        simp [Mirror.changed, hhint]
      | some hint =>
        simp only [List.filterMap_cons, hhint, Option.map_some, List.filterMap_nil, Mirror.changed, List.foldl_cons,
          List.foldl_nil, Int.toNat_natCast]
        rw [List.set_append_right _ _ (by omega), hlength, Nat.sub_self, List.set_cons_zero, List.append_assoc]
        rfl
  have hall := hupto after.capacity (Nat.le_refl _)
  rw [List.take_of_length_le (by omega), List.drop_of_length_le (by omega), List.append_nil] at hall
  exact hall

theorem Within.registersAfter_ne_ip {s : Stack} (hw : t.Within s) (sp : Int) (after : Stack) :
    ∀ w ∈ t.registersAfter sp after, w.1 ≠ .ip := by
  intro w hmem
  rcases List.mem_append.mp hmem with hwrite | hsp
  · intro he
    have hrole := hw.writes_general w hwrite
    rw [he] at hrole
    exact hrole rfl
  · split at hsp
    next => cases hsp
    next =>
      cases List.mem_singleton.mp hsp
      simp

end Transaction

namespace Machine

variable {m : Machine} {t : Transaction}

def mirror (m : Machine) : Mirror := ⟨m.registers, m.stack.cells⟩

theorem cell_commit_unlabelled (hm : m.Valid) (hw : t.Within m.stack) {i : Nat} (hi : t.hintAt m.sp i = none) :
    m.stack.cell i = (m.commit t).1.stack.cell i := by
  obtain ⟨vs, hv, hs⟩ := hm.stack.exists_values
  rw [commit_stack_ofValues hs hv hw]
  rw [Machine.sp, hs] at hi
  rw [hs] at hw
  nth_rewrite 1 [hs]
  exact hw.cell_unlabelled hi

theorem changed_commit (hm : m.Valid) (hw : t.Within m.stack) :
    Mirror.changed m.stack.cells (m.commit t).2.cells = (m.commit t).1.stack.cells :=
  Transaction.changed_cellsAfter (hm.commit hw).2.symm fun _ => cell_commit_unlabelled hm hw

/-- The account of a transaction, applied to what was there before it, gives what is there after it. -/
theorem replay_commit (hm : m.Valid) (hw : t.Within m.stack) :
    m.mirror.replay ((m.commit t).2.events m.ip) = (m.commit t).1.mirror := by
  have hnonneg : ∀ change ∈ (m.commit t).2.cells, 0 ≤ change.index :=
    fun change hmem => (Transaction.cellsAfter_index hmem).1
  have hfile : (m.commit t).1.registers = (m.registers.setAll (m.commit t).2.registers).set .ip (m.commit t).2.ip := rfl
  have hip : (m.registers.setAll (m.commit t).2.registers).get .ip = m.ip :=
    RegisterFile.get_setAll_of_untouched (hw.registersAfter_ne_ip m.sp _)
  have hlog : m.mirror.replay [.log (m.commit t).2.op.name (m.commit t).2.detail] = m.mirror := rfl
  unfold Result.events
  rw [Mirror.replay_append, Mirror.replay_append, Mirror.replay_append, hlog, Mirror.replay_registers,
    Mirror.replay_cells _ hnonneg]
  dsimp only [mirror]
  rw [changed_commit hm hw, hfile]
  by_cases hsame : (m.commit t).2.ip = m.ip
  · rw [if_pos hsame, hsame, ← hip, RegisterFile.set_get]
    rfl
  · rw [if_neg hsame]
    rfl

end Machine

/-- The events that tell how one machine became another: instructions were carried out one after the other, each as it
was planned in the machine that the earlier ones left, and others failed in between. -/
inductive Chronicle (latch : Bool) (m : Machine) : List Event → Machine → Prop
  | start : Chronicle latch m [] m
  | failure {events : List Event} {m' : Machine} (op text : Bytes) :
      Chronicle latch m events m' → Chronicle latch m (events ++ [.error op text]) m'
  | instruction {events : List Event} {m' : Machine} {action : Action} {t : Transaction} :
      Chronicle latch m events m' → m'.plan latch action = .ok t →
      Chronicle latch m (events ++ (m'.commit t).2.events m'.ip) (m'.commit t).1

namespace Chronicle

variable {latch : Bool} {m m' : Machine} {events : List Event}

theorem append {later : List Event} {m'' : Machine} (h : Chronicle latch m events m')
    (h' : Chronicle latch m' later m'') : Chronicle latch m (events ++ later) m'' := by
  induction h' with
  | start =>
    rw [List.append_nil]
    exact h
  | failure op text _ ih =>
    rw [← List.append_assoc]
    exact ih.failure op text
  | instruction _ hp ih =>
    rw [← List.append_assoc]
    exact ih.instruction hp

theorem replay (hm : m.Valid) (h : Chronicle latch m events m') : m'.Valid ∧ m.mirror.replay events = m'.mirror := by
  induction h with
  | start => exact ⟨hm, rfl⟩
  | failure op text _ ih =>
    obtain ⟨hvalid, hreplay⟩ := ih
    refine ⟨hvalid, ?_⟩
    rw [Mirror.replay_append, hreplay]
    rfl
  | instruction _ hp ih =>
    obtain ⟨hvalid, hreplay⟩ := ih
    have hw := Machine.plan_within hvalid.stack hp
    refine ⟨(hvalid.commit hw).1, ?_⟩
    rw [Mirror.replay_append, hreplay, Machine.replay_commit hvalid hw]

end Chronicle

namespace Engine

variable {o : Options} {e : Engine}

theorem Valid.unmoved {e' : Engine} (hv : e.Valid o) (h : e.Unmoved e') : e'.Valid o := by
  rw [h]
  exact ⟨hv.machine, hv.capacity_eq, hv.latch_eq, hv.awaiting_iff, hv.planned⟩

theorem Valid.perform (hv : e.Valid o) (c : Command) : (e.perform c).engine.Valid o := by
  have hbegun := hv.begins (e.begin_begins c)
  unfold Engine.perform Effect.settled
  split
  next => exact hbegun
  next notice _ => exact hbegun.settle notice.generation

theorem chronicle_transaction {t : Transaction} {code : UInt8} {operands : List Operand}
    (hp : (e.plan code operands).2 = .ok t) :
    Chronicle e.latch e.machine ((e.machine.commit t).2.events e.ip) (e.machine.commit t).1 := by
  obtain ⟨_, _, _, _, hplan⟩ := plan_eq_ok hp
  exact Chronicle.start.instruction hplan

theorem chronicle_rejection {α : Type} (e : Engine) (latch : Bool) (op : Bytes) (error : Error)
    (reply : Except Error α) (log : List LogEntry) :
    let done := Effect.settled
      { engine := e.afterRejection, reply, log,
        notice := if e.busy then none else some ⟨e.generation, [.error op error.body]⟩ }
    Chronicle latch e.machine done.events done.engine.machine := by
  intro done
  obtain ⟨hengine, hevents⟩ := e.settled_rejection op error reply log
  rw [hevents, hengine]
  split
  next => exact Chronicle.start.failure op error.body
  next => exact .start

/-- What a command tells, when it is no reset, is a chronicle of what it does. -/
theorem Begins.chronicle {c : Command} {effect : Effect Reply} (hv : e.Valid o) (hb : e.Begins c effect)
    (hc : c ≠ .reset) :
    Chronicle o.latch e.machine effect.settled.events effect.settled.engine.machine := by
  rw [← hv.latch_eq]
  cases hb with
  | refused | nothing | announced => exact .start
  | rejected => exact e.chronicle_rejection _ _ _ _ _
  | @executed _ _ _ t log free idle immediate asked planned =>
    have hsettle := settle_afterTransaction free t
    simp only [Effect.settled, transactionNotice, hsettle]
    exact chronicle_transaction planned
  | @committed t log free announced =>
    obtain ⟨_, _, planned⟩ := hv.planned t announced
    have hsettle : (e.withdrawn.afterTransaction t).settle e.generation = _ :=
      settle_afterTransaction (e := e.withdrawn) free t
    simp only [Effect.settled, transactionNotice, hsettle]
    exact chronicle_transaction planned
  | reset => exact absurd rfl hc

theorem chronicle_spendLimit (e : Engine) (latch : Bool) :
    Chronicle latch e.machine e.spendLimit.settled.events e.spendLimit.settled.engine.machine := by
  rw [spendLimit, reject_eq]
  exact e.chronicle_rejection _ _ _ _ _

end Engine

/-- The part of the news that is for one observer. -/
def newsFor (k : Nat) (news : List (Nat × Event)) : List Event :=
  news.filterMap fun item => if item.1 = k then some item.2 else none

theorem newsFor_append (k : Nat) (first second : List (Nat × Event)) :
    newsFor k (first ++ second) = newsFor k first ++ newsFor k second :=
  List.filterMap_append

theorem newsFor_one {audience k : Nat} (event : Event) :
    newsFor k ((List.range audience).map fun j => (j, event)) = if k < audience then [event] else [] := by
  induction audience with
  | zero => rfl
  | succ n ih =>
    rw [List.range_succ, List.map_append, newsFor_append, ih]
    by_cases hlast : n = k
    · subst hlast
      simp [newsFor]
    · have hiff : k < n + 1 ↔ k < n := by omega
      simp [newsFor, hlast, hiff]

theorem newsFor_broadcast {audience k : Nat} (hk : k < audience) (events : List Event) :
    newsFor k (broadcast audience events) = events := by
  induction events with
  | nil => rfl
  | cons event events ih =>
    rw [broadcast] at ih
    rw [broadcast, List.flatMap_cons, newsFor_append, newsFor_one, if_pos hk, ih]
    rfl

namespace Session

variable {ω : Type} {react : Reaction ω}

/-- The events that one observer was told of, in order. -/
def toldTo (s : Session ω) (k : Nat) : List Event := newsFor k s.told.toList

/-- What one observer was told is a chronicle of the engine from the beginning. -/
structure Chronicled (o : Options) (k : Nat) (s : Session ω) : Prop where
  valid : s.engine.Valid o
  there : k < s.observers.length
  chronicle : Chronicle o.latch (.baseline (.empty o.capacity)) (s.toldTo k) s.engine.machine

theorem Chronicled.settles {α : Type} {o : Options} {k : Nat} {s s' : Session ω} {done : Outcome α}
    (h : s.Chronicled o k) (hsettles : s.Settles s' done) (hvalid : done.engine.Valid o)
    (hdone : Chronicle o.latch s.engine.machine done.events done.engine.machine) : s'.Chronicled o k := by
  have hengine := hsettles.unmoved
  have hnews : s'.toldTo k = s.toldTo k ++ done.events := by
    rw [toldTo, hsettles.told_eq, Array.toList_appendList, newsFor_append, newsFor_broadcast h.there]
    rfl
  refine ⟨hvalid.unmoved hengine, Nat.lt_of_lt_of_le h.there hsettles.observers_le, ?_⟩
  rw [hnews, hengine]
  exact h.chronicle.append hdone

theorem chronicled_opened (o : Options) {observers : List ω} {k : Nat} (hk : k < observers.length) :
    (opened o observers).Chronicled o k :=
  ⟨Engine.valid_ofOptions o, hk, .start⟩

theorem chronicled_converse {o : Options} {k patience depth : Nat} {s : Session ω} {calls : List (Call ω)}
    (unreset : (s.converse react patience depth calls).1.engine.generation = s.engine.generation)
    (h : s.Chronicled o k) : (s.converse react patience depth calls).1.Chronicled o k := by
  apply converse_unreset _ _ _ unreset h
  · intro t t' c hc hsettles ht
    exact ht.settles hsettles (ht.valid.perform c) ((t.engine.begin_begins c).chronicle ht.valid hc)
  · intro t t' hsettles ht
    exact ht.settles hsettles (ht.valid.unmoved t.engine.unmoved_spendLimit) (t.engine.chronicle_spendLimit o.latch)
  · intro t observer ht
    refine ⟨ht.valid, ?_, ht.chronicle⟩
    have hthere := ht.there
    simp only [List.length_append]
    omega

end Session

/-- The end of a notice does nothing but free the engine. -/
theorem Engine.perform_engine (e : Engine) (c : Command) :
    (e.perform c).engine = { (e.begin c).engine with busy := (e.perform c).engine.busy } := by
  unfold Engine.perform Effect.settled Engine.settle
  split
  next => rfl
  next => split <;> rfl

/-- A command that carries out a transaction, at once or as announced. -/
theorem Engine.Begins.carried_out {e : Engine} {c : Command} {effect : Effect Reply} {result : Result}
    (hb : e.Begins c effect) (hreply : effect.reply = .ok (.committed result)) :
    effect.notice = some ⟨e.generation, result.events e.ip⟩ ∧
      ∃ t, e.machine.commit t = (effect.engine.machine, result) := by
  cases hb with
  | refused | nothing | rejected | announced | reset => cases hreply
  | executed | committed =>
    cases hreply
    exact ⟨rfl, _, rfl⟩

theorem Machine.mirror_baseline (requested : Int) :
    (Machine.baseline (.empty requested)).mirror = Mirror.baseline (Stack.capacityFor requested) := by
  simp [Machine.baseline, Machine.mirror, Mirror.baseline, Stack.reset, Stack.empty, Stack.cells, Slot.cell, Slot.empty]

/-- Without a reset, what any observer that was there from the beginning is told keeps a mirror equal to the engine, and
is a chronicle of instructions and errors. A command that commits tells everybody of its log line, its registers, its
cells from the bottom up with what they hold in the end, and IP if it has moved. At every moment inside the notice the
engine already shows what the command leaves. -/
theorem events_log_changes (o : Options) :
    (∀ (ω : Type) (react : Reaction ω) (patience depth : Nat) (observers : List ω) (calls : List (Call ω)) (k : Nat),
      k < observers.length →
      let s := ((Session.opened o observers).converse react patience depth calls).1
      s.engine.generation = 0 →
        let mirror := (Mirror.baseline (Stack.capacityFor o.capacity)).replay (s.toldTo k)
        mirror.registers = s.engine.machine.registers ∧ mirror.cells = s.engine.machine.stack.cells ∧
        mirror.registers.get .ip = s.engine.ip ∧
        (o.capacity < 2 ^ 63 → (mirror.registers.get .sp).toInt = s.engine.sp) ∧
        Chronicle o.latch (.baseline (.empty o.capacity)) (s.toldTo k) s.engine.machine) ∧
    (∀ (ω : Type) (react : Reaction ω) (patience depth : Nat) (s : Session ω) (c : Command) (result : Result),
      let done := s.perform react patience depth (.command c)
      done.2 = .reply (.ok (.committed result)) → done.1.engine.generation = s.engine.generation →
        done.1.told = s.told ++ broadcast s.observers.length
          ([.log result.op.name result.detail] ++ result.registers.map (fun w => .register w.1.name w.2) ++
            result.cells.map (fun change => .stack change.index change.cell change.hint) ++
            if result.ip = s.engine.ip then [] else [.ip result.ip]) ∧
        result.cells.Pairwise (fun lower upper => lower.index < upper.index) ∧
        (∀ change ∈ result.cells, 0 ≤ change.index ∧
          change.cell = done.1.engine.machine.stack.cell change.index) ∧
        result.ip = done.1.engine.ip ∧ done.1.engine.snapshot = (s.engine.perform c).engine.snapshot) ∧
    (∀ (m : Moment) (c : Command) (result : Result), (m.engine.begin c).reply = .ok (.committed result) →
      ∀ moves : List Move, (∀ move ∈ moves, move ≠ .settle ∧ move ≠ .call .reset) →
        ((m.next (.call c)).after moves).notices =
          ⟨m.engine.generation, result.events m.engine.ip⟩ :: m.notices ∧
        ((m.next (.call c)).after moves).engine.snapshot = (m.engine.perform c).engine.snapshot) ∧
    (∀ (ω : Type) (react : Reaction ω) (patience depth : Nat) (observers : List ω) (calls : List (Call ω)),
      react.Resetless → (∀ call ∈ calls, .reset ∉ call.commands) →
        ((Session.opened o observers).converse react patience depth calls).1.engine.generation = 0) := by
  refine ⟨?_, ?_, ?_, ?_⟩
  · intro ω react patience depth observers calls k hk s unreset mirror
    have hs : s.Chronicled o k := Session.chronicled_converse unreset (Session.chronicled_opened o hk)
    have hmirror : mirror = s.engine.machine.mirror := by
      show (Mirror.baseline (Stack.capacityFor o.capacity)).replay (s.toldTo k) = _
      rw [← Machine.mirror_baseline]
      exact (hs.chronicle.replay (Engine.valid_ofOptions o).machine).2
    rw [hmirror]
    exact ⟨rfl, rfl, rfl, hs.valid.toInt_spRegister, hs.chronicle⟩
  · intro ω react patience depth s c result done hanswer unreset
    have hreply := Session.reply_of_perform_ok hanswer
    obtain ⟨hnotice, t, hcommit⟩ := (s.engine.begin_begins c).carried_out hreply
    obtain ⟨_, hsettles⟩ := Session.perform_command_settles unreset
    have hevents : (s.engine.perform c).events = result.events s.engine.ip := by
      simp only [Engine.perform, Effect.settled, hnotice]
    have hsnapshot : done.1.engine.snapshot = (s.engine.perform c).engine.snapshot := by
      rw [hsettles.unmoved]
      rfl
    have hmachine : done.1.engine.machine = (s.engine.machine.commit t).1 := by
      rw [hsettles.unmoved, s.engine.perform_engine c, hcommit]
    obtain rfl : (s.engine.machine.commit t).2 = result := congrArg Prod.snd hcommit
    have htold := hsettles.told_eq
    rw [hevents] at htold
    refine ⟨htold, t.cellsAfter_ascending _ _, ?_, ?_, hsnapshot⟩
    · intro change hmem
      rw [hmachine]
      exact Transaction.cellsAfter_index hmem
    · rw [Engine.ip, hmachine, Machine.ip_commit]
      rfl
  · intro m c result hreply moves hmoves
    have hb := m.engine.begin_begins c
    obtain ⟨hnotice, _⟩ := hb.carried_out hreply
    have hbusy : (m.next (.call c)).engine.busy = true := (hb.notice_current hnotice).2
    obtain ⟨hnotices, hengine⟩ := Moment.after_busy hbusy hmoves
    refine ⟨?_, ?_⟩
    · rw [hnotices]
      simp only [Moment.next, Moment.begun, hnotice]
      rfl
    · rw [hengine, m.engine.perform_engine c]
      rfl
  · intro ω react patience depth observers calls hreact hcalls
    exact Session.generation_converse hreact patience depth hcalls

/-- Two values give way to their sum, and an observer that would take it off again is turned down. -/
theorem events_log_changes_sum :
    let o : Options := { capacity := 3, latch := true }
    let react : Reaction Unit := fun _ _ => ((), [.command (.dispatch Opcode.pop.code [])])
    let calls : List (Call Unit) :=
      [.command (.dispatch Opcode.psh.code [.imm 1]), .command (.dispatch Opcode.psh.code [.imm 2]),
        .command (.dispatch Opcode.add.code [])]
    ∃ s : Session Unit, s = ((Session.opened o [()]).converse react 0 1 calls).1 ∧ s.engine.generation = 0 ∧
      ((Mirror.baseline (Stack.capacityFor o.capacity)).replay (s.toldTo 0)).cells = s.engine.machine.stack.cells ∧
      s.engine.machine.stack.cells = [some 3, none, none] := by
  intro o react calls
  have hreact : react.Resetless := by
    intro observer event
    simp [react, Call.commands]
  have hcalls : ∀ call ∈ calls, .reset ∉ call.commands := by simp [calls, Call.commands]
  obtain ⟨hmirror, _, _, hgeneration⟩ := events_log_changes o
  have unreset := hgeneration Unit react 0 1 [()] calls hreact hcalls
  have hcells := (hmirror Unit react 0 1 [()] calls 0 (by decide) unreset).2.1
  exact ⟨_, rfl, unreset, hcells, by decide +kernel⟩

end StackMachine
