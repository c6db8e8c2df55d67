import StackMachine.Proofs.Invariant

namespace StackMachine

/-- The busy flag speaks of the notices under way, whose generations rise from the outermost to the latest. -/
structure Moment.Guarded (m : Moment) : Prop where
  busy_iff : m.engine.busy = true ↔ ∃ notice ∈ m.notices, notice.generation = m.engine.generation
  generation_le : ∀ notice ∈ m.notices, notice.generation ≤ m.engine.generation
  descending : m.notices.Pairwise fun later earlier => earlier.generation < later.generation

namespace Moment.Guarded

variable {m : Moment} {e : Engine} {notice : Notice}

theorem quiet (hg : m.Guarded) (hb : e.busy = m.engine.busy) (hgen : e.generation = m.engine.generation) :
    Guarded ⟨e, m.notices⟩ := by
  refine ⟨?_, ?_, hg.descending⟩
  · simp only [hb, hgen]
    exact hg.busy_iff
  · simp only [hgen]
    exact hg.generation_le

/-- A call that begins a notice finds none of the present generation under way. -/
theorem loud (hg : m.Guarded) (free : m.engine.busy = false) (hb : e.busy = true)
    (hgen : e.generation = m.engine.generation) (hn : notice.generation = m.engine.generation) :
    Guarded ⟨e, notice :: m.notices⟩ := by
  have hlt : ∀ old ∈ m.notices, old.generation < m.engine.generation := by
    intro old hold
    have hle := hg.generation_le old hold
    have hne : old.generation ≠ m.engine.generation := by
      intro he
      have hbusy := hg.busy_iff.mpr ⟨old, hold, he⟩
      rw [free] at hbusy
      cases hbusy
    omega
  refine ⟨?_, ?_, ?_⟩
  · simp only [hb, hgen, true_iff]
    exact ⟨notice, by simp, hn⟩
  · intro old hold
    simp only [hgen]
    rcases List.mem_cons.mp hold with rfl | hold
    · omega
    · exact hg.generation_le old hold
  · apply List.pairwise_cons.mpr
    exact ⟨fun old hold => by rw [hn]; exact hlt old hold, hg.descending⟩

/-- A reset leaves every notice under way behind. -/
theorem reset (hg : m.Guarded) (hb : e.busy = false) (hgen : e.generation = m.engine.generation + 1) :
    Guarded ⟨e, m.notices⟩ := by
  refine ⟨?_, ?_, hg.descending⟩
  · simp only [hb, hgen, Bool.false_eq_true, false_iff]
    rintro ⟨old, hold, he⟩
    have := hg.generation_le old hold
    omega
  · intro old hold
    simp only [hgen]
    have := hg.generation_le old hold
    omega

theorem rejection (hg : m.Guarded) (hn : notice.generation = m.engine.generation) :
    Guarded ⟨m.engine.afterRejection, (if m.engine.busy then none else some notice).toList ++ m.notices⟩ := by
  cases hbusy : m.engine.busy with
  | false => exact hg.loud hbusy rfl rfl hn
  | true => exact hg.quiet hbusy.symm rfl

theorem begins {c : Command} {effect : Effect Reply} (hg : m.Guarded) (hb : m.engine.Begins c effect) :
    (m.begun effect).Guarded := by
  cases hb with
  | refused | nothing | announced => exact hg.quiet rfl rfl
  | rejected => exact hg.rejection rfl
  | executed free => exact hg.loud free rfl rfl rfl
  | committed free => exact hg.loud free rfl rfl rfl
  | reset => exact hg.reset rfl rfl

/-- The end of the latest notice frees the engine if the notice is of its generation, since all earlier ones are not. -/
theorem settle {rest : List Notice} (hg : m.Guarded) (hn : m.notices = notice :: rest) :
    Guarded ⟨m.engine.settle notice.generation, rest⟩ := by
  have hdesc := hg.descending
  rw [hn] at hdesc
  obtain ⟨hfirst, hrest⟩ := List.pairwise_cons.mp hdesc
  -- all that is left is older than the notice that ends
  have hmem : ∀ old ∈ rest, old ∈ m.notices := fun old hold => by rw [hn]; exact List.mem_cons_of_mem notice hold
  unfold Engine.settle
  split
  next he =>
    refine ⟨?_, fun old hold => hg.generation_le old (hmem old hold), hrest⟩
    simp only [Bool.false_eq_true, false_iff]
    rintro ⟨old, hold, heq⟩
    have := hfirst old hold
    omega
  next hne =>
    refine ⟨?_, fun old hold => hg.generation_le old (hmem old hold), hrest⟩
    rw [hg.busy_iff, hn]
    constructor
    · rintro ⟨old, hold, heq⟩
      rcases List.mem_cons.mp hold with rfl | hold
      · exact absurd heq.symm hne
      · exact ⟨old, hold, heq⟩
    · rintro ⟨old, hold, heq⟩
      exact ⟨old, List.mem_cons_of_mem notice hold, heq⟩

theorem next (hg : m.Guarded) (move : Move) : (m.next move).Guarded := by
  cases move with
  | call c => exact hg.begins (m.engine.begin_begins c)
  | spend =>
    have he : m.next .spend = m.begun m.engine.spendLimit := rfl
    rw [he, Engine.spendLimit, Engine.reject_eq]
    exact hg.rejection rfl
  | settle =>
    cases hn : m.notices with
    | nil => rw [next_settle_nil hn]; exact hg
    | cons notice rest => rw [next_settle_cons hn]; exact hg.settle hn

/-- A busy engine tells the latest notice, and no earlier one is of its generation. -/
theorem latest (hg : m.Guarded) (hb : m.engine.busy = true) :
    ∃ notice rest, m.notices = notice :: rest ∧ notice.generation = m.engine.generation ∧
      ∀ old ∈ rest, old.generation ≠ m.engine.generation := by
  obtain ⟨current, hmem, hcur⟩ := hg.busy_iff.mp hb
  cases hn : m.notices with
  | nil => rw [hn] at hmem; cases hmem
  | cons notice rest =>
    have hdesc := hg.descending
    rw [hn] at hdesc hmem
    have hfirst := (List.pairwise_cons.mp hdesc).1
    have hle := hg.generation_le notice (by rw [hn]; simp)
    -- the current notice is the first one, or else the first one would come from the future
    have hnotice : notice.generation = m.engine.generation := by
      rcases List.mem_cons.mp hmem with rfl | hold
      · exact hcur
      · have := hfirst current hold
        omega
    refine ⟨notice, rest, rfl, hnotice, ?_⟩
    intro old hold
    have := hfirst old hold
    omega

theorem countP_le_one (hg : m.Guarded) : m.notices.countP (·.generation = m.engine.generation) ≤ 1 := by
  cases hb : m.engine.busy with
  | false =>
    have hz : m.notices.countP (·.generation = m.engine.generation) = 0 := by
      rw [List.countP_eq_zero]
      intro notice hmem hcur
      have hbusy := hg.busy_iff.mpr ⟨notice, hmem, by simpa using hcur⟩
      rw [hb] at hbusy
      cases hbusy
    omega
  | true =>
    obtain ⟨notice, rest, hn, _, hrest⟩ := hg.latest hb
    have hz : rest.countP (·.generation = m.engine.generation) = 0 := by
      rw [List.countP_eq_zero]
      intro old hold hcur
      exact hrest old hold (by simpa using hcur)
    rw [hn, List.countP_cons, hz]
    split <;> omega

end Moment.Guarded

theorem Moment.guarded_of_not_busy {e : Engine} (hb : e.busy = false) : Guarded ⟨e, []⟩ := by
  refine ⟨?_, ?_, List.Pairwise.nil⟩
  · simp [hb]
  · simp

theorem Moment.Reached.guarded {o : Options} {m : Moment} (hr : m.Reached o) : m.Guarded := by
  obtain ⟨moves, rfl⟩ := hr
  exact after_keeps (fun move _ _ hm => hm.next move) (guarded_of_not_busy rfl)

/-- A busy engine turns every command but a reset down: no notice begins and only the counters may move. -/
theorem Engine.Begins.turned_down {e : Engine} {c : Command} {effect : Effect Reply} (hb : e.Begins c effect)
    (busy : e.busy = true) (hc : c ≠ .reset) :
    effect.notice = none ∧ effect.engine = { e with stats := effect.engine.stats } ∧
      ∃ error, effect.reply = .error error ∧ (c.isStep = false → error.kind = .commitPending) := by
  have hnot : ¬ e.busy = false := by rw [busy]; decide
  cases hb with
  | refused _ _ kind => exact ⟨rfl, rfl, _, rfl, fun _ => kind⟩
  | rejected _ turn =>
    have hstep : c.isStep = true := turn.resolve_right fun h => hnot h.1
    refine ⟨by rw [if_pos busy], ?_, _, rfl, fun h => ?_⟩
    · rw [Engine.afterRejection, ← busy]
    · rw [hstep] at h
      cases h
  | nothing free => exact absurd free hnot
  | announced free => exact absurd free hnot
  | executed free => exact absurd free hnot
  | committed free => exact absurd free hnot
  | reset => exact absurd rfl hc

theorem Engine.spendLimit_busy {e : Engine} (busy : e.busy = true) :
    e.spendLimit.notice = none ∧ e.spendLimit.engine = { e with stats := e.spendLimit.engine.stats } := by
  rw [Engine.spendLimit, Engine.reject_eq]
  refine ⟨by rw [if_pos busy], ?_⟩
  rw [Engine.afterRejection, ← busy]

namespace Moment

variable {m : Moment}

/-- A move other than a reset or the end of a notice, while the engine is busy. -/
theorem next_busy {move : Move} (busy : m.engine.busy = true) (hs : move ≠ .settle) (hr : move ≠ .call .reset) :
    (m.next move).notices = m.notices ∧
      (m.next move).engine = { m.engine with stats := (m.next move).engine.stats } := by
  cases move with
  | call c =>
    have hc : c ≠ .reset := fun h => hr (by rw [h])
    obtain ⟨hn, he, _⟩ := (m.engine.begin_begins c).turned_down busy hc
    refine ⟨?_, he⟩
    simp only [next, begun, hn, Option.toList_none, List.nil_append]
  | spend =>
    obtain ⟨hn, he⟩ := Engine.spendLimit_busy busy
    refine ⟨?_, he⟩
    simp only [next, begun, hn, Option.toList_none, List.nil_append]
  | settle => exact absurd rfl hs

theorem busy_of_begun {move : Move} {notice : Notice} (hn : (m.next move).notices = notice :: m.notices) :
    (m.next move).engine.busy = true := by
  cases move with
  | call c =>
    have hsome : (m.engine.begin c).notice = some notice := by
      simp only [next, begun] at hn
      cases h : (m.engine.begin c).notice with
      | none => simp [h] at hn
      | some notice' => simpa [h] using hn
    exact ((m.engine.begin_begins c).notice_current hsome).2
  | spend => rw [next_spend_engine]; rfl
  | settle =>
    have hlen := congrArg List.length hn
    cases h : m.notices with
    | nil => rw [next_settle_nil h, h] at hlen; cases hlen
    | cons first rest =>
      rw [next_settle_cons h, h] at hlen
      simp only [List.length_cons] at hlen
      omega

theorem after_busy {moves : List Move} (busy : m.engine.busy = true)
    (hmoves : ∀ move ∈ moves, move ≠ .settle ∧ move ≠ .call .reset) :
    (m.after moves).notices = m.notices ∧
      (m.after moves).engine = { m.engine with stats := (m.after moves).engine.stats } := by
  apply after_keeps (P := fun m' => m'.notices = m.notices ∧ m'.engine = { m.engine with stats := m'.engine.stats })
  · rintro move hmem m' ⟨hn, he⟩
    have hb : m'.engine.busy = true := by rw [he]; exact busy
    obtain ⟨hn', he'⟩ := next_busy hb (hmoves move hmem).1 (hmoves move hmem).2
    refine ⟨hn'.trans hn, ?_⟩
    rw [he', he]
  · exact ⟨rfl, rfl⟩

end Moment

/-- The answer to a call is a failure, and one of a pending commit where the call names its instruction itself. Calls
that only look or attach an observer are not turned down. -/
def Call.TurnedDown {ω : Type} : Call ω → Answer → Prop
  | .command c, a => ∃ error, a = .reply (.error (.engine error)) ∧ (c.isStep = false → error.kind = .commitPending)
  | .run _ _, a => ∃ failure, a = .reply (.error failure)
  | _, _ => True

namespace Session

variable {ω : Type} (react : Reaction ω) (nested : Session ω → List (Call ω) → Session ω)

/-- Only the counters of the engine may have moved, and nobody was told of anything. -/
def Undisturbed (s s' : Session ω) : Prop :=
  s'.engine = { s.engine with stats := s'.engine.stats } ∧ s'.told = s.told

theorem Undisturbed.busy {s s' : Session ω} (h : s.Undisturbed s') (busy : s.engine.busy = true) :
    s'.engine.busy = true := by
  rw [h.1]
  exact busy

theorem Undisturbed.trans {s s' s'' : Session ω} (h : s.Undisturbed s') (h' : s'.Undisturbed s'') :
    s.Undisturbed s'' := by
  refine ⟨?_, h'.2.trans h.2⟩
  rw [h'.1, h.1]

theorem carryOut_reply {α : Type} (s : Session ω) (effect : Effect α) :
    (s.carryOut react nested effect).2 = effect.reply := by
  unfold carryOut
  split <;> rfl

theorem carryOut_map {α β : Type} (s : Session ω) (f : α → β) (effect : Effect α) :
    (s.carryOut react nested (effect.map f)).1 = (s.carryOut react nested effect).1 := by
  have hn : (effect.map f).notice = effect.notice := rfl
  unfold carryOut
  rw [hn]
  cases effect.notice with
  | none => rfl
  | some notice => rfl

section TurnedDown

variable {react nested} {P : Session ω → Prop} {s : Session ω}

/-- A run ends with its first step if that fails. -/
theorem Runs.turned_down {code : Bytes} {context : Context} {left taken : Nat} {t : Session ω}
    {reply : Except Failure Result} (hruns : Runs react nested code context left taken s t reply) (hold : P s)
    (hspend : P (s.carryOut react nested s.engine.spendLimit).1)
    (hstep : context.reason? taken = none → P (s.carryOut react nested (s.engine.step code)).1 ∧
      ∃ error, (s.engine.step code).reply = .error error) :
    P t ∧ ∃ failure, reply = .error failure := by
  have hok : ∀ {t : Session ω} {result : Result}, context.reason? taken = none →
      s.carryOut react nested (s.engine.step code) ≠ (t, .ok result) := by
    intro t result live hcarry
    obtain ⟨_, error, herror⟩ := hstep live
    have hreply := carryOut_reply react nested s (s.engine.step code)
    rw [hcarry, herror] at hreply
    cases hreply
  cases hruns with
  | onward live hcarry => exact absurd hcarry (hok live)
  | ends h =>
    cases h with
    | interrupted => exact ⟨hold, _, rfl⟩
    | spent live limited hcarry =>
      have hreply := carryOut_reply react nested s (s.engine.spendLimit : Effect Result)
      rw [hcarry, Engine.spendLimit, Engine.reject_eq] at hreply
      rw [hcarry] at hspend
      exact ⟨hspend, _, congrArg (Except.mapError Failure.engine) hreply⟩
    | unfinished => exact ⟨hold, _, rfl⟩
    | failed live hcarry =>
      have hs := (hstep live).1
      rw [hcarry] at hs
      exact ⟨hs, _, rfl⟩
    | halted live hcarry => exact absurd hcarry (hok live)

/-- A call whose commands all fail is turned down, and leaves what each of them leaves. -/
theorem answer_turned_down {call : Call ω} {patience : Nat} (hold : P s)
    (hattach : ∀ observers, P { s with observers })
    (hspend : P (s.carryOut react nested s.engine.spendLimit).1)
    (hcall : ∀ c ∈ call.commands, P (s.carryOut react nested (s.engine.begin c)).1 ∧
      ∃ error, (s.engine.begin c).reply = .error error ∧ (c.isStep = false → error.kind = .commitPending)) :
    P (s.answer react nested patience call).1 ∧ call.TurnedDown (s.answer react nested patience call).2 := by
  cases call with
  | command c =>
    obtain ⟨hs, error, hreply, hkind⟩ := hcall c (by simp [Call.commands])
    refine ⟨hs, error, ?_, hkind⟩
    simp only [answer]
    rw [carryOut_reply, hreply]
    rfl
  | run code context =>
    obtain ⟨t, reply, hruns, hanswer⟩ := answer_run react nested patience s code context
    obtain ⟨hrun, failure, rfl⟩ := hruns.turned_down hold hspend fun live => by
      obtain ⟨hs, error, hreply, _⟩ := hcall (.step code) (by simp [Call.commands, live])
      rw [Engine.begin, carryOut_map] at hs
      refine ⟨hs, error, ?_⟩
      cases hr : (s.engine.step code).reply with
      | error error' => simpa [Engine.begin, Effect.map, hr] using hreply
      | ok result => simp [Engine.begin, Effect.map, hr] at hreply
    rw [hanswer]
    exact ⟨hrun, failure, rfl⟩
  | register name => exact ⟨hold, trivial⟩
  | status => exact ⟨hold, trivial⟩
  | stats => exact ⟨hold, trivial⟩
  | attach observer => exact ⟨hattach _, trivial⟩

end TurnedDown

theorem carryOut_quiet {α : Type} {s : Session ω} {effect : Effect α} (hn : effect.notice = none)
    (he : effect.engine = { s.engine with stats := effect.engine.stats }) :
    s.Undisturbed (s.carryOut react nested effect).1 := by
  simp only [carryOut, hn]
  exact ⟨he, rfl⟩

theorem answer_busy {s : Session ω} {call : Call ω} {patience : Nat} (busy : s.engine.busy = true)
    (hc : .reset ∉ call.commands) :
    s.Undisturbed (s.answer react nested patience call).1 ∧
      call.TurnedDown (s.answer react nested patience call).2 := by
  apply answer_turned_down
  · exact ⟨rfl, rfl⟩
  · exact fun observers => ⟨rfl, rfl⟩
  · obtain ⟨hn, he⟩ := Engine.spendLimit_busy busy
    exact carryOut_quiet react nested hn he
  · intro c hmem
    have hne : c ≠ .reset := fun h => hc (h ▸ hmem)
    obtain ⟨hn, he, herror⟩ := (s.engine.begin_begins c).turned_down busy hne
    exact ⟨carryOut_quiet react nested hn he, herror⟩

theorem perform_busy {s : Session ω} {call : Call ω} (patience depth : Nat) (busy : s.engine.busy = true)
    (hc : .reset ∉ call.commands) :
    s.Undisturbed (s.perform react patience depth call).1 ∧
      call.TurnedDown (s.perform react patience depth call).2 := by
  obtain ⟨nested, _, hperform⟩ := perform_eq_answer react patience depth
  rw [hperform]
  exact answer_busy react nested busy hc

theorem converse_busy {s : Session ω} {calls : List (Call ω)} (patience depth : Nat) (busy : s.engine.busy = true)
    (hc : ∀ call ∈ calls, .reset ∉ call.commands) :
    s.Undisturbed (s.converse react patience depth calls).1 ∧
      List.Forall₂ Call.TurnedDown calls (s.converse react patience depth calls).2 := by
  apply converse_forall (P := s.Undisturbed)
  · intro call hmem s' hs'
    obtain ⟨hs, ha⟩ := perform_busy react patience depth (hs'.busy busy) (hc call hmem)
    exact ⟨hs'.trans hs, ha⟩
  · exact ⟨rfl, rfl⟩

end Session

/-- An engine that is not busy and has announced nothing takes work: the instruction that does nothing succeeds. -/
theorem Engine.dispatch_nop_ok {e : Engine} (free : e.busy = false) (idle : e.phase = .idle) :
    ∃ result, (e.dispatch Opcode.nop.code []).reply = .ok result := by
  have hr : e.refusal? (Opcode.nameOfCode Opcode.nop.code) = none := refusal?_eq_none_iff.mpr ⟨free, idle⟩
  unfold Engine.dispatch
  simp only [hr]
  exact ⟨_, rfl⟩

/-- At every moment of every history the engine is busy exactly while a notice of its generation is being told, there
is at most one such notice, and outside of all notices the engine takes work again. From the beginning of a notice on,
until it ends or the engine is reset, every call is turned down and untold, and all but the counters stays. Calls on
sessions, from the outside or from a callback inside some notices, lead to such moments only. -/
theorem reentrancy_guarded (o : Options) :
    (∀ m : Moment, m.Reached o →
      (m.engine.busy = true ↔ ∃ notice ∈ m.notices, notice.generation = m.engine.generation) ∧
      m.notices.countP (·.generation = m.engine.generation) ≤ 1 ∧
      (m.notices = [] → m.engine.busy = false ∧
        (m.engine.phase = .idle → ∃ result, (m.engine.dispatch Opcode.nop.code []).reply = .ok result)) ∧
      (∀ move notice, (m.next move).notices = notice :: m.notices → (m.next move).engine.busy = true) ∧
      (m.engine.busy = true → ∀ moves : List Move, (∀ move ∈ moves, move ≠ .settle ∧ move ≠ .call .reset) →
        (m.after moves).notices = m.notices ∧
        (m.after moves).engine = { m.engine with stats := (m.after moves).engine.stats } ∧
        ∀ c : Command, c ≠ .reset →
          ((m.after moves).engine.begin c).notice = none ∧
          ∃ error, ((m.after moves).engine.begin c).reply = .error error ∧
            (c.isStep = false → error.kind = .commitPending))) ∧
    (∀ (ω : Type) (react : Reaction ω) (patience depth : Nat),
      (∀ (s : Session ω) (call : Call ω) (outer : List Notice), Moment.Reached o ⟨s.engine, outer⟩ →
        Moment.Reached o ⟨(s.perform react patience depth call).1.engine, outer⟩) ∧
      (∀ (observers : List ω) (calls : List (Call ω)),
        ((Session.opened o observers).converse react patience depth calls).1.engine.busy = false) ∧
      (∀ (s : Session ω) (calls : List (Call ω)), s.engine.busy = true →
        (∀ call ∈ calls, .reset ∉ call.commands) →
        s.Undisturbed (s.converse react patience depth calls).1 ∧
        List.Forall₂ Call.TurnedDown calls (s.converse react patience depth calls).2)) := by
  refine ⟨?_, ?_⟩
  · intro m hm
    have hg := hm.guarded
    refine ⟨hg.busy_iff, hg.countP_le_one, ?_, fun _ _ => Moment.busy_of_begun, ?_⟩
    · intro hn
      have hfree : m.engine.busy = false := by
        rw [← Bool.not_eq_true, hg.busy_iff, hn]
        simp
      exact ⟨hfree, Engine.dispatch_nop_ok hfree⟩
    · intro busy moves hmoves
      obtain ⟨hn, he⟩ := Moment.after_busy busy hmoves
      refine ⟨hn, he, ?_⟩
      intro c hc
      have hb : (m.after moves).engine.busy = true := by rw [he]; exact busy
      obtain ⟨hnotice, _, herror⟩ := ((m.after moves).engine.begin_begins c).turned_down hb hc
      exact ⟨hnotice, herror⟩
  · intro ω react patience depth
    refine ⟨fun s call outer => Session.perform_keeps fun m move => Moment.Reached.next move, ?_, ?_⟩
    · intro observers calls
      have hr := Session.reached_converse o react patience depth observers calls
      rw [← Bool.not_eq_true, hr.guarded.busy_iff]
      simp
    · exact fun s calls busy hc => Session.converse_busy react patience depth busy hc

end StackMachine
