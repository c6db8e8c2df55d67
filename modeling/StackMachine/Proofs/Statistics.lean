import StackMachine.Proofs.CallHistory
import StackMachine.Proofs.FailedCalls
import StackMachine.Hook

namespace StackMachine

theorem Opcode.index_injective {op op' : Opcode} (h : op.index = op'.index) : op = op' := by
  have hcode : op.code = op'.code := by rw [Opcode.code, Opcode.code, h]
  have hop := Opcode.ofCode?_code op
  rw [hcode, Opcode.ofCode?_code op'] at hop
  exact (Option.some.inj hop).symm

/-- The transactions carried out among what came of some attempts. -/
def resultsOf (outcomes : List (Except Error Reply)) : List Result :=
  outcomes.filterMap fun
    | .ok (.committed result) => some result
    | _ => none

/-- The errors among what came of some attempts. -/
def errorsOf (outcomes : List (Except Error Reply)) : List Error :=
  outcomes.filterMap fun
    | .error error => some error
    | .ok _ => none

namespace Stats

/-- Enters what came of an attempt. A call out of turn is not counted. -/
def book (s : Stats) : Except Error Reply → Stats
  | .ok (.committed result) => s.commit result.op
  | .ok _ => s
  | .error error => if error.kind ≠ .commitPending ∧ error.kind ≠ .nothingPending then s.reject else s

/-- The counters agree with what came of all attempts. -/
structure Tallies (s : Stats) (outcomes : List (Except Error Reply)) : Prop where
  steps_eq : s.steps = (resultsOf outcomes).length
  total_eq : s.steps = Opcode.all.foldr (fun op sum => s.count op + sum) 0
  count_eq : ∀ op, s.count op = (resultsOf outcomes).countP (·.op = op)
  errors_eq : s.errors =
    (errorsOf outcomes).countP fun error => error.kind ≠ .commitPending ∧ error.kind ≠ .nothingPending

theorem count_commit (s : Stats) (op op' : Opcode) :
    (s.commit op).count op' = s.count op' + if op = op' then 1 else 0 := by
  by_cases h : op = op'
  · subst h
    simp [count, commit]
  · have hi : (op.index : Nat) ≠ op'.index := fun he => h (Opcode.index_injective (Fin.ext he))
    simp [count, commit, h, hi]

theorem sum_commit (s : Stats) (op : Opcode) (ops : List Opcode) :
    ops.foldr (fun op' sum => (s.commit op).count op' + sum) 0 =
      ops.foldr (fun op' sum => s.count op' + sum) 0 + ops.countP (op = ·) := by
  induction ops with
  | nil => rfl
  | cons op' ops ih =>
    rw [List.foldr_cons, List.foldr_cons, ih, count_commit, List.countP_cons]
    by_cases h : op = op'
    · simp only [h, if_true, decide_true]
      omega
    · simp only [h, if_false, decide_false, Bool.false_eq_true]
      omega

/-- Every opcode is listed once. -/
theorem total_commit (s : Stats) (op : Opcode) :
    Opcode.all.foldr (fun op' sum => (s.commit op).count op' + sum) 0 =
      Opcode.all.foldr (fun op' sum => s.count op' + sum) 0 + 1 := by
  have hone : Opcode.all.countP (op = ·) = 1 := by cases op <;> decide
  rw [sum_commit, hone]

theorem tallies_zero : Stats.zero.Tallies [] := by
  have hcount : ∀ op, Stats.zero.count op = 0 := by
    intro op
    cases op <;> rfl
  refine ⟨rfl, ?_, hcount, rfl⟩
  simp only [hcount]
  rfl

theorem Tallies.book {s : Stats} {outcomes : List (Except Error Reply)} (h : s.Tallies outcomes)
    (outcome : Except Error Reply) : (s.book outcome).Tallies (outcomes ++ [outcome]) := by
  obtain ⟨hsteps, htotal, hcount, herrors⟩ := h
  cases outcome with
  | error error =>
    have hresults : resultsOf (outcomes ++ [.error error]) = resultsOf outcomes := by simp [resultsOf]
    have hlist : errorsOf (outcomes ++ [.error error]) = errorsOf outcomes ++ [error] := by simp [errorsOf]
    rw [Stats.book]
    by_cases hcounted : error.kind ≠ .commitPending ∧ error.kind ≠ .nothingPending
    · rw [if_pos hcounted]
      refine ⟨by rw [hresults]; exact hsteps, htotal, by rw [hresults]; exact hcount, ?_⟩
      rw [hlist, List.countP_append, ← herrors, List.countP_singleton, decide_eq_true hcounted]
      rfl
    · rw [if_neg hcounted]
      refine ⟨by rw [hresults]; exact hsteps, htotal, by rw [hresults]; exact hcount, ?_⟩
      rw [hlist, List.countP_append, ← herrors, List.countP_singleton, decide_eq_false hcounted]
      rfl
  | ok reply =>
    have hlist : errorsOf (outcomes ++ [.ok reply]) = errorsOf outcomes := by simp [errorsOf]
    cases reply with
    | committed result =>
      have hresults : resultsOf (outcomes ++ [.ok (.committed result)]) = resultsOf outcomes ++ [result] := by
        simp [resultsOf]
      refine ⟨?_, ?_, ?_, by rw [hlist]; exact herrors⟩
      · rw [hresults, List.length_append, ← hsteps]
        rfl
      · have hone := total_commit s result.op
        rw [← htotal] at hone
        exact hone.symm
      · intro op
        have hone := count_commit s result.op op
        rw [hresults, List.countP_append, ← hcount op, List.countP_singleton, Stats.book, hone]
        by_cases he : result.op = op <;> simp [he]
    | announced preview =>
      have hresults : resultsOf (outcomes ++ [.ok (.announced preview)]) = resultsOf outcomes := by simp [resultsOf]
      exact ⟨by rw [hresults]; exact hsteps, htotal, by rw [hresults]; exact hcount, by rw [hlist]; exact herrors⟩
    | done =>
      have hresults : resultsOf (outcomes ++ [.ok .done]) = resultsOf outcomes := by simp [resultsOf]
      exact ⟨by rw [hresults]; exact hsteps, htotal, by rw [hresults]; exact hcount, by rw [hlist]; exact herrors⟩

theorem Tallies.count_pos_iff {s : Stats} {outcomes : List (Except Error Reply)} (h : s.Tallies outcomes)
    (op : Opcode) : 0 < s.count op ↔ ∃ result ∈ resultsOf outcomes, result.op = op := by
  rw [h.count_eq op, List.countP_pos_iff]
  simp only [decide_eq_true_eq]

end Stats

namespace Engine

variable {e : Engine} {c : Command} {effect : Effect Reply}

theorem Begins.stats_eq (hm : e.machine.Valid) (hb : e.Begins c effect) :
    effect.engine.stats = e.stats.map (·.book effect.reply) := by
  have hsame : ∀ outcome : Except Error Reply, (∀ s : Stats, s.book outcome = s) →
      e.stats = e.stats.map (·.book outcome) := by
    intro outcome hbook
    cases e.stats with
    | none => rfl
    | some s => exact congrArg some (hbook s).symm
  cases hb with
  | refused _ _ kind => exact hsame _ fun s => if_neg fun h => h.1 kind
  | nothing => exact hsame _ fun s => rfl
  | rejected why =>
    have hkind := Kind.inTurn_of_mem (why.kind_mem hm)
    have hbook : Stats.reject = fun s : Stats => s.book (.error _) := funext fun s => (if_pos hkind).symm
    exact congrArg (fun f => e.stats.map f) hbook
  | announced => exact hsame _ fun s => rfl
  | executed => rfl
  | committed => rfl
  | reset => exact hsame _ fun s => rfl

theorem stats_spendLimit (e : Engine) :
    e.spendLimit.engine.stats = e.stats.map (·.book (e.spendLimit.reply.map .committed)) := by
  rw [spendLimit, reject_eq]
  rfl

theorem stats_settle (e : Engine) (generation : Nat) : (e.settle generation).stats = e.stats := by
  unfold settle
  split <;> rfl

end Engine

namespace Moment

/-- What comes of a move, if it attempts something. -/
def outcome? (m : Moment) : Move → Option (Except Error Reply)
  | .call c => some (m.engine.begin c).reply
  | .spend => some (m.engine.spendLimit.reply.map .committed)
  | .settle => none

/-- What comes of the attempts of a history, in order. -/
def outcomes : Moment → List Move → List (Except Error Reply)
  | _, [] => []
  | m, move :: moves => (m.outcome? move).toList ++ (m.next move).outcomes moves

theorem outcomes_append (m : Moment) (first second : List Move) :
    m.outcomes (first ++ second) = m.outcomes first ++ (m.after first).outcomes second := by
  induction first generalizing m with
  | nil => rfl
  | cons move moves ih => rw [List.cons_append, outcomes, outcomes, ih, List.append_assoc, after_cons]

/-- A move enters in the counters what comes of it, and nothing if nothing does. -/
theorem stats_next {m : Moment} (hm : m.engine.machine.Valid) (move : Move) :
    (m.next move).engine.stats = (m.outcome? move).elim m.engine.stats fun out => m.engine.stats.map (·.book out) := by
  cases move with
  | call c => exact (m.engine.begin_begins c).stats_eq hm
  | spend => exact m.engine.stats_spendLimit
  | settle =>
    cases hn : m.notices with
    | nil => rw [next_settle_nil hn]; rfl
    | cons notice rest => rw [next_settle_cons hn]; exact m.engine.stats_settle notice.generation

theorem tallies_after {o : Options} (counting : o.stats = true) (moves : List Move) :
    ∃ stats, ((start o).after moves).engine.stats = some stats ∧ stats.Tallies ((start o).outcomes moves) := by
  induction moves using List.reverseRecOn with
  | nil => exact ⟨.zero, if_pos counting, Stats.tallies_zero⟩
  | append_singleton moves move ih =>
    obtain ⟨stats, hstats, htallies⟩ := ih
    have hnext := stats_next (valid_after o moves).machine move
    rw [after_append, outcomes_append, after_cons, after_nil, hnext, hstats, outcomes, outcomes, List.append_nil]
    cases ((start o).after moves).outcome? move with
    | none => exact ⟨stats, rfl, by rw [Option.toList_none, List.append_nil]; exact htallies⟩
    | some outcome => exact ⟨stats.book outcome, rfl, htallies.book outcome⟩

end Moment

/-- What comes of every attempt made in a conversation, by callers and observers alike. -/
def Session.outcomes {ω : Type} (react : Reaction ω) (patience depth : Nat) (s : Session ω) (calls : List (Call ω)) :
    List (Except Error Reply) :=
  (⟨s.engine, []⟩ : Moment).outcomes (s.converseMoves react patience depth calls)

namespace Session

variable {ω : Type} {react : Reaction ω} {patience depth : Nat} {code : Bytes} {context : Context} {s : Session ω}

/-- A run makes the moves of the steps that succeed in it, and then those with which it ends. -/
theorem StepsTo.runMoves {nested : Session ω → List (Call ω) → Session ω}
    {nestedMoves : Session ω → List (Call ω) → List Move} {results : List Result} {before : Session ω} {taken : Nat}
    (hperform : ∀ s call, perform react patience depth s call = s.answer react nested patience call)
    (hmoves : ∀ s call, performMoves react patience depth s call = s.answerMoves react nested nestedMoves patience call)
    (h : s.StepsTo react patience depth code results before)
    (live : ∀ k < results.length, context.reason? (taken + k) = none) (rest : Nat) :
    s.runMoves react nested nestedMoves code context (results.length + rest) taken =
      s.converseMoves react patience depth (List.replicate results.length (.command (.step code))) ++
        before.runMoves react nested nestedMoves code context rest (taken + results.length) := by
  induction results generalizing s taken with
  | nil =>
    obtain rfl : s = before := congrArg Prod.fst h.1
    rw [List.length_nil, Nat.zero_add]
    rfl
  | cons result results ih =>
    obtain ⟨t, hstep, running, hlater⟩ := h.uncons
    have hfirst : s.performMoves react patience depth (.command (.step code)) =
        carryOutMoves react nested nestedMoves (.call (.step code)) s (s.engine.step code) := hmoves s _
    have hnext : ∀ k < results.length, context.reason? (taken + 1 + k) = none := by
      intro k hk
      rw [Nat.add_assoc, Nat.add_comm 1 k]
      exact live (k + 1) (Nat.succ_lt_succ hk)
    have hnow : context.reason? taken = none := live 0 (Nat.succ_pos _)
    rw [List.length_cons, Nat.add_right_comm, Session.runMoves, hnow, carryOut_of_perform_ok hperform hstep]
    simp only [running, Bool.false_eq_true, if_false]
    rw [ih hlater hnext, List.replicate_succ, converseMoves_cons, hfirst, hstep, List.append_assoc,
      Nat.add_assoc taken 1, Nat.add_comm 1]

/-- What is attempted in a run that its context ends is what is attempted in the steps before. -/
theorem outcomes_interrupted {why : Interruption}
    (h : (s.perform react patience depth (.run code context)).2 = .reply (.error (.interrupted why))) :
    ∃ results, (∀ k < results.length, context.reason? k = none) ∧ context.reason? results.length = some why ∧
      s.StepsTo react patience depth code results (s.perform react patience depth (.run code context)).1 ∧
      s.outcomes react patience depth [.run code context] =
        s.outcomes react patience depth (List.replicate results.length (.command (.step code))) := by
  obtain ⟨nested, nestedMoves, hperform, hmoves⟩ := performMoves_eq_answerMoves react patience depth
  obtain ⟨t, reply, hruns, hanswer⟩ := answer_run react nested patience s code context
  obtain ⟨results, before, rest, hleft, hsteps, hlive, hends⟩ := hruns.stepsTo hperform
  have hrun := hsteps.runMoves hperform hmoves hlive rest
  rw [hperform, hanswer] at h ⊢
  rw [Nat.zero_add] at hends hrun
  cases hends with
  | interrupted done =>
    cases h
    refine ⟨results, fun k hk => by simpa using hlive k hk, done, hsteps, ?_⟩
    have hcall : s.performMoves react patience depth (.run code context) = _ := hmoves s _
    rw [answerMoves, hleft, hrun, Session.runMoves.eq_def, done, List.append_nil] at hcall
    rw [outcomes, outcomes, converseMoves_cons, hcall]
    exact congrArg _ (List.append_nil _)
  | spent _ _ hcarry =>
    have hreply := congrArg Prod.snd hcarry
    rw [carryOut_reply, Engine.spendLimit, Engine.reject_eq] at hreply
    cases hreply
    cases h
  | unfinished | failed | halted => cases h

end Session

/-- The counters account for everything exactly once: along every history, and in every session whatever its observers
do, there are as many steps as transactions carried out, of each opcode as many as are counted for it, and as many
errors as attempts rejected for another reason than coming out of turn. An announcement adds no step, a reset changes
nothing, and in a run that its context ends, after however many steps, those steps are all that is attempted. -/
theorem counters_account {o : Options} (counting : o.stats = true) :
    (∀ moves : List Move, ∃ stats, ((Moment.start o).after moves).engine.stats = some stats ∧
      stats.Tallies ((Moment.start o).outcomes moves)) ∧
    (∀ (ω : Type) (react : Reaction ω) (patience depth : Nat) (observers : List ω) (calls : List (Call ω)),
      let s := Session.opened o observers
      ∃ stats, (s.converse react patience depth calls).1.engine.stats = some stats ∧
        stats.Tallies (s.outcomes react patience depth calls) ∧
        ∀ op, 0 < stats.count op ↔ ∃ result ∈ resultsOf (s.outcomes react patience depth calls), result.op = op) ∧
    (∀ (m : Moment) (mnemonic : Bytes) (operands : List Operand),
      (m.next (.call (.announce mnemonic operands))).engine.stats.map Stats.steps = m.engine.stats.map Stats.steps) ∧
    (∀ m : Moment, (m.next (.call .reset)).engine.stats = m.engine.stats) ∧
    ∀ (ω : Type) (react : Reaction ω) (patience depth : Nat) (s : Session ω) (code : Bytes) (context : Context)
        (why : Interruption),
      let done := s.perform react patience depth (.run code context)
      done.2 = .reply (.error (.interrupted why)) →
        ∃ results, (∀ k < results.length, context.reason? k = none) ∧ context.reason? results.length = some why ∧
          s.StepsTo react patience depth code results done.1 ∧
          s.outcomes react patience depth [.run code context] =
            s.outcomes react patience depth (List.replicate results.length (.command (.step code))) := by
  refine ⟨Moment.tallies_after counting, ?_, ?_, fun m => rfl, ?_⟩
  · intro ω react patience depth observers calls s
    have hmoves : (Moment.start o).after (s.converseMoves react patience depth calls) = _ :=
      Session.converse_madeBy react patience depth s calls []
    obtain ⟨stats, hstats, htallies⟩ :=
      Moment.tallies_after counting (s.converseMoves react patience depth calls)
    rw [hmoves] at hstats
    exact ⟨stats, hstats, htallies, htallies.count_pos_iff⟩
  · intro m mnemonic operands
    have hb := m.engine.begin_begins (.announce mnemonic operands)
    have hnext : (m.next (.call (.announce mnemonic operands))).engine =
        (m.engine.begin (.announce mnemonic operands)).engine := rfl
    rw [hnext]
    generalize m.engine.begin (.announce mnemonic operands) = effect at hb
    cases hb with
    | refused | announced => rfl
    | rejected => cases hs : m.engine.stats <;> simp [Engine.afterRejection, hs, Stats.reject]
    | executed _ _ immediate => cases immediate
  · exact fun ω react patience depth s code context why => Session.outcomes_interrupted

/-- An observer that, told of a push, commits out of turn, steps where there is no code, resets and pushes again; then
a run that spends its limit and one whose context ends it after a step, which is what is attempted in it. -/
theorem counters_account_nested :
    let push := Command.execute (utf8 "PSH") [.imm 5]
    let hook : Observer :=
      .hook .log (utf8 "PSH") 1 [.command .commit, .command (.step []), .command .reset, .command push]
    let code := List.replicate 8 Opcode.nop.code
    let calls : List (Call Observer) :=
      [.command .commit, .command (.announce (utf8 "PSH") [.imm 5]), .command push, .command .commit, .run code none]
    let cut : Call Observer := .run code (some ⟨1, .cancelled⟩)
    ∃ s t stats, s = Session.opened { stats := true, maxSteps := 2 } [hook] ∧
      (s.converse Observer.react 0 1 (calls ++ [cut])).1.engine.stats = some stats ∧
      stats.Tallies (s.outcomes Observer.react 0 1 (calls ++ [cut])) ∧
      stats.steps = 5 ∧ stats.errors = 2 ∧ (s.outcomes Observer.react 0 1 (calls ++ [cut])).length = 12 ∧
      t = (s.converse Observer.react 0 1 calls).1 ∧
      (t.perform Observer.react 0 1 cut).2 = .reply (.error (.interrupted .cancelled)) ∧
      t.outcomes Observer.react 0 1 [cut] = t.outcomes Observer.react 0 1 [.command (.step code)] := by
  intro push hook code calls cut
  have hall := counters_account (o := { stats := true, maxSteps := 2 }) rfl
  obtain ⟨stats, hstats, htallies, _⟩ := hall.2.1 Observer Observer.react 0 1 [hook] (calls ++ [cut])
  have hvalue : ((Session.opened { stats := true, maxSteps := 2 } [hook]).converse Observer.react 0 1
      (calls ++ [cut])).1.engine.stats.map (fun stats => (stats.steps, stats.errors)) = some (5, 2) := by decide +kernel
  rw [hstats] at hvalue
  have hboth := Prod.mk.inj (Option.some.inj hvalue)
  refine ⟨_, _, stats, rfl, hstats, htallies, hboth.1, hboth.2, by decide +kernel, rfl, ?_⟩
  generalize ht : ((Session.opened { stats := true, maxSteps := 2 } [hook]).converse Observer.react 0 1 calls).1 = t
  have hcut : (t.perform Observer.react 0 1 cut).2 = .reply (.error (.interrupted .cancelled)) := by
    subst ht
    exact Answer.eq_of_failure? (by decide +kernel)
  obtain ⟨results, hlive, hdone, -, hsame⟩ := hall.2.2.2.2 Observer Observer.react 0 1 t code _ .cancelled hcut
  rw [Context.asked_eq hlive hdone] at hsame
  exact ⟨hcut, hsame⟩

end StackMachine
