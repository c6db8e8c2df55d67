import StackMachine.Session

namespace StackMachine

namespace Context

@[simp] theorem reason?_none (asked : Nat) : reason? none asked = none := rfl

/-- The number of times a context was asked before it was found done. -/
theorem asked_eq {cut : Cut} {asked : Nat} {why : Interruption} (live : ∀ k < asked, reason? (some cut) k = none)
    (done : reason? (some cut) asked = some why) : asked = cut.after := by
  have hle : cut.after ≤ asked := by
    by_cases h : cut.after ≤ asked
    · exact h
    · simp only [reason?, if_neg h] at done
      cases done
  by_cases hlt : cut.after < asked
  · have hnone := live cut.after hlt
    simp only [reason?, Nat.le_refl, if_true] at hnone
    cases hnone
  · omega

end Context

theorem Engine.isLimited_congr {e e' : Engine} (h : e'.maxSteps = e.maxSteps) : e'.isLimited = e.isLimited := by
  rw [isLimited, h, isLimited]

theorem Engine.allowance_congr {e e' : Engine} (h : e'.maxSteps = e.maxSteps) (patience : Nat) :
    e'.allowance patience = e.allowance patience := by
  rw [allowance, isLimited_congr h, h, allowance]

section RunsTo

variable {σ : Type} (engine : σ → Engine) (carryOut : σ → Effect Result → σ × Except Error Result) (code : Bytes)
  (context : Context)

/-- The ways in which a run ends, with so many steps left and so many taken. -/
inductive RunEnds : (left taken : Nat) → σ → σ → Except Failure Result → Prop where
  | interrupted {left taken : Nat} {s : σ} {why : Interruption} (done : context.reason? taken = some why) :
    RunEnds left taken s s (.error (.interrupted why))
  | spent {taken : Nat} {s t : σ} {reply : Except Error Result} (live : context.reason? taken = none)
    (limited : (engine s).isLimited = true) (spend : carryOut s (engine s).spendLimit = (t, reply)) :
    RunEnds 0 taken s t (reply.mapError .engine)
  | unfinished {taken : Nat} {s : σ} (live : context.reason? taken = none) (unlimited : (engine s).isLimited = false) :
    RunEnds 0 taken s s (.error .unfinished)
  | failed {left taken : Nat} {s t : σ} {error : Error} (live : context.reason? taken = none)
    (step : carryOut s ((engine s).step code) = (t, .error error)) :
    RunEnds (left + 1) taken s t (.error (.engine error))
  | halted {left taken : Nat} {s t : σ} {result : Result} (live : context.reason? taken = none)
    (step : carryOut s ((engine s).step code) = (t, .ok result)) (halts : result.halted = true) :
    RunEnds (left + 1) taken s t (.ok result)

/-- A run from one state to another: steps that go on, and an end. -/
inductive RunsTo : (left taken : Nat) → σ → σ → Except Failure Result → Prop where
  | ends {left taken : Nat} {s t : σ} {reply : Except Failure Result}
    (h : RunEnds engine carryOut code context left taken s t reply) : RunsTo left taken s t reply
  | onward {left taken : Nat} {s t last : σ} {result : Result} {reply : Except Failure Result}
    (live : context.reason? taken = none) (step : carryOut s ((engine s).step code) = (t, .ok result))
    (running : result.halted = false) (later : RunsTo left (taken + 1) t last reply) :
    RunsTo (left + 1) taken s last reply

variable {engine carryOut code context} {left taken : Nat} {s t : σ} {reply : Except Failure Result}

theorem RunEnds.eq (h : RunEnds engine carryOut code context left taken s t reply) :
    runLoop engine carryOut code context left taken s = (t, reply) := by
  cases h with
  | interrupted done => rw [runLoop.eq_def, done]
  | spent live limited spend =>
    rw [runLoop, live]
    simp only [limited, if_true, spend]
  | unfinished live unlimited =>
    rw [runLoop, live]
    simp only [unlimited, Bool.false_eq_true, if_false]
  | failed live step =>
    rw [runLoop, live]
    simp only [step]
  | halted live step halts =>
    rw [runLoop, live]
    simp only [step, halts, if_true]

theorem RunsTo.eq (h : RunsTo engine carryOut code context left taken s t reply) :
    runLoop engine carryOut code context left taken s = (t, reply) := by
  induction h with
  | ends h => exact h.eq
  | onward live step running later ih =>
    rw [runLoop, live]
    simp only [step, running, Bool.false_eq_true, if_false]
    exact ih

theorem runsTo_runLoop (engine : σ → Engine) (carryOut : σ → Effect Result → σ × Except Error Result) (code : Bytes)
    (context : Context) (left taken : Nat) (s : σ) :
    ∃ t reply, RunsTo engine carryOut code context left taken s t reply := by
  induction left generalizing taken s with
  | zero =>
    cases hasked : context.reason? taken with
    | some why => exact ⟨_, _, .ends (.interrupted hasked)⟩
    | none =>
      cases hlimited : (engine s).isLimited with
      | true => exact ⟨_, _, .ends (.spent hasked hlimited rfl)⟩
      | false => exact ⟨_, _, .ends (.unfinished hasked hlimited)⟩
  | succ left ih =>
    cases hasked : context.reason? taken with
    | some why => exact ⟨_, _, .ends (.interrupted hasked)⟩
    | none =>
      obtain ⟨t, reply, hstep⟩ : ∃ t reply, carryOut s ((engine s).step code) = (t, reply) := ⟨_, _, rfl⟩
      cases reply with
      | error error => exact ⟨_, _, .ends (.failed hasked hstep)⟩
      | ok result =>
        cases hhalted : result.halted with
        | true => exact ⟨_, _, .ends (.halted hasked hstep hhalted)⟩
        | false =>
          obtain ⟨last, reply, hlater⟩ := ih (taken + 1) t
          exact ⟨_, _, .onward hasked hstep hhalted hlater⟩

/-- What holds between states before and after an effect of the run, and can be chained, holds between its ends. -/
theorem RunsTo.chain {R : σ → σ → Prop} (refl : ∀ s, R s s) (trans : ∀ {s t u}, R s t → R t u → R s u)
    (hspend : ∀ s, R s (carryOut s (engine s).spendLimit).1)
    (hstep : context.reason? taken = none → ∀ s, R s (carryOut s ((engine s).step code)).1)
    (h : RunsTo engine carryOut code context left taken s t reply) : R s t := by
  have hone : ∀ {s t : σ} {effect : Effect Result} {reply : Except Error Result}, R s (carryOut s effect).1 →
      carryOut s effect = (t, reply) → R s t := by
    intro s t effect reply hkept hcarry
    rw [hcarry] at hkept
    exact hkept
  induction h with
  | ends h =>
    cases h with
    | interrupted => exact refl _
    | spent _ _ hcarry => exact hone (hspend _) hcarry
    | unfinished => exact refl _
    | failed live hcarry => exact hone (hstep live _) hcarry
    | halted live hcarry => exact hone (hstep live _) hcarry
  | onward live hcarry _ _ ih => exact trans (hone (hstep live _) hcarry) (ih fun _ => hstep live)

/-- Where effects on related states give related states and the same reply, so do runs. -/
theorem RunsTo.related {τ : Type} {engine' : τ → Engine} {carryOut' : τ → Effect Result → τ × Except Error Result}
    {R : σ → τ → Prop} {s' : τ} (hlimited : ∀ {s s'}, R s s' → (engine' s').isLimited = (engine s).isLimited)
    (hspend : ∀ {s s'}, R s s' → R (carryOut s (engine s).spendLimit).1 (carryOut' s' (engine' s').spendLimit).1 ∧
      (carryOut' s' (engine' s').spendLimit).2 = (carryOut s (engine s).spendLimit).2)
    (hstep : ∀ {s s'}, R s s' →
      R (carryOut s ((engine s).step code)).1 (carryOut' s' ((engine' s').step code)).1 ∧
        (carryOut' s' ((engine' s').step code)).2 = (carryOut s ((engine s).step code)).2)
    (hr : R s s') (h : RunsTo engine carryOut code context left taken s t reply) :
    ∃ t', RunsTo engine' carryOut' code context left taken s' t' reply ∧ R t t' := by
  have hone : ∀ {s t : σ} {s' : τ} {effect effect' : Effect Result} {reply : Except Error Result},
      R (carryOut s effect).1 (carryOut' s' effect').1 ∧ (carryOut' s' effect').2 = (carryOut s effect).2 →
      carryOut s effect = (t, reply) → ∃ t', carryOut' s' effect' = (t', reply) ∧ R t t' := by
    intro s t s' effect effect' reply hboth hcarry
    rw [hcarry] at hboth
    exact ⟨_, Prod.ext rfl hboth.2, hboth.1⟩
  induction h generalizing s' with
  | ends h =>
    cases h with
    | interrupted done => exact ⟨s', .ends (.interrupted done), hr⟩
    | spent live limited hcarry =>
      obtain ⟨t', hcarry', ht⟩ := hone (hspend hr) hcarry
      exact ⟨t', .ends (.spent live (by rw [hlimited hr, limited]) hcarry'), ht⟩
    | unfinished live unlimited => exact ⟨s', .ends (.unfinished live (by rw [hlimited hr, unlimited])), hr⟩
    | failed live hcarry =>
      obtain ⟨t', hcarry', ht⟩ := hone (hstep hr) hcarry
      exact ⟨t', .ends (.failed live hcarry'), ht⟩
    | halted live hcarry halts =>
      obtain ⟨t', hcarry', ht⟩ := hone (hstep hr) hcarry
      exact ⟨t', .ends (.halted live hcarry' halts), ht⟩
  | onward live hcarry running _ ih =>
    obtain ⟨t', hcarry', ht⟩ := hone (hstep hr) hcarry
    obtain ⟨last, hlater, hlast⟩ := ih ht
    exact ⟨last, .onward live hcarry' running hlater, hlast⟩

end RunsTo

theorem Progress.carryOut_eq {α : Type} (p : Progress) {effect : Effect α} {reply : Except Error α}
    (h : effect.settled.reply = reply) :
    ∃ next : Progress, next.engine = effect.settled.engine ∧ p.carryOut effect = (next, reply) :=
  ⟨(p.carryOut effect).1, rfl, Prod.ext rfl h⟩

theorem Engine.run_eq {e : Engine} {patience : Nat} {code : Bytes} {context : Context} {p : Progress}
    {reply : Except Failure Result}
    (h : RunsTo Progress.engine Progress.carryOut code context (e.allowance patience) 0 { engine := e } p reply) :
    e.run patience context code = { p with reply } := by
  rw [Engine.run, h.eq]

namespace Session

variable {ω : Type} (react : Reaction ω) (nested : Session ω → List (Call ω) → Session ω)

/-- The runs of a session. -/
abbrev Runs := RunsTo (σ := Session ω) engine (carryOut react nested)

theorem answer_run (patience : Nat) (s : Session ω) (code : Bytes) (context : Context) :
    ∃ t reply, Runs react nested code context (s.engine.allowance patience) 0 s t reply ∧
      s.answer react nested patience (.run code context) = (t, .reply (reply.map .committed)) := by
  obtain ⟨t, reply, hruns⟩ :=
    runsTo_runLoop engine (carryOut react nested) code context (s.engine.allowance patience) 0 s
  refine ⟨t, reply, hruns, ?_⟩
  rw [answer, hruns.eq]

end Session

end StackMachine
