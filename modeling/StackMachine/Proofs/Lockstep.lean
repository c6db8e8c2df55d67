import StackMachine.Proofs.Bookkeeping
import StackMachine.Proofs.Listening

namespace StackMachine

/-- The same failure, or related values. -/
inductive Matches {ε α : Type} (R : α → α → Prop) : Except ε α → Except ε α → Prop
  | failed (error : ε) : Matches R (.error error) (.error error)
  | done {x y : α} : R x y → Matches R (.ok x) (.ok y)

namespace Matches

variable {ε ε' α β : Type} {R : α → α → Prop} {S : β → β → Prop} {x y : Except ε α}

theorem map {f : α → β} (hf : ∀ a b, R a b → S (f a) (f b)) (h : Matches R x y) : Matches S (f <$> x) (f <$> y) := by
  cases h with
  | failed error => exact .failed error
  | done h => exact .done (hf _ _ h)

theorem mapError (f : ε → ε') (h : Matches R x y) : Matches R (x.mapError f) (y.mapError f) := by
  cases h with
  | failed error => exact .failed (f error)
  | done h => exact .done h

theorem underOpcode {x y : Except Cause α} (op : Opcode) (h : Matches R x y) :
    Matches R (Cause.underOpcode op x) (Cause.underOpcode op y) := by
  cases h with
  | failed cause => exact .failed _
  | done h => exact .done h

end Matches

inductive Reply.Matches (R : Result → Result → Prop) : Reply → Reply → Prop
  | committed {r r' : Result} : R r r' → Matches R (.committed r) (.committed r')
  | announced (preview : Preview) : Matches R (.announced preview) (.announced preview)
  | done : Matches R .done .done

/-- Replies that match. Other answers match nothing. -/
inductive Answer.Matches (R : Result → Result → Prop) : Answer → Answer → Prop
  | reply {r r' : Except Failure Reply} : StackMachine.Matches (Reply.Matches R) r r' → Matches R (.reply r) (.reply r')

theorem Answer.Matches.eq {a a' : Answer} (h : a.Matches Eq a') : a = a' := by
  cases h with
  | reply h =>
    cases h with
    | failed failure => rfl
    | done h =>
      cases h with
      | committed h => rw [h]
      | announced preview => rfl
      | done => rfl

/-- How two machines go side by side, the first with one setting of the latch and the second with another. -/
structure Lockstep where
  latch : Bool
  latch' : Bool
  Machines : Machine → Machine → Prop
  Plans : Machine → Machine → Transaction → Transaction → Prop
  Results : Result → Result → Prop
  /-- The actions that both machines plan alike. -/
  Admits : Machine → Action → Prop
  /-- The events in which they must not differ. -/
  shown : Event → Bool
  ip_eq : ∀ {m m'}, Machines m m' → m'.ip = m.ip
  plan_matches : ∀ {m m' action}, Machines m m' → Admits m action →
    Matches (Plans m m') (m.plan latch action) (m'.plan latch' action)
  plans_eq : ∀ {m m' t t'}, Plans m m' t t' → t'.op = t.op ∧ t'.consumed = t.consumed ∧ t'.detail = t.detail
  commit_machines : ∀ {m m' t t'}, Machines m m' → Plans m m' t t' → Machines (m.commit t).1 (m'.commit t').1
  commit_results : ∀ {m m' t t'}, Machines m m' → Plans m m' t t' → Results (m.commit t).2 (m'.commit t').2
  halted_eq : ∀ {r r'}, Results r r' → r'.halted = r.halted
  events_eq : ∀ {r r' ip}, Results r r' → (r'.events ip).filter shown = (r.events ip).filter shown
  baseline_machines : ∀ {m m'}, Machines m m' → Machines (.baseline m.stack) (.baseline m'.stack)

/-- The action that an instruction stands for. -/
def Action.ofInstruction? (code : UInt8) (operands : List Operand) : Option Action :=
  (Opcode.ofCode? code).bind fun op => (Action.ofOperands op operands).toOption

namespace Engine

/-- The action that a command sets out to carry out or to announce. One that is out of turn sets out to do nothing. -/
def action? (e : Engine) (c : Command) : Option Action :=
  if e.busy = false ∧ e.phase = .idle then (e.instruction? c).bind fun (code, operands) =>
    Action.ofInstruction? code operands
  else none

/-- The action of a command with the machine that it finds. -/
def setsOut (e : Engine) (c : Command) : List (Machine × Action) :=
  (e.action? c).toList.map fun action => (e.machine, action)

/-- The actions of a run, step by step, as long as its context is live. -/
def runSetsOut (code : Bytes) (context : Context) : (left taken : Nat) → Engine → List (Machine × Action)
  | 0, _, _ => []
  | left + 1, taken, e =>
    match context.reason? taken with
    | some _ => []
    | none =>
      e.setsOut (.step code) ++
        match (e.step code).settled.reply with
        | .error _ => []
        | .ok result => if result.halted then [] else runSetsOut code context left (taken + 1) (e.step code).settled.engine

section

variable {e : Engine} {code : Bytes} {context : Context} {left taken : Nat}

theorem mem_runSetsOut_succ {d : Machine × Action} :
    d ∈ e.runSetsOut code context (left + 1) taken ↔ context.reason? taken = none ∧ (d ∈ e.setsOut (.step code) ∨
      ∃ result, (e.step code).reply = .ok result ∧ result.halted = false ∧
        d ∈ (e.step code).settled.engine.runSetsOut code context left (taken + 1)) := by
  rw [runSetsOut, Effect.settled_reply]
  cases context.reason? taken with
  | some why => simp
  | none =>
    cases (e.step code).reply with
    | error error => simp
    | ok result => cases result.halted <;> simp

end

end Engine

/-- The calls that work on the machine. -/
def Call.operates {ω : Type} : Call ω → Bool
  | .command _ | .run .. => true
  | _ => false

/-- The actions of a call to which observers only listen. -/
def Engine.undertakes {ω : Type} (patience : Nat) (e : Engine) : Call ω → List (Machine × Action)
  | .command c => e.setsOut c
  | .run code context => e.runSetsOut code context (e.allowance patience) 0
  | _ => []

/-- A call in retrospect: its answer, what was told of it to which observer, and the engine after it. -/
structure Exchange where
  answer : Answer
  told : List (Nat × Event)
  engine : Engine

namespace Session

variable {ω : Type} (react : Reaction ω) (patience depth : Nat)

/-- A conversation call by call. -/
def exchanges : Session ω → List (Call ω) → List Exchange
  | _, [] => []
  | s, call :: calls =>
    let (s, answer) := s.cleared.perform react patience depth call
    ⟨answer, s.told.toList, s.engine⟩ :: exchanges s calls

/-- The actions of a conversation, in order, each with the machine that it finds. -/
def undertakes : Session ω → List (Call ω) → List (Machine × Action)
  | _, [] => []
  | s, call :: calls =>
    s.engine.undertakes patience call ++ undertakes (s.cleared.perform react patience depth call).1 calls

end Session

namespace Lockstep

variable (L : Lockstep)

/-- Engines that go side by side: all that does not concern their machines is equal. -/
inductive Engines : Engine → Engine → Prop
  | mk {m m' : Machine} {phase : Phase} {pending pending' : Option Transaction} {busy : Bool} {generation : Nat}
      {maxSteps : Int64} {stats : Option Stats} : L.Machines m m' → Option.Rel (L.Plans m m') pending pending' →
      (phase = .idle → pending = none) →
      Engines ⟨m, phase, pending, busy, generation, L.latch, maxSteps, stats⟩
        ⟨m', phase, pending', busy, generation, L.latch', maxSteps, stats⟩

def Notices (notice notice' : Notice) : Prop :=
  notice'.generation = notice.generation ∧ notice'.events.filter L.shown = notice.events.filter L.shown

structure Effects {α : Type} (R : α → α → Prop) (effect effect' : Effect α) : Prop where
  engine : L.Engines effect.engine effect'.engine
  reply : Matches R effect.reply effect'.reply
  notice : Option.Rel L.Notices effect.notice effect'.notice

structure Outcomes {α : Type} (R : α → α → Prop) (o o' : Outcome α) : Prop where
  engine : L.Engines o.engine o'.engine
  reply : Matches R o.reply o'.reply
  events : o'.events.filter L.shown = o.events.filter L.shown

variable {L} {e e' : Engine} {α β : Type} {R : α → α → Prop}

theorem Engines.refusal?_eq (h : L.Engines e e') (op : Bytes) : e'.refusal? op = e.refusal? op := by
  cases h
  rfl

theorem Engines.maxSteps_eq (h : L.Engines e e') : e'.maxSteps = e.maxSteps := by
  cases h
  rfl

theorem Engines.ip_eq (h : L.Engines e e') : e'.ip = e.ip := by
  cases h with
  | mk machines => exact L.ip_eq machines

theorem Engines.settle (h : L.Engines e e') (generation : Nat) :
    L.Engines (e.settle generation) (e'.settle generation) := by
  cases h with
  | @mk _ _ _ _ _ _ current _ _ machines pending idle =>
    unfold Engine.settle
    by_cases hg : current = generation
    · rw [if_pos hg, if_pos hg]
      exact .mk machines pending idle
    · rw [if_neg hg, if_neg hg]
      exact .mk machines pending idle

theorem Effects.settled {effect effect' : Effect α} (h : L.Effects R effect effect') :
    L.Outcomes R effect.settled effect'.settled := by
  obtain ⟨after, reply, notice, log⟩ := effect
  obtain ⟨after', reply', notice', log'⟩ := effect'
  obtain ⟨hengine, hreply, hnotice⟩ := h
  cases hnotice with
  | none => exact ⟨hengine, hreply, rfl⟩
  | some hnotice =>
    refine ⟨?_, hreply, hnotice.2⟩
    simp only [Effect.settled, hnotice.1]
    exact hengine.settle _

theorem Effects.map {S : β → β → Prop} {f : α → β} {effect effect' : Effect α}
    (hf : ∀ a b, R a b → S (f a) (f b)) (h : L.Effects R effect effect') :
    L.Effects S (effect.map f) (effect'.map f) :=
  ⟨h.engine, h.reply.map hf, h.notice⟩

theorem Effects.after {effect effect' : Effect α} (h : L.Effects R effect effect') (log log' : List LogEntry) :
    L.Effects R (effect.after log) (effect'.after log') :=
  ⟨h.engine, h.reply, h.notice⟩

theorem Engines.refuse (h : L.Engines e e') (op : Option Bytes) (error : Error) :
    L.Effects R (e.refuse op error) (e'.refuse op error) :=
  ⟨h, .failed error, .none⟩

theorem Engines.reject (h : L.Engines e e') (op : Bytes) (error : Error) :
    L.Effects R (e.reject op error) (e'.reject op error) := by
  cases h with
  | @mk _ _ _ _ _ busy _ _ _ machines pending idle =>
    cases busy with
    | true => exact ⟨.mk machines pending idle, .failed error, .none⟩
    | false => exact ⟨.mk machines pending idle, .failed error, .some ⟨rfl, rfl⟩⟩

theorem Engines.unknown (h : L.Engines e e') (mnemonic : Bytes) :
    L.Effects R (e.unknown mnemonic) (e'.unknown mnemonic) := by
  unfold Engine.unknown
  rw [h.refusal?_eq]
  cases e.refusal? mnemonic with
  | some error => exact h.refuse _ error
  | none => exact h.reject mnemonic _

/-- With nothing announced, transactions that match are applied alike. -/
theorem Engines.apply {t t' : Transaction} (h : L.Engines e e') (ht : L.Plans e.machine e'.machine t t')
    (hpending : e.pending = none) : L.Effects L.Results (e.apply t) (e'.apply t') := by
  cases h with
  | mk machines pending idle =>
    have hip := L.ip_eq machines
    have hop := (L.plans_eq ht).1
    have hresults := L.commit_results machines ht
    cases hpending
    cases pending
    simp only [Engine.apply, hop]
    refine ⟨.mk (L.commit_machines machines ht) .none fun _ => rfl, .done hresults, .some ⟨rfl, ?_⟩⟩
    simp only [Engine.ip, hip]
    exact L.events_eq hresults

theorem Engines.plan (h : L.Engines e e') {code : UInt8} {operands : List Operand}
    (admitted : ∀ action, Action.ofInstruction? code operands = some action → L.Admits e.machine action) :
    Matches (L.Plans e.machine e'.machine) (e.plan code operands).2 (e'.plan code operands).2 := by
  cases h with
  | mk machines _ _ =>
    unfold Engine.plan Opcode.ofByte
    unfold Action.ofInstruction? at admitted
    cases hc : Opcode.ofCode? code with
    | none => exact .failed _
    | some op =>
      rw [hc] at admitted
      cases ha : Action.ofOperands op operands with
      | error cause => simp only [ha, Cause.underOpcode]; exact .failed _
      | ok action =>
        have hplan := L.plan_matches machines (admitted action (by rw [Option.bind_some, ha]; rfl))
        simp only [ha]
        exact hplan.underOpcode op

theorem Engines.dispatch (h : L.Engines e e') {code : UInt8} {operands : List Operand}
    (admitted : e.busy = false → e.phase = .idle → ∀ action, Action.ofInstruction? code operands = some action →
      L.Admits e.machine action) :
    L.Effects L.Results (e.dispatch code operands) (e'.dispatch code operands) := by
  unfold Engine.dispatch
  dsimp only
  rw [h.refusal?_eq]
  cases hr : e.refusal? (Opcode.nameOfCode code) with
  | some error => exact h.refuse _ error
  | none =>
    obtain ⟨hfree, hidle⟩ := Engine.refusal?_eq_none_iff.mp hr
    have hpending : e.pending = none := by
      cases h with
      | mk _ _ idle => exact idle hidle
    have hplan := h.plan (admitted hfree hidle)
    obtain ⟨log, planned, hp⟩ : ∃ log planned, e.plan code operands = (log, planned) := ⟨_, _, rfl⟩
    obtain ⟨log', planned', hp'⟩ : ∃ log planned, e'.plan code operands = (log, planned) := ⟨_, _, rfl⟩
    rw [hp, hp'] at hplan
    simp only [hp, hp']
    cases hplan with
    | failed error => exact (h.reject _ error).after log log'
    | done ht => exact (h.apply ht hpending).after log log'

theorem Engines.announce (h : L.Engines e e') {mnemonic : Bytes} {operands : List Operand}
    (admitted : ∀ action, e.action? (.announce mnemonic operands) = some action → L.Admits e.machine action) :
    L.Effects Eq (e.announce mnemonic operands) (e'.announce mnemonic operands) := by
  unfold Engine.announce
  cases hn : Opcode.ofName? mnemonic with
  | none => exact h.unknown mnemonic
  | some op =>
    dsimp only
    rw [h.refusal?_eq]
    cases hr : e.refusal? op.name with
    | some error => exact h.refuse _ error
    | none =>
      have hturn := Engine.refusal?_eq_none_iff.mp hr
      simp only [Engine.action?, Engine.instruction?, if_pos hturn, hn, Option.map_some, Option.bind_some] at admitted
      have hplan := h.plan admitted
      obtain ⟨log, planned, hp⟩ : ∃ log planned, e.plan op.code operands = (log, planned) := ⟨_, _, rfl⟩
      obtain ⟨log', planned', hp'⟩ : ∃ log planned, e'.plan op.code operands = (log, planned) := ⟨_, _, rfl⟩
      rw [hp, hp'] at hplan
      simp only [hp, hp']
      cases hplan with
      | failed error => exact (h.reject _ error).after log log'
      | done ht =>
        obtain ⟨_, hconsumed, hdetail⟩ := L.plans_eq ht
        cases h with
        | mk machines _ _ =>
          refine ⟨.mk machines (.some ht) (fun hphase => by cases hphase), ?_, .none⟩
          simp only [hconsumed, hdetail]
          exact .done rfl

theorem Engines.commit (h : L.Engines e e') : L.Effects L.Results e.commit e'.commit := by
  cases h with
  | @mk _ _ _ _ _ busy _ _ _ machines pending idle =>
    cases busy with
    | true => exact (Engines.mk machines pending idle).refuse _ _
    | false =>
      cases pending with
      | none => exact (Engines.mk machines .none idle).refuse _ _
      | some ht => exact Engines.apply (.mk machines .none fun _ => rfl) ht rfl

theorem Engines.reset (h : L.Engines e e') : L.Effects Eq e.reset e'.reset := by
  cases h with
  | mk machines pending idle => exact ⟨.mk (L.baseline_machines machines) .none fun _ => rfl, .done rfl, .none⟩

theorem Engines.step (h : L.Engines e e') {code : Bytes}
    (admitted : ∀ action, e.action? (.step code) = some action → L.Admits e.machine action) :
    L.Effects L.Results (e.step code) (e'.step code) := by
  unfold Engine.step
  rw [h.ip_eq]
  cases hd : decodeAt code e.ip with
  | error error => exact h.reject _ error
  | ok i =>
    apply h.dispatch
    intro hfree hidle action haction
    apply admitted action
    simp only [Engine.action?, if_pos (And.intro hfree hidle), Engine.instruction?, hd]
    exact haction

theorem Engines.execute (h : L.Engines e e') {mnemonic : Bytes} {operands : List Operand}
    (admitted : ∀ action, e.action? (.execute mnemonic operands) = some action → L.Admits e.machine action) :
    L.Effects L.Results (e.execute mnemonic operands) (e'.execute mnemonic operands) := by
  unfold Engine.execute
  cases hn : Opcode.ofName? mnemonic with
  | none => exact h.unknown mnemonic
  | some op =>
    apply h.dispatch
    intro hfree hidle action haction
    apply admitted action
    simp only [Engine.action?, if_pos (And.intro hfree hidle), Engine.instruction?, hn]
    exact haction

theorem Engines.begin (h : L.Engines e e') {c : Command}
    (admitted : ∀ action, e.action? c = some action → L.Admits e.machine action) :
    L.Effects (Reply.Matches L.Results) (e.begin c) (e'.begin c) := by
  cases c with
  | execute mnemonic operands => exact (h.execute admitted).map fun _ _ hr => .committed hr
  | dispatch code operands =>
    refine (h.dispatch ?_).map fun _ _ hr => .committed hr
    intro hfree hidle action haction
    apply admitted action
    simp only [Engine.action?, if_pos (And.intro hfree hidle)]
    exact haction
  | announce mnemonic operands =>
    refine (h.announce admitted).map ?_
    rintro preview _ rfl
    exact .announced preview
  | commit => exact h.commit.map fun _ _ hr => .committed hr
  | reset => exact h.reset.map fun _ _ _ => .done
  | step code => exact (h.step admitted).map fun _ _ hr => .committed hr

theorem Engines.spendLimit (h : L.Engines e e') : L.Effects L.Results e.spendLimit e'.spendLimit := by
  unfold Engine.spendLimit
  rw [h.maxSteps_eq]
  exact h.reject _ _

section Sessions

variable {ω : Type} {s s' : Session ω}

variable (L) in
/-- Sessions that go side by side, with equally many observers that were told alike. -/
structure Sessions (s s' : Session ω) : Prop where
  engine : L.Engines s.engine s'.engine
  audience : s'.observers.length = s.observers.length
  told : s'.told.toList.filter (L.shown ·.2) = s.told.toList.filter (L.shown ·.2)

variable (L) in
/-- Exchanges that match: the answers do, and so does what was told and the engines. -/
structure Exchanges (x x' : Exchange) : Prop where
  answer : x.answer.Matches L.Results x'.answer
  told : x'.told.filter (L.shown ·.2) = x.told.filter (L.shown ·.2)
  engine : L.Engines x.engine x'.engine

theorem filter_broadcast (shown : Event → Bool) (audience : Nat) (events : List Event) :
    (broadcast audience events).filter (shown ·.2) = broadcast audience (events.filter shown) := by
  induction events with
  | nil => rfl
  | cons event events ih =>
    unfold broadcast at ih ⊢
    rw [List.flatMap_cons, List.filter_append, ih, List.filter_map, List.filter_cons]
    cases hs : shown event <;> simp [hs, Function.comp_def]

theorem Sessions.listened {o o' : Outcome α} (react : Reaction ω) (h : L.Sessions s s') (ho : L.Outcomes R o o') :
    L.Sessions (s.listened react o) (s'.listened react o') := by
  refine ⟨ho.engine, ?_, ?_⟩
  · simp only [Session.listened, Session.length_informed, h.audience]
  · simp only [Session.listened, Array.toList_appendList, List.filter_append, h.told, h.audience,
      filter_broadcast, ho.events]

variable {react : Reaction ω} {nested : Session ω → List (Call ω) → Session ω} (hp : react.Passive)
  (hn : ∀ s, nested s [] = s)

include hp hn

theorem Sessions.carryOut {effect effect' : Effect α} (h : L.Sessions s s') (he : L.Effects R effect effect')
    (current : ∀ notice, effect.notice = some notice → notice.generation = effect.engine.generation)
    (current' : ∀ notice, effect'.notice = some notice → notice.generation = effect'.engine.generation) :
    L.Sessions (s.carryOut react nested effect).1 (s'.carryOut react nested effect').1 ∧
      Matches R (s.carryOut react nested effect).2 (s'.carryOut react nested effect').2 := by
  rw [Session.carryOut_passive hp hn s current, Session.carryOut_passive hp hn s' current']
  exact ⟨h.listened react he.settled, he.reply⟩

theorem Sessions.step (h : L.Sessions s s') (code : Bytes)
    (admitted : ∀ d ∈ s.engine.setsOut (.step code), L.Admits d.1 d.2) :
    L.Sessions (s.carryOut react nested (s.engine.step code)).1 (s'.carryOut react nested (s'.engine.step code)).1 ∧
      Matches L.Results (s.carryOut react nested (s.engine.step code)).2
        (s'.carryOut react nested (s'.engine.step code)).2 := by
  have hstep : L.Effects L.Results (s.engine.step code) (s'.engine.step code) := by
    apply h.engine.step
    intro action haction
    refine admitted (s.engine.machine, action) ?_
    simp only [Engine.setsOut, haction, Option.toList_some, List.map_cons, List.map_nil, List.mem_singleton]
  rw [Session.carryOut_step_passive hp hn, Session.carryOut_step_passive hp hn]
  exact ⟨h.listened react hstep.settled, hstep.reply⟩

/-- A run of the first session has one of the second beside it, step by step. -/
theorem Sessions.runs {code : Bytes} {context : Context} {left taken : Nat} {t : Session ω}
    {reply : Except Failure Result} (h : L.Sessions s s')
    (hruns : Session.Runs react nested code context left taken s t reply)
    (admitted : ∀ d ∈ s.engine.runSetsOut code context left taken, L.Admits d.1 d.2) :
    ∃ t' reply', Session.Runs react nested code context left taken s' t' reply' ∧ L.Sessions t t' ∧
      Matches L.Results reply reply' := by
  -- a step that the first session takes, beside that of the second
  have hstep : ∀ {s s' t : Session ω} {left taken : Nat} {r : Except Error Result}, L.Sessions s s' →
      (∀ d ∈ s.engine.runSetsOut code context (left + 1) taken, L.Admits d.1 d.2) → context.reason? taken = none →
      s.carryOut react nested (s.engine.step code) = (t, r) →
      ∃ t' r', s'.carryOut react nested (s'.engine.step code) = (t', r') ∧ L.Sessions t t' ∧ Matches L.Results r r' := by
    intro s s' t left taken r h admitted live hcarry
    have hstep := h.step hp hn code fun d hd => admitted d (Engine.mem_runSetsOut_succ.mpr ⟨live, .inl hd⟩)
    rw [hcarry] at hstep
    exact ⟨_, _, rfl, hstep.1, hstep.2⟩
  induction hruns generalizing s' with
  | ends hends =>
    cases hends with
    | interrupted done => exact ⟨s', _, .ends (.interrupted done), h, .failed _⟩
    | spent live limited hcarry =>
      have hspent := h.carryOut hp hn h.engine.spendLimit
        (fun notice hnotice => (Engine.spendLimit_notice_current hnotice).1)
        (fun notice hnotice => (Engine.spendLimit_notice_current hnotice).1)
      rw [hcarry] at hspent
      rw [← Engine.isLimited_congr h.engine.maxSteps_eq] at limited
      exact ⟨_, _, .ends (.spent live limited rfl), hspent.1, hspent.2.mapError _⟩
    | unfinished live unlimited =>
      rw [← Engine.isLimited_congr h.engine.maxSteps_eq] at unlimited
      exact ⟨s', _, .ends (.unfinished live unlimited), h, .failed _⟩
    | failed live hcarry =>
      obtain ⟨t', r', hcarry', ht, hr⟩ := hstep h admitted live hcarry
      cases hr
      exact ⟨t', _, .ends (.failed live hcarry'), ht, .failed _⟩
    | halted live hcarry halts =>
      obtain ⟨t', r', hcarry', ht, hr⟩ := hstep h admitted live hcarry
      cases hr with
      | done hresult =>
        rw [← L.halted_eq hresult] at halts
        exact ⟨t', _, .ends (.halted live hcarry' halts), ht, .done hresult⟩
  | onward live hcarry running later ih =>
    obtain ⟨t', r', hcarry', ht, hr⟩ := hstep h admitted live hcarry
    cases hr with
    | done hresult =>
      rw [Session.carryOut_step_passive hp hn] at hcarry
      obtain ⟨rfl, hreply⟩ := Prod.mk.inj hcarry
      obtain ⟨last, reply', hlater, hlast, hmatches⟩ := ih ht fun d hd =>
        admitted d (Engine.mem_runSetsOut_succ.mpr ⟨live, .inr ⟨_, hreply, running, hd⟩⟩)
      rw [← L.halted_eq hresult] at running
      exact ⟨last, reply', .onward live hcarry' running hlater, hlast, hmatches⟩

theorem Sessions.answer (h : L.Sessions s s') (patience : Nat) {call : Call ω} (operates : call.operates = true)
    (admitted : ∀ d ∈ s.engine.undertakes patience call, L.Admits d.1 d.2) :
    L.Sessions (s.answer react nested patience call).1 (s'.answer react nested patience call).1 ∧
      (s.answer react nested patience call).2.Matches L.Results (s'.answer react nested patience call).2 := by
  cases call with
  | command c =>
    have hbegin : L.Effects (Reply.Matches L.Results) (s.engine.begin c) (s'.engine.begin c) := by
      apply h.engine.begin
      intro action haction
      apply admitted (s.engine.machine, action)
      simp only [Engine.undertakes, Engine.setsOut, haction, Option.toList_some, List.map_cons, List.map_nil,
        List.mem_singleton]
    obtain ⟨hsessions, hreply⟩ := h.carryOut hp hn hbegin
      (fun notice hnotice => ((s.engine.begin_begins c).notice_current hnotice).1)
      (fun notice hnotice => ((s'.engine.begin_begins c).notice_current hnotice).1)
    exact ⟨hsessions, .reply (hreply.mapError _)⟩
  | run code context =>
    obtain ⟨t, reply, hruns, hanswer⟩ := Session.answer_run react nested patience s code context
    obtain ⟨t', reply', hruns', hsessions, hreply⟩ := h.runs hp hn hruns admitted
    have hanswer' : s'.answer react nested patience (.run code context) = (t', .reply (reply'.map .committed)) := by
      rw [Session.answer, Engine.allowance_congr h.engine.maxSteps_eq, hruns'.eq]
    rw [hanswer, hanswer']
    exact ⟨hsessions, .reply (hreply.map fun _ _ hr => .committed hr)⟩
  | register | status | stats | attach => cases operates

omit hn in
/-- As long as every action that the first session undertakes is admitted, the sessions answer alike and tell alike,
call by call, and their engines stay related. -/
theorem Sessions.exchanges (patience depth : Nat) (h : L.Sessions s s') {calls : List (Call ω)}
    (operate : ∀ call ∈ calls, call.operates = true)
    (admitted : ∀ d ∈ s.undertakes react patience depth calls, L.Admits d.1 d.2) :
    List.Forall₂ L.Exchanges (s.exchanges react patience depth calls) (s'.exchanges react patience depth calls) := by
  obtain ⟨nested, hn, hperform⟩ := Session.perform_eq_answer react patience depth
  induction calls generalizing s s' with
  | nil => exact .nil
  | cons call calls ih =>
    rw [Session.undertakes] at admitted
    have hcleared : L.Sessions s.cleared s'.cleared := ⟨h.engine, h.audience, rfl⟩
    obtain ⟨hsessions, hanswer⟩ := hcleared.answer hp hn patience (operate call List.mem_cons_self)
      fun d hd => admitted d (List.mem_append_left _ hd)
    rw [← hperform, ← hperform] at hsessions hanswer
    exact .cons ⟨hanswer, hsessions.told, hsessions.engine⟩
      (ih hsessions (fun c hc => operate c (List.mem_cons_of_mem _ hc))
        fun d hd => admitted d (List.mem_append_right _ hd))

end Sessions

end Lockstep

end StackMachine
