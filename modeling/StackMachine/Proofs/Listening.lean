import StackMachine.Proofs.History

namespace StackMachine

variable {ω : Type}

def Reaction.Passive (react : Reaction ω) : Prop := ∀ observer event, (react observer event).2 = []

/-- What is told of some events to a number of observers. -/
def broadcast (audience : Nat) (events : List Event) : List (Nat × Event) :=
  events.flatMap fun event => (List.range audience).map fun k => (k, event)

namespace Session

def informed (react : Reaction ω) (observers : List ω) (events : List Event) : List ω :=
  observers.map fun observer => events.foldl (fun observer event => (react observer event).1) observer

/-- The session after a finished call that nobody interfered with. -/
def listened {α : Type} (react : Reaction ω) (s : Session ω) (done : Outcome α) : Session ω :=
  { s with
    engine := done.engine
    observers := informed react s.observers done.events
    told := s.told ++ broadcast s.observers.length done.events
    log := s.log ++ done.log }

/-- The session after all that was told and logged while a call ran. -/
def advanced (react : Reaction ω) (s : Session ω) (p : Progress) : Session ω :=
  { s with
    engine := p.engine
    observers := informed react s.observers p.events.toList
    told := s.told ++ broadcast s.observers.length p.events.toList
    log := s.log ++ p.log }

section Passive

variable {react : Reaction ω} {nested : Session ω → List (Call ω) → Session ω}

theorem informed_nil (observers : List ω) : informed react observers [] = observers := by
  simp [informed]

theorem informed_cons (observers : List ω) (event : Event) (events : List Event) :
    informed react observers (event :: events) = informed react (informed react observers [event]) events := by
  simp [informed]

theorem length_informed (observers : List ω) (events : List Event) :
    (informed react observers events).length = observers.length := by
  simp [informed]

theorem tell_passive (hp : react.Passive) (hn : ∀ s, nested s [] = s) {event : Event} {s : Session ω} {k : Nat}
    {observer : ω} (hk : s.observers[k]? = some observer) :
    s.tell react nested event k =
      { s with observers := s.observers.set k (react observer event).1, told := s.told.push (k, event) } := by
  unfold tell
  rw [hk]
  dsimp only
  rw [hp observer event, hn]

/-- One event, told to the first observers of all. -/
theorem tell_first (hp : react.Passive) (hn : ∀ s, nested s [] = s) (event : Event) (s : Session ω) {n : Nat}
    (hle : n ≤ s.observers.length) :
    (List.range n).foldl (tell react nested event) s =
      { s with
        observers := informed react (s.observers.take n) [event] ++ s.observers.drop n
        told := s.told ++ (List.range n).map fun k => (k, event) } := by
  induction n with
  | zero => simp [informed]
  | succ n ih =>
    -- the first n observers have their new state, and the next one still has its old one
    have hlt : n < s.observers.length := by omega
    have hfront : (informed react (s.observers.take n) [event]).length = n := by
      rw [length_informed, List.length_take]
      omega
    have hback : s.observers.drop n = s.observers[n] :: s.observers.drop (n + 1) := List.drop_eq_getElem_cons hlt
    rw [List.range_succ, List.foldl_append, ih (by omega), List.foldl_cons, List.foldl_nil, hback]
    have hk : (informed react (s.observers.take n) [event] ++ s.observers[n] :: s.observers.drop (n + 1))[n]? =
        some s.observers[n] := by
      rw [List.getElem?_append_right (by omega), hfront, Nat.sub_self]
      rfl
    have htold : (s.told ++ (List.range n).map fun k => (k, event)).push (n, event) =
        s.told ++ (List.range n ++ [n]).map fun k => (k, event) := by
      apply Array.toList_inj.mp
      simp
    rw [tell_passive hp hn hk, htold, List.set_append_right _ _ (by omega), hfront, Nat.sub_self, List.set_cons_zero,
      (List.take_append_getElem hlt).symm]
    simp only [informed, List.map_append, List.map_cons, List.map_nil, List.foldl_cons, List.foldl_nil,
      List.append_assoc, List.cons_append, List.nil_append]

theorem tell_everyone (hp : react.Passive) (hn : ∀ s, nested s [] = s) (event : Event) (s : Session ω) :
    (List.range s.observers.length).foldl (tell react nested event) s =
      { s with
        observers := informed react s.observers [event]
        told := s.told ++ broadcast s.observers.length [event] } := by
  rw [tell_first hp hn event s (Nat.le_refl _)]
  simp [broadcast]

/-- Some events, told to everyone while nobody resets the engine. -/
theorem tell_events (hp : react.Passive) (hn : ∀ s, nested s [] = s) {generation : Nat} (events : List Event)
    {s : Session ω} (hg : s.engine.generation = generation) :
    events.foldl (fun t event => if t.engine.generation = generation then
        (List.range s.observers.length).foldl (tell react nested event) t else t) s =
      { s with
        observers := informed react s.observers events
        told := s.told ++ broadcast s.observers.length events } := by
  induction events generalizing s with
  | nil => simp [informed_nil, broadcast]
  | cons event events ih =>
    let next : Session ω :=
      { s with
        observers := informed react s.observers [event]
        told := s.told ++ broadcast s.observers.length [event] }
    have hlength : next.observers.length = s.observers.length := length_informed s.observers [event]
    have hnext := ih (show next.engine.generation = generation from hg)
    rw [hlength] at hnext
    have htold : next.told ++ broadcast s.observers.length events =
        s.told ++ broadcast s.observers.length (event :: events) := by
      apply Array.toList_inj.mp
      simp [next, broadcast]
    rw [List.foldl_cons, if_pos hg, tell_everyone hp hn, hnext, htold, informed_cons s.observers]

theorem notify_passive (hp : react.Passive) (hn : ∀ s, nested s [] = s) {notice : Notice} {s : Session ω}
    (hg : s.engine.generation = notice.generation) :
    s.notify react nested notice =
      { s with
        engine := s.engine.settle notice.generation
        observers := informed react s.observers notice.events
        told := s.told ++ broadcast s.observers.length notice.events } := by
  unfold notify
  dsimp only
  rw [tell_events hp hn notice.events hg]

theorem carryOut_passive {α : Type} (hp : react.Passive) (hn : ∀ s, nested s [] = s) (s : Session ω)
    {effect : Effect α}
    (hg : ∀ notice, effect.notice = some notice → notice.generation = effect.engine.generation) :
    s.carryOut react nested effect = (s.listened react effect.settled, effect.reply) := by
  unfold carryOut Effect.settled
  cases h : effect.notice with
  | none => simp [listened, broadcast, informed_nil]
  | some notice =>
    dsimp only
    rw [notify_passive hp hn]
    · rfl
    · exact (hg notice h).symm

theorem carryOut_step_passive (hp : react.Passive) (hn : ∀ s, nested s [] = s) (s : Session ω) (code : Bytes) :
    s.carryOut react nested (s.engine.step code) =
      (s.listened react (s.engine.step code).settled, (s.engine.step code).reply) :=
  carryOut_passive hp hn s fun _ hnotice => (Engine.step_notice_current hnotice).1

theorem carryOut_spend_passive (hp : react.Passive) (hn : ∀ s, nested s [] = s) (s : Session ω) :
    s.carryOut react nested s.engine.spendLimit =
      (s.listened react s.engine.spendLimit.settled, s.engine.spendLimit.reply) :=
  carryOut_passive hp hn s fun _ hnotice => (Engine.spendLimit_notice_current hnotice).1

theorem answer_command_passive (hp : react.Passive) (hn : ∀ s, nested s [] = s) (patience : Nat) (s : Session ω)
    (c : Command) :
    s.answer react nested patience (.command c) =
      (s.listened react (s.engine.perform c), .reply ((s.engine.begin c).reply.mapError .engine)) := by
  have hg : ∀ notice, (s.engine.begin c).notice = some notice →
      notice.generation = (s.engine.begin c).engine.generation :=
    fun notice hnotice => ((s.engine.begin_begins c).notice_current hnotice).1
  have hanswer : s.answer react nested patience (.command c) =
      ((s.carryOut react nested (s.engine.begin c)).1,
        .reply ((s.carryOut react nested (s.engine.begin c)).2.mapError .engine)) := rfl
  rw [hanswer, carryOut_passive hp hn s hg]
  rfl

theorem perform_command_passive (hp : react.Passive) (patience depth : Nat) (s : Session ω) (c : Command) :
    s.perform react patience depth (.command c) =
      (s.listened react (s.engine.perform c), .reply ((s.engine.begin c).reply.mapError .engine)) := by
  obtain ⟨nested, hn, hperform⟩ := perform_eq_answer react patience depth
  rw [hperform, answer_command_passive hp hn]

theorem advanced_engine (s : Session ω) (p : Progress) : (s.advanced react p).engine = p.engine := rfl

/-- What is carried out on a session that listens is carried out on the engine alone. -/
theorem carryOut_advanced {α : Type} (hp : react.Passive) (hn : ∀ s, nested s [] = s) (s : Session ω) (p : Progress)
    {effect : Effect α}
    (hg : ∀ notice, effect.notice = some notice → notice.generation = effect.engine.generation) :
    (s.advanced react p).carryOut react nested effect = (p.carryOut effect).map (s.advanced react) id := by
  have hobservers : informed react (informed react s.observers p.events.toList) effect.settled.events =
      informed react s.observers (p.events.toList ++ effect.settled.events) := by
    simp [informed]
  have htold : s.told ++ broadcast s.observers.length p.events.toList ++
        broadcast s.observers.length effect.settled.events =
      s.told ++ broadcast s.observers.length (p.events.toList ++ effect.settled.events) := by
    apply Array.toList_inj.mp
    simp [broadcast]
  have hlog : s.log ++ p.log ++ effect.settled.log = s.log ++ (p.log ++ effect.settled.log) := by
    apply Array.toList_inj.mp
    simp
  rw [carryOut_passive hp hn _ hg, ← effect.settled_reply]
  simp only [Progress.carryOut, Prod.map_apply, id_eq, listened, advanced, length_informed, hobservers, htold, hlog,
    Array.toList_appendList]

/-- While observers only listen, a run of the session is the run of its engine. -/
theorem perform_run_passive (hp : react.Passive) (patience depth : Nat) (s : Session ω) (code : Bytes)
    (context : Context) :
    let run := s.engine.run patience context code
    s.perform react patience depth (.run code context) =
      (s.advanced react run.toProgress, .reply (run.reply.map .committed)) := by
  obtain ⟨nested, hn, hperform⟩ := perform_eq_answer react patience depth
  obtain ⟨p, reply, hruns⟩ := runsTo_runLoop Progress.engine Progress.carryOut code context
    (s.engine.allowance patience) 0 { engine := s.engine }
  have hstart : s = s.advanced react { engine := s.engine } := by simp [advanced, broadcast, informed_nil]
  have hsession : ∃ t, Runs react nested code context (s.engine.allowance patience) 0 s t reply ∧
      t = s.advanced react p := by
    refine hruns.related (R := fun p t => t = s.advanced react p) ?_ ?_ ?_ hstart
    · rintro p _ rfl
      rfl
    · rintro p _ rfl
      rw [advanced_engine, carryOut_advanced hp hn s p fun _ hnotice => (Engine.spendLimit_notice_current hnotice).1]
      exact ⟨rfl, rfl⟩
    · rintro p _ rfl
      rw [advanced_engine, carryOut_advanced hp hn s p fun _ hnotice => (Engine.step_notice_current hnotice).1]
      exact ⟨rfl, rfl⟩
  obtain ⟨_, hsession, rfl⟩ := hsession
  rw [hperform, answer, hsession.eq, Engine.run_eq hruns]

end Passive

end Session

end StackMachine
