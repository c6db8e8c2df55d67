import StackMachine.Proofs.TwoPhase

namespace StackMachine

namespace Engine

variable {e : Engine} {c : Command} {effect : Effect Reply}

theorem Begins.generation_eq (hb : e.Begins c effect) (hc : c ≠ .reset) :
    effect.engine.generation = e.generation := by
  cases hb with
  | refused | nothing | rejected | announced | executed | committed => rfl
  | reset => exact absurd rfl hc

theorem Begins.generation_le (hb : e.Begins c effect) : e.generation ≤ effect.engine.generation := by
  cases hb with
  | refused | nothing | rejected | announced | executed | committed => exact Nat.le_refl _
  | reset => exact Nat.le_succ _

theorem generation_spendLimit (e : Engine) : e.spendLimit.engine.generation = e.generation := by
  rw [spendLimit, reject_eq]
  rfl

theorem generation_settle (e : Engine) (generation : Nat) : (e.settle generation).generation = e.generation := by
  unfold settle
  split <;> rfl

end Engine

theorem Moment.generation_next {m : Moment} {move : Move} (hr : move ≠ .call .reset) :
    (m.next move).engine.generation = m.engine.generation := by
  cases move with
  | call c => exact (m.engine.begin_begins c).generation_eq fun h => hr (by rw [h])
  | spend => exact m.engine.generation_spendLimit
  | settle =>
    cases hn : m.notices with
    | nil => rw [next_settle_nil hn]
    | cons notice rest => rw [next_settle_cons hn]; exact m.engine.generation_settle notice.generation

/-- Observers that never ask for a reset. -/
def Reaction.Resetless {ω : Type} (react : Reaction ω) : Prop :=
  ∀ observer event, ∀ call ∈ (react observer event).2, .reset ∉ call.commands

namespace Session

variable {ω : Type} {react : Reaction ω} {nested : Session ω → List (Call ω) → Session ω}

theorem generation_answer {patience : Nat} {s : Session ω} {call : Call ω} (hc : .reset ∉ call.commands)
    (hnested : ∀ (t : Session ω) (observer : ω) (event : Event),
      (nested t (react observer event).2).engine.generation = t.engine.generation) :
    (s.answer react nested patience call).1.engine.generation = s.engine.generation := by
  let P : Moment → Prop := fun m => m.engine.generation = s.engine.generation
  have hmove : ∀ move, move ≠ .call .reset → ∀ m, P m → P (m.next move) :=
    fun move hne m hm => (Moment.generation_next hne).trans hm
  have hanswer : P ⟨(s.answer react nested patience call).1.engine, []⟩ := by
    apply answer_keeps
    · intro c hmem
      apply hmove
      rintro ⟨⟩
      exact hc hmem
    · exact hmove .spend (by simp)
    · exact hmove .settle (by simp)
    · exact fun t observer event _ ht => (hnested t observer event).trans ht
    · rfl
  exact hanswer

theorem generation_perform (hreact : react.Resetless) (patience depth : Nat) {s : Session ω} {call : Call ω}
    (hc : .reset ∉ call.commands) :
    (s.perform react patience depth call).1.engine.generation = s.engine.generation := by
  -- on the depth: the calls of an observer are one level deeper, and none of them is a reset either
  induction depth generalizing s call with
  | zero => exact generation_answer hc fun _ _ _ => rfl
  | succ depth ih =>
    apply generation_answer hc
    intro t observer event
    apply List.foldlRecOn (motive := fun t' : Session ω => t'.engine.generation = t.engine.generation)
    · rfl
    · intro t' ht' call hmem
      exact (ih (hreact observer event call hmem)).trans ht'

theorem generation_converse (hreact : react.Resetless) (patience depth : Nat) {s : Session ω} {calls : List (Call ω)}
    (hc : ∀ call ∈ calls, .reset ∉ call.commands) :
    (s.converse react patience depth calls).1.engine.generation = s.engine.generation := by
  induction calls generalizing s with
  | nil => rfl
  | cons call calls ih =>
    have hfirst := generation_perform hreact patience depth (s := s) (hc call (by simp))
    exact (ih fun call' hmem => hc call' (by simp [hmem])).trans hfirst

/-- Answers a call of an observer and keeps the answer. -/
def respond (react : Reaction ω) (patience depth : Nat) (s : Session ω) (call : Call ω) : Session ω :=
  let (s, a) := s.perform react patience depth call
  { s with answers := s.answers.push a }

theorem perform_succ (react : Reaction ω) (patience depth : Nat) (s : Session ω) (call : Call ω) :
    s.perform react patience (depth + 1) call =
      s.answer react (fun s calls => calls.foldl (respond react patience depth) s) patience call := rfl

/-- Tells an audience of one event of a notice, unless the engine was reset since the notice began. -/
def tellAll (react : Reaction ω) (nested : Session ω → List (Call ω) → Session ω) (notice : Notice)
    (audience : List Nat) (s : Session ω) (event : Event) : Session ω :=
  if s.engine.generation = notice.generation then audience.foldl (tell react nested event) s else s

theorem notify_eq (react : Reaction ω) (nested : Session ω → List (Call ω) → Session ω) (s : Session ω)
    (notice : Notice) :
    s.notify react nested notice =
      let told := notice.events.foldl (tellAll react nested notice (List.range s.observers.length)) s
      { told with engine := told.engine.settle notice.generation } := rfl

/-- A later session: resets are not taken back and observers do not leave. -/
structure Continues (s s' : Session ω) : Prop where
  generation_le : s.engine.generation ≤ s'.engine.generation
  observers_le : s.observers.length ≤ s'.observers.length

theorem Continues.refl (s : Session ω) : s.Continues s := ⟨Nat.le_refl _, Nat.le_refl _⟩

theorem Continues.trans {s s' s'' : Session ω} (h : s.Continues s') (h' : s'.Continues s'') : s.Continues s'' :=
  ⟨Nat.le_trans h.generation_le h'.generation_le, Nat.le_trans h.observers_le h'.observers_le⟩

theorem Continues.respond {patience depth : Nat} {s : Session ω} {call : Call ω}
    (h : s.Continues (s.perform react patience depth call).1) : s.Continues (s.respond react patience depth call) :=
  ⟨h.generation_le, h.observers_le⟩

theorem foldl_continues {α : Type} {f : Session ω → α → Session ω} (h : ∀ (s : Session ω) x, s.Continues (f s x))
    (s : Session ω) (xs : List α) : s.Continues (xs.foldl f s) := by
  induction xs generalizing s with
  | nil => exact .refl s
  | cons x xs ih => exact (h s x).trans (ih (f s x))

section Continues

variable (hnested : ∀ (s : Session ω) (calls : List (Call ω)), s.Continues (nested s calls))

include hnested

theorem tell_continues (event : Event) (s : Session ω) (k : Nat) : s.Continues (s.tell react nested event k) := by
  unfold tell
  split
  next => exact .refl s
  next observer _ =>
    refine .trans ?_ (hnested _ (react observer event).2)
    exact ⟨Nat.le_refl _, by simp⟩

theorem tellAll_continues (notice : Notice) (audience : List Nat) (s : Session ω) (event : Event) :
    s.Continues (s.tellAll react nested notice audience event) := by
  unfold tellAll
  split
  next => exact foldl_continues (tell_continues hnested event) s audience
  next => exact .refl s

theorem notify_continues (s : Session ω) (notice : Notice) : s.Continues (s.notify react nested notice) := by
  rw [notify_eq]
  refine (foldl_continues (tellAll_continues hnested notice _) s notice.events).trans ⟨?_, Nat.le_refl _⟩
  exact Nat.le_of_eq (Engine.generation_settle _ _).symm

theorem carryOut_continues {α : Type} {s : Session ω} {effect : Effect α}
    (hle : s.engine.generation ≤ effect.engine.generation) : s.Continues (s.carryOut react nested effect).1 := by
  have hbegun : s.Continues { s with engine := effect.engine, log := s.log ++ effect.log } := ⟨hle, Nat.le_refl _⟩
  unfold carryOut
  split
  next => exact hbegun
  next notice _ => exact hbegun.trans (notify_continues hnested _ notice)

theorem Runs.continues {code : Bytes} {context : Context} {left taken : Nat} {s t : Session ω}
    {reply : Except Failure Result} (h : Runs react nested code context left taken s t reply) : s.Continues t :=
  h.chain .refl .trans
    (fun s => carryOut_continues hnested (Nat.le_of_eq s.engine.generation_spendLimit.symm))
    (fun _ s => carryOut_continues hnested (s.engine.begins_step code).generation_le)

theorem answer_continues (patience : Nat) (s : Session ω) (call : Call ω) :
    s.Continues (s.answer react nested patience call).1 := by
  cases call with
  | command c => exact carryOut_continues hnested (s.engine.begin_begins c).generation_le
  | run code context =>
    obtain ⟨t, reply, hruns, hanswer⟩ := answer_run react nested patience s code context
    rw [hanswer]
    exact hruns.continues hnested
  | register name => exact .refl s
  | status => exact .refl s
  | stats => exact .refl s
  | attach observer => exact ⟨Nat.le_refl _, by simp [answer]⟩

end Continues

theorem perform_continues (react : Reaction ω) (patience depth : Nat) (s : Session ω) (call : Call ω) :
    s.Continues (s.perform react patience depth call).1 := by
  induction depth generalizing s call with
  | zero => exact answer_continues (fun s _ => .refl s) patience s call
  | succ depth ih =>
    rw [perform_succ]
    exact answer_continues (foldl_continues fun s call => (ih s call).respond) patience s call

theorem converse_continues (react : Reaction ω) (patience depth : Nat) (s : Session ω) (calls : List (Call ω)) :
    s.Continues (s.converse react patience depth calls).1 := by
  induction calls generalizing s with
  | nil => exact .refl s
  | cons call calls ih => exact (perform_continues react patience depth s call).trans (ih _)

/-- Only the counters of the engine may have moved, and this is what was told meanwhile. -/
def Delivers (s s' : Session ω) (news : List (Nat × Event)) : Prop :=
  s.engine.Unmoved s'.engine ∧ s'.told = s.told ++ news

theorem Undisturbed.delivers {s s' : Session ω} (h : s.Undisturbed s') : s.Delivers s' [] :=
  ⟨h.1, by rw [h.2]; simp⟩

theorem Delivers.trans {s s' s'' : Session ω} {news later : List (Nat × Event)} (h : s.Delivers s' news)
    (h' : s'.Delivers s'' later) : s.Delivers s'' (news ++ later) := by
  refine ⟨h.1.trans h'.1, ?_⟩
  rw [h'.2, h.2]
  apply Array.toList_inj.mp
  simp

/-- Deliveries one after the other, as long as nobody resets the engine. -/
theorem foldl_delivers {α : Type} {f : Session ω → α → Session ω} {news : α → List (Nat × Event)} {xs : List α}
    {s : Session ω} (hcontinues : ∀ (s : Session ω) x, s.Continues (f s x))
    (hstep : ∀ x ∈ xs, ∀ t : Session ω, t.engine.busy = true → t.engine.generation = s.engine.generation →
      s.observers.length ≤ t.observers.length → (f t x).engine.generation = t.engine.generation →
      t.Delivers (f t x) (news x))
    (busy : s.engine.busy = true) (unreset : (xs.foldl f s).engine.generation = s.engine.generation) :
    s.Delivers (xs.foldl f s) (xs.flatMap news) := by
  induction xs generalizing s with
  | nil => exact ⟨rfl, by simp⟩
  | cons x xs ih =>
    rw [List.foldl_cons] at unreset ⊢
    have hfirst := hcontinues s x
    have hmid : (f s x).engine.generation = s.engine.generation := by
      have := hfirst.generation_le
      have := (foldl_continues hcontinues (f s x) xs).generation_le
      omega
    have hx := hstep x (by simp) s busy rfl (Nat.le_refl _) hmid
    have hbusy : (f s x).engine.busy = true := by
      rw [hx.1]
      exact busy
    have hrest := ih (s := f s x) (fun y hy t ht hg hle => hstep y (by simp [hy]) t ht (hg.trans hmid)
      (Nat.le_trans hfirst.observers_le hle)) hbusy (unreset.trans hmid.symm)
    exact hx.trans hrest

/-- A way to carry out the calls of observers that tells nobody of anything and leaves a busy engine as it is, unless it
resets the engine. -/
structure Orderly (nested : Session ω → List (Call ω) → Session ω) : Prop where
  continues : ∀ (s : Session ω) (calls : List (Call ω)), s.Continues (nested s calls)
  delivers : ∀ (s : Session ω) (calls : List (Call ω)), s.engine.busy = true →
    (nested s calls).engine.generation = s.engine.generation → s.Delivers (nested s calls) []

theorem generation_perform_reset (react : Reaction ω) (patience depth : Nat) {s : Session ω} {call : Call ω}
    (hc : .reset ∈ call.commands) :
    (s.perform react patience depth call).1.engine.generation = s.engine.generation + 1 := by
  obtain ⟨nested, _, hperform⟩ := perform_eq_answer react patience depth
  rw [hperform]
  cases call with
  | command c =>
    obtain rfl : Command.reset = c := by simpa [Call.commands] using hc
    rfl
  | run code context => cases context <;> simp [Call.commands] at hc
  | register name => simp [Call.commands] at hc
  | status => simp [Call.commands] at hc
  | stats => simp [Call.commands] at hc
  | attach observer => simp [Call.commands] at hc

theorem perform_undisturbed (react : Reaction ω) (patience depth : Nat) {s : Session ω} {call : Call ω}
    (busy : s.engine.busy = true)
    (unreset : (s.perform react patience depth call).1.engine.generation = s.engine.generation) :
    s.Undisturbed (s.perform react patience depth call).1 := by
  by_cases hc : .reset ∈ call.commands
  · rw [generation_perform_reset react patience depth hc] at unreset
    omega
  · exact (perform_busy react patience depth busy hc).1

/-- However deep they nest, the calls of observers are carried out in an orderly way. -/
theorem perform_orderly (react : Reaction ω) (patience depth : Nat) :
    ∃ nested : Session ω → List (Call ω) → Session ω, Orderly nested ∧
      ∀ s call, perform react patience depth s call = s.answer react nested patience call := by
  cases depth with
  | zero => exact ⟨fun s _ => s, ⟨fun s _ => .refl s, fun _ _ _ _ => ⟨rfl, by simp⟩⟩, fun _ _ => rfl⟩
  | succ depth =>
    have hrespond : ∀ (s : Session ω) call, s.Continues (s.respond react patience depth call) :=
      fun s call => (perform_continues react patience depth s call).respond
    refine ⟨_, ⟨foldl_continues hrespond, ?_⟩, perform_succ react patience depth⟩
    intro s calls busy unreset
    have hcalls : s.Delivers (calls.foldl (respond react patience depth) s) (calls.flatMap fun _ => []) := by
      refine foldl_delivers hrespond ?_ busy unreset
      intro call _ t hbusy _ _ hsame
      exact (perform_undisturbed react patience depth hbusy hsame).delivers
    rwa [List.flatMap_eq_nil_iff.mpr fun _ _ => rfl] at hcalls

/-- The session after a call of which everybody was told, and which nobody interfered with but in the counters. -/
structure Settles {α : Type} (s s' : Session ω) (done : Outcome α) : Prop where
  unmoved : done.engine.Unmoved s'.engine
  told_eq : s'.told = s.told ++ broadcast s.observers.length done.events
  observers_le : s.observers.length ≤ s'.observers.length

section Delivers

variable (hn : Orderly nested) {s : Session ω}

include hn

theorem tell_delivers {event : Event} {k : Nat} (busy : s.engine.busy = true) (there : k < s.observers.length)
    (unreset : (s.tell react nested event k).engine.generation = s.engine.generation) :
    s.Delivers (s.tell react nested event k) [(k, event)] := by
  have hk : s.observers[k]? = some s.observers[k] := List.getElem?_eq_getElem there
  let told : Session ω :=
    { s with
      observers := s.observers.set k (react s.observers[k] event).1
      told := s.told.push (k, event) }
  have htell : s.tell react nested event k = nested told (react s.observers[k] event).2 := by
    simp only [tell, hk, told]
  rw [htell] at unreset ⊢
  have hone : s.Delivers told [(k, event)] := ⟨rfl, by simp [told]⟩
  exact hone.trans (hn.delivers told _ busy unreset)

theorem notify_delivers {notice : Notice} (busy : s.engine.busy = true)
    (current : notice.generation = s.engine.generation)
    (unreset : (s.notify react nested notice).engine.generation = s.engine.generation) :
    (s.notify react nested notice).engine =
        { s.engine with busy := false, stats := (s.notify react nested notice).engine.stats } ∧
      (s.notify react nested notice).told = s.told ++ broadcast s.observers.length notice.events := by
  rw [notify_eq] at unreset ⊢
  dsimp only at unreset ⊢
  generalize htold : notice.events.foldl (tellAll react nested notice (List.range s.observers.length)) s = told
    at unreset ⊢
  have hsame : told.engine.generation = s.engine.generation := by
    rw [← unreset, Engine.generation_settle]
  have hall : s.Delivers told (broadcast s.observers.length notice.events) := by
    subst htold
    refine foldl_delivers (tellAll_continues hn.continues notice _) ?_ busy hsame
    intro event _ t hbusy hg hle hunreset
    rw [tellAll, if_pos (hg.trans current.symm)] at hunreset ⊢
    rw [List.map_eq_flatMap]
    refine foldl_delivers (tell_continues hn.continues event) ?_ hbusy hunreset
    intro k hk t' hbusy' _ hle' hunreset'
    have hlt := List.mem_range.mp hk
    exact tell_delivers hn hbusy' (by omega) hunreset'
  refine ⟨?_, hall.2⟩
  have hsettle : told.engine.settle notice.generation = { told.engine with busy := false } :=
    if_pos (hsame.trans current.symm)
  rw [hsettle, hall.1]

/-- A call that nobody resets the engine during comes to its end. -/
theorem carryOut_settles {α : Type} {effect : Effect α}
    (current : ∀ notice, effect.notice = some notice →
      notice.generation = effect.engine.generation ∧ effect.engine.busy = true)
    (started : effect.engine.generation = s.engine.generation)
    (unreset : (s.carryOut react nested effect).1.engine.generation = s.engine.generation) :
    s.Settles (s.carryOut react nested effect).1 effect.settled := by
  have hcontinues : s.Continues (s.carryOut react nested effect).1 :=
    carryOut_continues hn.continues (Nat.le_of_eq started.symm)
  have hle := hcontinues.observers_le
  unfold carryOut at unreset hle ⊢
  unfold Effect.settled
  cases h : effect.notice with
  | none => exact ⟨rfl, by simp [broadcast], Nat.le_refl _⟩
  | some notice =>
    obtain ⟨hgeneration, hbusy⟩ := current notice h
    rw [h] at unreset hle
    dsimp only at unreset hle ⊢
    obtain ⟨he, ht⟩ := notify_delivers hn (s := { s with engine := effect.engine, log := s.log ++ effect.log })
      hbusy hgeneration (unreset.trans started.symm)
    have hsettle : effect.engine.settle notice.generation = { effect.engine with busy := false } :=
      if_pos hgeneration.symm
    refine ⟨?_, ht, hle⟩
    rw [hsettle]
    exact he

theorem carryOut_begin_settles {c : Command}
    (unreset : (s.carryOut react nested (s.engine.begin c)).1.engine.generation = s.engine.generation) :
    c ≠ .reset ∧ s.Settles (s.carryOut react nested (s.engine.begin c)).1 (s.engine.perform c) := by
  have hb := s.engine.begin_begins c
  have hc : c ≠ .reset := by
    rintro rfl
    have hgeneration : (s.carryOut react nested (s.engine.begin .reset)).1.engine.generation =
        s.engine.generation + 1 := rfl
    omega
  exact ⟨hc, carryOut_settles hn (fun _ => hb.notice_current) (hb.generation_eq hc) unreset⟩

theorem carryOut_spendLimit_settles
    (unreset : (s.carryOut react nested s.engine.spendLimit).1.engine.generation = s.engine.generation) :
    s.Settles (s.carryOut react nested s.engine.spendLimit).1 s.engine.spendLimit.settled :=
  carryOut_settles hn (fun _ => Engine.spendLimit_notice_current) s.engine.generation_spendLimit unreset

section Keeps

variable {P : Session ω → Prop}
  (hcommand : ∀ (t t' : Session ω) (c : Command), c ≠ .reset → t.Settles t' (t.engine.perform c) → P t → P t')
  (hspend : ∀ t t' : Session ω, t.Settles t' t.engine.spendLimit.settled → P t → P t')

include hcommand hspend

theorem Runs.unreset {code : Bytes} {context : Context} {left taken : Nat} {t : Session ω}
    {reply : Except Failure Result} (hruns : Runs react nested code context left taken s t reply)
    (unreset : t.engine.generation = s.engine.generation) (h : P s) : P t := by
  -- generations never fall, so with none between the ends there was none between any two steps
  have hchain : s.Continues t ∧ (t.engine.generation = s.engine.generation → P s → P t) := by
    refine hruns.chain (R := fun s t => s.Continues t ∧ (t.engine.generation = s.engine.generation → P s → P t))
      (fun s => ⟨.refl s, fun _ => id⟩) ?_ ?_ ?_
    · rintro s t u ⟨hst, hfirst⟩ ⟨htu, hsecond⟩
      refine ⟨hst.trans htu, fun hsame hs => ?_⟩
      have hle := hst.generation_le
      have hle' := htu.generation_le
      exact hsecond (by omega) (hfirst (by omega) hs)
    · intro s
      refine ⟨carryOut_continues hn.continues (Nat.le_of_eq s.engine.generation_spendLimit.symm), fun hsame hs => ?_⟩
      exact hspend s _ (carryOut_spendLimit_settles hn hsame) hs
    · intro _ s
      refine ⟨carryOut_continues hn.continues (s.engine.begins_step code).generation_le, fun hsame hs => ?_⟩
      have hbegin : (s.carryOut react nested (s.engine.begin (.step code))).1 =
          (s.carryOut react nested (s.engine.step code)).1 :=
        carryOut_map react nested s Reply.committed (s.engine.step code)
      rw [← hbegin] at hsame ⊢
      obtain ⟨hc, hsettles⟩ := carryOut_begin_settles hn hsame
      exact hcommand s _ _ hc hsettles hs
  exact hchain.2 unreset h

end Keeps

end Delivers

theorem perform_command_reply (react : Reaction ω) (patience depth : Nat) (s : Session ω) (c : Command) :
    (s.perform react patience depth (.command c)).2 = .reply ((s.engine.begin c).reply.mapError .engine) := by
  obtain ⟨nested, _, hperform⟩ := perform_eq_answer react patience depth
  rw [hperform]
  simp only [answer]
  rw [carryOut_reply]

theorem reply_of_perform_ok {patience depth : Nat} {s : Session ω} {c : Command} {reply : Reply}
    (h : (s.perform react patience depth (.command c)).2 = .reply (.ok reply)) :
    (s.engine.begin c).reply = .ok reply := by
  rw [perform_command_reply] at h
  cases hr : (s.engine.begin c).reply with
  | error error =>
    rw [hr] at h
    cases h
  | ok reply' =>
    rw [hr] at h
    cases h
    rfl

theorem perform_command_settles {patience depth : Nat} {s : Session ω} {c : Command}
    (unreset : (s.perform react patience depth (.command c)).1.engine.generation = s.engine.generation) :
    c ≠ .reset ∧ s.Settles (s.perform react patience depth (.command c)).1 (s.engine.perform c) := by
  obtain ⟨nested, hn, hperform⟩ := perform_orderly react patience depth
  rw [hperform] at unreset ⊢
  exact carryOut_begin_settles hn unreset

section Unreset

variable {P : Session ω → Prop}
  (hcommand : ∀ (t t' : Session ω) (c : Command), c ≠ .reset → t.Settles t' (t.engine.perform c) → P t → P t')
  (hspend : ∀ t t' : Session ω, t.Settles t' t.engine.spendLimit.settled → P t → P t')
  (hattach : ∀ (t : Session ω) (observer : ω), P t → P { t with observers := t.observers ++ [observer] })
  {patience depth : Nat} {s : Session ω}

include hcommand hspend hattach

/-- What commands keep, and runs that give up, is kept by all calls as long as nobody resets the engine. -/
theorem perform_unreset {call : Call ω}
    (unreset : (s.perform react patience depth call).1.engine.generation = s.engine.generation) (h : P s) :
    P (s.perform react patience depth call).1 := by
  obtain ⟨nested, hn, hperform⟩ := perform_orderly react patience depth
  rw [hperform] at unreset ⊢
  cases call with
  | command c =>
    obtain ⟨hc, hsettles⟩ := carryOut_begin_settles hn unreset
    exact hcommand s _ c hc hsettles h
  | run code context =>
    obtain ⟨t, reply, hruns, hanswer⟩ := answer_run react nested patience s code context
    rw [hanswer] at unreset ⊢
    exact hruns.unreset hn hcommand hspend unreset h
  | register name => exact h
  | status => exact h
  | stats => exact h
  | attach observer => exact hattach s observer h

theorem converse_unreset {calls : List (Call ω)}
    (unreset : (s.converse react patience depth calls).1.engine.generation = s.engine.generation) (h : P s) :
    P (s.converse react patience depth calls).1 := by
  induction calls generalizing s with
  | nil => exact h
  | cons call calls ih =>
    have hfirst := (perform_continues react patience depth s call).generation_le
    have hrest := (converse_continues react patience depth (s.perform react patience depth call).1 calls).generation_le
    have hdone : (s.converse react patience depth (call :: calls)).1 =
        ((s.perform react patience depth call).1.converse react patience depth calls).1 := rfl
    rw [hdone] at unreset ⊢
    have hsame : (s.perform react patience depth call).1.engine.generation = s.engine.generation := by omega
    exact ih (unreset.trans hsame.symm) (perform_unreset hcommand hspend hattach hsame h)

end Unreset

end Session

end StackMachine
