import StackMachine.Proofs.Delivery

namespace StackMachine

namespace Session

variable {ω : Type}

/-- The moves made along a list, each of whose elements takes the session one step further. -/
def movesAlong {α : Type} (step : Session ω → α → Session ω) (moves : Session ω → α → List Move) :
    Session ω → List α → List Move
  | _, [] => []
  | s, x :: xs => moves s x ++ movesAlong step moves (step s x) xs

section Moves

variable (react : Reaction ω) (nested : Session ω → List (Call ω) → Session ω)
  (nestedMoves : Session ω → List (Call ω) → List Move)

def tellMoves (event : Event) (s : Session ω) (k : Nat) : List Move :=
  match s.observers[k]? with
  | none => []
  | some observer =>
    let (next, calls) := react observer event
    nestedMoves { s with observers := s.observers.set k next, told := s.told.push (k, event) } calls

def tellAllMoves (notice : Notice) (audience : List Nat) (s : Session ω) (event : Event) : List Move :=
  if s.engine.generation = notice.generation then
    movesAlong (tell react nested event) (tellMoves react nestedMoves event) s audience
  else []

def notifyMoves (s : Session ω) (notice : Notice) : List Move :=
  let audience := List.range s.observers.length
  movesAlong (tellAll react nested notice audience) (tellAllMoves react nested nestedMoves notice audience) s
    notice.events ++ [.settle]

/-- A move and what is made of it until everybody is told. -/
def carryOutMoves {α : Type} (move : Move) (s : Session ω) (effect : Effect α) : List Move :=
  match effect.notice with
  | none => [move]
  | some notice =>
    move :: notifyMoves react nested nestedMoves { s with engine := effect.engine, log := s.log ++ effect.log } notice

def runMoves (code : Bytes) (context : Context) (left taken : Nat) (s : Session ω) : List Move :=
  match context.reason? taken with
  | some _ => []
  | none =>
    match left with
    | 0 => if s.engine.isLimited then carryOutMoves react nested nestedMoves .spend s s.engine.spendLimit else []
    | left + 1 =>
      carryOutMoves react nested nestedMoves (.call (.step code)) s (s.engine.step code) ++
        match s.carryOut react nested (s.engine.step code) with
        | (_, .error _) => []
        | (s, .ok result) => if result.halted then [] else runMoves code context left (taken + 1) s

/-- The moves of a call, given those of the calls that observers make. -/
def answerMoves (patience : Nat) (s : Session ω) : Call ω → List Move
  | .command c => carryOutMoves react nested nestedMoves (.call c) s (s.engine.begin c)
  | .run code context => runMoves react nested nestedMoves code context (s.engine.allowance patience) 0 s
  | _ => []

end Moves

def performMoves (react : Reaction ω) (patience : Nat) : (depth : Nat) → Session ω → Call ω → List Move
  | 0, s, call => answerMoves react (fun s _ => s) (fun _ _ => []) patience s call
  | depth + 1, s, call =>
    answerMoves react (fun s calls => calls.foldl (respond react patience depth) s)
      (movesAlong (respond react patience depth) fun s call => performMoves react patience depth s call) patience s call

def converseMoves (react : Reaction ω) (patience depth : Nat) (s : Session ω) (calls : List (Call ω)) : List Move :=
  movesAlong (fun s call => (s.perform react patience depth call).1) (performMoves react patience depth) s calls

theorem converseMoves_cons (react : Reaction ω) (patience depth : Nat) (s : Session ω) (call : Call ω)
    (calls : List (Call ω)) :
    s.converseMoves react patience depth (call :: calls) =
      s.performMoves react patience depth call ++
        (s.perform react patience depth call).1.converseMoves react patience depth calls :=
  rfl

/-- The moves lead from one session to the other, inside any notices. -/
def MadeBy (s s' : Session ω) (moves : List Move) : Prop :=
  ∀ outer, (⟨s.engine, outer⟩ : Moment).after moves = ⟨s'.engine, outer⟩

theorem MadeBy.nil (s : Session ω) : s.MadeBy s [] := fun _ => rfl

theorem MadeBy.append {s s' s'' : Session ω} {first second : List Move} (h : s.MadeBy s' first)
    (h' : s'.MadeBy s'' second) : s.MadeBy s'' (first ++ second) := by
  intro outer
  rw [Moment.after_append, h outer, h' outer]

theorem madeBy_along {α : Type} {step : Session ω → α → Session ω} {moves : Session ω → α → List Move}
    (h : ∀ (s : Session ω) x, s.MadeBy (step s x) (moves s x)) (s : Session ω) (xs : List α) :
    s.MadeBy (xs.foldl step s) (movesAlong step moves s xs) := by
  induction xs generalizing s with
  | nil => exact .nil s
  | cons x xs ih => exact (h s x).append (ih (step s x))

section MadeBy

variable {react : Reaction ω} {nested : Session ω → List (Call ω) → Session ω}
  {nestedMoves : Session ω → List (Call ω) → List Move}
  (hnested : ∀ (s : Session ω) (calls : List (Call ω)), s.MadeBy (nested s calls) (nestedMoves s calls))

include hnested

theorem tell_madeBy (event : Event) (s : Session ω) (k : Nat) :
    s.MadeBy (s.tell react nested event k) (tellMoves react nestedMoves event s k) := by
  unfold tell tellMoves
  cases hk : s.observers[k]? with
  | none => exact .nil s
  | some observer =>
    -- the observer has its new state before it makes its calls, and that is no move
    let told : Session ω :=
      { s with observers := s.observers.set k (react observer event).1, told := s.told.push (k, event) }
    exact hnested told (react observer event).2

theorem tellAll_madeBy (notice : Notice) (audience : List Nat) (s : Session ω) (event : Event) :
    s.MadeBy (s.tellAll react nested notice audience event)
      (tellAllMoves react nested nestedMoves notice audience s event) := by
  unfold tellAll tellAllMoves
  split
  next => exact madeBy_along (tell_madeBy hnested event) s audience
  next => exact .nil s

theorem notify_madeBy (s : Session ω) (notice : Notice) (outer : List Notice) :
    (⟨s.engine, notice :: outer⟩ : Moment).after (notifyMoves react nested nestedMoves s notice) =
      ⟨(s.notify react nested notice).engine, outer⟩ := by
  let audience := List.range s.observers.length
  have hevents : s.MadeBy (notice.events.foldl (tellAll react nested notice audience) s) _ :=
    madeBy_along (tellAll_madeBy hnested notice audience) s notice.events
  rw [notifyMoves, Moment.after_append, hevents (notice :: outer), notify_eq]
  rfl

theorem carryOut_madeBy {α : Type} {move : Move} {s : Session ω} {effect : Effect α}
    (hmove : ∀ outer, (⟨s.engine, outer⟩ : Moment).next move = Moment.begun ⟨s.engine, outer⟩ effect) :
    s.MadeBy (s.carryOut react nested effect).1 (carryOutMoves react nested nestedMoves move s effect) := by
  intro outer
  have hbegun := hmove outer
  unfold carryOut carryOutMoves
  unfold Moment.begun at hbegun
  cases hn : effect.notice with
  | none =>
    rw [hn] at hbegun
    exact hbegun
  | some notice =>
    rw [hn] at hbegun
    dsimp only
    rw [Moment.after_cons, hbegun]
    exact notify_madeBy hnested { s with engine := effect.engine, log := s.log ++ effect.log } notice outer

theorem step_madeBy (code : Bytes) (s : Session ω) :
    s.MadeBy (s.carryOut react nested (s.engine.step code)).1
      (carryOutMoves react nested nestedMoves (.call (.step code)) s (s.engine.step code)) :=
  carryOut_madeBy hnested fun outer => Moment.next_step ⟨s.engine, outer⟩ code

theorem spend_madeBy (s : Session ω) :
    s.MadeBy (s.carryOut react nested s.engine.spendLimit).1
      (carryOutMoves react nested nestedMoves .spend s s.engine.spendLimit) :=
  carryOut_madeBy hnested fun _ => rfl

theorem Runs.madeBy {code : Bytes} {context : Context} {left taken : Nat} {s t : Session ω}
    {reply : Except Failure Result} (h : Runs react nested code context left taken s t reply) :
    s.MadeBy t (runMoves react nested nestedMoves code context left taken s) := by
  have hone : ∀ {s t : Session ω} {effect : Effect Result} {reply : Except Error Result} {moves : List Move},
      s.MadeBy (s.carryOut react nested effect).1 moves → s.carryOut react nested effect = (t, reply) →
      s.MadeBy t moves := by
    intro s t effect reply moves hmade hcarry
    rw [hcarry] at hmade
    exact hmade
  induction h with
  | ends h =>
    cases h with
    | interrupted done =>
      rw [runMoves.eq_def, done]
      exact .nil _
    | spent live limited hcarry =>
      rw [runMoves, live]
      simp only [limited, if_true]
      exact hone (spend_madeBy hnested _) hcarry
    | unfinished live unlimited =>
      rw [runMoves, live]
      simp only [unlimited, Bool.false_eq_true, if_false]
      exact .nil _
    | failed live hcarry =>
      rw [runMoves, live]
      simp only [hcarry, List.append_nil]
      exact hone (step_madeBy hnested code _) hcarry
    | halted live hcarry halts =>
      rw [runMoves, live]
      simp only [hcarry, halts, if_true, List.append_nil]
      exact hone (step_madeBy hnested code _) hcarry
  | onward live hcarry running _ ih =>
    rw [runMoves, live]
    simp only [hcarry, running, Bool.false_eq_true, if_false]
    exact (hone (step_madeBy hnested code _) hcarry).append ih

theorem answer_madeBy (patience : Nat) (s : Session ω) (call : Call ω) :
    s.MadeBy (s.answer react nested patience call).1 (answerMoves react nested nestedMoves patience s call) := by
  cases call with
  | command c => exact carryOut_madeBy hnested fun outer => rfl
  | run code context =>
    obtain ⟨t, reply, hruns, hanswer⟩ := answer_run react nested patience s code context
    rw [hanswer]
    exact hruns.madeBy hnested
  | register name => exact .nil s
  | status => exact .nil s
  | stats => exact .nil s
  | attach observer => exact fun outer => rfl

end MadeBy

/-- However deep the calls of observers nest, the moves of a call lead to where the call leads. -/
theorem perform_madeBy (react : Reaction ω) (patience depth : Nat) (s : Session ω) (call : Call ω) :
    s.MadeBy (s.perform react patience depth call).1 (performMoves react patience depth s call) := by
  induction depth generalizing s call with
  | zero => exact answer_madeBy (fun s _ => .nil s) patience s call
  | succ depth ih =>
    rw [perform_succ]
    have hrespond : ∀ (s : Session ω) call,
        s.MadeBy (s.respond react patience depth call) (performMoves react patience depth s call) :=
      fun s call outer => ih s call outer
    exact answer_madeBy (madeBy_along hrespond) patience s call

theorem performMoves_eq_answerMoves (react : Reaction ω) (patience depth : Nat) :
    ∃ (nested : Session ω → List (Call ω) → Session ω) (nestedMoves : Session ω → List (Call ω) → List Move),
      (∀ s call, perform react patience depth s call = s.answer react nested patience call) ∧
      ∀ s call, performMoves react patience depth s call = s.answerMoves react nested nestedMoves patience call := by
  cases depth with
  | zero => exact ⟨_, _, fun _ _ => rfl, fun _ _ => rfl⟩
  | succ depth => exact ⟨_, _, fun s call => by rw [perform_succ], fun _ _ => rfl⟩

theorem converse_eq_foldl (react : Reaction ω) (patience depth : Nat) (s : Session ω) (calls : List (Call ω)) :
    (s.converse react patience depth calls).1 =
      calls.foldl (fun s call => (s.perform react patience depth call).1) s := by
  induction calls generalizing s with
  | nil => rfl
  | cons call calls ih => exact ih (s.perform react patience depth call).1

theorem converse_madeBy (react : Reaction ω) (patience depth : Nat) (s : Session ω) (calls : List (Call ω)) :
    s.MadeBy (s.converse react patience depth calls).1 (s.converseMoves react patience depth calls) := by
  rw [converse_eq_foldl]
  exact madeBy_along (perform_madeBy react patience depth) s calls

end Session

end StackMachine
