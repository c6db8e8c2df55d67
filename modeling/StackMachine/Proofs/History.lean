import Mathlib.Data.List.Forall2
import StackMachine.Proofs.Begin
import StackMachine.Proofs.RunLoop

namespace StackMachine

structure Moment where
  engine : Engine
  /-- The notices that have begun and not ended, the latest first. -/
  notices : List Notice
  deriving DecidableEq

/-- What can happen next, inside a callback or outside of all: a command, a run that gives up because its steps are
spent, or the end of the latest notice. -/
inductive Move where
  | call (c : Command)
  | spend
  | settle
  deriving DecidableEq

namespace Moment

def start (o : Options) : Moment := ⟨.ofOptions o, []⟩

/-- The moment at which a call has had its effect and its notice begins. -/
def begun {α : Type} (m : Moment) (effect : Effect α) : Moment :=
  ⟨effect.engine, effect.notice.toList ++ m.notices⟩

theorem begun_map {α β : Type} (m : Moment) (f : α → β) (effect : Effect α) :
    m.begun (effect.map f) = m.begun effect := rfl

def next (m : Moment) : Move → Moment
  | .call c => m.begun (m.engine.begin c)
  | .spend => m.begun m.engine.spendLimit
  | .settle =>
    match m.notices with
    | [] => m
    | notice :: rest => ⟨m.engine.settle notice.generation, rest⟩

def after (m : Moment) (moves : List Move) : Moment := moves.foldl next m

theorem next_step (m : Moment) (code : Bytes) : m.next (.call (.step code)) = m.begun (m.engine.step code) :=
  m.begun_map Reply.committed (m.engine.step code)

theorem next_spend_engine (m : Moment) : (m.next .spend).engine = m.engine.afterRejection := by
  simp only [next, begun, Engine.spendLimit, Engine.reject_eq]

theorem next_settle_nil {m : Moment} (hn : m.notices = []) : m.next .settle = m := by
  simp only [next, hn]

theorem next_settle_cons {m : Moment} {notice : Notice} {rest : List Notice} (hn : m.notices = notice :: rest) :
    m.next .settle = ⟨m.engine.settle notice.generation, rest⟩ := by
  simp only [next, hn]

@[simp] theorem after_nil (m : Moment) : m.after [] = m := rfl

@[simp] theorem after_cons (m : Moment) (move : Move) (moves : List Move) :
    m.after (move :: moves) = (m.next move).after moves := rfl

theorem after_append (m : Moment) (first second : List Move) :
    m.after (first ++ second) = (m.after first).after second :=
  List.foldl_append

theorem after_keeps {P : Moment → Prop} {m : Moment} {moves : List Move}
    (keeps : ∀ move ∈ moves, ∀ m, P m → P (m.next move)) (h : P m) : P (m.after moves) :=
  List.foldlRecOn moves next h fun _ hm move hmove => keeps move hmove _ hm

end Moment

/-- A moment that some history of an engine with these options leads to. -/
def Moment.Reached (o : Options) (m : Moment) : Prop := ∃ moves, (Moment.start o).after moves = m

theorem Moment.Reached.next {o : Options} {m : Moment} (move : Move) (h : m.Reached o) :
    (m.next move).Reached o := by
  obtain ⟨moves, rfl⟩ := h
  exact ⟨moves ++ [move], Moment.after_append _ _ _⟩

/-- An engine that some history leads to, inside any notices. -/
def Engine.Reachable (o : Options) (e : Engine) : Prop := ∃ notices, Moment.Reached o ⟨e, notices⟩

/-- The commands that a call begins by itself, once or again and again. A run whose context is done begins none. -/
def Call.commands {ω : Type} : Call ω → List Command
  | .command c => [c]
  | .run code context => if context.reason? 0 = none then [.step code] else []
  | _ => []

namespace Session

variable {ω : Type}

def opened (o : Options) (observers : List ω) : Session ω := { engine := .ofOptions o, observers }

def converse (react : Reaction ω) (patience depth : Nat) : Session ω → List (Call ω) → Session ω × List Answer
  | s, [] => (s, [])
  | s, call :: calls =>
    let (s, a) := s.perform react patience depth call
    let (s, answers) := converse react patience depth s calls
    (s, a :: answers)

/-- A call is answered with some way to carry out the calls of observers, and where there are none nothing is done. -/
theorem perform_eq_answer (react : Reaction ω) (patience depth : Nat) :
    ∃ nested : Session ω → List (Call ω) → Session ω, (∀ s, nested s [] = s) ∧
      ∀ s call, perform react patience depth s call = s.answer react nested patience call := by
  cases depth with
  | zero => exact ⟨_, fun _ => rfl, fun _ _ => rfl⟩
  | succ depth => exact ⟨_, fun _ => List.foldl_nil, fun _ _ => rfl⟩

section Keeps

variable {react : Reaction ω} {nested : Session ω → List (Call ω) → Session ω} {P : Moment → Prop}

theorem tell_keeps {event : Event} {s : Session ω} {outer : List Notice} (k : Nat)
    (hnested : ∀ (s : Session ω) (observer : ω) (event : Event) (outer : List Notice),
      P ⟨s.engine, outer⟩ → P ⟨(nested s (react observer event).2).engine, outer⟩)
    (h : P ⟨s.engine, outer⟩) : P ⟨(s.tell react nested event k).engine, outer⟩ := by
  unfold tell
  split
  next => exact h
  next observer _ => exact hnested _ observer event outer h

theorem notify_keeps {s : Session ω} {notice : Notice} {outer : List Notice}
    (hsettle : ∀ m, P m → P (m.next .settle))
    (hnested : ∀ (s : Session ω) (observer : ω) (event : Event) (outer : List Notice),
      P ⟨s.engine, outer⟩ → P ⟨(nested s (react observer event).2).engine, outer⟩)
    (h : P ⟨s.engine, notice :: outer⟩) : P ⟨(s.notify react nested notice).engine, outer⟩ := by
  unfold notify
  -- the notice is under way while its events are told, and it is taken off the list at its end
  apply hsettle ⟨_, notice :: outer⟩
  apply List.foldlRecOn
    (motive := fun s' : Session ω => P ⟨s'.engine, notice :: outer⟩)
  · exact h
  · intro s' hs' event _
    split
    next =>
      apply List.foldlRecOn
        (motive := fun s' : Session ω => P ⟨s'.engine, notice :: outer⟩)
      · exact hs'
      · intro s'' hs'' k _
        exact tell_keeps k hnested hs''
    next => exact hs'

theorem carryOut_keeps {α : Type} {s : Session ω} {effect : Effect α} {outer : List Notice}
    (hsettle : ∀ m, P m → P (m.next .settle))
    (hnested : ∀ (s : Session ω) (observer : ω) (event : Event) (outer : List Notice),
      P ⟨s.engine, outer⟩ → P ⟨(nested s (react observer event).2).engine, outer⟩)
    (h : P (Moment.begun ⟨s.engine, outer⟩ effect)) :
    P ⟨(s.carryOut react nested effect).1.engine, outer⟩ := by
  unfold Moment.begun at h
  unfold carryOut
  split
  next hn => simpa [hn] using h
  next notice hn =>
    apply notify_keeps hsettle hnested
    simpa [hn] using h

/-- A call keeps what its own commands keep, if the calls made by observers keep it too. -/
theorem answer_keeps {patience : Nat} {s : Session ω} {call : Call ω} {outer : List Notice}
    (hcall : ∀ c ∈ call.commands, ∀ m, P m → P (m.next (.call c))) (hspend : ∀ m, P m → P (m.next .spend))
    (hsettle : ∀ m, P m → P (m.next .settle))
    (hnested : ∀ (s : Session ω) (observer : ω) (event : Event) (outer : List Notice),
      P ⟨s.engine, outer⟩ → P ⟨(nested s (react observer event).2).engine, outer⟩)
    (h : P ⟨s.engine, outer⟩) : P ⟨(s.answer react nested patience call).1.engine, outer⟩ := by
  cases call with
  | command c => exact carryOut_keeps hsettle hnested (hcall c (by simp [Call.commands]) _ h)
  | run code context =>
    obtain ⟨t, reply, hruns, hanswer⟩ := answer_run react nested patience s code context
    rw [hanswer]
    refine hruns.chain (R := fun s t : Session ω => P ⟨s.engine, outer⟩ → P ⟨t.engine, outer⟩) (fun _ => id)
      (fun first second hs => second (first hs)) (fun s hs => carryOut_keeps hsettle hnested (hspend _ hs)) ?_ h
    intro live s hs
    have hbegun := hcall (.step code) (by simp [Call.commands, live]) _ hs
    rw [Moment.next_step] at hbegun
    exact carryOut_keeps hsettle hnested hbegun
  | register name => exact h
  | status => exact h
  | stats => exact h
  | attach observer => exact h

/-- What every move keeps, every call keeps, however deep the calls made by observers nest. -/
theorem perform_keeps {patience depth : Nat} {s : Session ω} {call : Call ω} {outer : List Notice}
    (keeps : ∀ m move, P m → P (m.next move)) (h : P ⟨s.engine, outer⟩) :
    P ⟨(s.perform react patience depth call).1.engine, outer⟩ := by
  -- on the depth: the calls of a callback are one level deeper, inside one notice more
  induction depth generalizing s call outer with
  | zero =>
    apply answer_keeps (fun c _ m => keeps m (.call c)) (fun m => keeps m .spend) (fun m => keeps m .settle)
    · exact fun _ _ _ _ hs => hs
    · exact h
  | succ depth ih =>
    apply answer_keeps (fun c _ m => keeps m (.call c)) (fun m => keeps m .spend) (fun m => keeps m .settle)
    · intro s' observer event outer' hs'
      apply List.foldlRecOn (motive := fun s'' : Session ω => P ⟨s''.engine, outer'⟩)
      · exact hs'
      · exact fun _ hs'' _ _ => ih hs''
    · exact h

theorem converse_keeps {patience depth : Nat} {s : Session ω} {calls : List (Call ω)}
    (keeps : ∀ m move, P m → P (m.next move)) (h : P ⟨s.engine, []⟩) :
    P ⟨(s.converse react patience depth calls).1.engine, []⟩ := by
  induction calls generalizing s with
  | nil => exact h
  | cons call calls ih => exact ih (perform_keeps keeps h)

end Keeps

theorem converse_forall {react : Reaction ω} {patience depth : Nat} {P : Session ω → Prop}
    {Q : Call ω → Answer → Prop} {s : Session ω} {calls : List (Call ω)}
    (keeps : ∀ call ∈ calls, ∀ s, P s →
      P (s.perform react patience depth call).1 ∧ Q call (s.perform react patience depth call).2)
    (h : P s) :
    P (s.converse react patience depth calls).1 ∧
      List.Forall₂ Q calls (s.converse react patience depth calls).2 := by
  induction calls generalizing s with
  | nil => exact ⟨h, .nil⟩
  | cons call calls ih =>
    obtain ⟨hs, ha⟩ := keeps call (by simp) s h
    obtain ⟨hs', ha'⟩ := ih (fun c hmem => keeps c (by simp [hmem])) hs
    exact ⟨hs', .cons ha ha'⟩

/-- Between the calls of a session no notice is under way. -/
theorem reached_converse (o : Options) (react : Reaction ω) (patience depth : Nat) (observers : List ω)
    (calls : List (Call ω)) :
    Moment.Reached o ⟨((opened o observers).converse react patience depth calls).1.engine, []⟩ :=
  converse_keeps (fun _ move => Moment.Reached.next move) ⟨[], rfl⟩

end Session

end StackMachine
