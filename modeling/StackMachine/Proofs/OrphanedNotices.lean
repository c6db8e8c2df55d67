import StackMachine.Hook
import StackMachine.Proofs.Delivery

namespace StackMachine

/-- One event told to one observer, and the generation of the notice it belongs to. -/
structure Delivery where
  generation : Nat
  observer : Nat
  event : Event
  deriving DecidableEq

/-- A notice under way. -/
structure Telling where
  generation : Nat
  /-- The number of observers when the notice began. -/
  audience : Nat
  /-- The event being told, once for each observer that has not heard it yet. -/
  current : List (Nat × Event)
  /-- The events that have not begun. -/
  events : List Event
  deriving DecidableEq

namespace Telling

def ofNotice (audience : Nat) (notice : Notice) : Telling := ⟨notice.generation, audience, [], notice.events⟩

/-- What is left to tell of the event being told. -/
def rest (t : Telling) : List Delivery := t.current.map fun item => ⟨t.generation, item.1, item.2⟩

/-- What is left to tell is one event, for the observers from some place on. -/
def Ordered (t : Telling) : Prop :=
  ∃ event k, t.current = ((List.range t.audience).drop k).map fun observer => (observer, event)

end Telling

structure Scene where
  engine : Engine
  observers : Nat
  /-- The notices under way, the latest first. -/
  tellings : List Telling
  /-- Everything told so far, in order. -/
  record : List Delivery
  deriving DecidableEq

/-- What can happen next, whoever makes it happen: a command, a run that gives up, a new observer, or the next thing to
do in the latest notice. -/
inductive Turn where
  | call (c : Command)
  | spend
  | attach
  | tell
  deriving DecidableEq

namespace Scene

def start (o : Options) (observers : Nat) : Scene := ⟨.ofOptions o, observers, [], []⟩

/-- A call has had its effect and its notice begins. -/
def begun {α : Type} (σ : Scene) (effect : Effect α) : Scene :=
  { σ with
    engine := effect.engine
    tellings := (effect.notice.map (Telling.ofNotice σ.observers)).toList ++ σ.tellings }

/-- Goes on with a notice: the next observer is told, or the next event begins unless the notice is out of date, or the
notice ends. -/
def goOn (σ : Scene) (t : Telling) (earlier : List Telling) : Scene :=
  match t.current, t.events with
  | (k, event) :: current, _ =>
    { σ with
      tellings := { t with current } :: earlier
      record := σ.record ++ [⟨t.generation, k, event⟩] }
  | [], event :: events =>
    if σ.engine.generation = t.generation then
      { σ with tellings := { t with current := (List.range t.audience).map fun k => (k, event), events } :: earlier }
    else { σ with tellings := { t with events } :: earlier }
  | [], [] => { σ with engine := σ.engine.settle t.generation, tellings := earlier }

def next (σ : Scene) : Turn → Scene
  | .call c => σ.begun (σ.engine.begin c)
  | .spend => σ.begun σ.engine.spendLimit
  | .attach => { σ with observers := σ.observers + 1 }
  | .tell =>
    match σ.tellings with
    | [] => σ
    | t :: earlier => σ.goOn t earlier

def after (σ : Scene) (turns : List Turn) : Scene := turns.foldl next σ

@[simp] theorem after_nil (σ : Scene) : σ.after [] = σ := rfl

@[simp] theorem after_cons (σ : Scene) (turn : Turn) (turns : List Turn) :
    σ.after (turn :: turns) = (σ.next turn).after turns := rfl

theorem after_append (σ : Scene) (first second : List Turn) :
    σ.after (first ++ second) = (σ.after first).after second :=
  List.foldl_append

theorem begun_map {α β : Type} (σ : Scene) (f : α → β) (effect : Effect α) : σ.begun (effect.map f) = σ.begun effect :=
  rfl

theorem next_tell {σ : Scene} {t : Telling} {earlier : List Telling} (h : σ.tellings = t :: earlier) :
    σ.next .tell = σ.goOn t earlier := by
  simp only [next, h]

/-- Everything a turn can do. -/
inductive Advances (σ : Scene) : Turn → Scene → Prop
  | began {turn : Turn} {engine : Engine} {notice : Notice} (same : engine.generation = σ.engine.generation)
      (fresh : notice.generation = σ.engine.generation) :
      Advances σ turn { σ with engine, tellings := .ofNotice σ.observers notice :: σ.tellings }
  | quiet {turn : Turn} {engine : Engine} (same : engine.generation = σ.engine.generation) :
      Advances σ turn { σ with engine }
  | reset : Advances σ (.call .reset) { σ with engine := σ.engine.reset.engine }
  | attached : Advances σ .attach { σ with observers := σ.observers + 1 }
  | told {t : Telling} {earlier : List Telling} {k : Nat} {event : Event} {current : List (Nat × Event)}
      (latest : σ.tellings = t :: earlier) (here : t.current = (k, event) :: current) :
      Advances σ .tell
        { σ with
          tellings := { t with current } :: earlier
          record := σ.record ++ [⟨t.generation, k, event⟩] }
  | opened {t : Telling} {earlier : List Telling} {event : Event} {events : List Event}
      (latest : σ.tellings = t :: earlier) (done : t.current = []) (fresh : σ.engine.generation = t.generation) :
      Advances σ .tell
        { σ with tellings := { t with current := (List.range t.audience).map fun k => (k, event), events } :: earlier }
  | skipped {t : Telling} {earlier : List Telling} {events : List Event} (latest : σ.tellings = t :: earlier)
      (done : t.current = []) : Advances σ .tell { σ with tellings := { t with events } :: earlier }
  | ended {t : Telling} {earlier : List Telling} {engine : Engine} (latest : σ.tellings = t :: earlier)
      (done : t.current = []) (same : engine.generation = σ.engine.generation) :
      Advances σ .tell { σ with engine, tellings := earlier }

theorem begun_advances {α : Type} {σ : Scene} {turn : Turn} {effect : Effect α}
    (same : effect.engine.generation = σ.engine.generation)
    (current : ∀ notice, effect.notice = some notice → notice.generation = effect.engine.generation) :
    σ.Advances turn (σ.begun effect) := by
  unfold begun
  cases h : effect.notice with
  | none => exact .quiet same
  | some notice => exact .began same ((current notice h).trans same)

theorem goOn_advances {σ : Scene} {t : Telling} {earlier : List Telling} (latest : σ.tellings = t :: earlier) :
    σ.Advances .tell (σ.goOn t earlier) := by
  unfold goOn
  split
  next here => exact .told latest here
  next done _ =>
    split
    next fresh => exact .opened latest done fresh
    next => exact .skipped latest done
  next done _ => exact .ended latest done (σ.engine.generation_settle t.generation)

theorem next_advances (σ : Scene) (turn : Turn) : σ.Advances turn (σ.next turn) := by
  cases turn with
  | call c =>
    have hb := σ.engine.begin_begins c
    by_cases hc : c = .reset
    · subst hc
      exact .reset
    · exact begun_advances (hb.generation_eq hc) fun _ hn => (hb.notice_current hn).1
  | spend =>
    exact begun_advances σ.engine.generation_spendLimit fun _ hn => (Engine.spendLimit_notice_current hn).1
  | attach => exact .attached
  | tell =>
    cases h : σ.tellings with
    | nil =>
      have hnext : σ.next .tell = σ := by simp only [next, h]
      rw [hnext]
      exact .quiet rfl
    | cons t earlier =>
      rw [next_tell h]
      exact goOn_advances h

/-- What is left to tell of the events being told, in the notices up to a generation. -/
def unheard (generation : Nat) (σ : Scene) : List Delivery :=
  (σ.tellings.flatMap Telling.rest).filter (·.generation ≤ generation)

section Unheard

variable {σ σ' : Scene} {turn : Turn} {generation : Nat}

theorem unheard_cons {t : Telling} {earlier : List Telling} (h : σ.tellings = t :: earlier) :
    σ.unheard generation =
      t.rest.filter (·.generation ≤ generation) ++ (earlier.flatMap Telling.rest).filter (·.generation ≤ generation) := by
  rw [unheard, h, List.flatMap_cons, List.filter_append]

/-- A turn after a reset tells the first of what was left when the reset came, or nothing that is older than it. -/
theorem Advances.unheard (h : σ.Advances turn σ') (hg : generation < σ.engine.generation) :
    ∃ news, σ'.record = σ.record ++ news ∧
      news.filter (·.generation ≤ generation) ++ σ'.unheard generation = σ.unheard generation ∧
      generation < σ'.engine.generation := by
  cases h with
  | began same fresh => exact ⟨[], by simp, rfl, by simpa [same] using hg⟩
  | quiet same => exact ⟨[], by simp, rfl, by simpa [same] using hg⟩
  | reset => exact ⟨[], by simp, rfl, Nat.lt_succ_of_lt hg⟩
  | attached => exact ⟨[], by simp, rfl, hg⟩
  | told latest here =>
    refine ⟨_, rfl, ?_, hg⟩
    rw [unheard_cons latest, unheard_cons rfl, ← List.append_assoc, ← List.filter_append]
    simp only [Telling.rest, here, List.map_cons, List.singleton_append]
  | opened latest done fresh =>
    -- what begins now is of the present generation, and so younger
    have hyoung : ∀ items : List (Nat × Event), (items.map fun item =>
        (⟨σ.engine.generation, item.1, item.2⟩ : Delivery)).filter (·.generation ≤ generation) = [] := by
      intro items
      apply List.filter_eq_nil_iff.mpr
      intro d hd
      obtain ⟨_, _, rfl⟩ := List.mem_map.mp hd
      simpa using hg
    refine ⟨[], by simp, ?_, hg⟩
    rw [unheard_cons latest, unheard_cons rfl]
    simp only [Telling.rest, done, ← fresh, hyoung, List.map_nil, List.filter_nil, List.nil_append]
  | skipped latest done =>
    refine ⟨[], by simp, ?_, hg⟩
    rw [unheard_cons latest, unheard_cons rfl]
    rfl
  | ended latest done same =>
    refine ⟨[], by simp, ?_, by simpa [same] using hg⟩
    rw [unheard_cons latest]
    simp only [Telling.rest, done, List.map_nil, List.filter_nil, List.nil_append]
    rfl

/-- After a reset, what is told of earlier notices is what was left of their events when it came, and what is left of
them then is still to be told. -/
theorem unheard_after (turns : List Turn) (hg : generation < σ.engine.generation) :
    ∃ news, (σ.after turns).record = σ.record ++ news ∧
      news.filter (·.generation ≤ generation) ++ (σ.after turns).unheard generation = σ.unheard generation := by
  induction turns generalizing σ with
  | nil => exact ⟨[], by simp, rfl⟩
  | cons turn turns ih =>
    obtain ⟨first, hfirst, hleft, hg'⟩ := (σ.next_advances turn).unheard hg
    obtain ⟨later, hlater, hrest⟩ := ih hg'
    refine ⟨first ++ later, ?_, ?_⟩
    · rw [after_cons, hlater, hfirst, List.append_assoc]
    · rw [after_cons, List.filter_append, List.append_assoc, hrest, hleft]

end Unheard

/-- Every notice under way is told in order, and none of them comes from the future. -/
def Orderly (σ : Scene) : Prop := ∀ t ∈ σ.tellings, t.Ordered ∧ t.generation ≤ σ.engine.generation

theorem Advances.orderly {σ σ' : Scene} {turn : Turn} (h : σ.Advances turn σ') (ho : σ.Orderly) : σ'.Orderly := by
  unfold Orderly at ho ⊢
  cases h with
  | began same fresh =>
    simp only [List.forall_mem_cons, same]
    refine ⟨⟨⟨.ip 0, σ.observers, ?_⟩, Nat.le_of_eq fresh⟩, ho⟩
    simp [Telling.ofNotice]
  | quiet same =>
    simp only [same]
    exact ho
  | reset => exact fun t ht => ⟨(ho t ht).1, Nat.le_succ_of_le (ho t ht).2⟩
  | attached => exact ho
  | told latest here =>
    rw [latest, List.forall_mem_cons] at ho
    obtain ⟨⟨⟨event, k, hcurrent⟩, hle⟩, hearlier⟩ := ho
    refine List.forall_mem_cons.mpr ⟨⟨⟨event, k + 1, ?_⟩, hle⟩, hearlier⟩
    have htail := congrArg List.tail (here.symm.trans hcurrent)
    rwa [← List.map_tail, List.tail_drop] at htail
  | opened latest done fresh =>
    rw [latest, List.forall_mem_cons] at ho
    exact List.forall_mem_cons.mpr ⟨⟨⟨_, 0, rfl⟩, ho.1.2⟩, ho.2⟩
  | skipped latest done =>
    rw [latest, List.forall_mem_cons] at ho
    exact List.forall_mem_cons.mpr ho
  | ended latest done same =>
    rw [latest, List.forall_mem_cons] at ho
    simp only [same]
    exact ho.2

theorem Advances.generation_le {σ σ' : Scene} {turn : Turn} (h : σ.Advances turn σ') :
    σ'.engine.generation ≤ σ.engine.generation + [turn].count (.call .reset) := by
  cases h with
  | began same | quiet same | ended _ _ same =>
    rw [same]
    exact Nat.le_add_right _ _
  | reset => exact Nat.le_refl _
  | attached | told | opened | skipped => exact Nat.le_add_right _ _

theorem generation_after_le (σ : Scene) (turns : List Turn) :
    (σ.after turns).engine.generation ≤ σ.engine.generation + turns.count (.call .reset) := by
  induction turns generalizing σ with
  | nil => exact Nat.le_refl _
  | cons turn turns ih =>
    have hfirst := (σ.next_advances turn).generation_le
    have hlater := ih (σ.next turn)
    rw [after_cons, ← List.singleton_append, List.count_append]
    omega

theorem orderly_after (o : Options) (observers : Nat) (turns : List Turn) :
    ((start o observers).after turns).Orderly := by
  apply List.foldlRecOn (motive := Orderly)
  · exact fun t ht => nomatch ht
  · exact fun σ hσ turn _ => (σ.next_advances turn).orderly hσ

/-- Everything was told in the order of the generations, and what is left is of the present one. -/
structure InOrder (σ : Scene) : Prop where
  sorted : σ.record.Pairwise fun earlier later => earlier.generation ≤ later.generation
  recorded : ∀ d ∈ σ.record, d.generation ≤ σ.engine.generation
  present : ∀ t ∈ σ.tellings, t.generation = σ.engine.generation ∨ t.current = []

/-- The order is kept as long as no reset comes while an event is being told. -/
theorem Advances.inOrder {σ σ' : Scene} {turn : Turn} (h : σ.Advances turn σ') (hi : σ.InOrder)
    (whole : turn = .call .reset → ∀ t ∈ σ.tellings, t.current = []) : σ'.InOrder := by
  obtain ⟨hsorted, hrecorded, hpresent⟩ := hi
  cases h with
  | began same fresh =>
    refine ⟨hsorted, by simpa only [same] using hrecorded, ?_⟩
    simp only [List.forall_mem_cons, same]
    exact ⟨.inl fresh, hpresent⟩
  | quiet same => exact ⟨hsorted, by simpa only [same] using hrecorded, by simpa only [same] using hpresent⟩
  | reset =>
    refine ⟨hsorted, fun d hd => Nat.le_succ_of_le (hrecorded d hd), ?_⟩
    exact fun t ht => .inr (whole rfl t ht)
  | attached => exact ⟨hsorted, hrecorded, hpresent⟩
  | told latest here =>
    rw [latest, List.forall_mem_cons] at hpresent
    obtain ⟨hfirst, hearlier⟩ := hpresent
    -- somebody has not heard the event yet, so its notice is of the present generation
    have hgeneration : _ = σ.engine.generation := hfirst.resolve_right (by rw [here]; simp)
    refine ⟨?_, ?_, List.forall_mem_cons.mpr ⟨.inl hgeneration, hearlier⟩⟩
    · apply List.pairwise_append.mpr
      refine ⟨hsorted, List.pairwise_singleton _ _, ?_⟩
      intro d hd d' hd'
      rw [List.mem_singleton.mp hd', hgeneration]
      exact hrecorded d hd
    · intro d hd
      rcases List.mem_append.mp hd with hd | hd
      · exact hrecorded d hd
      · rw [List.mem_singleton.mp hd]
        exact Nat.le_of_eq hgeneration
  | opened latest done fresh =>
    rw [latest, List.forall_mem_cons] at hpresent
    exact ⟨hsorted, hrecorded, List.forall_mem_cons.mpr ⟨.inl fresh.symm, hpresent.2⟩⟩
  | skipped latest done =>
    rw [latest, List.forall_mem_cons] at hpresent
    exact ⟨hsorted, hrecorded, List.forall_mem_cons.mpr hpresent⟩
  | ended latest done same =>
    rw [latest, List.forall_mem_cons] at hpresent
    exact ⟨hsorted, by simpa only [same] using hrecorded, by simpa only [same] using hpresent.2⟩

/-- No reset comes while an event is being told. -/
def Whole : Scene → List Turn → Prop
  | _, [] => True
  | σ, turn :: turns => (turn = .call .reset → ∀ t ∈ σ.tellings, t.current = []) ∧ Whole (σ.next turn) turns

instance decidableWhole : (σ : Scene) → (turns : List Turn) → Decidable (σ.Whole turns)
  | _, [] => isTrue trivial
  | σ, turn :: turns =>
    have := decidableWhole (σ.next turn) turns
    inferInstanceAs (Decidable (_ ∧ _))

theorem inOrder_after {σ : Scene} {turns : List Turn} (hi : σ.InOrder) (whole : σ.Whole turns) :
    (σ.after turns).InOrder := by
  induction turns generalizing σ with
  | nil => exact hi
  | cons turn turns ih => exact ih ((σ.next_advances turn).inOrder hi whole.1) whole.2

/-- Some turns lead from one scene to the other. -/
def Leads (σ σ' : Scene) : Prop := ∃ turns, σ.after turns = σ'

theorem Leads.refl (σ : Scene) : σ.Leads σ := ⟨[], rfl⟩

theorem Leads.trans {σ σ' σ'' : Scene} (h : σ.Leads σ') (h' : σ'.Leads σ'') : σ.Leads σ'' := by
  obtain ⟨first, rfl⟩ := h
  obtain ⟨second, rfl⟩ := h'
  exact ⟨first ++ second, σ.after_append first second⟩

theorem leads_next (σ : Scene) (turn : Turn) : σ.Leads (σ.next turn) := ⟨[turn], rfl⟩

theorem Advances.observers_le {σ σ' : Scene} {turn : Turn} (h : σ.Advances turn σ') : σ.observers ≤ σ'.observers := by
  cases h with
  | attached => exact Nat.le_succ _
  | began | quiet | reset | told | opened | skipped | ended => exact Nat.le_refl _

theorem Leads.observers_le {σ σ' : Scene} (h : σ.Leads σ') : σ.observers ≤ σ'.observers := by
  obtain ⟨turns, rfl⟩ := h
  apply List.foldlRecOn (motive := fun σ' : Scene => σ.observers ≤ σ'.observers)
  · exact Nat.le_refl _
  · exact fun σ' hσ' turn _ => Nat.le_trans hσ' (σ'.next_advances turn).observers_le

end Scene

namespace Session

variable {ω : Type}

/-- The session and the scene agree on the engine, on how many observers there are, and on what they were told. -/
structure Shows (s : Session ω) (σ : Scene) : Prop where
  engine_eq : σ.engine = s.engine
  observers_eq : σ.observers = s.observers.length
  told_eq : (σ.record.map fun d => (d.observer, d.event)) = s.told.toList

/-- Whatever scene shows the first session, turns lead from it to one that shows the second, with the same notices under
way. -/
def Unfolds (s s' : Session ω) : Prop :=
  ∀ σ : Scene, s.Shows σ → ∃ σ' : Scene, σ.Leads σ' ∧ s'.Shows σ' ∧ σ'.tellings = σ.tellings

theorem Unfolds.refl (s : Session ω) : s.Unfolds s := fun σ hs => ⟨σ, .refl σ, hs, rfl⟩

theorem Unfolds.trans {s s' s'' : Session ω} (h : s.Unfolds s') (h' : s'.Unfolds s'') : s.Unfolds s'' := by
  intro σ hs
  obtain ⟨σ', hleads, hs', htellings⟩ := h σ hs
  obtain ⟨σ'', hleads', hs'', htellings'⟩ := h' σ' hs'
  exact ⟨σ'', hleads.trans hleads', hs'', htellings'.trans htellings⟩

theorem Unfolds.respond {react : Reaction ω} {patience depth : Nat} {s : Session ω} {call : Call ω}
    (h : s.Unfolds (s.perform react patience depth call).1) : s.Unfolds (s.respond react patience depth call) := by
  intro σ hs
  obtain ⟨σ', hleads, ⟨hengine, hobservers, htold⟩, htellings⟩ := h σ hs
  exact ⟨σ', hleads, ⟨hengine, hobservers, htold⟩, htellings⟩

theorem foldl_unfolds {α : Type} {f : Session ω → α → Session ω} (h : ∀ (s : Session ω) x, s.Unfolds (f s x))
    (s : Session ω) (xs : List α) : s.Unfolds (xs.foldl f s) := by
  induction xs generalizing s with
  | nil => exact .refl s
  | cons x xs ih => exact (h s x).trans (ih (f s x))

section Unfolds

variable (react : Reaction ω) {nested : Session ω → List (Call ω) → Session ω}
  (hnested : ∀ (s : Session ω) (calls : List (Call ω)), s.Unfolds (nested s calls))

include hnested

theorem tell_unfolds {s : Session ω} {σ : Scene} {t : Telling} {earlier : List Telling} {k : Nat} {event : Event}
    {current : List (Nat × Event)} (hs : s.Shows σ) (latest : σ.tellings = t :: earlier)
    (here : t.current = (k, event) :: current) (there : k < s.observers.length) :
    ∃ σ' : Scene, σ.Leads σ' ∧ (s.tell react nested event k).Shows σ' ∧ σ'.tellings = { t with current } :: earlier := by
  have hk : s.observers[k]? = some s.observers[k] := List.getElem?_eq_getElem there
  let told : Session ω :=
    { s with
      observers := s.observers.set k (react s.observers[k] event).1
      told := s.told.push (k, event) }
  have htell : s.tell react nested event k = nested told (react s.observers[k] event).2 := by
    simp only [tell, hk, told]
  let σ₁ : Scene :=
    { σ with
      tellings := { t with current } :: earlier
      record := σ.record ++ [⟨t.generation, k, event⟩] }
  have hnext : σ.next .tell = σ₁ := by
    rw [Scene.next_tell latest, Scene.goOn, here]
  have htold : told.Shows σ₁ := by
    refine ⟨hs.engine_eq, ?_, ?_⟩
    · simpa [told] using hs.observers_eq
    · simp [told, σ₁, hs.told_eq]
  obtain ⟨σ', hleads, hs', htellings⟩ := hnested told (react s.observers[k] event).2 σ₁ htold
  rw [htell]
  exact ⟨σ', (hnext ▸ σ.leads_next .tell).trans hleads, hs', htellings⟩

theorem tellRest_unfolds {event : Event} {ks : List Nat} {s : Session ω} {σ : Scene} {t : Telling}
    {earlier : List Telling} (hs : s.Shows σ) (latest : σ.tellings = t :: earlier)
    (here : t.current = ks.map fun k => (k, event)) (there : ∀ k ∈ ks, k < s.observers.length) :
    ∃ σ' : Scene, σ.Leads σ' ∧ (ks.foldl (tell react nested event) s).Shows σ' ∧
      σ'.tellings = { t with current := [] } :: earlier := by
  induction ks generalizing s σ t with
  | nil =>
    have hnone : t.current = [] := here
    have ht : { t with current := [] } = t := by rw [← hnone]
    exact ⟨σ, .refl σ, hs, by rw [ht]; exact latest⟩
  | cons k ks ih =>
    obtain ⟨σ₁, hleads, hs₁, htellings⟩ := tell_unfolds react hnested hs latest here (there k (by simp))
    have hlength := hleads.observers_le
    rw [hs.observers_eq, hs₁.observers_eq] at hlength
    obtain ⟨σ', hleads', hs', htellings'⟩ := ih hs₁ htellings rfl fun j hj =>
      Nat.lt_of_lt_of_le (there j (by simp [hj])) hlength
    exact ⟨σ', hleads.trans hleads', hs', htellings'⟩

theorem tellAll_unfolds {notice : Notice} {event : Event} {events : List Event} {s : Session ω} {σ : Scene}
    {t : Telling} {earlier : List Telling} (hs : s.Shows σ) (latest : σ.tellings = t :: earlier)
    (done : t.current = []) (coming : t.events = event :: events) (hgeneration : t.generation = notice.generation)
    (there : t.audience ≤ s.observers.length) :
    ∃ σ' : Scene, σ.Leads σ' ∧ (s.tellAll react nested notice (List.range t.audience) event).Shows σ' ∧
      σ'.tellings = { t with events } :: earlier := by
  have hnext : σ.next .tell = σ.goOn t earlier := Scene.next_tell latest
  rw [Scene.goOn, done, coming] at hnext
  unfold tellAll
  by_cases hfresh : s.engine.generation = notice.generation
  · have hfresh' : σ.engine.generation = t.generation := by rw [hs.engine_eq, hfresh, hgeneration]
    simp only [if_pos hfresh'] at hnext
    rw [if_pos hfresh]
    have hs₁ : s.Shows (σ.next .tell) := by
      rw [hnext]
      exact ⟨hs.engine_eq, hs.observers_eq, hs.told_eq⟩
    obtain ⟨σ', hleads, hs', htellings⟩ := tellRest_unfolds react hnested hs₁ (by rw [hnext]) rfl fun k hk =>
      Nat.lt_of_lt_of_le (List.mem_range.mp hk) there
    refine ⟨σ', (σ.leads_next .tell).trans hleads, hs', ?_⟩
    rw [htellings, done]
  · have hstale : ¬ σ.engine.generation = t.generation := by
      rw [hs.engine_eq, hgeneration]
      exact hfresh
    simp only [if_neg hstale] at hnext
    rw [if_neg hfresh]
    refine ⟨σ.next .tell, σ.leads_next .tell, ?_, ?_⟩
    · rw [hnext]
      exact ⟨hs.engine_eq, hs.observers_eq, hs.told_eq⟩
    · rw [hnext, done]

theorem tellEvents_unfolds (notice : Notice) {s : Session ω} {σ : Scene} {t : Telling} {earlier : List Telling}
    (hs : s.Shows σ) (latest : σ.tellings = t :: earlier) (done : t.current = [])
    (hgeneration : t.generation = notice.generation) (there : t.audience ≤ s.observers.length) :
    ∃ σ' : Scene, σ.Leads σ' ∧
      (t.events.foldl (tellAll react nested notice (List.range t.audience)) s).Shows σ' ∧
      σ'.tellings = { t with events := [] } :: earlier := by
  generalize hevents : t.events = events
  induction events generalizing s σ t with
  | nil =>
    have ht : { t with events := [] } = t := by rw [← hevents]
    exact ⟨σ, .refl σ, hs, by rw [ht]; exact latest⟩
  | cons event events ih =>
    obtain ⟨σ₁, hleads, hs₁, htellings⟩ :=
      tellAll_unfolds react hnested hs latest done hevents hgeneration there
    have hlength := hleads.observers_le
    rw [hs.observers_eq, hs₁.observers_eq] at hlength
    obtain ⟨σ', hleads', hs', htellings'⟩ := ih (t := { t with events }) hs₁ htellings done hgeneration
      (Nat.le_trans there hlength) rfl
    exact ⟨σ', hleads.trans hleads', hs', htellings'⟩

theorem notify_unfolds {notice : Notice} {s : Session ω} {σ : Scene} {earlier : List Telling} (hs : s.Shows σ)
    (latest : σ.tellings = .ofNotice s.observers.length notice :: earlier) :
    ∃ σ' : Scene, σ.Leads σ' ∧ (s.notify react nested notice).Shows σ' ∧ σ'.tellings = earlier := by
  obtain ⟨σ₁, hleads, hs₁, htellings⟩ :=
    tellEvents_unfolds react hnested notice hs latest rfl rfl (Nat.le_refl _)
  have hnext : σ₁.next .tell = { σ₁ with engine := σ₁.engine.settle notice.generation, tellings := earlier } :=
    Scene.next_tell htellings
  refine ⟨σ₁.next .tell, hleads.trans (σ₁.leads_next .tell), ?_, by rw [hnext]⟩
  rw [hnext, notify_eq]
  exact ⟨congrArg (·.settle notice.generation) hs₁.engine_eq, hs₁.observers_eq, hs₁.told_eq⟩

theorem carryOut_unfolds {α : Type} {s : Session ω} {effect : Effect α} (turn : Turn)
    (hturn : ∀ σ : Scene, σ.engine = s.engine → σ.next turn = σ.begun effect) :
    s.Unfolds (s.carryOut react nested effect).1 := by
  intro σ hs
  have hnext := hturn σ hs.engine_eq
  have hbegun : ({ s with engine := effect.engine, log := s.log ++ effect.log } : Session ω).Shows (σ.next turn) := by
    rw [hnext]
    exact ⟨rfl, hs.observers_eq, hs.told_eq⟩
  unfold carryOut
  cases h : effect.notice with
  | none =>
    refine ⟨_, σ.leads_next turn, hbegun, ?_⟩
    rw [hnext, Scene.begun, h]
    rfl
  | some notice =>
    have htellings : (σ.next turn).tellings = .ofNotice s.observers.length notice :: σ.tellings := by
      rw [hnext, Scene.begun, h, hs.observers_eq]
      rfl
    obtain ⟨σ', hleads, hs', htellings'⟩ := notify_unfolds react hnested hbegun htellings
    exact ⟨σ', (σ.leads_next turn).trans hleads, hs', htellings'⟩

theorem answer_unfolds (patience : Nat) (s : Session ω) (call : Call ω) :
    s.Unfolds (s.answer react nested patience call).1 := by
  cases call with
  | command c => exact carryOut_unfolds react hnested (.call c) fun σ hσ => by rw [← hσ]; rfl
  | run code context =>
    obtain ⟨t, reply, hruns, hanswer⟩ := answer_run react nested patience s code context
    rw [hanswer]
    refine hruns.chain .refl .trans ?_ ?_
    · exact fun s => carryOut_unfolds react hnested .spend fun σ hσ => by rw [← hσ]; rfl
    · intro _ s
      refine carryOut_unfolds react hnested (.call (.step code)) fun σ hσ => ?_
      rw [← hσ]
      exact σ.begun_map Reply.committed (σ.engine.step code)
  | register name => exact .refl s
  | status => exact .refl s
  | stats => exact .refl s
  | attach observer =>
    intro σ hs
    refine ⟨_, σ.leads_next .attach, ⟨hs.engine_eq, ?_, hs.told_eq⟩, rfl⟩
    simp [answer, Scene.next, hs.observers_eq]

end Unfolds

/-- Every call on a session, by whoever makes it, is made of turns. -/
theorem perform_unfolds (react : Reaction ω) (patience depth : Nat) (s : Session ω) (call : Call ω) :
    s.Unfolds (s.perform react patience depth call).1 := by
  induction depth generalizing s call with
  | zero => exact answer_unfolds react (fun s _ => .refl s) patience s call
  | succ depth ih =>
    rw [perform_succ]
    exact answer_unfolds react (foldl_unfolds fun s call => (ih s call).respond) patience s call

theorem converse_unfolds (react : Reaction ω) (patience depth : Nat) (s : Session ω) (calls : List (Call ω)) :
    s.Unfolds (s.converse react patience depth calls).1 := by
  induction calls generalizing s with
  | nil => exact .refl s
  | cons call calls ih => exact (perform_unfolds react patience depth s call).trans (ih _)

end Session

/-- A reset gives up the notices under way. Of each of them only the event being told just then is told on, once to each
observer that has not heard it, and all of that is told by the time the calls have returned; no other event of theirs
is. A word of 64 bits tells the generations apart for as many resets as it counts. If no reset comes while an event is
being told, everything is told in the order of the generations. Sessions are made of such turns, whatever their
observers do. -/
theorem reset_gives_up_notices (o : Options) (observers : Nat) (history : List Turn) :
    let σ := (Scene.start o observers).after history
    (∀ later : List Turn,
      let σ' := (σ.next (.call .reset)).after later
      ∃ news, σ'.record = σ.record ++ news ∧
        news.filter (·.generation ≤ σ.engine.generation) ++ σ'.unheard σ.engine.generation =
          σ.tellings.flatMap Telling.rest ∧
        (σ'.tellings = [] →
          news.filter (·.generation ≤ σ.engine.generation) = σ.tellings.flatMap Telling.rest)) ∧
    (∀ t ∈ σ.tellings, ∃ event k,
      t.rest = ((List.range t.audience).drop k).map fun observer => ⟨t.generation, observer, event⟩) ∧
    (history.count (.call .reset) < UInt64.size → ∀ t ∈ σ.tellings,
      (UInt64.ofNat σ.engine.generation = UInt64.ofNat t.generation ↔ σ.engine.generation = t.generation)) ∧
    ((Scene.start o observers).Whole history →
      σ.record.Pairwise fun earlier later => earlier.generation ≤ later.generation) ∧
    (∀ (ω : Type) (react : Reaction ω) (patience depth : Nat) (present : List ω) (calls : List (Call ω)),
      ∃ turns, let reached := (Scene.start o present.length).after turns
        reached.tellings = [] ∧
        ((Session.opened o present).converse react patience depth calls).1.Shows reached) := by
  intro σ
  have horderly : σ.Orderly := Scene.orderly_after o observers history
  refine ⟨?_, ?_, ?_, ?_, ?_⟩
  · intro later σ'
    obtain ⟨news, hrecord, hnews⟩ := Scene.unheard_after (σ := σ.next (.call .reset)) later (Nat.lt_succ_self _)
    -- every notice under way is of a generation that the reset ends
    have hall : (σ.next (.call .reset)).unheard σ.engine.generation = σ.tellings.flatMap Telling.rest := by
      apply List.filter_eq_self.mpr
      intro d hd
      obtain ⟨t, ht, hd⟩ := List.mem_flatMap.mp hd
      obtain ⟨_, _, rfl⟩ := List.mem_map.mp hd
      simpa using (horderly t ht).2
    rw [hall] at hnews
    refine ⟨news, hrecord, hnews, ?_⟩
    intro hended
    rw [← hnews, Scene.unheard, hended]
    simp
  · intro t ht
    obtain ⟨event, k, hcurrent⟩ := (horderly t ht).1
    exact ⟨event, k, by rw [Telling.rest, hcurrent, List.map_map]; rfl⟩
  · intro hfew t ht
    have hgeneration : σ.engine.generation ≤ 0 + history.count (.call .reset) :=
      Scene.generation_after_le (Scene.start o observers) history
    have hnotice := (horderly t ht).2
    refine ⟨fun hwords => ?_, congrArg UInt64.ofNat⟩
    have hnumbers := congrArg UInt64.toNat hwords
    rwa [UInt64.toNat_ofNat_of_lt' (by omega), UInt64.toNat_ofNat_of_lt' (by omega)] at hnumbers
  · exact fun whole => (Scene.inOrder_after ⟨.nil, by simp [Scene.start], by simp [Scene.start]⟩ whole).sorted
  · intro ω react patience depth present calls
    obtain ⟨_, ⟨turns, rfl⟩, hshows, htellings⟩ := Session.converse_unfolds react patience depth
      (Session.opened o present) calls (Scene.start o present.length) ⟨rfl, rfl, rfl⟩
    exact ⟨turns, htellings, hshows⟩

/-- The reset comes when the first of two observers has heard the log line and the second has not. Where it comes between
two events instead, everything is told in order. -/
theorem reset_gives_up_notices_between :
    let nop : Turn := .call (.dispatch Opcode.nop.code [])
    let line := Event.log (utf8 "NOP") (utf8 "no operation")
    (∃ σ : Scene, σ = (Scene.start {} 2).after [nop, .tell, .tell] ∧
      ((σ.next (.call .reset)).after [.tell, .tell, .tell]).tellings = [] ∧
      (∃ news, ((σ.next (.call .reset)).after [.tell, .tell, .tell]).record = σ.record ++ news ∧
        news.filter (·.generation ≤ σ.engine.generation) = [⟨0, 1, line⟩]) ∧
      ∃ t ∈ σ.tellings, ∃ event k,
        t.rest = ((List.range t.audience).drop k).map fun observer => ⟨t.generation, observer, event⟩) ∧
    (Scene.start {} 2).Whole [nop, .tell, .tell, .tell, .call .reset, nop, .tell, .tell] ∧
    ∃ σ : Scene, σ = (Scene.start {} 2).after [nop, .tell, .tell, .tell, .call .reset, nop, .tell, .tell] ∧
      σ.record.Pairwise fun earlier later => earlier.generation ≤ later.generation := by
  intro nop line
  obtain ⟨hlate, hrest, _⟩ := reset_gives_up_notices {} 2 [nop, .tell, .tell]
  obtain ⟨_, _, _, hsorted, _⟩ :=
    reset_gives_up_notices {} 2 [nop, .tell, .tell, .tell, .call .reset, nop, .tell, .tell]
  have hended : ((((Scene.start {} 2).after [nop, .tell, .tell]).next (.call .reset)).after
      [.tell, .tell, .tell]).tellings = [] := by decide +kernel
  have htelling : ((Scene.start {} 2).after [nop, .tell, .tell]).tellings = [⟨0, 2, [(1, line)], [.ip 1]⟩] := by
    decide +kernel
  have hwhole : (Scene.start {} 2).Whole [nop, .tell, .tell, .tell, .call .reset, nop, .tell, .tell] := by
    decide +kernel
  obtain ⟨news, hrecord, _, hall⟩ := hlate [.tell, .tell, .tell]
  have hnews := hall hended
  rw [htelling] at hnews
  have hmem : ⟨0, 2, [(1, line)], [.ip 1]⟩ ∈ ((Scene.start {} 2).after [nop, .tell, .tell]).tellings := by
    rw [htelling]
    exact List.mem_singleton_self _
  exact ⟨⟨_, rfl, hended, ⟨news, hrecord, hnews⟩, _, hmem, hrest _ hmem⟩, hwhole, _, rfl, hsorted hwhole⟩

/-- An observer that resets the engine and pushes a value when it hears of an instruction: the observer after it hears
of the push, and after that of the instruction that came before the reset. -/
theorem old_news_after_reset :
    let nop : Turn := .call (.dispatch Opcode.nop.code [])
    let push : Turn := .call (.dispatch Opcode.psh.code [.imm 5])
    let main := utf8 "main"
    let hook : Observer :=
      .hook .log (utf8 "NOP") 1 [.command .reset, .command (.execute (utf8 "PSH") [.imm 5])]
    (∃ σ : Scene,
      σ = (Scene.start {} 2).after ([nop, .tell, .tell, .call .reset, push] ++ List.replicate 14 .tell) ∧
      σ.record.map (fun d => (d.observer, d.generation)) =
        [(0, 0), (0, 1), (1, 1), (0, 1), (1, 1), (0, 1), (1, 1), (0, 1), (1, 1), (1, 0)]) ∧
    ∃ s : Session Observer,
      s = ((Session.opened {} [hook, .listener main]).ask 0 (.command (.execute (utf8 "NOP") []))).1 ∧
      s.engine.generation = 1 ∧
      s.heard =
        [(main, .log (utf8 "PSH") (utf8 "pushed 5 -> stack[0]")), (main, .register (utf8 "SP") 0),
          (main, .stack 0 (some 5) (utf8 "pushed")), (main, .ip 2),
          (main, .log (utf8 "NOP") (utf8 "no operation"))] := by
  intro nop push main hook
  exact ⟨⟨_, rfl, by decide +kernel⟩, _, rfl, by decide +kernel, by decide +kernel⟩

end StackMachine
