import StackMachine.Proofs.ByteForm
import StackMachine.Proofs.LineByLine
import StackMachine.Proofs.TableRefinement
import StackMachine.Script

namespace StackMachine

/-- The statement names the halting instruction. -/
def Statement.Halts (s : Statement) : Prop := Opcode.ofName? s.word = some .hlt

/-- The last of some statements is the halting one. -/
def EndsInHalt (statements : List Statement) : Prop := ∃ s ∈ statements.getLast?, s.Halts

namespace Engine

def executed (e : Engine) (s : Statement) : Outcome Result := (e.execute s.word s.operands).settled

/-- The engine after some statements, one after the other. -/
def afterStatements (e : Engine) (statements : List Statement) : Engine :=
  statements.foldl (fun e s => (e.executed s).engine) e

/-- Each of some statements succeeds, and none but the last halts. -/
def Passes : Engine → List Statement → Prop
  | _, [] => True
  | e, s :: rest => ∃ result, (e.executed s).reply = .ok result ∧ (result.halted = true → rest = []) ∧
      (e.executed s).engine.Passes rest

section Executed

variable {e : Engine} {s : Statement}

/-- A statement that fails leaves everything as it was, the counters apart. -/
theorem snapshot_executed_error {error : Error} (rest : e.AtRest) (h : (e.executed s).reply = .error error) :
    (e.executed s).engine.snapshot = e.snapshot := by
  unfold executed Engine.execute at h ⊢
  cases hn : Opcode.ofName? s.word with
  | none =>
    have hengine := (unknown_settled (α := Result) rest.free rest.idle s.word).2
    dsimp only
    rw [hengine]
    rfl
  | some op =>
    rw [hn] at h
    dsimp only at h ⊢
    cases hp : (e.plan op.code s.operands).2 with
    | error error =>
      have hengine := (dispatch_settled_error rest.free rest.idle hp).2
      rw [hengine]
      rfl
    | ok t =>
      have hreply := (dispatch_settled_ok rest.free rest.idle hp).1
      rw [hreply] at h
      cases h

/-- Of the statements that succeed, those halt that name the halting instruction. -/
theorem halted_iff {result : Result} (rest : e.AtRest) (h : (e.executed s).reply = .ok result) :
    result.halted = true ↔ s.Halts := by
  unfold executed Engine.execute at h
  unfold Statement.Halts
  cases hn : Opcode.ofName? s.word with
  | none =>
    rw [hn] at h
    dsimp only at h
    rw [(unknown_settled (α := Result) rest.free rest.idle s.word).1] at h
    cases h
  | some op =>
    rw [hn] at h
    dsimp only at h
    cases hp : (e.plan op.code s.operands).2 with
    | error error =>
      rw [(dispatch_settled_error rest.free rest.idle hp).1] at h
      cases h
    | ok t =>
      rw [(dispatch_settled_ok rest.free rest.idle hp).1] at h
      cases h
      obtain ⟨op', action, hcode, haction, hplan⟩ := plan_eq_ok hp
      rw [Opcode.ofCode?_code] at hcode
      cases hcode
      obtain ⟨hopcode, -⟩ := Action.canonical_of_ofOperands haction
      have hhalted : t.halted = true ↔ action = .halt := (Machine.plan_course hplan).2.1
      refine hhalted.trans ?_
      rw [Option.some.injEq, ← hopcode]
      cases action with
      | halt => simp [Action.opcode]
      | combine f => cases f <;> simp [Action.opcode, BinaryOp.opcode]
      | branch c source wanted target => cases c <;> simp [Action.opcode, Condition.opcode]
      | nothing | push | drop | copy | assign | report | load | store => simp [Action.opcode]

end Executed

end Engine

/-- A number of statements that a run may execute, from an engine on and after some that are done: they pass, and the
limit allows them. -/
structure ScriptOptions.Reaches (o : ScriptOptions) (done : Nat) (e : Engine) (statements : List Statement) (j : Nat) :
    Prop where
  le_length : j ≤ statements.length
  within : 0 < o.maxStatements → ((done + j : Nat) : Int) ≤ o.maxStatements
  passes : e.Passes (statements.take j)

/-- Why a run ends after a number of statements. -/
inductive ScriptOptions.EndsAt (o : ScriptOptions) (done : Nat) (e : Engine) (statements : List Statement) (j : Nat) :
    Option ScriptFailure → Prop
  | finished (last : EndsInHalt (statements.take j) ∨ j = statements.length) : EndsAt o done e statements j none
  | limited (limit : 0 < o.maxStatements) (spent : o.maxStatements = (done + j : Nat)) (left : j < statements.length)
      (running : ¬ EndsInHalt (statements.take j)) : EndsAt o done e statements j (some .statementLimit)
  | failed {s : Statement} {error : Error} (next : statements[j]? = some s)
      (reply : ((e.afterStatements (statements.take j)).executed s).reply = .error error)
      (running : ¬ EndsInHalt (statements.take j))
      (room : 0 < o.maxStatements → ((done + j : Nat) : Int) < o.maxStatements) :
      EndsAt o done e statements j (some (.statement s.line s.text error))

section Run

variable {o : ScriptOptions} {done j : Nat} {e : Engine} {s : Statement} {rest : List Statement} {result : Result}

theorem endsInHalt_cons_iff (running : ¬ s.Halts) : EndsInHalt (s :: rest) ↔ EndsInHalt rest := by
  unfold EndsInHalt
  rw [List.getLast?_cons]
  cases rest.getLast? with
  | none => simp [running]
  | some last => simp

theorem ScriptOptions.Reaches.cons (hreply : (e.executed s).reply = .ok result) (running : ¬ result.halted = true)
    (h : o.Reaches (done + 1) (e.executed s).engine rest j) : o.Reaches done e (s :: rest) (j + 1) := by
  refine ⟨Nat.succ_le_succ h.le_length, ?_, result, hreply, fun halted => absurd halted running, h.passes⟩
  intro hlimit
  have hwithin := h.within hlimit
  omega

/-- What a run reaches beyond its first statement, the rest of it reaches by itself. -/
theorem ScriptOptions.Reaches.uncons (h : o.Reaches done e (s :: rest) (j + 1)) :
    ∃ result, (e.executed s).reply = .ok result ∧ (result.halted = true → rest.take j = []) ∧
      o.Reaches (done + 1) (e.executed s).engine rest j := by
  obtain ⟨hle, hwithin, result, hreply, hhalted, hpasses⟩ := h
  refine ⟨result, hreply, hhalted, Nat.le_of_succ_le_succ hle, ?_, hpasses⟩
  intro hlimit
  have hroom := hwithin hlimit
  omega

theorem ScriptOptions.EndsAt.cons {failure : Option ScriptFailure} (running : ¬ s.Halts)
    (h : o.EndsAt (done + 1) (e.executed s).engine rest j failure) : o.EndsAt done e (s :: rest) (j + 1) failure := by
  have hlast : EndsInHalt ((s :: rest).take (j + 1)) ↔ EndsInHalt (rest.take j) := endsInHalt_cons_iff running
  cases h with
  | finished last => exact .finished (last.imp hlast.mpr (congrArg Nat.succ))
  | limited limit spent left going =>
    exact .limited limit (by omega) (Nat.succ_lt_succ left) fun halted => going (hlast.mp halted)
  | failed next reply going room =>
    refine .failed next reply (fun halted => going (hlast.mp halted)) fun limit => ?_
    have := room limit
    omega

/-- A run ends after the most statements that it can reach, in the state they lead to. -/
theorem runStatements_reaches (live : o.context = none) (atRest : e.AtRest)
    (hdone : 0 < o.maxStatements → (done : Int) ≤ o.maxStatements) (statements : List Statement)
    (events : Array Event) (log : Array LogEntry) :
    ∃ j, o.Reaches done e statements j ∧ (∀ k, o.Reaches done e statements k → k ≤ j) ∧
      (runStatements o done statements e events log).snapshot = (e.afterStatements (statements.take j)).snapshot ∧
      o.EndsAt done e statements j (runStatements o done statements e events log).failure := by
  have hnone : o.Reaches done e statements 0 := ⟨Nat.zero_le _, hdone, trivial⟩
  -- on the statements: the first one is not begun, fails or halts, or the run goes on with the others
  induction statements generalizing done e events log with
  | nil => exact ⟨0, hnone, fun k hk => hk.le_length, rfl, .finished (.inr rfl)⟩
  | cons s rest ih =>
    have hempty : ¬ EndsInHalt ((s :: rest).take 0) := by simp [EndsInHalt]
    rw [runStatements]
    by_cases hspent : 0 < o.maxStatements ∧ o.maxStatements ≤ done
    · have hobstacle : o.obstacle? done = some .statementLimit := by
        simp only [ScriptOptions.obstacle?, live, Context.reason?, if_pos hspent]
      rw [hobstacle]
      have hequal : o.maxStatements = done := Int.le_antisymm hspent.2 (hdone hspent.1)
      refine ⟨0, hnone, ?_, rfl, .limited hspent.1 hequal (Nat.zero_lt_succ _) hempty⟩
      intro k hk
      have hwithin := hk.within hspent.1
      omega
    · have hobstacle : o.obstacle? done = none := by
        simp only [ScriptOptions.obstacle?, live, Context.reason?, if_neg hspent]
      have hroom : 0 < o.maxStatements → ((done + 1 : Nat) : Int) ≤ o.maxStatements := by
        intro hlimit
        have hleft : ¬ o.maxStatements ≤ done := fun hle => hspent ⟨hlimit, hle⟩
        omega
      have houtcome : (e.execute s.word s.operands).settled = e.executed s := rfl
      rw [hobstacle, houtcome]
      dsimp only
      cases hreply : (e.executed s).reply with
      | error error =>
        refine ⟨0, hnone, ?_, Engine.snapshot_executed_error atRest hreply, .failed rfl hreply hempty ?_⟩
        · intro k hk
          cases k with
          | zero => exact Nat.le_refl 0
          | succ k =>
            obtain ⟨result, hok, -⟩ := hk.uncons
            rw [hreply] at hok
            cases hok
        · intro hlimit
          have hleft := hroom hlimit
          omega
      | ok result =>
        have hhalts := Engine.halted_iff atRest hreply
        dsimp only
        by_cases halted : result.halted = true
        · rw [if_pos halted]
          have hone : o.Reaches done e (s :: rest) 1 :=
            ⟨Nat.succ_le_succ (Nat.zero_le _), hroom, result, hreply, fun _ => rfl, trivial⟩
          refine ⟨1, hone, ?_, rfl, .finished (.inl ⟨s, rfl, hhalts.mp halted⟩)⟩
          intro k hk
          cases k with
          | zero => exact Nat.zero_le 1
          | succ k =>
            -- nothing passes after a halt
            obtain ⟨result', hok, hlast, hmore⟩ := hk.uncons
            rw [hreply] at hok
            cases hok
            have hlength := congrArg List.length (hlast halted)
            rw [List.length_take, List.length_nil] at hlength
            have hle := hmore.le_length
            omega
        · rw [if_neg halted]
          obtain ⟨j, hreaches, hmost, hsnapshot, hends⟩ := ih (atRest.execute s.word s.operands) hroom
            (events ++ (e.executed s).events) (log ++ (e.executed s).log) ⟨Nat.zero_le _, hroom, trivial⟩
          refine ⟨j + 1, hreaches.cons hreply halted, ?_, hsnapshot, hends.cons fun h => halted (hhalts.mpr h)⟩
          intro k hk
          cases k with
          | zero => exact Nat.zero_le _
          | succ k =>
            obtain ⟨-, -, -, hmore⟩ := hk.uncons
            exact Nat.succ_le_succ (hmost k hmore)

end Run

/-- A statement stands on a line of its source, below all that gives the statements before it. -/
structure Statement.StandsAt (s : Statement) (source : Bytes) (above : List Statement) (before line after : Bytes) :
    Prop where
  source_eq : source = before ++ line ++ after
  starts : before = [] ∨ before.getLast? = some newline
  single : newline ∉ line
  ends : after = [] ∨ after.head? = some newline
  above_eq : parse before = .ok above
  read : parseLine line = .ok (some { s with line := 1 })
  number : s.line = 1 + before.count newline

section Places

variable {source : Bytes} {s : Statement} {statements : List Statement}

theorem parse_nil : parse [] = .ok [] := by
  rw [parse, tokens, tokensFrom]
  rfl

theorem parseLine_of_parse {line : Bytes} (h : parse line = .ok [s]) : parseLine line = .ok (some s) := by
  simp only [parseLine, h]

theorem parse_newline_ok {first b : Bytes} (h : parse (first ++ newline :: b) = .ok statements) :
    ∃ upper lower, parse first = .ok upper ∧ parse b = .ok lower ∧
      statements = upper ++ lower.map (Statement.later (first.count newline + 1)) := by
  rw [parse_append_newline] at h
  cases hupper : parse first with
  | error error =>
    rw [hupper] at h
    cases h
  | ok upper =>
    cases hlower : parse b with
    | error error =>
      rw [hupper, hlower] at h
      cases h
    | ok lower =>
      rw [hupper, hlower] at h
      cases h
      exact ⟨upper, lower, rfl, rfl, rfl⟩

theorem standsAt_first {line after : Bytes} (single : newline ∉ line) (h : parse line = .ok [s])
    (ends : after = [] ∨ after.head? = some newline) : s.StandsAt (line ++ after) [] [] line after := by
  have hline : s.line = 1 := by
    rcases parse_one_line single h with hnone | ⟨only, honly, hline⟩
    · cases hnone
    · cases honly
      exact hline
  have hread : parseLine line = .ok (some { s with line := 1 }) := by
    rw [← hline]
    exact parseLine_of_parse h
  exact ⟨rfl, .inl rfl, single, ends, parse_nil, hread, hline⟩

/-- A line above a source moves its statements down by one. -/
theorem Statement.StandsAt.below {b first before line after : Bytes} {upper above : List Statement}
    (h : s.StandsAt b above before line after) (single : newline ∉ first) (hfirst : parse first = .ok upper) :
    (s.later 1).StandsAt (first ++ newline :: b) (upper ++ above.map (Statement.later 1)) (first ++ newline :: before)
      line after := by
  have hcount : first.count newline = 0 := List.count_eq_zero.mpr single
  have hstarts : (first ++ newline :: before).getLast? = some newline := by
    rw [List.getLast?_append, List.getLast?_cons]
    rcases h.starts with rfl | hlast
    · rfl
    · rw [hlast]
      rfl
  have habove : parse (first ++ newline :: before) = .ok (upper ++ above.map (Statement.later 1)) := by
    rw [parse_append_newline, hfirst, h.above_eq, hcount]
    rfl
  have hnumber : (s.later 1).line = 1 + (first ++ newline :: before).count newline := by
    rw [List.count_append, List.count_cons_self, hcount]
    have := h.number
    show s.line + 1 = _
    omega
  refine ⟨?_, .inr hstarts, h.single, h.ends, habove, h.read, hnumber⟩
  rw [h.source_eq]
  simp only [List.append_assoc, List.cons_append]

/-- Every statement of a source stands on one of its lines, and its number is that of the line. -/
theorem exists_standsAt (h : parse source = .ok statements) {j : Nat} (hj : statements[j]? = some s) :
    ∃ before line after, s.StandsAt source (statements.take j) before line after := by
  -- on the length of the source: the statement is on the first line, or in what follows it
  induction hn : source.length using Nat.strongRecOn generalizing source s statements j with
  | _ n ih =>
    subst hn
    by_cases hmem : newline ∈ source
    · obtain ⟨first, b, rfl, hfirst⟩ := List.eq_append_cons_of_mem hmem
      obtain ⟨upper, lower, hupper, hlower, rfl⟩ := parse_newline_ok h
      have hcount : first.count newline = 0 := List.count_eq_zero.mpr hfirst
      rw [hcount] at hj ⊢
      by_cases hlt : j < upper.length
      · rw [List.getElem?_append_left hlt] at hj
        rcases parse_one_line hfirst hupper with rfl | ⟨only, rfl, -⟩
        · cases hj
        · obtain rfl : j = 0 := Nat.lt_one_iff.mp hlt
          cases hj
          exact ⟨[], first, newline :: b, standsAt_first hfirst hupper (.inr rfl)⟩
      · have hle := Nat.le_of_not_lt hlt
        rw [List.getElem?_append_right hle, List.getElem?_map] at hj
        obtain ⟨s, hs, rfl⟩ := Option.map_eq_some_iff.mp hj
        have hshorter : b.length < (first ++ newline :: b).length := by
          rw [List.length_append, List.length_cons]
          omega
        obtain ⟨before, line, after, hstands⟩ := ih _ hshorter hlower hs rfl
        have htake : (upper ++ lower.map (Statement.later 1)).take j =
            upper ++ (lower.take (j - upper.length)).map (Statement.later 1) := by
          rw [List.take_append, List.take_of_length_le hle, List.map_take]
        rw [htake]
        exact ⟨first ++ newline :: before, line, after, hstands.below hfirst hupper⟩
    · rcases parse_one_line hmem h with rfl | ⟨only, rfl, -⟩
      · cases hj
      · cases j with
        | zero =>
          cases hj
          refine ⟨[], source, [], ?_⟩
          have hstands := standsAt_first hmem h (.inl rfl)
          rwa [List.append_nil] at hstands
        | succ j => cases hj

end Places

/-- A script executes the longest prefix of its statements that succeeds within its limit, up to the first halt: the
snapshot is that of a fresh engine after it, and the failure tells what comes next. A source without statements to read
touches no engine. -/
theorem script_prefix_longest (o : ScriptOptions) (live : o.context = none) (source : Bytes) :
    (∀ error, parse source = .error error → runScript o source = ⟨.blank, some (.source error), #[], #[]⟩) ∧
    ∀ statements, parse source = .ok statements →
      ∃ fresh j, fresh = Engine.ofOptions { capacity := o.capacity, latch := o.latch } ∧
        o.Reaches 0 fresh statements j ∧ (∀ k, o.Reaches 0 fresh statements k → k ≤ j) ∧
        (runScript o source).snapshot = (fresh.afterStatements (statements.take j)).snapshot ∧
        ((runScript o source).failure = none ↔ EndsInHalt (statements.take j) ∨ j = statements.length) ∧
        ((runScript o source).failure = some .statementLimit ↔
          0 < o.maxStatements ∧ o.maxStatements = j ∧ j < statements.length ∧ ¬ EndsInHalt (statements.take j)) ∧
        ((runScript o source).failure = none ∨ (runScript o source).failure = some .statementLimit ∨
          ∃ s error before line after, statements[j]? = some s ∧
            s.StandsAt source (statements.take j) before line after ∧
            ((fresh.afterStatements (statements.take j)).executed s).reply = .error error ∧
            (runScript o source).failure = some (.statement s.line s.text error)) := by
  refine ⟨fun error h => by rw [runScript, h], fun statements h => ?_⟩
  have hrun : runScript o source = runStatements o 0 statements
      (Engine.ofOptions { capacity := o.capacity, latch := o.latch }) #[] #[] := by rw [runScript, h]
  rw [hrun]
  generalize hfresh : Engine.ofOptions { capacity := o.capacity, latch := o.latch } = fresh
  have atRest : fresh.AtRest := hfresh ▸ Engine.atRest_ofOptions _
  have hunspent : 0 < o.maxStatements → ((0 : Nat) : Int) ≤ o.maxStatements := Int.le_of_lt
  obtain ⟨j, hreaches, hmost, hsnapshot, hends⟩ := runStatements_reaches live atRest hunspent statements #[] #[]
  refine ⟨fresh, j, rfl, hreaches, hmost, hsnapshot, ?_⟩
  have hle := hreaches.le_length
  generalize hfailure : (runStatements o 0 statements fresh #[] #[]).failure = failure at hends ⊢
  cases hends with
  | finished last =>
    refine ⟨⟨fun _ => last, fun _ => rfl⟩, ⟨nofun, ?_⟩, .inl rfl⟩
    rintro ⟨-, -, hleft, hrunning⟩
    rcases last with hhalt | rfl
    · exact absurd hhalt hrunning
    · omega
  | limited limit spent left running =>
    rw [Nat.zero_add] at spent
    refine ⟨⟨nofun, ?_⟩, ⟨fun _ => ⟨limit, spent, left, running⟩, fun _ => rfl⟩, .inr (.inl rfl)⟩
    rintro (hhalt | rfl)
    · exact absurd hhalt running
    · omega
  | @failed s error next reply running room =>
    have hlt : j < statements.length := (List.getElem?_eq_some_iff.mp next).1
    obtain ⟨before, line, after, hstands⟩ := exists_standsAt h next
    refine ⟨⟨nofun, ?_⟩, ⟨nofun, ?_⟩, .inr (.inr ⟨s, error, before, line, after, next, hstands, reply, rfl⟩)⟩
    · rintro (hhalt | rfl)
      · exact absurd hhalt running
      · omega
    · rintro ⟨hlimit, hspent, -⟩
      have := room hlimit
      omega

/-- The second statement of three, on the third line, finds too few values: the run is the first one. -/
theorem script_prefix_longest_short :
    ∃ o source statements fresh j, o = ({ maxStatements := 2 } : ScriptOptions) ∧ o.context = none ∧
      source = utf8 "psh 7 ; seven\n\n  Add\nhlt\n" ∧ parse source = .ok statements ∧ statements.length = 3 ∧
      o.Reaches 0 fresh statements j ∧ (∀ k, o.Reaches 0 fresh statements k → k ≤ j) ∧
      (runScript o source).snapshot = (fresh.afterStatements (statements.take j)).snapshot ∧
      (runScript o source).failure = some (.statement 3 (utf8 "ADD") ⟨utf8 "ADD", .stackShallow⟩) := by
  have hparse : parse (utf8 "psh 7 ; seven\n\n  Add\nhlt\n") =
      .ok [⟨utf8 "PSH", [.imm 7], 1⟩, ⟨utf8 "ADD", [], 3⟩, ⟨utf8 "HLT", [], 4⟩] := by decide +kernel
  obtain ⟨fresh, j, -, hreaches, hmost, hsnapshot, -⟩ :=
    (script_prefix_longest { maxStatements := 2 } rfl _).2 _ hparse
  exact ⟨_, _, _, fresh, j, rfl, rfl, rfl, hparse, rfl, hreaches, hmost, hsnapshot, by decide +kernel⟩

end StackMachine
