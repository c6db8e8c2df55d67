import StackMachine.Frame.View
import StackMachine.Proofs.Bookkeeping
import StackMachine.Proofs.BoundedRecorder
import StackMachine.Proofs.MessageTexts
import StackMachine.Script

namespace StackMachine

section Capitals

/-- A glyph in upper case. -/
def Glyph.raised (g : Glyph) : Bytes := String.utf8EncodeChar (Char.ofNat (upperCode g.code))

theorem raised_lone : ∀ c : UInt8, c < 0x80 → (loneGlyph c).raised = [upperByte c] :=
  forall_byte (by decide +kernel)

/-- No character beyond ASCII has an ASCII character for its upper case, but for two that have a letter. -/
theorem upperRuns_beyond : ∀ run ∈ upperRuns, 0x80 ≤ run.first + run.offset ∨
    run.last ≤ run.first ∧ (run.first + run.offset = 0x49 ∨ run.first + run.offset = 0x53) := by
  decide +kernel

theorem upperCode_beyond {code : Nat} (h : 0x80 ≤ code) :
    0x80 ≤ upperCode code ∨ upperCode code = 0x49 ∨ upperCode code = 0x53 := by
  rw [upperCode, if_neg (by omega), mapCode]
  cases hrun : upperRuns.find? (·.holds code) with
  | none => exact .inl h
  | some run =>
    have hholds : run.holds code = true := by simpa using List.find?_some hrun
    simp only [CaseRun.holds, Bool.and_eq_true, decide_eq_true_eq] at hholds
    have hbeyond := upperRuns_beyond run (List.mem_of_find?_eq_some hrun)
    dsimp only
    omega

/-- The bytes of words in upper case. -/
def isCapitalByte (c : UInt8) : Bool := !isLowerByte c && c != carriageReturn

/-- The bytes that such words can begin with. -/
def startsCapital (c : UInt8) : Bool :=
  isCapitalByte c && !isDigitByte c && c != byte '+' && c != byte '-' && c != byte '.'

theorem isCapitalByte_of_starts (c : UInt8) (h : startsCapital c = true) : isCapitalByte c = true := by
  simp only [startsCapital, Bool.and_eq_true] at h
  exact h.1.1.1.1

theorem startsCapital_beyond : ∀ c : UInt8, c = 0 ∨ 0x80 ≤ c → startsCapital c = true :=
  forall_byte (by decide +kernel)

theorem upperByte_capital : ∀ c : UInt8, (isWordByte c = true → isCapitalByte (upperByte c) = true) ∧
    (startsWord c = true → c < 0x80 → startsCapital (upperByte c) = true) :=
  forall_byte (by decide +kernel)

theorem startsCapital_raised {g : Glyph} (h : 0x80 ≤ g.code) :
    g.raised ≠ [] ∧ ∀ c ∈ g.raised, startsCapital c = true := by
  unfold Glyph.raised
  rcases upperCode_beyond h with hbig | hletter | hletter
  · obtain ⟨hne, hbytes⟩ := utf8EncodeChar_beyond hbig
    exact ⟨hne, fun c hc => startsCapital_beyond c (hbytes c hc)⟩
  · rw [hletter]
    decide +kernel
  · rw [hletter]
    decide +kernel

/-- In upper case the characters of a word are made of capital bytes. -/
theorem isCapitalByte_raised {w : Bytes} (h : ∀ c ∈ w, isWordByte c = true) :
    ∀ g ∈ glyphs w, g.raised ≠ [] ∧ ∀ c ∈ g.raised, isCapitalByte c = true := by
  intro g hg
  rcases glyphs_word h g hg with ⟨c, hlt, hword, rfl⟩ | hforeign
  · rw [raised_lone c hlt]
    exact ⟨List.cons_ne_nil _ _, List.forall_mem_singleton.mpr ((upperByte_capital c).1 hword)⟩
  · obtain ⟨hne, hbytes⟩ := startsCapital_raised hforeign.1
    exact ⟨hne, fun c hc => isCapitalByte_of_starts c (hbytes c hc)⟩

theorem upper_bytes {c : UInt8} {rest : Bytes} (h : IsWord (c :: rest)) :
    (∃ b more, upper (c :: rest) = b :: more ∧ startsCapital b = true) ∧
      ∀ b ∈ upper (c :: rest), isCapitalByte b = true := by
  have hword := h.isWordByte
  unfold upper
  split
  next hascii =>
    have hlt : c < 0x80 := by
      rw [isAscii, List.all_eq_true] at hascii
      simpa using hascii c List.mem_cons_self
    refine ⟨⟨upperByte c, rest.map upperByte, rfl, (upperByte_capital c).2 h.1 hlt⟩, ?_⟩
    exact List.forall_mem_map.mpr fun b hb => (upperByte_capital b).1 (hword b hb)
  next =>
    have hmap : mapCodes upperCode (c :: rest) = (glyphs (c :: rest)).flatMap Glyph.raised := rfl
    have hraised := isCapitalByte_raised hword
    have hwhole := ofGlyphs_glyphs (c :: rest)
    rw [hmap]
    cases hglyphs : glyphs (c :: rest) with
    | nil =>
      rw [hglyphs] at hwhole
      cases hwhole
    | cons g gs =>
      rw [hglyphs] at hwhole hraised
      constructor
      · -- the first character is the first byte, if that is ASCII, or it is foreign
        have hfirst : g.raised ≠ [] ∧ ∀ b ∈ g.raised.head?, startsCapital b = true := by
          rcases glyphs_word hword g (by rw [hglyphs]; exact List.mem_cons_self) with ⟨c', hlt, _, rfl⟩ | hforeign
          · rw [ofGlyphs_cons, bytes_loneGlyph] at hwhole
            obtain ⟨rfl, -⟩ := List.cons.inj hwhole
            rw [raised_lone c' hlt]
            refine ⟨List.cons_ne_nil _ _, ?_⟩
            rintro b ⟨⟩
            exact (upperByte_capital c').2 h.1 hlt
          · obtain ⟨hne, hbytes⟩ := startsCapital_raised hforeign.1
            exact ⟨hne, fun b hb => hbytes b (List.mem_of_mem_head? hb)⟩
        rw [List.flatMap_cons]
        cases hg : g.raised with
        | nil => exact absurd hg hfirst.1
        | cons b more => exact ⟨b, _, rfl, hfirst.2 b (by rw [hg]; rfl)⟩
      · intro b hb
        obtain ⟨g', hg', hmem⟩ := List.mem_flatMap.mp hb
        exact (hraised g' hg').2 b hmem

theorem isCapital_upper {w : Bytes} (h : IsWord w) : IsCapital (upper w) ∧ carriageReturn ∉ upper w := by
  cases w with
  | nil => exact h.elim
  | cons c rest =>
    obtain ⟨⟨b, more, heq, hfirst⟩, hbytes⟩ := upper_bytes h
    simp only [startsCapital, Bool.and_eq_true, Bool.not_eq_true', bne_iff_ne] at hfirst
    obtain ⟨⟨⟨⟨-, hdigit⟩, hplus⟩, hminus⟩, hpoint⟩ := hfirst
    have hcapital : ∀ b ∈ upper (c :: rest), isLowerByte b = false ∧ b ≠ carriageReturn := by
      intro b hb
      simpa [isCapitalByte] using hbytes b hb
    refine ⟨⟨⟨b, more, heq, hdigit, hplus, hminus, hpoint⟩, fun b hb => (hcapital b hb).1⟩, ?_⟩
    exact fun hmem => (hcapital _ hmem).2 rfl

end Capitals

/-- The texts of the event come back from a table. -/
def Event.Regular : Event → Prop
  | .log op detail | .error op detail => Kept op ∧ Kept detail
  | .register name _ => Kept name
  | .stack _ _ hint => Kept hint
  | .ip _ => True

section Told

variable {e : Engine} {s : Statement}

theorem regular_of_commit {m : Machine} {latch : Bool} {action : Action} {t : Transaction}
    (hp : m.plan latch action = .ok t) (oldIP : Int64) : ∀ event ∈ (m.commit t).2.events oldIP, event.Regular := by
  obtain ⟨hdetail, hpush⟩ := kept_of_plan hp
  have hpopped : Kept (utf8 "popped") := kept_words.2.2 _ (by simp)
  have hhint : ∀ i hint, t.hintAt m.sp i = some hint → Kept hint := by
    intro i hint h
    have hcell : hint = utf8 "popped" ∨ ∃ v, t.push = some (v, hint) := by
      unfold Transaction.hintAt at h
      cases hpushed : t.push with
      | none =>
        simp only [hpushed, Option.ite_none_right_eq_some, Option.some.injEq] at h
        exact .inl h.2.symm
      | some pushed =>
        obtain ⟨v, label⟩ := pushed
        simp only [hpushed] at h
        split at h
        next =>
          cases h
          exact .inr ⟨v, rfl⟩
        next =>
          simp only [Option.ite_none_right_eq_some, Option.some.injEq] at h
          exact .inl h.2.symm
    rcases hcell with rfl | ⟨v, hpushed⟩
    · exact hpopped
    · exact hpush v hint hpushed
  intro event hevent
  simp only [Result.events, List.mem_append, List.mem_singleton, List.mem_map] at hevent
  rcases hevent with ((rfl | ⟨w, _, rfl⟩) | ⟨c, hc, rfl⟩) | hip
  · exact ⟨kept_opcodeName t.op, hdetail⟩
  · exact kept_registerName w.1
  · obtain ⟨i, _, hi⟩ := List.mem_filterMap.mp hc
    obtain ⟨hint, hhinted, rfl⟩ := Option.map_eq_some_iff.mp hi
    exact hhint i hint hhinted
  · split at hip
    next => cases hip
    next =>
      rw [List.mem_singleton.mp hip]
      trivial

theorem unbroken_of_spelled (h : s.Spelled IsWord) : ∀ name, .reg name ∈ s.operands → carriageReturn ∉ name := by
  intro name hmem hreturn
  have hword : IsWord name := h.operands _ hmem
  cases hword.isWordByte _ hreturn

/-- What an instruction is rejected for can be told. -/
theorem kept_of_plan_error {op : Opcode} {operands : List Operand}
    (h : ∀ name, .reg name ∈ operands → carriageReturn ∉ name) {error : Error}
    (hp : (e.plan op.code operands).2 = .error error) : Kept error.body := by
  rw [Engine.plan_of_ofCode? e operands (Opcode.ofCode?_code op)] at hp
  have hunbroken : Unbroken (Action.ofOperands op operands >>= e.machine.plan e.latch) :=
    (unbroken_ofOperands h op).bind (unbroken_plan e.machine e.latch)
  generalize (Action.ofOperands op operands >>= e.machine.plan e.latch) = planned at hp hunbroken
  cases planned with
  | ok t => cases hp
  | error cause =>
    cases hp
    exact kept_body (hunbroken cause rfl)

theorem settled_reject_events {α : Type} (e : Engine) (op : Bytes) (error : Error) :
    (e.reject op error : Effect α).settled.events = if e.busy then [] else [.error op error.body] := by
  rw [Engine.reject_eq]
  unfold Effect.settled
  cases e.busy with
  | true => rfl
  | false => rfl

/-- A statement tells of texts that come back, unless its word is unknown: then it fails and tells of the word and
nothing else. -/
theorem execute_events (e : Engine) (h : s.Spelled IsWord) :
    (∀ event ∈ (e.execute s.word s.operands).settled.events, event.Regular) ∨
      ∃ error, (e.execute s.word s.operands).settled.reply = .error error ∧ Kept error.body ∧
        (e.execute s.word s.operands).settled.events = [.error s.word error.body] := by
  unfold Engine.execute
  cases hn : Opcode.ofName? s.word with
  | none =>
    dsimp only
    unfold Engine.unknown
    cases hr : e.refusal? s.word with
    | some error => exact .inl fun event hevent => by cases hevent
    | none =>
      have hfree := (Engine.refusal?_eq_none_iff.mp hr).1
      refine .inr ⟨⟨[], .unknownMnemonic s.word⟩, ?_, kept_body (carriageReturn_not_mem_quoted s.word), ?_⟩
      · rw [Effect.settled_reply, Engine.reject_eq]
      · dsimp only
        rw [settled_reject_events, hfree]
        rfl
  | some op =>
    left
    dsimp only
    unfold Engine.dispatch
    rw [Opcode.nameOfCode_code]
    dsimp only
    cases hr : e.refusal? op.name with
    | some error => exact fun event hevent => by cases hevent
    | none =>
      have hfree := (Engine.refusal?_eq_none_iff.mp hr).1
      obtain ⟨log, planned, hplan⟩ : ∃ log planned, e.plan op.code s.operands = (log, planned) := ⟨_, _, rfl⟩
      rw [hplan]
      cases planned with
      | error error =>
        have hbody := kept_of_plan_error (unbroken_of_spelled h) (congrArg Prod.snd hplan)
        dsimp only
        rw [Effect.settled_after]
        dsimp only
        rw [settled_reject_events, hfree]
        exact List.forall_mem_singleton.mpr ⟨kept_opcodeName op, hbody⟩
      | ok t =>
        obtain ⟨_, action, _, _, hp⟩ := Engine.plan_eq_ok (congrArg Prod.snd hplan)
        exact regular_of_commit hp e.ip

/-- How a run can end in what it tells: with an unknown word, or like any other. -/
def Closing (events : List Event) : Prop :=
  events = [] ∨ ∃ word body, events = [.error word body] ∧ IsCapital word ∧ carriageReturn ∉ word ∧ Kept body

theorem runStatements_events {statements : List Statement} (h : ∀ s ∈ statements, s.Spelled IsWord)
    (o : ScriptOptions) (done : Nat) (e : Engine) (events : Array Event) (log : Array LogEntry) :
    ∃ regular closing, (runStatements o done statements e events log).events.toList =
        events.toList ++ (regular ++ closing) ∧
      (∀ event ∈ regular, event.Regular) ∧ Closing closing := by
  induction statements generalizing done e events log with
  | nil => exact ⟨[], [], by simp [runStatements], by simp, .inl rfl⟩
  | cons s rest ih =>
    obtain ⟨hs, hrest⟩ := List.forall_mem_cons.mp h
    rw [runStatements]
    cases o.obstacle? done with
    | some failure => exact ⟨[], [], by simp, by simp, .inl rfl⟩
    | none =>
      dsimp only
      rcases execute_events e hs with hregular | ⟨error, hreply, hbody, htold⟩
      · cases hreply : (e.execute s.word s.operands).settled.reply with
        | error error =>
          exact ⟨(e.execute s.word s.operands).settled.events, [], by simp, hregular, .inl rfl⟩
        | ok result =>
          dsimp only
          split
          next => exact ⟨(e.execute s.word s.operands).settled.events, [], by simp, hregular, .inl rfl⟩
          next =>
            obtain ⟨regular, closing, hevents, hall, hclosing⟩ := ih hrest (done + 1)
              (e.execute s.word s.operands).settled.engine
              (events ++ (e.execute s.word s.operands).settled.events)
              (log ++ (e.execute s.word s.operands).settled.log)
            refine ⟨(e.execute s.word s.operands).settled.events ++ regular, closing, ?_, ?_, hclosing⟩
            · rw [hevents]
              simp
            · exact List.forall_mem_append.mpr ⟨hregular, hall⟩
      · rw [hreply]
        obtain ⟨word, hword, heq⟩ := hs.word
        obtain ⟨hcapital, hreturn⟩ := isCapital_upper hword
        rw [← heq] at hcapital hreturn
        exact ⟨[], [.error s.word error.body], by simp [htold], by simp,
          .inr ⟨_, _, rfl, hcapital, hreturn, hbody⟩⟩

theorem runScript_events (o : ScriptOptions) (source : Bytes) :
    ∃ regular closing, (runScript o source).events.toList = regular ++ closing ∧
      (∀ event ∈ regular, event.Regular) ∧ Closing closing := by
  unfold runScript
  cases hp : parse source with
  | error error => exact ⟨[], [], rfl, by simp, .inl rfl⟩
  | ok statements =>
    have hwords : ∀ s ∈ statements, s.Spelled IsWord :=
      fun s hs => (spelled_of_parse hp s hs).mono fun _ hword => hword.1
    obtain ⟨regular, closing, hevents, hall, hclosing⟩ := runStatements_events hwords o 0
      (.ofOptions { capacity := o.capacity, latch := o.latch }) #[] #[]
    exact ⟨regular, closing, hevents, hall, hclosing⟩

end Told

section Recorded

variable {r : Recorder}

/-- Every text of the row but its operation comes back. -/
structure TraceRow.Framed (row : TraceRow) : Prop where
  event : Kept row.event
  target : Kept row.target
  detail : Kept row.detail

/-- Every text of the row comes back. -/
structure TraceRow.Whole (row : TraceRow) : Prop extends row.Framed where
  op : Kept row.op

/-- All that was recorded comes back, and so would a row of the operation under way. -/
structure Recorder.Tidy (r : Recorder) : Prop where
  rows : ∀ row ∈ r.rows.toList, row.Whole
  lastOp : Kept r.lastOp

theorem Recorder.rows_add (r : Recorder) (row : TraceRow) :
    ∃ n, (r.add row).rows.toList = r.rows.toList.drop n ++ [row] := by
  rw [toList_rows_add, latestRows]
  split
  next h =>
    obtain ⟨n, hn⟩ : ∃ n, r.limit.toNat = n + 1 := ⟨r.limit.toNat - 1, by omega⟩
    rw [hn, List.rtake_concat_succ]
    exact ⟨_, rfl⟩
  next => exact ⟨0, rfl⟩

theorem Recorder.whole_add (hr : ∀ row ∈ r.rows.toList, row.Whole) {row : TraceRow} (hrow : row.Whole) :
    ∀ row' ∈ (r.add row).rows.toList, row'.Whole := by
  obtain ⟨n, hrows⟩ := r.rows_add row
  intro row' hmem
  rw [hrows, List.mem_append, List.mem_singleton] at hmem
  rcases hmem with hold | rfl
  · exact hr row' (List.mem_of_mem_drop hold)
  · exact hrow

theorem kept_nil : Kept [] := by decide +kernel

/-- The words that a recorder adds of its own. -/
theorem kept_recorderWords : ∀ word ∈ ["log", "error", "register", "stack", "ip", "IP"], Kept (utf8 word) := by
  decide +kernel

theorem Recorder.Tidy.record (hr : r.Tidy) {event : Event} (h : event.Regular) : (r.record event).Tidy := by
  have hword := kept_recorderWords
  simp only [List.forall_mem_cons] at hword
  obtain ⟨hlog, herror, hregister, hstack, hip, htarget, -⟩ := hword
  cases event with
  | log op detail => exact ⟨whole_add hr.rows ⟨⟨hlog, kept_nil, h.2⟩, h.1⟩, h.1⟩
  | error op detail => exact ⟨whole_add hr.rows ⟨⟨herror, kept_nil, h.2⟩, h.1⟩, h.1⟩
  | register name v => exact ⟨whole_add hr.rows ⟨⟨hregister, h, kept_hexValue v⟩, hr.lastOp⟩, hr.lastOp⟩
  | stack index cell hint => exact ⟨whole_add hr.rows ⟨⟨hstack, kept_stackCellText index, h⟩, hr.lastOp⟩, hr.lastOp⟩
  | ip v => exact ⟨whole_add hr.rows ⟨⟨hip, htarget, kept_nil⟩, hr.lastOp⟩, hr.lastOp⟩

theorem Recorder.Tidy.recordAll (hr : r.Tidy) {events : List Event} (h : ∀ event ∈ events, event.Regular) :
    (events.foldl Recorder.record r).Tidy := by
  induction events generalizing r with
  | nil => exact hr
  | cons event rest ih =>
    obtain ⟨hevent, hrest⟩ := List.forall_mem_cons.mp h
    exact ih (hr.record hevent) hrest

/-- The last row of a script whose last word is unknown. -/
structure TraceRow.Foreign (row : TraceRow) : Prop extends row.Framed where
  capital : IsCapital row.op
  unbroken : carriageReturn ∉ row.op

/-- All rows come back as they are, but for a last one about an unknown word. -/
def FromScript (rows : List TraceRow) : Prop :=
  ∃ tidy last, rows = tidy ++ last ∧ (∀ row ∈ tidy, row.Whole) ∧
    (last = [] ∨ ∃ row, last = [row] ∧ row.Foreign)

/-- What a recorder has of a script. -/
def recorded (o : ScriptOptions) (source : Bytes) (limit : Int) : Recorder :=
  ({ limit } : Recorder).recordAll (runScript o source).events

theorem fromScript_recorded (o : ScriptOptions) (source : Bytes) (limit : Int) :
    FromScript (recorded o source limit).rows.toList := by
  obtain ⟨regular, closing, hevents, hregular, hclosing⟩ := runScript_events o source
  have htidy : (regular.foldl Recorder.record { limit }).Tidy :=
    Recorder.Tidy.recordAll ⟨by simp, kept_nil⟩ hregular
  rw [recorded, Recorder.recordAll, ← Array.foldl_toList, hevents, List.foldl_append]
  rcases hclosing with rfl | ⟨word, body, rfl, hcapital, hunbroken, hbody⟩
  · exact ⟨_, [], (List.append_nil _).symm, htidy.rows, .inl rfl⟩
  · obtain ⟨n, hrows⟩ := Recorder.rows_add { regular.foldl Recorder.record { limit } with lastOp := word }
      ⟨(regular.foldl Recorder.record { limit }).nextSeq, utf8 "error", word, [], none, body⟩
    have herror : Kept (utf8 "error") := kept_recorderWords "error" (by decide)
    refine ⟨_, _, hrows, ?_, .inr ⟨_, rfl, ⟨herror, kept_nil, hbody⟩, hcapital, hunbroken⟩⟩
    exact fun row hmem => htidy.rows row (List.mem_of_mem_drop hmem)

end Recorded

end StackMachine
