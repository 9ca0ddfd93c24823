import InstructionTables.Proofs.DispatchAcceptance
import InstructionTables.Proofs.ParallelDispatch

/-! What it changes to check for room up front. A payload that is too short for the slots it
announces is refused in any case, at the latest where it ends. A build that checks for room up
front and one that does not are run side by side: they come to the same places and make the same
arrays until one of the checks fails, and it fails only where the other build will fail too. -/
namespace InstructionTables.Dispatch

/-! ## Announced slots -/

/-- The place is reached by reading these records from the start of a payload. -/
def Reached (payload : List UInt8) (records : List Record) (cursor : Cursor) : Prop :=
  ∃ start, Cursor.afterHeader payload .decoder = .ok start ∧
    start.Spans (records.flatMap Record.items) cursor

/-- At the place it is known how many slots follow: those of the table behind the header, and those
of an array behind the record that defines it. -/
inductive Announced (payload : List UInt8) (config : Config) : Cursor → Nat → Prop where
  | table {cursor : Cursor} :
      Reached payload [] cursor → Announced payload config cursor config.slotCount
  | array {cursor : Cursor} {records : List Record} {size : UInt32} {reference : UInt16} :
      size ≠ 0 → Reached payload (records ++ [.array size reference]) cursor →
      Announced payload config cursor size.toNat

/-- The fault is that of a check for the room of announced slots. -/
def RefusedEarly (payload : List UInt8) (config : Config) (fault : Fault) : Prop :=
  ∃ slots state, Announced payload config state.cursor slots ∧
    (requireRoom slots).run state = .error fault state

/-- No more bytes are left than a word can count, so that a number of bytes that does not fit a
word is refused like the largest one that does. -/
theorem requireRoom_run {state : Build.State Arena} (slots : Nat)
    (addressable : state.cursor.remaining < 2 ^ 63) :
    (requireRoom slots).run state =
      if slots * Record.minSize ≤ state.cursor.remaining then .ok () state
      else .error (.truncated state.cursor.offset (room slots - state.cursor.remaining)) state := by
  have exact_iff : room slots ≤ state.cursor.remaining ↔
      slots * Record.minSize ≤ state.cursor.remaining := by
    rw [room]
    omega
  simp only [EStateM.run, requireRoom, Cursor.holds_iff, exact_iff]

theorem requireRoom_error {before after : Build.State Arena} {fault : Fault}
    (ran : (requireRoom slots).run before = .error fault after) :
    fault = .truncated before.cursor.offset (room slots - before.cursor.remaining) ∧
      after = before := by
  rw [EStateM.run, requireRoom] at ran
  split at ran <;> cases ran
  exact ⟨rfl, rfl⟩

/-! ## The two builds side by side -/

section Runs

variable {payload : List UInt8} {config : Config}

/-- Both builds are in the same state, between two records. They fail alike unless a check for room
makes the first one fail early. -/
def beforeShortage (payload : List UInt8) (config : Config) :
    Pairing (Build.State Arena) (Build.State Arena) where
  states state beside := state = beside ∧ ∃ records, Reached payload records state.cursor
  faults := Eq
  opens := RefusedEarly payload config

/-- A step that reads nothing leaves both builds in the same state. -/
theorem keeps_unread {step : Build Arena α}
    (unread : ∀ {before after value}, step.run before = .ok value after →
      after.cursor = before.cursor) :
    (beforeShortage payload config).Keeps Eq step step := by
  rintro state _ ⟨rfl, records, reached⟩
  cases ran : step.run state with
  | ok value after => exact .ok rfl ⟨rfl, records, unread ran ▸ reached⟩
  | error fault after => exact .error rfl

theorem keeps_handler (id : UInt16) (start : Nat) : (beforeShortage payload config).Keeps Eq
    (config.requireHandler id start) (config.requireHandler id start) :=
  keeps_unread fun ran => congrArg Build.State.cursor (requireHandler_ok_iff.mp ran).2.2

theorem keeps_fresh (reference : UInt16) (start : Nat) : (beforeShortage payload config).Keeps Eq
    (Arena.requireFresh reference start) (Arena.requireFresh reference start) :=
  keeps_unread fun ran => congrArg Build.State.cursor (requireFresh_ok_iff.mp ran).2

/-- Where slots are announced, the checking build fails for want of room or goes on like the other
one. -/
theorem ends_check {state : Build.State Arena} {next twin : Build Arena α}
    (announced : Announced payload config state.cursor slots)
    (reached : Reached payload records state.cursor)
    (keeps : (beforeShortage payload config).Keeps Eq next twin) :
    (beforeShortage payload config).Ends Eq
      ((do RoomCheck.upFront.run slots; next).run state)
      ((do RoomCheck.whenMissing.run slots; twin).run state) := by
  have continued := keeps state state ⟨rfl, records, reached⟩
  rw [EStateM.run_bind]
  cases ran : (RoomCheck.upFront.run slots).run state with
  | ok value after =>
    obtain ⟨-, rfl⟩ := check_ok_iff.mp ran
    exact continued
  | error fault after =>
    obtain ⟨-, rfl⟩ := requireRoom_error ran
    exact .opened ⟨slots, _, announced, ran⟩

theorem ends_readArray {readSlot twin : Build Arena Node} {state : Build.State Arena}
    {size : UInt32} {reference : UInt16}
    (keeps : (beforeShortage payload config).Keeps Eq readSlot twin) (defined : size ≠ 0)
    (reached : Reached payload (records ++ [.array size reference]) state.cursor) (start : Nat) :
    (beforeShortage payload config).Ends Eq
      ((readArray .upFront readSlot size.toNat reference start).run state)
      ((readArray .whenMissing twin size.toNat reference start).run state) := by
  have afterRoom : (beforeShortage payload config).Keeps Eq
      (do
        let slots ← readSlots readSlot size.toNat #[]
        Arena.requireFresh reference start
        Arena.define reference size.toNat slots)
      (do
        let slots ← readSlots twin size.toNat #[]
        Arena.requireFresh reference start
        Arena.define reference size.toNat slots) := by
    apply (StepsKeep.readSlots keeps size.toNat #[]).bind_eq
    intro slots
    apply (keeps_fresh reference start).bind_eq
    intro _
    apply keeps_unread
    intro before after node ran
    rw [(define_ok_iff.mp ran).2]
  rw [readArray, readArray, EStateM.run_bind, EStateM.run_bind]
  cases ran : (Arena.requireFresh reference start).run state with
  | error fault after => exact .error rfl
  | ok value after =>
    obtain ⟨-, rfl⟩ := requireFresh_ok_iff.mp ran
    exact ends_check (.array defined reached) reached afterRoom

theorem keeps_readSlot {readNested twin : Nat → UInt16 → Nat → Build Arena Node}
    (nested : ∀ {size : UInt32} {reference records} {state : Build.State Arena}, size ≠ 0 →
      Reached payload (records ++ [.array size reference]) state.cursor → ∀ start,
      (beforeShortage payload config).Ends Eq ((readNested size.toNat reference start).run state)
        ((twin size.toNat reference start).run state)) :
    (beforeShortage payload config).Keeps Eq (readSlot config readNested)
      (readSlot config twin) := by
  have offsetKeeps : (beforeShortage payload config).Keeps Eq (Build.ofRead Read.offset)
      (Build.ofRead Read.offset) := by
    apply keeps_unread
    intro before after value ran
    exact (Read.offset_ok_iff.mp (Build.ofRead_ok_iff.mp ran).1).2
  apply offsetKeeps.bind_eq
  rintro start state _ ⟨rfl, records, payloadStart, opening, spans⟩
  rw [EStateM.run_bind, EStateM.run_bind]
  cases ran : (Build.ofRead Record.read).run state with
  | error fault after => exact .error rfl
  | ok record after =>
    -- If the record defines an array, it is what announces the slots that `nested` reads.
    obtain ⟨recordRan, -⟩ := Build.ofRead_ok_iff.mp ran
    have reached : Reached payload (records ++ [record]) after.cursor := by
      refine ⟨payloadStart, opening, ?_⟩
      rw [List.flatMap_append, List.flatMap_singleton]
      exact spans.trans (record_ok_iff.mp recordRan)
    cases record with
    | handler id =>
      have handlerKeeps : (beforeShortage payload config).Keeps Eq
          (do return Node.handler (← config.requireHandler id start))
          (do return Node.handler (← config.requireHandler id start)) := by
        apply (keeps_handler id start).bind_eq
        intro handler
        exact Pairing.keeps_pure rfl
      exact handlerKeeps _ _ ⟨rfl, _, reached⟩
    | array size reference =>
      by_cases shared : size = 0
      · simp only [if_pos shared]
        have shareKeeps : (beforeShortage payload config).Keeps Eq (Arena.share reference start)
            (Arena.share reference start) :=
          keeps_unread fun ran => congrArg Build.State.cursor (share_ok_iff.mp ran).2
        exact shareKeeps _ _ ⟨rfl, _, reached⟩
      · simp only [if_neg shared]
        exact nested shared reached start

theorem keeps_readNode (levels : Nat) : (beforeShortage payload config).Keeps Eq
    (readNode .upFront config levels) (readNode .whenMissing config levels) := by
  induction levels with
  | zero => exact keeps_readSlot fun _ _ _ => .error rfl
  | succ levels ih => exact keeps_readSlot (ends_readArray ih)

theorem ends_readTable {state : Build.State Arena} (reached : Reached payload [] state.cursor) :
    (beforeShortage payload config).Ends Eq ((readTable .upFront config).run state)
      ((readTable .whenMissing config).run state) := by
  rw [readTable, readTable, EStateM.run_bind, EStateM.run_bind]
  cases ran : (config.requireHandler config.invalidHandler.value 0).run state with
  | error fault after => exact .error rfl
  | ok invalidHandler after =>
    obtain ⟨-, -, rfl⟩ := requireHandler_ok_iff.mp ran
    apply ends_check (.table reached) reached
    apply (StepsKeep.readSlots (keeps_readNode (maxDepth - 1)) config.slotCount #[]).bind_eq
    intro roots
    have madeKeeps : (beforeShortage payload config).Keeps Eq (Build.made : Build Arena Arena)
        Build.made :=
      keeps_unread fun ran => congrArg Build.State.cursor (Build.made_ok_iff.mp ran).2
    apply madeKeeps.bind_eq
    intro arena
    exact Pairing.keeps_pure rfl

end Runs

/-! ## Tables -/

/-- A payload that is refused without checks for room is refused with them, for the same fault or
by one of the checks. -/
theorem buildWith_refused {payload : List UInt8} {config : Config} {fault : Fault}
    (refused : (Table.buildWith .whenMissing payload config).result = .error fault) :
    Table.ofBytes payload config = .error fault ∨
      ∃ early, Table.ofBytes payload config = .error early ∧
        RefusedEarly payload config early := by
  have agrees : Table.ofBytes payload config = (Table.buildWith .whenMissing payload config).result ∨
      ∃ early, Table.ofBytes payload config = .error early ∧
        RefusedEarly payload config early :=
    Pairing.report_agrees
      (fun start opening => ends_readTable ⟨start, opening, Cursor.spans_nil_iff.mpr rfl⟩)
      (fun _ _ paired => paired.1) (fun _ _ related => related)
  rwa [refused] at agrees

/-- To check for room up front is to refuse earlier and nothing else. The same payloads are
accepted, as the same tables, and what is refused without the checks is refused with them, for the
same fault or because a check found that announced slots have no room. Each check decides like the
number of bytes that the slots take, however large that is. -/
theorem ofBytes_room (addressable : payload.length < 2 ^ 63) (config : Config) :
    (∀ table, (Table.buildWith .whenMissing payload config).result = .ok table ↔
      Table.ofBytes payload config = .ok table) ∧
    (∀ fault, (Table.buildWith .whenMissing payload config).result = .error fault →
      Table.ofBytes payload config = .error fault ∨
      ∃ offset needed, Table.ofBytes payload config = .error (.truncated offset needed) ∧
        RefusedEarly payload config (.truncated offset needed)) ∧
    ∀ (slots : Nat) (state : Build.State Arena), state.cursor.rest <:+ payload →
      (requireRoom slots).run state =
        if slots * Record.minSize ≤ state.cursor.remaining then .ok () state
        else
          .error (.truncated state.cursor.offset (room slots - state.cursor.remaining)) state := by
  refine ⟨?_, ?_, ?_⟩
  · intro table
    rw [Table.ofBytes, Table.build, buildWith_ok_iff, buildWith_ok_iff]
  · intro fault refused
    rcases buildWith_refused refused with same | ⟨early, earlier, slots, state, announced, ran⟩
    · exact Or.inl same
    · obtain ⟨rfl, -⟩ := requireRoom_error ran
      exact Or.inr ⟨_, _, earlier, slots, state, announced, ran⟩
  · intro slots state within
    exact requireRoom_run slots (within.length_le.trans_lt addressable)

/-- An array of two slots, the second of which is missing. Without checks the first slot is read
before that is found out. A number of slots whose bytes no word can count has no room either. -/
theorem ofBytes_room_missing :
    (Table.buildWith .whenMissing [1, 0, 0xed, 0x1c, 1, 2, 7, 0, 0, 0, 0] ⟨1, 1, {}⟩).result =
        .error (.truncated 11 1) ∧
      Table.ofBytes [1, 0, 0xed, 0x1c, 1, 2, 7, 0, 0, 0, 0] ⟨1, 1, {}⟩ = .error (.truncated 8 3) ∧
      RefusedEarly [1, 0, 0xed, 0x1c, 1, 2, 7, 0, 0, 0, 0] ⟨1, 1, {}⟩ (.truncated 8 3) ∧
      (requireRoom (2 ^ 64 - 1)).run ⟨⟨8, [0, 0, 0]⟩, {}⟩ =
        .error (.truncated 8 (2 ^ 64 - 4)) ⟨⟨8, [0, 0, 0]⟩, {}⟩ := by
  have late : (Table.buildWith .whenMissing [1, 0, 0xed, 0x1c, 1, 2, 7, 0, 0, 0, 0]
      ⟨1, 1, {}⟩).result = .error (.truncated 11 1) := by
    decide +kernel
  have early : Table.ofBytes [1, 0, 0xed, 0x1c, 1, 2, 7, 0, 0, 0, 0] ⟨1, 1, {}⟩ =
      .error (.truncated 8 3) := by
    decide +kernel
  have addressable : ([1, 0, 0xed, 0x1c, 1, 2, 7, 0, 0, 0, 0] : List UInt8).length < 2 ^ 63 := by
    decide
  obtain ⟨-, refused, checks⟩ := ofBytes_room addressable ⟨1, 1, {}⟩
  refine ⟨late, early, ?_, checks _ ⟨⟨8, [0, 0, 0]⟩, {}⟩ ⟨[1, 0, 0xed, 0x1c, 1, 2, 7, 0], rfl⟩⟩
  rcases refused _ late with same | ⟨offset, needed, found, checked⟩
  · rw [early] at same
    cases same
  · rw [early] at found
    cases found
    exact checked

end InstructionTables.Dispatch
