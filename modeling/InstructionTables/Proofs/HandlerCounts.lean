import InstructionTables.Proofs.DispatchFaults

/-! What the number of handlers changes. It decides which handlers exist and nothing else, so a
payload has the same result for a larger number, unless a handler is missing for the smaller one
that exists for the larger. -/
namespace InstructionTables.Dispatch

/-- The fault is that of a handler that is missing while there are `fewer` handlers, and exists
when there are `more`. -/
def MissingBetween (fewer more : Nat) (fault : Fault) : Prop :=
  ∃ id offset, fewer ≤ id.toNat ∧ id.toNat < more ∧ fault = .danglingReference .handler id offset

/-- Both builds are in the same state and fail alike, until the one with fewer handlers misses a
handler that the other one has. -/
def handlerCounts (fewer more : Nat) : Pairing (Build.State Arena) (Build.State Arena) where
  states := Eq
  faults := Eq
  opens := MissingBetween fewer more

section Steps

variable {fewer more : Nat} {config : Config}

/-- What does not look at the number of handlers is the same for both builds. -/
theorem handlerCounts_keeps (step : Build Arena α) :
    (handlerCounts fewer more).Keeps Eq step step := by
  rintro state _ rfl
  cases step.run state with
  | ok value after => exact .ok rfl rfl
  | error fault after => exact .error rfl

/-- A handler is missing in both builds, exists in both, or is missing in the first one only. -/
theorem handlerCounts_keeps_requireHandler (atMost : config.handlerCount ≤ more) (id : UInt16)
    (start : Nat) :
    (handlerCounts config.handlerCount more).Keeps Eq (config.requireHandler id start)
      ({ config with handlerCount := more }.requireHandler id start) := by
  rw [Config.requireHandler, Config.requireHandler]
  by_cases known : id.toNat < config.handlerCount
  · rw [if_pos known, if_pos (known.trans_le atMost)]
    exact Pairing.keeps_pure rfl
  · rw [if_neg known]
    by_cases knownLater : id.toNat < more
    · have missing : MissingBetween config.handlerCount more
          (.danglingReference .handler id.toUInt32 start) := by
        refine ⟨id.toUInt32, start, ?_, ?_, rfl⟩ <;> rw [UInt16.toNat_toUInt32]
        · exact Nat.le_of_not_lt known
        · exact knownLater
      exact fun _ _ _ => .opened missing
    · rw [if_neg knownLater]
      exact Pairing.keeps_throw rfl

theorem handlerCounts_steps_keep (check : RoomCheck) (atMost : config.handlerCount ≤ more) :
    StepsKeep (handlerCounts config.handlerCount more) id check check config
      { config with handlerCount := more } where
  slotCount := rfl
  invalidHandler := rfl
  offset := handlerCounts_keeps _
  record := by
    apply (handlerCounts_keeps _).imp
    rintro record _ rfl
    exact record.rename_id.symm
  handler := handlerCounts_keeps_requireHandler atMost
  room _ := handlerCounts_keeps _
  share _ _ := handlerCounts_keeps _
  fresh _ _ := handlerCounts_keeps _
  define _ _ _ := handlerCounts_keeps _
  tooDeep _ := rfl
  arrays _ _ paired := by rw [paired]

end Steps

/-- The number of handlers only filters. With more handlers the result is the same exactly when no
handler is missing for want of them, and a table that is accepted is accepted with more handlers
as the same table. -/
theorem ofBytes_more_handlers {config : Config} (atMost : config.handlerCount ≤ more)
    (payload : List UInt8) :
    (Table.ofBytes payload config = Table.ofBytes payload { config with handlerCount := more } ↔
      ¬ ∃ id offset, config.handlerCount ≤ id.toNat ∧ id.toNat < more ∧
        Table.ofBytes payload config = .error (.danglingReference .handler id offset)) ∧
    ∀ table, Table.ofBytes payload config = .ok table →
      Table.ofBytes payload { config with handlerCount := more } = .ok table := by
  have agrees : Table.ofBytes payload config =
        Table.ofBytes payload { config with handlerCount := more } ∨
      ∃ fault, Table.ofBytes payload config = .error fault ∧
        MissingBetween config.handlerCount more fault :=
    Pairing.report_agrees
      (fun _ _ => (handlerCounts_steps_keep .upFront atMost).readTable _ _ rfl)
      (fun _ _ paired => paired) (fun _ _ related => related)
  refine ⟨⟨?_, fun none => ?_⟩, fun table accepted => ?_⟩
  · rintro same ⟨id, offset, -, exists_later, refused⟩
    -- The handler would be missing with more handlers too.
    have missing := (ofBytes_refused (same.symm.trans refused)).located
    exact absurd exists_later (Nat.not_lt.mpr missing.1)
  · obtain same | ⟨_, refused, id, offset, missing, exists_later, rfl⟩ := agrees
    · exact same
    · exact absurd ⟨id, offset, missing, exists_later, refused⟩ none
  · obtain same | ⟨fault, refused, -⟩ := agrees
    · rw [← same, accepted]
    · rw [accepted] at refused
      cases refused

/-- A slot with handler 2, where two or three handlers exist. A slot with handler 7 is refused in
both cases. -/
theorem ofBytes_more_handlers_third :
    Table.ofBytes [1, 0, 0xed, 0x1c, 0, 2, 0] ⟨1, 2, {}⟩ ≠
        Table.ofBytes [1, 0, 0xed, 0x1c, 0, 2, 0] ⟨1, 3, {}⟩ ∧
      Table.ofBytes [1, 0, 0xed, 0x1c, 0, 7, 0] ⟨1, 2, {}⟩ =
        Table.ofBytes [1, 0, 0xed, 0x1c, 0, 7, 0] ⟨1, 3, {}⟩ := by
  have more : (Config.mk 1 2 {}).handlerCount ≤ 3 := by decide
  have refused : Table.ofBytes [1, 0, 0xed, 0x1c, 0, 2, 0] ⟨1, 2, {}⟩ =
      .error (.danglingReference .handler 2 4) := by
    decide +kernel
  have later : Table.ofBytes [1, 0, 0xed, 0x1c, 0, 7, 0] ⟨1, 2, {}⟩ =
      .error (.danglingReference .handler 7 4) := by
    decide +kernel
  constructor
  · intro same
    exact (ofBytes_more_handlers more _).1.mp same ⟨2, 4, by decide, by decide, refused⟩
  · apply (ofBytes_more_handlers more _).1.mpr
    rintro ⟨id, offset, -, small, other⟩
    rw [later] at other
    cases other
    exact absurd small (by decide)

end InstructionTables.Dispatch
