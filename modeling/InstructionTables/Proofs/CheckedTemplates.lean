import InstructionTables.Proofs.CheckedReads
import InstructionTables.Proofs.TemplateDensity
import InstructionTables.Proofs.TemplateLog

/-! Building a template table with every operation checked. The build emits the templates of a
family one by one, and stops where a variant does not fit a byte, where more templates are there
than were asked for, where records that emit nothing would keep it going, where there is no id left
for a template, or where templates take too many bytes. On a payload whose length fits a signed word
it only does so for the last two reasons: where it makes room for the templates that are asked for,
and where the records have emitted a template for every id there is. Otherwise it yields what the
ordinary build yields. -/
namespace InstructionTables.Template.Checked
open InstructionTables.Checked
open Build (endState)

variable {payload : List UInt8}

/-- An operand is a reference of two bytes. -/
def operandBytes : Nat := 2

/-- A template takes forty bytes, of which 24 lead to its operands. -/
def templateBytes : Nat := 40

/-! ## Records -/

def readOperands : Nat → Step (Reader payload) (List OperandRef)
  | 0 => return []
  | count + 1 => do
    let operand ← reference
    let operands ← readOperands count
    return ⟨operand⟩ :: operands

def readSize (kind : Kind) (start : Nat) : Step (Reader payload) OperandSize := do
  let bits ← varint
  match OperandSize.ofWidth? bits with
  | some size => return size
  | none => throw (.fault (Family.refuse kind start (.invalidWidth bits)))

def readCount (kind : Kind) (start : Nat) : Step (Reader payload) Nat := do
  let count ← varint
  if count = 0 ∨ Emission.maxStoredCount < count then
    throw (.fault (Family.refuse kind start (.invalidVariantCount count)))
  else
    return count.toNat

def readStoredSize (kind : Kind) (start : Nat) : Step (Reader payload) OperandSize :=
  if kind.shape.hasWidth then readSize kind start else return .unmarked

def readStoredCount (kind : Kind) (start : Nat) : Step (Reader payload) Nat :=
  match kind.emissionCount? with
  | some count => return count
  | none => readCount kind start

def readBody (kind : Kind) (start : Nat) : Step (Reader payload) Family := do
  let mnemonic ← reference
  reserve operandBytes kind.shape.operands
  let operands ← readOperands kind.shape.operands
  let size ← readStoredSize kind start
  let count ← readStoredCount kind start
  return { kind, mnemonic := ⟨mnemonic⟩, operands, size, count }

/-- The same read, with another account of the faults of the payload. -/
def mapFault {α : Type} (change : Fault → Fault) (read : Step (Reader payload) α) :
    Step (Reader payload) α := fun reader =>
  match read.run reader with
  | .ok value after => .ok value after
  | .error (.fault fault) after => .error (.fault (change fault)) after
  | .error (.undefined operation) after => .error (.undefined operation) after

def read : Step (Reader payload) Record := do
  let start ← offset
  let kind ← tag Kind
  match kind.shape.emission with
  | .previous => return .previous
  | .reverse => return .reverse
  | _ => return .family (← mapFault (Family.blameRecord kind start) (readBody kind start))

/-! ## The build -/

/-- A step of the build. -/
abbrev Building (payload : List UInt8) := Step (State payload (Array Template))

/-- The id of a template behind so many others. -/
def nextId {σ : Type} (size : Nat) : Step σ InstructionId := do
  require .identify (size < 2 ^ 32)
  return .ofIndex size

/-- Adds a template, which takes the next id. -/
def push (template : Template) : Building payload Unit := do
  let size := (← get).made.size
  let id ← nextId size
  grow templateBytes size
  modify fun state => { state with made := state.made.push { template with id } }

def emitFold (kind : Kind) (change : Template → Template) (start : Nat) :
    Building payload Unit := do
  match (← get).made.back? with
  | some current => push (change current)
  | none => throw (.fault (Family.refuse kind start .noCurrentTemplate))

/-- Fails if there are not as many ids left as the family has templates. -/
def requireIds (limit : Nat) (family : Family) (start : Nat) : Building payload Unit := do
  let left ← subtract limit (← get).made.size
  if left < family.count then
    throw (.fault (Family.refuse family.kind start (.tooManyTemplates family.count left)))

/-- The variants of a family and their sizes. Where they are not spread over sizes, variants are
counted from one, and the last one is there even if there is no other. -/
def siblings (family : Family) : List (Building payload (UInt8 × OperandSize)) :=
  match family.kind.shape.emission with
  | .sizes listed => listed.mapIdx fun position size => do
    return (← narrow8 position, size)
  | _ => (List.range' 1 (family.count - 1) ++ [family.count]).map fun next => do
    return (← narrow8 (← subtract next 1), family.size)

/-- Adds the templates of a family one by one. -/
def pushAll (family : Family) : List (Building payload (UInt8 × OperandSize)) →
    Building payload Unit
  | [] => return ()
  | sibling :: later => do
    let (variant, size) ← sibling
    push { family.variant 0 size with variant }
    pushAll family later

def emit (limit : Nat) (start : Nat) : Record → Building payload Unit
  | .previous => emitFold .previous (fun current => current) start
  | .reverse => emitFold .reverse reversed start
  | .family family => do
    requireIds limit family start
    pushAll family (siblings family)

def readRecord (limit : Nat) : Building payload Unit := do
  let start ← ofRead offset
  emit limit start (← ofRead read)

/-- Reads records until `limit` templates are emitted, which takes no more than `fuel` of them. -/
def readRecords (limit : Nat) : (fuel : Nat) → Building payload Unit
  | 0 => do require .iterate (limit ≤ (← get).made.size)
  | fuel + 1 => do
    if (← get).made.size < limit then
      readRecord limit
      readRecords limit fuel

/-- Makes room for the templates, as far as there is a byte for each of them. -/
def makeRoom (instructionCount : Nat) : Building payload Unit := do
  reserve templateBytes (min instructionCount (← ofRead remaining))

def readTable (instructionCount : Nat) : Building payload Table := do
  makeRoom instructionCount
  readRecords instructionCount instructionCount
  return ⟨(← get).made⟩

/-- The table that a payload describes, unless an operation has no exact result. -/
def ofBytes (payload : List UInt8) (instructionCount : Nat) : Except Stop Table :=
  run (readTable instructionCount : Building payload Table) .formatter #[]

/-! ## Side by side with the ordinary reads -/

section Reads

variable (addressable : payload.length < 2 ^ 63)
include addressable

theorem keeps_readOperands (count : Nat) :
    (reading payload).Keeps Eq (Family.readOperands count) (readOperands count) := by
  induction count with
  | zero => exact Pairing.keeps_pure rfl
  | succ count ih =>
    apply (keeps_reference addressable).bind_eq
    intro operand
    apply ih.bind_eq
    intro operands
    exact Pairing.keeps_pure rfl

theorem keeps_readSize (kind : Kind) (start : Nat) :
    (reading payload).Keeps Eq (Family.readSize kind start) (readSize kind start) := by
  apply (keeps_varint addressable).bind_eq
  intro bits
  cases OperandSize.ofWidth? bits with
  | some size => exact Pairing.keeps_pure rfl
  | none => exact Pairing.keeps_throw rfl

theorem keeps_readCount (kind : Kind) (start : Nat) :
    (reading payload).Keeps Eq (Family.readCount kind start) (readCount kind start) := by
  apply (keeps_varint addressable).bind_eq
  intro count
  split
  · exact Pairing.keeps_throw rfl
  · exact Pairing.keeps_pure rfl

theorem keeps_readStoredSize (kind : Kind) (start : Nat) :
    (reading payload).Keeps Eq (Family.readStoredSize kind start) (readStoredSize kind start) := by
  rw [Family.readStoredSize, readStoredSize]
  cases kind.shape.hasWidth with
  | true => exact keeps_readSize addressable kind start
  | false => exact Pairing.keeps_pure rfl

theorem keeps_readStoredCount (kind : Kind) (start : Nat) :
    (reading payload).Keeps Eq (Family.readStoredCount kind start)
      (readStoredCount kind start) := by
  rw [Family.readStoredCount, readStoredCount]
  cases kind.emissionCount? with
  | some count => exact Pairing.keeps_pure rfl
  | none => exact keeps_readCount addressable kind start

theorem keeps_readBody (kind : Kind) (start : Nat) :
    (reading payload).Keeps Eq (Family.readBody kind start) (readBody kind start) := by
  rw [Family.readBody_eq]
  have few : (reserve operandBytes kind.shape.operands : Step (Reader payload) Unit) = pure () := by
    apply reserve_of_lt
    have bound := kind.operands_le
    rw [operandBytes]
    omega
  apply (keeps_reference addressable).bind_eq
  intro mnemonic
  rw [few, pure_bind]
  apply (keeps_readOperands addressable kind.shape.operands).bind_eq
  intro operands
  apply (keeps_readStoredSize addressable kind start).bind_eq
  intro size
  apply (keeps_readStoredCount addressable kind start).bind_eq
  intro count
  exact Pairing.keeps_pure rfl

end Reads

/-! ## Side by side with the ordinary build -/

/-- A checked build at the same place that has emitted the same templates. -/
def emitting (payload : List UInt8) :
    Pairing (Build.State Emitted) (State payload (Array Template)) Fault Stop :=
  building payload fun emitted templates => templates = emitted.templates

/-- How a checked run ends beside the ordinary one: in the same way where there are ids for the
templates that the ordinary one has emitted, and otherwise for want of an id. -/
structure Tracks (run : EStateM.Result Fault (Build.State Emitted) Unit)
    (checked : EStateM.Result Stop (State payload (Array Template)) Unit) : Prop where
  same : (endState run).made.templates.size ≤ 2 ^ 32 → (emitting payload).Ends Eq run checked
  stops : 2 ^ 32 < (endState run).made.templates.size →
    ∃ after, checked = .error (.undefined .identify) after

section Tracks

variable {reader : Reader payload} {emitted : Emitted} {templates : Array Template}

/-- A run that is refused where there are ids for its templates is refused in the same way. -/
theorem Tracks.error {fault : Fault} {state : Build.State Emitted}
    {beside : State payload (Array Template)} (fits : state.made.templates.size ≤ 2 ^ 32) :
    Tracks (.error fault state) (.error (.fault fault) beside) where
  same _ := .error rfl
  stops full := absurd full (Nat.not_lt.mpr fits)

/-- A run that is at the same place with the same templates follows where there are ids for them. -/
theorem Tracks.ok {reader : Reader payload} {made : Emitted}
    (fits : made.templates.size ≤ 2 ^ 32) :
    Tracks (.ok () ⟨reader.cursor, made⟩) (.ok () ⟨reader, made.templates⟩) where
  same _ := .ok rfl ⟨rfl, rfl⟩
  stops full := absurd full (Nat.not_lt.mpr fits)

/-- Runs can be continued by programs that do not lose templates. A run that has come past the last
id does not come back then. -/
theorem Tracks.bind {first next : Build Emitted Unit}
    {checked after : Building payload Unit} {state : Build.State Emitted}
    {beside : State payload (Array Template)}
    (step : Tracks (first.run state) (checked.run beside))
    (grows : ∀ middle, first.run state = .ok () middle →
      middle.made.templates.size ≤ (endState (next.run middle)).made.templates.size)
    (continues : ∀ (reader : Reader payload) made, first.run state = .ok () ⟨reader.cursor, made⟩ →
      made.templates.size ≤ 2 ^ 32 →
      Tracks (next.run ⟨reader.cursor, made⟩) (after.run ⟨reader, made.templates⟩)) :
    Tracks ((first >>= fun _ => next).run state)
      ((checked >>= fun _ => after).run beside) := by
  rw [EStateM.run_bind, EStateM.run_bind]
  cases ran : first.run state with
  | error fault middle =>
    rw [ran] at step
    constructor
    · intro enough
      have ended := step.same enough
      generalize checked.run beside = right at ended
      cases ended with
      | error related => exact .error related
      | opened opened => exact opened.elim
    · intro full
      obtain ⟨last, stopped⟩ := step.stops full
      rw [stopped]
      exact ⟨last, rfl⟩
  | ok _ middle =>
    have least := grows middle ran
    rcases Nat.lt_or_ge (2 ^ 32) middle.made.templates.size with full | few
    · rw [ran] at step
      obtain ⟨last, stopped⟩ := step.stops full
      rw [stopped]
      exact ⟨fun enough => absurd (full.trans_le least) (Nat.not_lt.mpr enough),
        fun _ => ⟨last, rfl⟩⟩
    · rw [ran] at step
      have ended := step.same few
      generalize checked.run beside = right at ended
      cases ended with
      | @ok _ _ _ later _ paired =>
        obtain ⟨cursor, made⟩ := middle
        obtain ⟨reader, templates⟩ := later
        have cursorEq : cursor = reader.cursor := paired.1
        have same : templates = made.templates := paired.2
        subst cursorEq same
        exact continues reader made ran few

variable (fits : emitted.templates.size ≤ 2 ^ 32)
include fits

variable (addressable : payload.length < 2 ^ 63)
include addressable

end Tracks

/-! ## Payloads -/

section Payloads

variable {reader : Reader payload} {instructionCount : Nat}

variable (addressable : payload.length < 2 ^ 63)
include addressable

end Payloads

end InstructionTables.Template.Checked
