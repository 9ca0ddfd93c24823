import InstructionTables.Proofs.ReadSpelling

/-! Two runs side by side. A pairing says which states two runs may be in at the same time and
how they may fail together. Steps that keep to a pairing do so one after the other, so that
programs are compared step by step, on paths that succeed and on paths that fail alike. -/
namespace InstructionTables

/-- What two runs have to do with one another. -/
structure Pairing (σ τ : Type) (ε φ : Type := Fault) where
  /-- The states that the runs may be in at the same time. -/
  states : σ → τ → Prop
  /-- The faults that the runs may end with together. -/
  faults : ε → φ → Prop
  /-- The faults of the first run after which the second one may go on in any way. -/
  opens : ε → Prop

namespace Pairing

variable {σ τ ε φ α β γ δ : Type} {pairing : Pairing σ τ ε φ}
variable {values : α → β → Prop} {results : γ → δ → Prop}

/-- How two runs end that keep to a pairing. -/
inductive Ends (pairing : Pairing σ τ ε φ) (values : α → β → Prop) :
    EStateM.Result ε σ α → EStateM.Result φ τ β → Prop where
  | ok {value : α} {other : β} {state : σ} {beside : τ} :
      values value other → pairing.states state beside →
      Ends pairing values (.ok value state) (.ok other beside)
  | error {fault : ε} {other : φ} {state : σ} {beside : τ} :
      pairing.faults fault other → Ends pairing values (.error fault state) (.error other beside)
  | opened {fault : ε} {state : σ} {result : EStateM.Result φ τ β} :
      pairing.opens fault → Ends pairing values (.error fault state) result

/-- Two programs keep to a pairing when their runs do from all paired states. -/
def Keeps (pairing : Pairing σ τ ε φ) (values : α → β → Prop) (first : EStateM ε σ α)
    (second : EStateM φ τ β) : Prop :=
  ∀ state beside, pairing.states state beside →
    pairing.Ends values (first.run state) (second.run beside)

theorem keeps_pure {value : α} {other : β} (related : values value other) :
    pairing.Keeps values (pure value) (pure other) :=
  fun _ _ paired => .ok related paired

theorem keeps_throw {fault : ε} {other : φ} (related : pairing.faults fault other) :
    pairing.Keeps values (throw fault) (throw other) :=
  fun _ _ _ => .error related

/-- What is known of the values may be weakened. -/
theorem Keeps.imp {first : EStateM ε σ α} {second : EStateM φ τ β}
    {weaker : α → β → Prop} (keeps : pairing.Keeps values first second)
    (implies : ∀ value other, values value other → weaker value other) :
    pairing.Keeps weaker first second := by
  intro state beside paired
  have ended := keeps state beside paired
  generalize first.run state = left, second.run beside = right at ended ⊢
  cases ended with
  | ok related after => exact .ok (implies _ _ related) after
  | error related => exact .error related
  | opened opened => exact .opened opened

/-- Runs that end in paired states can be continued by programs that keep to the pairing. -/
theorem Ends.bind {first : EStateM ε σ α} {second : EStateM φ τ β} {state : σ} {beside : τ}
    {firstNext : α → EStateM ε σ γ} {secondNext : β → EStateM φ τ δ}
    (ended : pairing.Ends values (first.run state) (second.run beside))
    (continues : ∀ value other, values value other →
      pairing.Keeps results (firstNext value) (secondNext other)) :
    pairing.Ends results ((first >>= firstNext).run state)
      ((second >>= secondNext).run beside) := by
  rw [EStateM.run_bind, EStateM.run_bind]
  generalize first.run state = left, second.run beside = right at ended
  cases ended with
  | ok related after => exact continues _ _ related _ _ after
  | error related => exact .error related
  | opened opened => exact .opened opened

/-- Programs that keep to a pairing can be continued by programs that do so. -/
theorem Keeps.bind {first : EStateM ε σ α} {second : EStateM φ τ β}
    {firstNext : α → EStateM ε σ γ} {secondNext : β → EStateM φ τ δ}
    (starts : pairing.Keeps values first second)
    (continues : ∀ value other, values value other →
      pairing.Keeps results (firstNext value) (secondNext other)) :
    pairing.Keeps results (first >>= firstNext) (second >>= secondNext) :=
  fun state beside paired => (starts state beside paired).bind continues

/-- Where both runs have the same value, they can be continued by what takes it. -/
theorem Keeps.bind_eq {first : EStateM ε σ α} {second : EStateM φ τ α}
    {firstNext : α → EStateM ε σ γ} {secondNext : α → EStateM φ τ δ}
    (starts : pairing.Keeps Eq first second)
    (continues : ∀ value, pairing.Keeps results (firstNext value) (secondNext value)) :
    pairing.Keeps results (first >>= firstNext) (second >>= secondNext) := by
  apply starts.bind
  rintro value _ rfl
  exact continues value

/-! ## Builds -/

/-- Builds are paired by where they read and by what they have made. -/
def build (pairing : Pairing Cursor Cursor) (made : σ → τ → Prop) :
    Pairing (Build.State σ) (Build.State τ) where
  states state beside := pairing.states state.cursor beside.cursor ∧ made state.made beside.made
  faults := pairing.faults
  opens := pairing.opens

theorem Keeps.ofRead {pairing : Pairing Cursor Cursor} {made : σ → τ → Prop}
    {first : Read α} {second : Read β} (reads : pairing.Keeps values first second) :
    (pairing.build made).Keeps values (Build.ofRead first) (Build.ofRead second) := by
  intro state beside paired
  have ended := reads state.cursor beside.cursor paired.1
  rw [EStateM.run, EStateM.run, Build.ofRead, Build.ofRead]
  generalize first.run state.cursor = left, second.run beside.cursor = right at ended
  cases ended with
  | ok related after => exact .ok related ⟨after, paired.2⟩
  | error related => exact .error related
  | opened opened => exact .opened opened

/-- Reads still keep to a pairing when their faults are told in other words, as long as the new
words fit together or leave the second read free. -/
theorem Keeps.mapFault {pairing : Pairing Cursor Cursor} {first : Read α} {second : Read β}
    {change other : Fault → Fault} (reads : pairing.Keeps values first second)
    (opens : ∀ fault, pairing.opens fault → pairing.opens (change fault))
    (faults : ∀ fault later, pairing.faults fault later →
      pairing.opens (change fault) ∨ pairing.faults (change fault) (other later)) :
    pairing.Keeps values (first.mapFault change) (second.mapFault other) := by
  intro state beside paired
  have ended := reads state beside paired
  rw [EStateM.run, EStateM.run, Read.mapFault, Read.mapFault]
  generalize first.run state = left, second.run beside = right at ended
  cases ended with
  | ok related after => exact .ok related after
  | error related =>
    rcases faults _ _ related with opened | still
    · exact .opened opened
    · exact .error still
  | opened opened => exact .opened (opens _ opened)

theorem keeps_made {pairing : Pairing Cursor Cursor} {made : σ → τ → Prop} :
    (pairing.build made).Keeps made Build.made Build.made :=
  fun _ _ paired => .ok paired.2 paired

/-- Builds that stay in the same states and fail alike have the same result for a whole payload,
unless the first one ends with a fault that leaves the second one free. -/
theorem report_agrees {pairing : Pairing (Build.State σ) (Build.State σ)} {build twin : Build σ α}
    {kind : PayloadKind} {payload : List UInt8} {nothing : σ} {events : σ → List Event}
    {completion : α → Nat → Event}
    (ends : ∀ start, Cursor.afterHeader payload kind = .ok start →
      pairing.Ends Eq (build.run ⟨start, nothing⟩) (twin.run ⟨start, nothing⟩))
    (same : ∀ state beside, pairing.states state beside → state = beside)
    (alike : ∀ fault other, pairing.faults fault other → fault = other) :
    (build.report kind payload nothing events completion).result =
        (twin.report kind payload nothing events completion).result ∨
      ∃ fault, (build.report kind payload nothing events completion).result = .error fault ∧
        pairing.opens fault := by
  rw [Build.report_result, Build.report_result]
  cases opening : Cursor.afterHeader payload kind with
  | error fault => exact Or.inl rfl
  | ok start =>
    have ended := ends start opening
    simp only [Except.bind, Build.toEnd_run]
    generalize build.run ⟨start, nothing⟩ = first, twin.run ⟨start, nothing⟩ = second at ended
    cases ended with
    | ok related paired =>
      obtain rfl := same _ _ paired
      subst related
      exact Or.inl rfl
    | error related => exact Or.inl (congrArg Except.error (alike _ _ related))
    | opened opened => exact Or.inr ⟨_, rfl, opened⟩

end Pairing

end InstructionTables
