import InstructionTables.Proofs.ReadSpelling
import InstructionTables.Template.Record

/-! The records that a template payload can hold. The kind of a record says what is stored
after it, so a record is either one that agrees with its kind or one that no bytes stand for.
Reading one record succeeds exactly on the spellings of such records. -/
namespace InstructionTables.Template

/-! ## Kinds -/

namespace Kind

/-- What holds of the listed kinds holds of every kind. -/
theorem of_listed {property : Kind → Prop}
    (listed : ∀ kind ∈ (Ordinal.values : List Kind), property kind) (kind : Kind) :
    property kind :=
  listed kind (Ordinal.complete kind)

theorem previous_iff : ∀ kind : Kind, kind.shape.emission = .previous ↔ kind = .previous :=
  of_listed (by decide)

theorem reverse_iff : ∀ kind : Kind, kind.shape.emission = .reverse ↔ kind = .reverse :=
  of_listed (by decide)

/-- No kind emits nothing. -/
theorem emissionCount?_ne_zero : ∀ kind : Kind, kind.emissionCount? ≠ some 0 :=
  of_listed (by decide)

/-- Only one kind stores how many templates its records emit. -/
theorem emissionCount?_eq_none_iff : ∀ kind : Kind, kind.emissionCount? = none ↔ kind = .pops :=
  of_listed (by decide)

theorem emissionCount?_le : ∀ kind : Kind, ∀ count ∈ kind.emissionCount?, count ≤ 32 :=
  of_listed (by decide)

end Kind

/-! ## Families -/

namespace Family

/-- A family agrees with its kind. -/
structure WellFormed (family : Family) : Prop where
  described : family.kind.shape.emission.isFold = false
  operands : family.operands.length = family.kind.shape.operands
  /-- A size that stands for a number of bits is there exactly where a width is stored. -/
  size : family.size.width?.isSome = family.kind.shape.hasWidth
  count : match family.kind.emissionCount? with
    | some count => family.count = count
    | none => 1 ≤ family.count ∧ family.count ≤ 32

instance decidableWellFormed (family : Family) : Decidable family.WellFormed :=
  have : Decidable (match family.kind.emissionCount? with
      | some count => family.count = count
      | none => 1 ≤ family.count ∧ family.count ≤ 32) :=
    match family.kind.emissionCount? with
    | some count => inferInstanceAs (Decidable (family.count = count))
    | none => inferInstanceAs (Decidable (1 ≤ family.count ∧ family.count ≤ 32))
  decidable_of_iff
    (family.kind.shape.emission.isFold = false ∧
      family.operands.length = family.kind.shape.operands ∧
      family.size.width?.isSome = family.kind.shape.hasWidth ∧ _) <| by
    constructor
    · rintro ⟨described, operands, size, count⟩
      exact ⟨described, operands, size, count⟩
    · intro wellFormed
      exact ⟨wellFormed.described, wellFormed.operands, wellFormed.size, wellFormed.count⟩

/-- Every family has a first template. -/
theorem WellFormed.count_pos {family : Family} (wellFormed : family.WellFormed) :
    0 < family.count := by
  have counted := wellFormed.count
  cases emits : family.kind.emissionCount? with
  | some count =>
    rw [emits] at counted
    rw [counted, Nat.pos_iff_ne_zero]
    rintro rfl
    exact family.kind.emissionCount?_ne_zero emits
  | none =>
    rw [emits] at counted
    exact counted.1

/-- The variants of a family can be told apart by a byte. -/
theorem WellFormed.count_le {family : Family} (wellFormed : family.WellFormed) :
    family.count ≤ 32 := by
  have counted := wellFormed.count
  cases emits : family.kind.emissionCount? with
  | some count =>
    rw [emits] at counted
    rw [counted]
    exact family.kind.emissionCount?_le count emits
  | none =>
    rw [emits] at counted
    exact counted.2

/-- The width that a record stores, if its kind stores one. -/
def sizeItems (kind : Kind) (size : OperandSize) : List Item :=
  if kind.shape.hasWidth then [.varint (size.width?.getD 0)] else []

/-- The count that a record stores, if its kind stores one. -/
def countItems (kind : Kind) (count : Nat) : List Item :=
  if kind.emissionCount?.isNone then [.varint (UInt32.ofNat count)] else []

theorem items_eq (family : Family) : family.items =
    .tag family.kind :: .reference family.mnemonic.value ::
      (family.operands.map (fun operand => .reference operand.value) ++
        (sizeItems family.kind family.size ++ countItems family.kind family.count)) := by
  rw [items, List.append_assoc]
  rfl

/-- Reads the size that the records of a kind have. -/
def readStoredSize (kind : Kind) (start : Nat) : Read OperandSize :=
  if kind.shape.hasWidth then readSize kind start else pure .unmarked

/-- Reads the number of templates that the records of a kind emit. -/
def readStoredCount (kind : Kind) (start : Nat) : Read Nat :=
  match kind.emissionCount? with
  | some count => pure count
  | none => readCount kind start

/-- The body of a record is read one part after the other. -/
theorem readBody_eq (kind : Kind) (start : Nat) : readBody kind start = (do
    let mnemonic ← Read.reference
    let operands ← readOperands kind.shape.operands
    let size ← readStoredSize kind start
    let count ← readStoredCount kind start
    return { kind, mnemonic := ⟨mnemonic⟩, operands, size, count }) := by
  simp only [readBody, readStoredSize, readStoredCount]
  congr 1
  funext mnemonic
  congr 1
  funext operands
  cases kind.shape.hasWidth <;> cases kind.emissionCount? <;> rfl

variable {before after : Cursor} {kind : Kind} {size : OperandSize} {count : Nat}

theorem readOperands_ok_iff {operands : List OperandRef} :
    (readOperands count).run before = .ok operands after ↔ operands.length = count ∧
      before.Spans (operands.map fun operand => .reference operand.value) after := by
  induction count generalizing before after operands with
  | zero =>
    rw [readOperands, run_pure_eq_ok, List.length_eq_zero_iff]
    constructor
    · rintro ⟨rfl, rfl⟩
      exact ⟨rfl, Cursor.spans_nil_iff.mpr rfl⟩
    · rintro ⟨rfl, spans⟩
      exact ⟨rfl, Cursor.spans_nil_iff.mp spans⟩
  | succ count ih =>
    simp only [readOperands, run_bind_eq_ok, Read.reference_ok_iff, run_pure_eq_ok, ih]
    constructor
    · rintro ⟨operand, _, first, others, _, ⟨rfl, spans⟩, rfl, rfl⟩
      exact ⟨rfl, first.trans spans⟩
    · rintro ⟨length, spans⟩
      obtain _ | ⟨operand, others⟩ := operands
      · cases length
      · obtain ⟨middle, first, rest⟩ := Cursor.spans_cons_iff.mp spans
        exact ⟨operand.value, middle, first, others, after, ⟨Nat.succ.inj length, rest⟩, rfl, rfl⟩

/-- A width is read where it is spelled and has a token. -/
theorem readSize_ok_iff :
    (readSize kind start).run before = .ok size after ↔
      ∃ bits, size.width? = some bits ∧ before.Spans [.varint bits] after := by
  simp only [readSize, run_bind_eq_ok, Read.varint_ok_iff]
  constructor
  · rintro ⟨bits, middle, spans, ran⟩
    split at ran
    · rename_i found known
      obtain ⟨rfl, rfl⟩ := run_pure_eq_ok.mp ran
      exact ⟨bits, OperandSize.ofWidth?_eq_some_iff.mp known, spans⟩
    · exact absurd ran run_throw_ne_ok
  · rintro ⟨bits, width, spans⟩
    refine ⟨bits, after, spans, ?_⟩
    rw [OperandSize.ofWidth?_eq_some_iff.mpr width]
    rfl

/-- A count is read where it is spelled and in range. -/
theorem readCount_ok_iff :
    (readCount kind start).run before = .ok count after ↔
      (1 ≤ count ∧ count ≤ 32) ∧ before.Spans [.varint (UInt32.ofNat count)] after := by
  have most : Emission.maxStoredCount.toNat = 32 := rfl
  have refused (stored : UInt32) : (stored = 0 ∨ Emission.maxStoredCount < stored) ↔
      ¬(1 ≤ stored.toNat ∧ stored.toNat ≤ 32) := by
    rw [← UInt32.toNat_inj, UInt32.lt_iff_toNat_lt, most, UInt32.toNat_zero]
    omega
  simp only [readCount, run_bind_eq_ok, Read.varint_ok_iff, refused]
  constructor
  · rintro ⟨stored, middle, spans, ran⟩
    split at ran
    · exact absurd ran run_throw_ne_ok
    · rename_i within
      obtain ⟨rfl, rfl⟩ := run_pure_eq_ok.mp ran
      rw [UInt32.ofNat_toNat]
      exact ⟨not_not.mp within, spans⟩
  · rintro ⟨within, spans⟩
    have same : (UInt32.ofNat count).toNat = count :=
      UInt32.toNat_ofNat_of_lt (Nat.lt_of_le_of_lt within.2 (by decide))
    refine ⟨_, after, spans, ?_⟩
    rw [same, if_neg (not_not.mpr within), run_pure_eq_ok]
    exact ⟨rfl, rfl⟩

/-- The size of a record is one that its kind may have, and it is read where it is spelled. -/
theorem readStoredSize_ok_iff :
    (readStoredSize kind start).run before = .ok size after ↔
      size.width?.isSome = kind.shape.hasWidth ∧ before.Spans (sizeItems kind size) after := by
  rw [readStoredSize, sizeItems]
  cases kind.shape.hasWidth with
  | true =>
    simp only [↓reduceIte, readSize_ok_iff, Option.isSome_iff_exists]
    constructor
    · rintro ⟨bits, width, spans⟩
      refine ⟨⟨bits, width⟩, ?_⟩
      rwa [width, Option.getD_some]
    · rintro ⟨⟨bits, width⟩, spans⟩
      rw [width, Option.getD_some] at spans
      exact ⟨bits, width, spans⟩
  | false =>
    simp only [Bool.false_eq_true, ↓reduceIte, run_pure_eq_ok, Cursor.spans_nil_iff]
    cases size <;> simp [OperandSize.width?]

/-- The count of a record is one that its kind may have, and it is read where it is spelled. -/
theorem readStoredCount_ok_iff :
    (readStoredCount kind start).run before = .ok count after ↔
      (match kind.emissionCount? with
        | some emitted => count = emitted
        | none => 1 ≤ count ∧ count ≤ 32) ∧
      before.Spans (countItems kind count) after := by
  rw [readStoredCount, countItems]
  cases kind.emissionCount? with
  | some emitted =>
    rw [run_pure_eq_ok]
    simp [Cursor.spans_nil_iff]
  | none =>
    simp [readCount_ok_iff]

/-- The body of a family is read where it is spelled, when the family agrees with its kind. -/
theorem readBody_ok_iff {family : Family} (described : kind.shape.emission.isFold = false) :
    (readBody kind start).run before = .ok family after ↔
      family.kind = kind ∧ family.WellFormed ∧
        before.Spans (.reference family.mnemonic.value ::
          (family.operands.map (fun operand => .reference operand.value) ++
            (sizeItems family.kind family.size ++ countItems family.kind family.count))) after := by
  simp only [readBody_eq, run_bind_eq_ok, Read.reference_ok_iff, readOperands_ok_iff,
    readStoredSize_ok_iff, readStoredCount_ok_iff, run_pure_eq_ok]
  constructor
  · rintro ⟨mnemonic, _, named, operands, _, ⟨length, listed⟩, size, _, ⟨sized, width⟩, count, _,
      ⟨counted, stored⟩, rfl, rfl⟩
    exact ⟨rfl, ⟨described, length, sized, counted⟩,
      named.trans (listed.trans (width.trans stored))⟩
  · rintro ⟨rfl, wellFormed, spans⟩
    obtain ⟨first, named, spans⟩ := Cursor.spans_cons_iff.mp spans
    obtain ⟨second, listed, spans⟩ := Cursor.spans_append_iff.mp spans
    obtain ⟨third, width, stored⟩ := Cursor.spans_append_iff.mp spans
    exact ⟨_, first, named, _, second, ⟨wellFormed.operands, listed⟩, _, third,
      ⟨wellFormed.size, width⟩, _, after, ⟨wellFormed.count, stored⟩, rfl, rfl⟩

end Family

/-! ## Records -/

namespace Record

/-- A fold stores nothing that could disagree with its kind. -/
def WellFormed : Record → Prop
  | previous | reverse => True
  | family described => described.WellFormed

instance decidableWellFormed : (record : Record) → Decidable record.WellFormed
  | previous | reverse => isTrue trivial
  | family described => inferInstanceAs (Decidable described.WellFormed)

/-- A record is written with at least one item. -/
theorem items_ne_nil (record : Record) : record.items ≠ [] := by
  cases record with
  | previous | reverse => exact List.cons_ne_nil _ _
  | family described => rw [items, Family.items_eq]; exact List.cons_ne_nil _ _

/-- A record is read exactly where it is spelled, when it agrees with its kind. -/
theorem read_ok_iff {record : Record} {before after : Cursor} :
    Record.read.run before = .ok record after ↔
      record.WellFormed ∧ before.Spans record.items after := by
  simp only [read, run_bind_eq_ok, Read.offset_ok_iff, Read.tag_ok_iff]
  constructor
  · rintro ⟨_, _, ⟨rfl, rfl⟩, kind, middle, opening, ran⟩
    split at ran
    · rename_i emits
      obtain ⟨rfl, rfl⟩ := run_pure_eq_ok.mp ran
      rw [(Kind.previous_iff kind).mp emits] at opening
      exact ⟨trivial, opening⟩
    · rename_i emits
      obtain ⟨rfl, rfl⟩ := run_pure_eq_ok.mp ran
      rw [(Kind.reverse_iff kind).mp emits] at opening
      exact ⟨trivial, opening⟩
    · rename_i notPrevious notReverse
      have described : kind.shape.emission.isFold = false := by
        cases emits : kind.shape.emission <;> simp_all [Emission.isFold]
      simp only [run_bind_eq_ok, Read.mapFault_ok_iff, Family.readBody_ok_iff described,
        run_pure_eq_ok] at ran
      obtain ⟨family, _, ⟨rfl, wellFormed, spans⟩, rfl, rfl⟩ := ran
      refine ⟨wellFormed, ?_⟩
      rw [items, Family.items_eq]
      exact opening.trans spans
  · rintro ⟨wellFormed, spans⟩
    cases record with
    | previous => exact ⟨_, _, ⟨rfl, rfl⟩, .previous, after, spans, run_pure_eq_ok.mpr ⟨rfl, rfl⟩⟩
    | reverse => exact ⟨_, _, ⟨rfl, rfl⟩, .reverse, after, spans, run_pure_eq_ok.mpr ⟨rfl, rfl⟩⟩
    | family family =>
      have described := Family.WellFormed.described wellFormed
      rw [items, Family.items_eq] at spans
      obtain ⟨middle, opening, spans⟩ := Cursor.spans_cons_iff.mp spans
      refine ⟨_, _, ⟨rfl, rfl⟩, family.kind, middle, opening, ?_⟩
      split
      · rename_i emits
        rw [emits] at described
        cases described
      · rename_i emits
        rw [emits] at described
        cases described
      · simp only [run_bind_eq_ok, Read.mapFault_ok_iff, Family.readBody_ok_iff described,
          run_pure_eq_ok]
        exact ⟨family, after, ⟨rfl, wellFormed, spans⟩, rfl, rfl⟩

/-! ## Bytes -/

/-- The bytes of a record. A family may write its width and its count with zero groups after
them. -/
inductive Listing : Record → List UInt8 → Prop where
  | previous : Listing previous [0]
  | reverse : Listing reverse [52]
  | family {described : Family} {width count : List UInt8} :
      (if described.kind.shape.hasWidth
        then ∃ bits, described.size.width? = some bits ∧ Varint.Spelling bits width
        else width = []) →
      (if described.kind.emissionCount?.isNone
        then Varint.Spelling (UInt32.ofNat described.count) count
        else count = []) →
      Listing (family described)
        ([Tag.byte described.kind, described.mnemonic.value.toUInt8,
            (described.mnemonic.value >>> 8).toUInt8] ++
          described.operands.flatMap (fun operand : OperandRef =>
            [operand.value.toUInt8, (operand.value >>> 8).toUInt8]) ++ width ++ count)

private theorem operands_spells_iff {operands : List OperandRef} :
    Item.Spells (operands.map fun operand => .reference operand.value) bytes ↔
      bytes = operands.flatMap fun operand : OperandRef =>
        [operand.value.toUInt8, (operand.value >>> 8).toUInt8] := by
  induction operands generalizing bytes with
  | nil => exact Item.spells_nil_iff
  | cons operand operands ih =>
    simp only [List.map_cons, Item.spells_cons_iff, ih, List.flatMap_cons]
    constructor
    · rintro ⟨_, _, rfl, rfl, rfl⟩
      rfl
    · rintro rfl
      exact ⟨_, _, rfl, rfl, rfl⟩

/-- At most one number, that of a value which is there exactly where it is asked for. -/
private theorem number_spells_iff {asked : Prop} [Decidable asked] {value : UInt32} :
    Item.Spells (if asked then [.varint value] else []) bytes ↔
      if asked then Varint.Spelling value bytes else bytes = [] := by
  split
  · exact Item.spells_singleton_iff
  · exact Item.spells_nil_iff

/-- The bytes of a record that agrees with its kind are the ways to write its items. -/
theorem listing_iff {record : Record} (wellFormed : record.WellFormed) :
    record.Listing bytes ↔ Item.Spells record.items bytes := by
  cases record with
  | previous =>
    rw [items, Item.spells_singleton_iff]
    exact ⟨fun listing => by cases listing; rfl, fun spelled => spelled ▸ Listing.previous⟩
  | reverse =>
    rw [items, Item.spells_singleton_iff]
    exact ⟨fun listing => by cases listing; rfl, fun spelled => spelled ▸ Listing.reverse⟩
  | family described =>
    have widths (width : List UInt8) :
        (if described.kind.shape.hasWidth
          then ∃ bits, described.size.width? = some bits ∧ Varint.Spelling bits width
          else width = []) ↔
        Item.Spells (Family.sizeItems described.kind described.size) width := by
      have stored := Family.WellFormed.size wellFormed
      rw [Family.sizeItems, number_spells_iff]
      split
      · rename_i asked
        rw [asked] at stored
        obtain ⟨bits, known⟩ := Option.isSome_iff_exists.mp stored
        simp [known]
      · rfl
    have counts (count : List UInt8) :
        (if described.kind.emissionCount?.isNone
          then Varint.Spelling (UInt32.ofNat described.count) count
          else count = []) ↔
        Item.Spells (Family.countItems described.kind described.count) count := by
      rw [Family.countItems, number_spells_iff]
    rw [items, Family.items_eq]
    constructor
    · intro listing
      cases listing with
      | family width count =>
        rw [List.append_assoc, List.append_assoc]
        refine Item.spells_cons_iff.mpr ⟨[_], _, rfl, rfl, ?_⟩
        refine Item.spells_cons_iff.mpr ⟨[_, _], _, rfl, rfl, ?_⟩
        refine Item.spells_append_iff.mpr ⟨_, _, rfl, operands_spells_iff.mpr rfl, ?_⟩
        exact Item.spells_append_iff.mpr ⟨_, _, rfl, (widths _).mp width, (counts _).mp count⟩
    · intro spells
      obtain ⟨_, _, rfl, rfl, body⟩ := Item.spells_cons_iff.mp spells
      obtain ⟨_, _, rfl, rfl, stored⟩ := Item.spells_cons_iff.mp body
      obtain ⟨_, _, rfl, listed, closing⟩ := Item.spells_append_iff.mp stored
      obtain ⟨_, _, rfl, width, count⟩ := Item.spells_append_iff.mp closing
      obtain rfl := operands_spells_iff.mp listed
      have listing := Listing.family ((widths _).mpr width) ((counts _).mpr count)
      rwa [List.append_assoc, List.append_assoc] at listing

end Record

/-- One piece after the other lists one record after the other. -/
theorem forall₂_listing_iff {records : List Record} {pieces : List (List UInt8)}
    (wellFormed : ∀ record ∈ records, record.WellFormed) :
    List.Forall₂ Record.Listing records pieces ↔
      List.Forall₂ (fun record piece => Item.Spells record.items piece) records pieces := by
  constructor
  · intro listings
    exact ((List.forall₂_and_left _ _).mpr ⟨wellFormed, listings⟩).imp
      fun _ _ ⟨agrees, listing⟩ => (Record.listing_iff agrees).mp listing
  · intro spelled
    exact ((List.forall₂_and_left _ _).mpr ⟨wellFormed, spelled⟩).imp
      fun _ _ ⟨agrees, spells⟩ => (Record.listing_iff agrees).mpr spells

/-- The bytes of records are those of one record after the other. -/
theorem listings_iff {records : List Record} (wellFormed : ∀ record ∈ records, record.WellFormed) :
    (∃ pieces, List.Forall₂ Record.Listing records pieces ∧ bytes = pieces.flatten) ↔
      Item.Spells (records.flatMap Record.items) bytes := by
  simp only [forall₂_listing_iff wellFormed, Item.spells_flatMap_iff]

end InstructionTables.Template
