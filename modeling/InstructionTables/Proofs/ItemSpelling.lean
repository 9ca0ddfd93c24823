import InstructionTables.Payload.Cursor
import InstructionTables.Payload.Item
import InstructionTables.Proofs.VarintSpelling
import Mathlib.Data.List.Forall2

/-! Which bytes a read takes. A sequence of items can be spelled in several ways, since groups
of zeros may follow a variable-length number. A read succeeds exactly when the bytes at its
cursor spell the items of its value, and it leaves the cursor just past them. Equivalences of
this form compose, so that a record is read exactly when its items are spelled. -/
namespace InstructionTables

/-! ## Runs -/

variable {ε σ α β : Type}

/-- A run of two steps succeeds exactly when one succeeds after the other. -/
theorem run_bind_eq_ok {first : EStateM ε σ α} {next : α → EStateM ε σ β} {before after : σ}
    {value : β} : (first >>= next).run before = .ok value after ↔
      ∃ part middle, first.run before = .ok part middle ∧
        (next part).run middle = .ok value after := by
  rw [EStateM.run_bind]
  cases first.run before <;> simp

theorem run_pure_eq_ok {part value : α} {before after : σ} :
    (pure part : EStateM ε σ α).run before = .ok value after ↔ value = part ∧ after = before := by
  rw [EStateM.run_pure, EStateM.Result.ok.injEq, eq_comm (a := part), eq_comm (a := before)]

theorem run_throw_ne_ok {fault : ε} {value : α} {before after : σ} :
    (throw fault : EStateM ε σ α).run before ≠ .ok value after :=
  nofun

/-! ## Spellings -/

namespace Item

/-- The ways to write one item. Only a variable-length number has more than one. -/
def Spelling : Item → List UInt8 → Prop
  | .byte value, bytes => bytes = encode (.byte value)
  | .varint value, bytes => Varint.Spelling value bytes
  | .reference id, bytes => bytes = encode (.reference id)

/-- The ways to write items in order. -/
inductive Spells : List Item → List UInt8 → Prop where
  | nil : Spells [] []
  | cons {item : Item} {items : List Item} {first rest : List UInt8} :
      item.Spelling first → Spells items rest → Spells (item :: items) (first ++ rest)

theorem spelling_encode (item : Item) : item.Spelling item.encode := by
  cases item with
  | byte value => rfl
  | varint value => exact Varint.spelling_encode value
  | reference id => rfl

/-- Written items are spelled, each in its shortest form. -/
theorem spells_encodeAll (items : List Item) : Spells items (encodeAll items) := by
  induction items with
  | nil => exact Spells.nil
  | cons item items ih => exact Spells.cons item.spelling_encode ih

theorem spells_nil_iff : Spells [] bytes ↔ bytes = [] :=
  ⟨fun spells => by cases spells; rfl, fun empty => empty ▸ Spells.nil⟩

theorem spells_cons_iff : Spells (item :: items) bytes ↔
    ∃ first rest, bytes = first ++ rest ∧ item.Spelling first ∧ Spells items rest := by
  constructor
  · intro spells
    cases spells with
    | cons spelled rest => exact ⟨_, _, rfl, spelled, rest⟩
  · rintro ⟨first, rest, rfl, spelled, rest⟩
    exact Spells.cons spelled rest

theorem spells_singleton_iff : Spells [item] bytes ↔ item.Spelling bytes := by
  simp [spells_cons_iff, spells_nil_iff]

theorem spells_append_iff : Spells (left ++ right) bytes ↔
    ∃ first rest, bytes = first ++ rest ∧ Spells left first ∧ Spells right rest := by
  induction left generalizing bytes with
  | nil => simp [spells_nil_iff]
  | cons item items ih =>
    simp only [List.cons_append, spells_cons_iff, ih]
    constructor
    · rintro ⟨first, rest, rfl, spelled, middle, last, rfl, spells, rests⟩
      exact ⟨first ++ middle, last, by simp, ⟨first, middle, rfl, spelled, spells⟩, rests⟩
    · rintro ⟨_, last, rfl, ⟨first, middle, rfl, spelled, spells⟩, rests⟩
      exact ⟨first, middle ++ last, by simp, spelled, middle, last, rfl, spells, rests⟩

/-- Every item takes at least one byte. -/
theorem spells_empty_iff : Spells items [] ↔ items = [] := by
  constructor
  · intro spells
    cases items with
    | nil => rfl
    | cons item items =>
      obtain ⟨first, rest, empty, spelled, -⟩ := spells_cons_iff.mp spells
      obtain ⟨rfl, rfl⟩ := List.append_eq_nil_iff.mp empty.symm
      cases item with
      | byte value => cases spelled
      | varint value => exact absurd (Varint.Spelling.length_pos spelled) (Nat.lt_irrefl 0)
      | reference id => cases spelled
  · rintro rfl
    exact Spells.nil

/-- The items of several parts are spelled by one piece for each part. -/
theorem spells_flatMap_iff {parts : List α} {items : α → List Item} :
    Spells (parts.flatMap items) bytes ↔
      ∃ pieces, List.Forall₂ (fun part piece => Spells (items part) piece) parts pieces ∧
        bytes = pieces.flatten := by
  induction parts generalizing bytes with
  | nil => simp [spells_nil_iff, List.forall₂_nil_left_iff]
  | cons part parts ih =>
    rw [List.flatMap_cons, spells_append_iff]
    constructor
    · rintro ⟨piece, _, rfl, spelled, spells⟩
      obtain ⟨pieces, listed, rfl⟩ := ih.mp spells
      exact ⟨piece :: pieces, List.Forall₂.cons spelled listed, rfl⟩
    · rintro ⟨_, listed, rfl⟩
      cases listed with
      | @cons _ piece _ pieces spelled listed =>
        exact ⟨piece, pieces.flatten, rfl, spelled, ih.mpr ⟨pieces, listed, rfl⟩⟩

end Item

/-! ## Cursors -/

namespace Cursor

/-- The bytes between two places of a payload spell these items. -/
def Spans (before : Cursor) (items : List Item) (after : Cursor) : Prop :=
  ∃ bytes, Item.Spells items bytes ∧ before.rest = bytes ++ after.rest ∧
    after.offset = before.offset + bytes.length

theorem spans_nil_iff {before after : Cursor} : before.Spans [] after ↔ after = before := by
  obtain ⟨offset, rest⟩ := before
  obtain ⟨past, later⟩ := after
  simp [Spans, Item.spells_nil_iff, and_comm, eq_comm]

/-- Items in order are spelled in order, with a place between them. -/
theorem spans_append_iff {before after : Cursor} {left right : List Item} :
    before.Spans (left ++ right) after ↔
      ∃ middle, before.Spans left middle ∧ middle.Spans right after := by
  constructor
  · rintro ⟨bytes, spells, restEq, offsetEq⟩
    obtain ⟨first, rest, rfl, spellsLeft, spellsRight⟩ := Item.spells_append_iff.mp spells
    refine ⟨⟨before.offset + first.length, rest ++ after.rest⟩,
      ⟨first, spellsLeft, by simp [restEq], rfl⟩, rest, spellsRight, rfl, ?_⟩
    simp only [offsetEq, List.length_append]
    omega
  · rintro ⟨middle, ⟨first, spellsLeft, firstEq, middleEq⟩, rest, spellsRight, restEq, offsetEq⟩
    refine ⟨first ++ rest, Item.spells_append_iff.mpr ⟨first, rest, rfl, spellsLeft, spellsRight⟩,
      by simp [firstEq, restEq], ?_⟩
    simp only [offsetEq, middleEq, List.length_append]
    omega

theorem spans_cons_iff {before after : Cursor} {item : Item} {items : List Item} :
    before.Spans (item :: items) after ↔
      ∃ middle, before.Spans [item] middle ∧ middle.Spans items after :=
  @spans_append_iff before after [item] items

/-- A single item is followed by the place past its bytes. -/
theorem spans_singleton_iff {before after : Cursor} {item : Item} :
    before.Spans [item] after ↔ ∃ bytes rest, item.Spelling bytes ∧
      before.rest = bytes ++ rest ∧ after = before.advance bytes.length := by
  simp only [Spans, Item.spells_singleton_iff, advance]
  constructor
  · rintro ⟨bytes, spelled, restEq, offsetEq⟩
    obtain ⟨past, later⟩ := after
    exact ⟨bytes, later, spelled, restEq, by simp [restEq, ← offsetEq]⟩
  · rintro ⟨bytes, rest, spelled, restEq, rfl⟩
    exact ⟨bytes, spelled, by simp [restEq], rfl⟩

/-- What spans all that is left is spelled by it. -/
theorem spans_end_iff {offset : Nat} {body : List UInt8} {items : List Item} {last : Cursor} :
    (Cursor.mk offset body).Spans items last ∧ last.rest = [] ↔
      Item.Spells items body ∧ last = ⟨offset + body.length, []⟩ := by
  constructor
  · rintro ⟨⟨bytes, spells, restEq, offsetEq⟩, ended⟩
    obtain ⟨past, later⟩ := last
    obtain rfl : later = [] := ended
    obtain rfl : body = bytes := restEq.trans (List.append_nil bytes)
    exact ⟨spells, congrArg (Cursor.mk · []) offsetEq⟩
  · rintro ⟨spells, rfl⟩
    exact ⟨⟨body, spells, (List.append_nil body).symm, rfl⟩, rfl⟩

/-- What is written is not spelled where nothing is left. -/
theorem not_spans_ended {before after : Cursor} {items : List Item} (ended : before.rest = [])
    (written : items ≠ []) : ¬ before.Spans items after := by
  rintro ⟨bytes, spells, restEq, -⟩
  obtain ⟨rfl, -⟩ := List.append_eq_nil_iff.mp (restEq.symm.trans ended)
  exact written (Item.spells_empty_iff.mp spells)

/-- The items of the first parts lead past the first pieces. -/
theorem spans_take {parts : List α} {items : α → List Item} {pieces : List (List UInt8)}
    (listed : List.Forall₂ (fun part piece => Item.Spells (items part) piece) parts pieces)
    (offset count : Nat) :
    (Cursor.mk offset pieces.flatten).Spans ((parts.take count).flatMap items)
      ⟨offset + (pieces.take count).flatten.length, (pieces.drop count).flatten⟩ := by
  refine ⟨(pieces.take count).flatten, ?_, ?_, rfl⟩
  · exact Item.spells_flatMap_iff.mpr ⟨_, List.forall₂_take count listed, rfl⟩
  · rw [← List.flatten_append, List.take_append_drop]

/-- Behind the pieces of the first parts comes the piece of the next one. -/
theorem spans_getElem {parts : List α} {items : α → List Item} {pieces : List (List UInt8)}
    (listed : List.Forall₂ (fun part piece => Item.Spells (items part) piece) parts pieces)
    (offset : Nat) {part : α} (found : parts[count]? = some part) :
    ∃ after, (Cursor.mk offset (pieces.drop count).flatten).Spans (items part) after := by
  obtain ⟨bound, rfl⟩ := List.getElem?_eq_some_iff.mp found
  have behind := List.forall₂_drop count listed
  rw [List.drop_eq_getElem_cons bound] at behind
  obtain ⟨piece, others, spells, -, piecesEq⟩ := List.forall₂_cons_left_iff.mp behind
  rw [piecesEq, List.flatten_cons]
  exact ⟨⟨offset + piece.length, others.flatten⟩, piece, spells, rfl, rfl⟩

/-- As long as parts are left, so are bytes. -/
theorem pieces_left {parts : List α} {items : α → List Item} {pieces : List (List UInt8)}
    (listed : List.Forall₂ (fun part piece => Item.Spells (items part) piece) parts pieces)
    {part : α} (found : parts[count]? = some part) (written : items part ≠ []) :
    (pieces.drop count).flatten ≠ [] := by
  obtain ⟨after, spans⟩ := spans_getElem listed 0 found
  intro empty
  exact not_spans_ended empty written spans

/-- Bytes spell no more than one list of valid parts, if these are read where they are spelled. -/
theorem parts_unique {items : α → List Item} {valid : α → Prop} {read : Read α}
    {parts others : List α} {body : List UInt8} (written : ∀ part, items part ≠ [])
    (reads : ∀ part, valid part → ∀ before after : Cursor, before.Spans (items part) after →
      read.run before = .ok part after)
    (partsValid : ∀ part ∈ parts, valid part) (othersValid : ∀ part ∈ others, valid part)
    (spells : Item.Spells (parts.flatMap items) body)
    (spellsOthers : Item.Spells (others.flatMap items) body) : parts = others := by
  have unspelled (part : α) (parts : List α) : ¬ Item.Spells ((part :: parts).flatMap items) [] :=
    fun spells => written part (List.append_eq_nil_iff.mp (Item.spells_empty_iff.mp spells)).1
  induction parts generalizing others body with
  | nil =>
    obtain rfl := Item.spells_nil_iff.mp spells
    cases others with
    | nil => rfl
    | cons other others => exact absurd spellsOthers (unspelled other others)
  | cons part parts ih =>
    cases others with
    | nil =>
      obtain rfl := Item.spells_nil_iff.mp spellsOthers
      exact absurd spells (unspelled part parts)
    | cons other others =>
      obtain ⟨partValid, laterValid⟩ := List.forall_mem_cons.mp partsValid
      obtain ⟨otherValid, laterOthersValid⟩ := List.forall_mem_cons.mp othersValid
      obtain ⟨piece, rest, rfl, opening, later⟩ := Item.spells_append_iff.mp spells
      obtain ⟨pieceOther, restOther, same, openingOther, laterOthers⟩ :=
        Item.spells_append_iff.mp spellsOthers
      -- What is read from the same bytes is the same part and leaves the same bytes.
      have ran := reads part partValid ⟨0, piece ++ rest⟩ ⟨0 + piece.length, rest⟩
        ⟨piece, opening, rfl, rfl⟩
      have ranOther := reads other otherValid ⟨0, piece ++ rest⟩ ⟨0 + pieceOther.length, restOther⟩
        ⟨pieceOther, openingOther, same, rfl⟩
      obtain ⟨rfl, after⟩ := EStateM.Result.ok.inj (ran.symm.trans ranOther)
      obtain rfl : rest = restOther := congrArg Cursor.rest after
      rw [ih laterValid laterOthersValid later laterOthers]

theorem Spans.trans {before middle after : Cursor} {left right : List Item}
    (first : before.Spans left middle) (next : middle.Spans right after) :
    before.Spans (left ++ right) after :=
  spans_append_iff.mpr ⟨middle, first, next⟩

theorem Spans.offset_le {before after : Cursor} {items : List Item}
    (spans : before.Spans items after) : before.offset ≤ after.offset := by
  obtain ⟨bytes, -, -, offsetEq⟩ := spans
  exact offsetEq ▸ Nat.le_add_right _ _

end Cursor

end InstructionTables
