import InstructionTables.Proofs.ReadSpelling

/-! Streams are read back as they were written. A write and the read that matches it are one entry
of a stream, and any entries may follow one another. Writing an entry adds its bytes at the end.
Reading it takes these bytes, whatever comes after them, so that the reads of all entries run
through the places at which the writes ended, and the last one ends the payload. -/
namespace InstructionTables

/-- What one write puts into a stream, and one read takes out of it. -/
inductive Entry : Type 1 where
  | byte (value : UInt8)
  | tag {α : Type} [Tag α] (value : α)
  | varint (value : UInt32)
  | reference (id : UInt16)

namespace Entry

/-- The item that is written. -/
def item : Entry → Item
  | byte value => .byte value
  | tag value => .tag value
  | varint value => .varint value
  | reference id => .reference id

/-- The type of what is read. -/
def Value : Entry → Type
  | byte _ => UInt8
  | @tag α _ _ => α
  | varint _ => UInt32
  | reference _ => UInt16

/-- What was written. -/
def value : (entry : Entry) → entry.Value
  | byte value => value
  | tag value => value
  | varint value => value
  | reference id => id

/-- The read that matches the write. -/
def read : (entry : Entry) → Read entry.Value
  | byte _ => Read.byte
  | @tag α _ _ => Read.tag α
  | varint _ => Read.varint
  | reference _ => Read.reference

/-- An entry is read where its item is spelled. -/
theorem read_ok_iff {before after : Cursor} {entry : Entry} :
    entry.read.run before = .ok entry.value after ↔ before.Spans [entry.item] after := by
  cases entry with
  | byte value => exact Read.byte_ok_iff
  | @tag α tagged value => exact @Read.tag_ok_iff α tagged value before after
  | varint value => exact Read.varint_ok_iff
  | reference id => exact Read.reference_ok_iff

/-- What is read of several entries, in order. -/
def Values : List Entry → Type
  | [] => Unit
  | entry :: entries => entry.Value × Values entries

/-- What was written of several entries, in order. -/
def values : (entries : List Entry) → Values entries
  | [] => ()
  | entry :: entries => (entry.value, values entries)

/-- Reads several entries in order. -/
def readAll : (entries : List Entry) → Read (Values entries)
  | [] => return ()
  | entry :: entries => do
    let value ← entry.read
    let values ← readAll entries
    return (value, values)

/-- The payload that holds these entries. -/
def written (kind : PayloadKind) (entries : List Entry) : List UInt8 :=
  (Header.ofKind kind).payload (entries.map item)

/-- Where a payload goes on when so many of its entries have been read. -/
def place (kind : PayloadKind) (entries : List Entry) (position : Nat) : Cursor :=
  let offset := (written kind (entries.take position)).length
  ⟨offset, (written kind entries).drop offset⟩

variable {kind : PayloadKind} {entries : List Entry}

theorem written_append (kind : PayloadKind) (first rest : List Entry) :
    written kind (first ++ rest) =
      written kind first ++ Item.encodeAll (rest.map item) := by
  rw [written, written, Header.payload, Header.payload, List.map_append, Item.encodeAll_append,
    List.append_assoc]

/-- What is left of a payload are the entries that have not been read. -/
theorem place_rest (kind : PayloadKind) (entries : List Entry) (position : Nat) :
    (place kind entries position).rest =
      Item.encodeAll ((entries.drop position).map item) := by
  have whole := written_append kind (entries.take position) (entries.drop position)
  rw [List.take_append_drop] at whole
  rw [place, whole, List.drop_left]

/-- Every write adds the bytes of its entry and changes none that are there. -/
theorem written_succ (kind : PayloadKind) {entry : Entry}
    (found : entries[position]? = some entry) :
    written kind (entries.take (position + 1)) =
      written kind (entries.take position) ++ entry.item.encode := by
  rw [List.take_add_one, found, Option.toList_some, written_append, List.map_singleton]
  simp

/-- Every entry lies between two places that follow one another. -/
theorem place_spans (kind : PayloadKind) {entry : Entry}
    (found : entries[position]? = some entry) :
    (place kind entries position).Spans [entry.item] (place kind entries (position + 1)) := by
  refine ⟨entry.item.encode, Item.spells_singleton_iff.mpr entry.item.spelling_encode, ?_, ?_⟩
  · obtain ⟨inside, rfl⟩ := List.getElem?_eq_some_iff.mp found
    rw [place_rest, place_rest, List.drop_eq_getElem_cons inside, List.map_cons,
      Item.encodeAll_cons]
  · rw [place, place, written_succ kind found, List.length_append]

/-- Entries are read in order from wherever they are written. -/
theorem readAll_run (kind : PayloadKind) (earlier entries : List Entry) :
    (readAll entries).run (place kind (earlier ++ entries) earlier.length) =
      .ok (values entries)
        (place kind (earlier ++ entries) (earlier ++ entries).length) := by
  induction entries generalizing earlier with
  | nil =>
    rw [List.append_nil]
    rfl
  | cons entry entries ih =>
    have found : (earlier ++ entry :: entries)[earlier.length]? = some entry := by
      simp
    have ran := read_ok_iff.mpr (place_spans kind found)
    have others := ih (earlier ++ [entry])
    rw [List.append_assoc, List.singleton_append, List.length_append,
      List.length_singleton] at others
    exact run_bind_eq_ok.mpr ⟨_, _, ran, run_bind_eq_ok.mpr ⟨_, _, others, rfl⟩⟩

/-- A stream of any entries is accepted for its kind and read back entry by entry. Every read
ends where the write of its entry ended, and the last one at the end of the payload. -/
theorem written_read_back (kind : PayloadKind) (entries : List Entry) :
    Cursor.afterHeader (written kind entries) kind = .ok (place kind entries 0) ∧
      (∀ position entry, entries[position]? = some entry →
        written kind (entries.take (position + 1)) =
            written kind (entries.take position) ++ entry.item.encode ∧
          entry.read.run (place kind entries position) =
            .ok entry.value (place kind entries (position + 1))) ∧
      (∀ position,
        (place kind entries position).offset = (written kind (entries.take position)).length ∧
          (place kind entries position).offset + (place kind entries position).remaining =
            (written kind entries).length) ∧
      (readAll entries).run (place kind entries 0) =
        .ok (values entries) (place kind entries entries.length) ∧
      (place kind entries entries.length).atEnd ∧
      Read.finish.run (place kind entries entries.length) =
        .ok () (place kind entries entries.length) := by
  have atEnd : (place kind entries entries.length).atEnd := by
    rw [Cursor.atEnd, place_rest, List.drop_length]
    rfl
  refine ⟨?_, ?_, ?_, readAll_run kind [] entries, atEnd, ?_⟩
  · rw [Cursor.afterHeader_ok_iff, place_rest]
    exact ⟨rfl, rfl⟩
  · intro position entry found
    exact ⟨written_succ kind found, read_ok_iff.mpr (place_spans kind found)⟩
  · intro position
    refine ⟨rfl, ?_⟩
    have split := congrArg List.length
      (written_append kind (entries.take position) (entries.drop position))
    rw [List.take_append_drop, List.length_append] at split
    rw [Cursor.remaining, place_rest, split]
    rfl
  · rw [EStateM.run, Read.finish, if_pos atEnd]

end Entry

end InstructionTables
