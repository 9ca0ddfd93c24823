import InstructionTables.Proofs.TemplateFamilies
import Mathlib.Algebra.Ring.Parity

/-! Records that repeat a template. Behind a family there may be any number of records that repeat
the current template, each in the order of its operands or in reverse. A repetition is made from
the one before it, but two reversals give back the operands and the flags, so that each of them is
told by the last template of the family and the number of reversals since. -/
namespace InstructionTables.Template

/-! ## Reversals -/

section Reversals

variable {base : Template}

/-- However often a template is reversed, what it says of the instruction itself stays. -/
theorem iterate_reversed_kept (count : Nat) :
    (reversed^[count] base).mnemonic = base.mnemonic ∧
      (reversed^[count] base).variant = base.variant ∧
      (reversed^[count] base).size = base.size := by
  induction count with
  | zero => exact ⟨rfl, rfl, rfl⟩
  | succ count ih =>
    rw [Function.iterate_succ_apply']
    exact ih

theorem iterate_reversed_kind (count : Nat) :
    (reversed^[count] base).kind = if count = 0 then base.kind else .reverse := by
  cases count with
  | zero => rfl
  | succ count =>
    rw [Function.iterate_succ_apply']
    rfl

/-- A part of a template on which two reversals cancel depends on their parity only. -/
private theorem iterate_reversed_part {part : Template → α} {change : α → α}
    (involutive : Function.Involutive change)
    (step : Function.Semiconj part reversed change) (count : Nat) :
    part (reversed^[count] base) = if Even count then part base else change (part base) := by
  rw [step.iterate_right count base]
  split
  · rename_i even
    rw [involutive.iterate_even even, id_eq]
  · rename_i odd
    rw [involutive.iterate_odd (Nat.not_even_iff_odd.mp odd)]

theorem iterate_reversed_operands (count : Nat) :
    (reversed^[count] base).operands =
      if Even count then base.operands else base.operands.reverse :=
  iterate_reversed_part List.reverse_involutive (fun _ => rfl) count

theorem iterate_reversed_flags (count : Nat) :
    (reversed^[count] base).flags =
      if Even count then base.flags else base.flags.toggle .reverseOperands := by
  have involutive : Function.Involutive fun flags : Flags => flags.toggle .reverseOperands :=
    fun flags => flags.toggle_toggle .reverseOperands
  have step : Function.Semiconj Template.flags reversed
      fun flags => flags.toggle .reverseOperands :=
    fun _ => rfl
  exact iterate_reversed_part involutive step count

end Reversals

/-! ## Runs of repetitions -/

/-- The record repeats the current template, in the order of its operands or in reverse. -/
def Record.IsFold (record : Record) : Prop :=
  record = previous ∨ record = reverse

instance decidableIsFold (record : Record) : Decidable record.IsFold :=
  inferInstanceAs (Decidable (_ ∨ _))

/-- The number of records that reverse the current template. -/
def reversals (records : List Record) : Nat :=
  records.count .reverse

theorem reversals_cons (record : Record) (records : List Record) :
    reversals (record :: records) = reversals records + reversals [record] := by
  rw [reversals, reversals, reversals, List.count_cons, List.count_singleton]

/-- A record that repeats the current template emits it once, reversed if the record says so. -/
theorem Record.expansion_fold {fold : Record} (folds : fold.IsFold) (current : Template) :
    fold.expansion (some current) = [reversed^[reversals [fold]] current] := by
  rcases folds with rfl | rfl
  · rfl
  · rfl

/-- What the record at a position of a run emits is the current template before the run, reversed
as often as the records of the run up to that one say. -/
theorem expansions_folds_getElem? {folds : List Record} (folding : ∀ fold ∈ folds, fold.IsFold)
    (current : Template) (later : List Record) (inside : position < folds.length) :
    (expansions (some current) (folds ++ later))[position]? =
      some (reversed^[reversals (folds.take (position + 1))] current) := by
  induction folds generalizing current position with
  | nil => cases inside
  | cons fold folds ih =>
    obtain ⟨first, others⟩ := List.forall_mem_cons.mp folding
    rw [List.cons_append, expansions, Record.expansion_fold first, List.singleton_append,
      List.getLast?_singleton, Option.some_or]
    cases position with
    | zero => rfl
    | succ position =>
      -- The run behind this record starts from what the record has emitted.
      rw [List.getElem?_cons_succ, ih others _ (Nat.lt_of_succ_lt_succ inside), List.take_succ_cons,
        reversals_cons fold (folds.take (position + 1)), Function.iterate_add_apply]

/-! ## Listed records -/

/-- The bytes of a payload behind its header list these records, each of them in its own piece, and
the records agree with their kinds. -/
structure ListedAs (payload : List UInt8) (records : List Record) (pieces : List (List UInt8)) :
    Prop where
  payload_eq : payload = (Header.ofKind .formatter).toBytes ++ pieces.flatten
  listings : List.Forall₂ Record.Listing records pieces
  wellFormed : ∀ record ∈ records, record.WellFormed

/-- The bytes of a payload behind its header list these records. -/
def Lists (payload : List UInt8) (records : List Record) : Prop :=
  ∃ pieces, ListedAs payload records pieces

theorem lists_iff {records : List Record} : Lists payload records ↔
    ∃ body, payload = (Header.ofKind .formatter).toBytes ++ body ∧
      Item.Spells (records.flatMap Record.items) body ∧
      ∀ record ∈ records, record.WellFormed := by
  constructor
  · rintro ⟨pieces, payloadEq, listings, wellFormed⟩
    exact ⟨_, payloadEq, (listings_iff wellFormed).mp ⟨pieces, listings, rfl⟩, wellFormed⟩
  · rintro ⟨_, payloadEq, spells, wellFormed⟩
    obtain ⟨pieces, listings, rfl⟩ := (listings_iff wellFormed).mpr spells
    exact ⟨pieces, payloadEq, listings, wellFormed⟩

theorem lists_payloadOf {records : List Record}
    (wellFormed : ∀ record ∈ records, record.WellFormed) : Lists (payloadOf records) records :=
  lists_iff.mpr ⟨_, rfl, Item.spells_encodeAll _, wellFormed⟩

/-- A payload lists no more than one sequence of records. -/
theorem Lists.unique {records others : List Record} (lists : Lists payload records)
    (listsOthers : Lists payload others) : records = others := by
  obtain ⟨body, rfl, spells, wellFormed⟩ := lists_iff.mp lists
  obtain ⟨rest, same, spellsOthers, othersWellFormed⟩ := lists_iff.mp listsOthers
  obtain rfl := List.append_cancel_left same
  exact Cursor.parts_unique Record.items_ne_nil
    (fun _ agrees _ _ spans => Record.read_ok_iff.mpr ⟨agrees, spans⟩) wellFormed othersWellFormed
    spells spellsOthers

/-- The records that an accepted payload lists are those that its table is made from. -/
theorem Lists.fills {records : List Record} (lists : Lists payload records)
    (accepted : Table.ofBytes payload instructionCount = .ok table) :
    Fills instructionCount [] records ∧
      table.templates.toList = numbered (expansions none records) := by
  obtain ⟨others, body, payloadEq, spells, fills, templates⟩ := ofBytes_ok_iff.mp accepted
  have same := lists.unique (lists_iff.mpr ⟨body, payloadEq, spells, fills.wellFormed⟩)
  exact same ▸ ⟨fills, templates⟩

/-- What records emit in front of a family, the templates of the family, and what the records
behind it emit from the last of those on. -/
theorem expansions_around {earlier later : List Record} {family : Family}
    (wellFormed : family.WellFormed) : ∃ last : Template,
      family.expansion[family.count - 1]? = some last ∧
      expansions none (earlier ++ .family family :: later) =
        expansions none earlier ++ family.expansion ++ expansions (some last) later := by
  have positive := wellFormed.count_pos
  have size := Family.expansion_length wellFormed
  have inside : family.count - 1 < family.expansion.length := by omega
  have last : family.expansion.getLast? = some family.expansion[family.count - 1] := by
    rw [List.getLast?_eq_getElem?, size, List.getElem?_eq_getElem inside]
  refine ⟨_, List.getElem?_eq_getElem inside, ?_⟩
  rw [expansions_append, expansions, Record.expansion, last, Option.some_or, List.append_assoc]

/-- What a repetition has in common with the last template of the family that it goes back to,
after a number of reversals in between and including its own. -/
structure Repetition (base : Template) (count : Nat) (template : Template) : Prop where
  mnemonic : template.mnemonic = base.mnemonic
  variant : template.variant = base.variant
  size : template.size = base.size
  operands : template.operands = if Even count then base.operands else base.operands.reverse
  flags : template.flags = if Even count then base.flags else base.flags.toggle .reverseOperands
  /-- A family whose operands are marked as reversed loses the mark by the first reversal. -/
  mark : template.flags.has .reverseOperands =
    (base.flags.has .reverseOperands ^^ decide (Odd count))
  kind : template.kind = if count = 0 then base.kind else .reverse

/-- Reversing gives repetitions, whatever ids the templates have. -/
theorem repetition_iterate (base : Template) (count : Nat) (id other : InstructionId) :
    Repetition { base with id := other } count { reversed^[count] base with id } := by
  obtain ⟨mnemonic, variant, size⟩ := @iterate_reversed_kept base count
  have flags := @iterate_reversed_flags base count
  refine ⟨mnemonic, variant, size, iterate_reversed_operands count, flags, ?_,
    iterate_reversed_kind count⟩
  rcases Nat.even_or_odd count with even | odd
  · simp [flags, even, Nat.not_odd_iff_even.mpr even]
  · simp [flags, odd, Nat.not_even_iff_odd.mpr odd, Flags.has_toggle]

/-! ## Tables -/

/-- An accepted payload lists records. The last template of a family among them is repeated by the
records of any run of repetitions behind it, one after the other, and each of these repetitions is
told by the number of reversals up to it. -/
theorem ofBytes_ok_folds (accepted : Table.ofBytes payload instructionCount = .ok table) :
    (∃ records, Lists payload records) ∧
    ∀ (earlier : List Record) (family : Family) (folds later : List Record),
      Lists payload (earlier ++ .family family :: (folds ++ later)) →
      (∀ fold ∈ folds, fold.IsFold) →
      let first := (earlier.map Record.emissionCount).sum
      ∃ base : Template, table.templates[first + (family.count - 1)]? = some base ∧
        base.Repeats (family.variant (family.count - 1) base.size) ∧
        ∀ position < folds.length, ∃ template : Template,
          table.templates[first + family.count + position]? = some template ∧
          Repetition base (reversals (folds.take (position + 1))) template := by
  constructor
  · obtain ⟨records, body, payloadEq, spells, fills, -⟩ := ofBytes_ok_iff.mp accepted
    exact ⟨records, lists_iff.mpr ⟨body, payloadEq, spells, fills.wellFormed⟩⟩
  intro earlier family folds later lists folding first
  obtain ⟨fills, templates⟩ := lists.fills accepted
  have wellFormed : family.WellFormed := fills.wellFormed (.family family) (by simp)
  obtain ⟨last, lastAt, emitted⟩ := @expansions_around earlier (folds ++ later) family wellFormed
  obtain ⟨-, lastEq, -⟩ := Family.expansion_getElem? wellFormed lastAt
  have before : (expansions none earlier).length = first := by
    have opening := (fills.take earlier.length).templates_length
    rwa [List.take_left] at opening
  have through : (expansions none earlier ++ family.expansion).length = first + family.count := by
    rw [List.length_append, before, Family.expansion_length wellFormed]
  have stored {position : Nat} {template : Template}
      (found : (expansions none earlier ++ family.expansion ++
        expansions (some last) (folds ++ later))[position]? = some template) :
      table.templates[position]? = some { template with id := .ofIndex position } := by
    rw [← Array.getElem?_toList, templates, emitted]
    exact numbered_getElem?_iff.mpr ⟨template, found, rfl⟩
  have positive := wellFormed.count_pos
  have lastFound : (expansions none earlier ++ family.expansion ++
      expansions (some last) (folds ++ later))[first + (family.count - 1)]? = some last := by
    rw [List.getElem?_append_left (by omega), List.getElem?_append_right (by omega), before,
      Nat.add_sub_cancel_left, lastAt]
  have alike : Template.Repeats { last with id := .ofIndex (first + (family.count - 1)) }
      (family.variant (family.count - 1) last.size) := by
    rw [← lastEq]
    rfl
  refine ⟨_, stored lastFound, alike, ?_⟩
  intro position inside
  have repeated : (expansions none earlier ++ family.expansion ++
      expansions (some last) (folds ++ later))[first + family.count + position]? =
        some (reversed^[reversals (folds.take (position + 1))] last) := by
    rw [List.getElem?_append_right (by omega), through, Nat.add_sub_cancel_left]
    exact expansions_folds_getElem? folding last later inside
  exact ⟨_, stored repeated, repetition_iterate last _ _ _⟩

/-- The operands of this family are marked as reversed. The mark is lost by the first reversal
behind it, stays lost in the repetition of that, and is back after the second reversal. -/
theorem ofBytes_ok_folds_marked :
    ∃ table base,
      Table.ofBytes [1, 1, 0xed, 0x1c, 6, 9, 0, 3, 0, 4, 0, 52, 0, 52] 4 = .ok table ∧
      Lists [1, 1, 0xed, 0x1c, 6, 9, 0, 3, 0, 4, 0, 52, 0, 52]
        [.family ⟨.stig2_2b, ⟨9⟩, [⟨3⟩, ⟨4⟩], .unmarked, 1⟩, .reverse, .previous, .reverse] ∧
      table.templates[0]? = some base ∧ base.flags.has .reverseOperands = true ∧
      (∃ template, table.templates[2]? = some template ∧ Repetition base 1 template ∧
        template.flags.has .reverseOperands = false) ∧
      ∃ template, table.templates[3]? = some template ∧ Repetition base 2 template ∧
        template.flags.has .reverseOperands = true := by
  have accepted : Table.ofBytes [1, 1, 0xed, 0x1c, 6, 9, 0, 3, 0, 4, 0, 52, 0, 52] 4 =
      .ok ⟨#[⟨⟨0⟩, .stig2_2b, ⟨9⟩, 0, .unmarked, [⟨3⟩, ⟨4⟩],
          .ofList [.stImplicit, .reverseOperands]⟩,
        ⟨⟨1⟩, .reverse, ⟨9⟩, 0, .unmarked, [⟨4⟩, ⟨3⟩], .ofList [.stImplicit]⟩,
        ⟨⟨2⟩, .reverse, ⟨9⟩, 0, .unmarked, [⟨4⟩, ⟨3⟩], .ofList [.stImplicit]⟩,
        ⟨⟨3⟩, .reverse, ⟨9⟩, 0, .unmarked, [⟨3⟩, ⟨4⟩],
          .ofList [.stImplicit, .reverseOperands]⟩]⟩ := by
    decide +kernel
  have wellFormed : ∀ record ∈ [Record.family ⟨.stig2_2b, ⟨9⟩, [⟨3⟩, ⟨4⟩], .unmarked, 1⟩, .reverse,
      .previous, .reverse], record.WellFormed := by
    decide
  obtain ⟨base, found, -, repeated⟩ := (ofBytes_ok_folds accepted).2 [] _
    [.reverse, .previous, .reverse] [] (lists_payloadOf wellFormed) (by decide)
  have marked : base.flags.has .reverseOperands = true := by
    rw [← Option.some.inj found]
    decide
  obtain ⟨second, secondFound, secondRepeats⟩ := repeated 1 (by decide)
  obtain ⟨third, thirdFound, thirdRepeats⟩ := repeated 2 (by decide)
  refine ⟨_, base, accepted, lists_payloadOf wellFormed, found, marked,
    ⟨second, secondFound, secondRepeats, ?_⟩, third, thirdFound, thirdRepeats, ?_⟩
  · rw [secondRepeats.mark, marked]
    decide
  · rw [thirdRepeats.mark, marked]
    decide

end InstructionTables.Template
