import Mathlib
import PeCoff.Resource.StringTable
import PeCoff.Proofs.Layout

/-!
# Slots of string blocks

A block of strings is a row of sixteen slots, each a length with as many units behind it. The main
statement is `decode_eq_slots`: the slots lie end to end and only the last one can be cut off, the
decoded strings are the slots that have units, each with the number of its place, strings that are
written are decoded again, and the numbers of different blocks are different.
-/

namespace PeCoff.Resource.StringTable

variable {places : Nat} {id : UInt32} {block : UInt16} {us rest : List UInt16} {bs : Bytes}
  {slots strings : List (List UInt16)}

/-! ## Slots -/

/-- The units of a slot: the length of its string, and the string. -/
def slotUnits (s : List UInt16) : List UInt16 :=
  UInt16.ofNat s.length :: s

/-- Where a slot starts: behind the slots before it, each of which has its length in front. -/
def slotStart (slots : List (List UInt16)) (k : Nat) : Nat :=
  ((slots.take k).map fun s => s.length + 1).sum

/-- Up to `places` slots lie end to end at the front of a sequence of units. Each has the units that
its length declares, but for the last one, which may be cut off. Fewer slots than there are places
mean that the sequence ends behind them. -/
structure Slots (places : Nat) (us : List UInt16) (slots : List (List UInt16)) : Prop where
  length_le : slots.length ≤ places
  slot : ∀ k s, slots[k]? = some s → ∃ length, us[slotStart slots k]? = some length ∧
    s = (us.drop (slotStart slots k + 1)).take length.toNat
  whole : ∀ k s length, slots[k]? = some s → us[slotStart slots k]? = some length →
    k + 1 < slots.length → s.length = length.toNat
  complete : slots.length = places ∨ us.length ≤ slotStart slots slots.length

/-- The slots that have units, each with the number of its place counted from `first`. -/
def nonEmpty (first : Nat) (slots : List (List UInt16)) : List (List UInt16 × Nat) :=
  (slots.zipIdx first).filter fun p => p.1 ≠ []

/-- The slots at the front of a sequence of units. -/
def slotsOf : (places : Nat) → List UInt16 → List (List UInt16)
  | 0, _ => []
  | _ + 1, [] => []
  | places + 1, length :: rest =>
    rest.take length.toNat :: slotsOf places (rest.drop length.toNat)

/-- Behind a first slot and its length the slots start anew. -/
lemma slotStart_cons (s : List UInt16) (slots : List (List UInt16)) (k : Nat) :
    slotStart (s :: slots) (k + 1) = s.length + 1 + slotStart slots k := by
  rw [slotStart, List.take_succ_cons, List.map_cons, List.sum_cons, slotStart]

/-- What follows a slot, which may be cut off, follows the units that it declares. -/
lemma drop_length_take (rest : List UInt16) (n : Nat) :
    rest.drop (rest.take n).length = rest.drop n := by
  rw [List.length_take]
  rcases Nat.le_total n rest.length with h | h
  · rw [Nat.min_eq_left h]
  · rw [Nat.min_eq_right h, List.drop_length, List.drop_of_length_le h]

/-- Without units there are no slots. -/
lemma slotsOf_nil (places : Nat) : slotsOf places [] = [] := by
  cases places <;> rfl

/-- A block without units has no slots. -/
lemma slots_nil (places : Nat) : Slots places [] [] where
  length_le := Nat.zero_le _
  slot k s h := by simp at h
  whole k s length h := by simp at h
  complete := .inr (Nat.zero_le _)

/-- A slot in front of slots. -/
lemma Slots.cons {length : UInt16} (h : Slots places (rest.drop length.toNat) slots)
    (hrest : rest.drop length.toNat = [] → slots = []) :
    Slots (places + 1) (length :: rest) (rest.take length.toNat :: slots) := by
  -- Places behind the first slot are places in the rest.
  have hdrop (n : Nat) : (length :: rest).drop ((rest.take length.toNat).length + 1 + n) =
      (rest.drop length.toNat).drop n := by
    rw [Nat.add_right_comm, List.drop_succ_cons, ← List.drop_drop, drop_length_take]
  have hget (n : Nat) : (length :: rest)[(rest.take length.toNat).length + 1 + n]? =
      (rest.drop length.toNat)[n]? := by
    have hhead := congrArg (·[0]?) (hdrop n)
    simpa only [List.getElem?_drop, Nat.add_zero] using hhead
  refine ⟨by simpa using h.length_le, fun k s hs => ?slot, fun k s declared hs hlength hk => ?whole,
    ?complete⟩
  case slot =>
    cases k with
    | zero => exact ⟨length, rfl, (Option.some.inj hs).symm⟩
    | succ k =>
      obtain ⟨declared, hdeclared, hslot⟩ := h.slot k s hs
      rw [slotStart_cons]
      exact ⟨declared, by rw [hget, hdeclared], by rw [Nat.add_assoc, hdrop, hslot]⟩
  case whole =>
    cases k with
    | zero =>
      obtain rfl : length = declared := Option.some.inj hlength
      obtain rfl := Option.some.inj hs
      have hne : rest.drop length.toNat ≠ [] := by
        intro hnil
        rw [hrest hnil] at hk
        exact Nat.lt_irrefl _ hk
      have hlt : length.toNat < rest.length := by
        by_contra hle
        exact hne (List.drop_of_length_le (Nat.not_lt.mp hle))
      rw [List.length_take, Nat.min_eq_left hlt.le]
    | succ k =>
      rw [slotStart_cons, hget] at hlength
      exact h.whole k s declared hs hlength (by simpa using hk)
  case complete =>
    rcases h.complete with hfull | hend
    · exact .inl (by rw [List.length_cons, hfull])
    · right
      rw [List.length_drop] at hend
      simp only [List.length_cons, slotStart_cons, List.length_take]
      omega

/-- The slots that are cut off are those of the block. -/
lemma slots_slotsOf (places : Nat) (us : List UInt16) : Slots places us (slotsOf places us) := by
  induction places generalizing us with
  | zero => exact ⟨Nat.le_refl _, fun k s h => by simp [slotsOf] at h,
      fun k s length h => by simp [slotsOf] at h, .inl rfl⟩
  | succ places ih =>
    cases us with
    | nil => exact slots_nil _
    | cons length rest => exact (ih _).cons fun hnil => by rw [hnil, slotsOf_nil]

/-- Strings that are written are the slots of what is written. -/
lemma slotsOf_flatMap_slotUnits (h : ∀ s ∈ strings, s.length < 2 ^ 16) (rest : List UInt16) :
    slotsOf strings.length (strings.flatMap slotUnits ++ rest) = strings := by
  induction strings with
  | nil => rfl
  | cons s strings ih =>
    obtain ⟨hs, hstrings⟩ := List.forall_mem_cons.mp h
    have hlength : (UInt16.ofNat s.length).toNat = s.length := UInt16.toNat_ofNat_of_lt' hs
    rw [List.flatMap_cons, slotUnits, List.cons_append, List.cons_append, List.append_assoc,
      List.length_cons, slotsOf, hlength, List.take_left, List.drop_left, ih hstrings]

/-! ## Decoding -/

/-- The decoded strings are the slots that have units. -/
lemma map_ofUnits_eq (h : id.toNat + places < 2 ^ 32) :
    (ofUnits places id us).map (fun s => (s.units, s.id.toNat)) =
      nonEmpty id.toNat (slotsOf places us) := by
  induction places generalizing id us with
  | zero => rfl
  | succ places ih =>
    cases us with
    | nil => rfl
    | cons length rest =>
      have hone : (1 : UInt32).toNat = 1 := rfl
      have hnext : (id + 1).toNat = id.toNat + 1 := by
        rw [UInt32.toNat_add, hone, Nat.mod_eq_of_lt (by omega)]
      have ih := @ih (id + 1) (rest.drop length.toNat) (by omega)
      rw [hnext] at ih
      rw [slotsOf, nonEmpty, List.zipIdx_cons, List.filter_cons, ofUnits]
      by_cases hempty : rest.take length.toNat = []
      · simp only [hempty, if_true, ne_eq, not_true_eq_false, decide_false, Bool.false_eq_true,
          if_false]
        exact ih
      · simp only [hempty, if_false, ne_eq, not_false_eq_true, decide_true, if_true, List.map_cons]
        exact congrArg _ ih

/-- The number of the first string does not overflow. -/
lemma toNat_firstId (h : block ≠ 0) : (firstId block).toNat = (block.toNat - 1) * 16 := by
  have hlt := block.toNat_lt
  have hne : block.toNat ≠ 0 := fun hzero => h (UInt16.toNat_inj.mp hzero)
  have hone : (1 : UInt32).toNat = 1 := rfl
  have hsixteen : (16 : UInt32).toNat = 16 := rfl
  rw [firstId, UInt32.toNat_mul, UInt32.toNat_sub, UInt16.toNat_toUInt32, hone, hsixteen]
  omega

/-- The decoded strings are the slots that are not empty, each with its number. -/
lemma map_decode_eq (bs : Bytes) (h : block ≠ 0) :
    (decode bs block).map (fun s => (s.units, s.id.toNat)) =
      nonEmpty ((block.toNat - 1) * 16) (slotsOf 16 (Text.Utf16.units bs)) := by
  have hlt := block.toNat_lt
  have hfirst := toNat_firstId h
  have hblock : blockSize = 16 := rfl
  rw [decode, ← hfirst, hblock]
  exact map_ofUnits_eq (by omega)

/-- The numbers of a block are sixteen that no other block has. -/
lemma id_div_of_mem_decode {s : TableString} (h : block ≠ 0) (hs : s ∈ decode bs block) :
    s.id.toNat / 16 = block.toNat - 1 := by
  have hmem : (s.units, s.id.toNat) ∈
      nonEmpty ((block.toNat - 1) * 16) (slotsOf 16 (Text.Utf16.units bs)) := by
    rw [← map_decode_eq bs h]
    exact List.mem_map_of_mem hs
  obtain ⟨hle, hlt, -⟩ := List.mem_zipIdx (List.mem_of_mem_filter hmem)
  have hlength := (slots_slotsOf 16 (Text.Utf16.units bs)).length_le
  omega

/-- The units of a block, of which an odd last byte does not count, are up to sixteen slots that lie
end to end, and the decoded strings are the slots that have units, numbered by their places. Sixteen
written strings are decoded to those that have units, whatever follows. Strings of different blocks
have different numbers. -/
theorem decode_eq_slots :
    (∀ (bs : Bytes) (block : UInt16), block ≠ 0 → ∃ (us : List UInt16) (stray : Bytes)
      (slots : List (List UInt16)), stray.length < 2 ∧ bs = us.flatMap Layout.u16.write ++ stray ∧
      Slots 16 us slots ∧ (decode bs block).map (fun s => (s.units, s.id.toNat)) =
        nonEmpty ((block.toNat - 1) * 16) slots) ∧
    (∀ (strings : List (List UInt16)) (rest : Bytes) (block : UInt16), strings.length = 16 →
      (∀ s ∈ strings, s.length < 65536) → block ≠ 0 →
      (decode ((strings.flatMap slotUnits).flatMap Layout.u16.write ++ rest) block).map
          (fun s => (s.units, s.id.toNat)) =
        nonEmpty ((block.toNat - 1) * 16) strings) ∧
    ∀ (bs bs' : Bytes) (block block' : UInt16), block ≠ 0 → block' ≠ 0 → block ≠ block' →
      ∀ s ∈ decode bs block, ∀ t ∈ decode bs' block', s.id ≠ t.id := by
  refine ⟨fun bs block hblock => ?_, fun strings rest block hlength hstrings hblock => ?_,
    fun bs bs' block block' hblock hblock' hne s hs t ht hid => ?_⟩
  · obtain ⟨stray, hstray, hbs⟩ := Text.Utf16.units_eq_iff.mp (Eq.refl (Text.Utf16.units bs))
    exact ⟨_, stray, _, hstray, hbs, slots_slotsOf 16 _, map_decode_eq bs hblock⟩
  · rw [map_decode_eq _ hblock, Text.Utf16.units_flatMap_append, ← hlength,
      slotsOf_flatMap_slotUnits hstrings]
  · have hs := id_div_of_mem_decode hblock hs
    have ht := id_div_of_mem_decode hblock' ht
    have hpos : block.toNat ≠ 0 := fun hzero => hblock (UInt16.toNat_inj.mp hzero)
    have hpos' : block'.toNat ≠ 0 := fun hzero => hblock' (UInt16.toNat_inj.mp hzero)
    rw [hid] at hs
    exact hne (UInt16.toNat_inj.mp (by omega))

/-- Sixteen strings of which two have units. -/
def sampleStrings : List (List UInt16) :=
  [[], [0x68, 0x69]] ++ List.replicate 13 [] ++ [[0x78]]

/-- The strings are decoded from their bytes with an odd byte behind them, a block that ends inside
its fourth slot is decoded as far as it goes, and no number is met twice. -/
theorem decode_eq_slots_sample :
    (decode ((sampleStrings.flatMap slotUnits).flatMap Layout.u16.write ++ [0xFF]) 2).map
        (fun s => (s.units, s.id.toNat)) = [([0x68, 0x69], 17), ([0x78], 31)] ∧
    (∃ us stray slots, [0, 0, 2, 0, 0x68, 0, 0x69, 0, 0, 0, 9, 0, 0x78, 0, 0xFF] =
        us.flatMap Layout.u16.write ++ stray ∧ Slots 16 us slots ∧
      (decode [0, 0, 2, 0, 0x68, 0, 0x69, 0, 0, 0, 9, 0, 0x78, 0, 0xFF] 1).map
        (fun s => (s.units, s.id.toNat)) = nonEmpty 0 slots) ∧
    ∀ s ∈ decode [0, 0, 2, 0, 0x68, 0, 0x69, 0, 0, 0, 9, 0, 0x78, 0, 0xFF] 1,
      ∀ t ∈ decode ((sampleStrings.flatMap slotUnits).flatMap Layout.u16.write ++ [0xFF]) 2,
        s.id ≠ t.id := by
  obtain ⟨hslots, hwritten, hids⟩ := decode_eq_slots
  have hsample := hwritten sampleStrings [0xFF] 2 (by decide) (by decide) (by decide)
  obtain ⟨us, stray, slots, -, hbs, hus, hdecode⟩ :=
    hslots [0, 0, 2, 0, 0x68, 0, 0x69, 0, 0, 0, 9, 0, 0x78, 0, 0xFF] 1 (by decide)
  exact ⟨hsample, ⟨us, stray, slots, hbs, hus, hdecode⟩,
    hids _ _ 1 2 (by decide) (by decide) (by decide)⟩

end PeCoff.Resource.StringTable
