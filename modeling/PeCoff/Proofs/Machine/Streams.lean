import Mathlib
import PeCoff.Proofs.Machine.Headers

/-!
# Streams on a machine

Relocation blocks and unwind codes say themselves where the next of them starts. A loop follows them
with a place that only goes up, and its state at each turn is what was found so far and what the
rest of the bytes still holds. The main statements are `relocations_eq` and `exceptions_eq`.
-/

namespace PeCoff.Machine

/-! ## Relocations -/

open Relocation

/-- The page of a block and its size. -/
def headerAt (bs : Bytes) (offset : Nat) : Step (Option (UInt32 × UInt32)) := do
  match slice? bs offset (← add 64 offset 8) with
  | none => return none
  | some header => return some (← fetch .u32 header 0, ← fetch .u32 header 4)

/-- One more block of a stream. -/
def blockTurn (bs : Bytes) : Nat × List Block → Step ((Nat × List Block) ⊕ Table) :=
  fun (offset, found) => do
    match ← headerAt bs offset with
    | none => return .inr ⟨found, none⟩
    | some (page, size) =>
      if size = 0 then return .inr ⟨found, none⟩
      if size.toNat < 8 then return .inr ⟨found, some ⟨offset, size⟩⟩
      let start ← add 64 offset 8
      let body ← slice bs start (min (saturatingAdd offset size.toNat) bs.length)
      let words ← records .u16 body
      return .inl (saturatingAdd offset size.toNat,
        found ++ [⟨page, size, words.map Fixup.ofWord⟩])

/-- The blocks of a stream. -/
def relocationTable (bs : Bytes) : Step Table :=
  loop (blockTurn bs) (0, [])

/-- What was found so far and what the stream holds from an offset on. -/
def blocksAfter (bs : Bytes) : Nat × List Block → Table := fun (offset, found) =>
  let rest := Table.decodeFrom offset (bs.drop offset)
  { rest with blocks := found ++ rest.blocks }

/-- The blocks of a stream, by its first header. -/
lemma decodeFrom_eq (offset : Nat) (bs : Bytes) :
    Table.decodeFrom offset bs = match blockHeader.decode? bs with
      | none => ⟨[], none⟩
      | some (page, size) =>
        if size = 0 then ⟨[], none⟩
        else if size.toNat < 8 then ⟨[], some ⟨offset, size⟩⟩
        else
          let rest := Table.decodeFrom (offset + size.toNat) (bs.drop size.toNat)
          { rest with
            blocks := ⟨page, size,
              (Layout.u16.decodeAll ((bs.take size.toNat).drop 8)).map Fixup.ofWord⟩
                :: rest.blocks } := by
  rw [Table.decodeFrom]
  split <;> rename_i hheader
  · rw [hheader]
  · rw [hheader]
    rfl

/-- The header of a block is decoded without a fault. -/
lemma headerAt_eq (bs : Bytes) {offset : Nat} (hoffset : offset + 8 < 2 ^ 64) :
    headerAt bs offset = .ok (blockHeader.decode? (bs.drop offset)) := by
  have hu32 : Layout.u32.size = 4 := rfl
  have hsize : blockHeader.size = 8 := rfl
  rw [headerAt, add_eq hoffset, Layout.decode?_eq, List.length_drop, hsize]
  simp only [ok_bind]
  by_cases hend : offset + 8 ≤ bs.length
  · have hpage : fetch .u32 ((bs.take (offset + 8)).drop offset) 0 =
        .ok (Layout.u32.read (Bytes.zeroExtended (bs.drop offset))) :=
      fetch_slice_eq (by omega) hend (by omega)
    have hblock : fetch .u32 ((bs.take (offset + 8)).drop offset) 4 =
        .ok (Layout.u32.read (Bytes.zeroExtended (bs.drop (offset + 4)))) :=
      fetch_slice_eq (by omega) hend (by omega)
    rw [slice?_eq (Nat.le_add_right _ _) hend, if_pos (by omega)]
    simp only [hpage, hblock, ok_bind]
    rw [← List.drop_drop, zeroExtended_drop (bs.drop offset)]
    rfl
  · have hnone : slice? bs offset (offset + 8) = none := if_neg fun hrange => hend hrange.2
    rw [hnone, if_neg (by omega)]
    rfl

/-- A block leads past itself, since it is at least as long as its header. -/
lemma blockTurn_eq {bs : Bytes} (hbs : bs.length < 2 ^ 63) {offset : Nat} {found : List Block}
    (hoffset : offset < 2 ^ 63 + 2 ^ 32) :
    blockTurn bs (offset, found) = .ok (.inr (blocksAfter bs (offset, found))) ∨
      ∃ next, blockTurn bs (offset, found) = .ok (.inl next) ∧ next.1 < 2 ^ 63 + 2 ^ 32 ∧
        bs.length - next.1 < bs.length - offset ∧
        blocksAfter bs next = blocksAfter bs (offset, found) := by
  rw [blockTurn, headerAt_eq bs (by omega), blocksAfter, decodeFrom_eq]
  simp only [ok_bind]
  cases hheader : blockHeader.decode? (bs.drop offset) with
  | none =>
    left
    simp
  | some header =>
    obtain ⟨page, size⟩ := header
    have hend := Layout.size_le_of_decode? _ hheader
    rw [List.length_drop, show blockHeader.size = 8 from rfl] at hend
    have hlt := size.toNat_lt
    by_cases hzero : size = 0
    · left
      simp [hzero]
    by_cases hsmall : size.toNat < 8
    · left
      simp [hzero, hsmall]
    right
    -- The bound on the offset keeps the sum below the greatest word.
    have hsum : saturatingAdd offset size.toNat = offset + size.toNat := by
      rw [saturatingAdd]
      omega
    have hbody : offset + 8 ≤ min (offset + size.toNat) bs.length := by omega
    have hwords (body : Bytes) : records .u16 body = .ok (Layout.u16.decodeAll body) :=
      records_eq (by decide) (by decide)
    refine ⟨(offset + size.toNat, found ++ [⟨page, size,
      (Layout.u16.decodeAll (((bs.drop offset).take size.toNat).drop 8)).map Fixup.ofWord⟩]),
      ?_, by simp only; omega, by simp only; omega, ?_⟩
    · simp only [if_neg hzero, if_neg hsmall]
      rw [add_eq (by omega), hsum]
      simp only [ok_bind]
      rw [slice_eq hbody (Nat.min_le_right _ _), drop_take_min_eq]
      simp only [ok_bind, hwords]
      rfl
    · simp [blocksAfter, hzero, hsmall, List.drop_drop]

/-- A relocation stream is decoded without a fault, and its loop ends since each block takes
bytes. -/
lemma relocationTable_eq {bs : Bytes} (hbs : bs.length < 2 ^ 63) :
    relocationTable bs = .ok (Table.decode bs) := by
  refine loop_eq (fun s => s.1 < 2 ^ 63 + 2 ^ 32) (fun s => bs.length - s.1) (blocksAfter bs) ?_
    (by decide) (by simp only; omega)
  rintro ⟨offset, found⟩ hoffset
  exact blockTurn_eq hbs hoffset

/-- The base relocations. -/
def relocations (e : Executable) : Step (Option Table) := do
  match ← directory e DirectorySlot.relocations.index with
  | none => return none
  | some (_, bytes) => return some (← relocationTable bytes)

/-- The relocations of an executable are decoded without a fault. -/
theorem relocations_eq {e : Executable} (h : Fits e.image) :
    relocations e = .ok e.relocations := by
  rw [relocations, directory_eq h, Executable.relocations]
  cases hfound : e.directoryOf .relocations with
  | none => rfl
  | some found =>
    have hlength := length_directoryOf_lt hfound
    have htable : relocationTable found.2 = .ok (Table.decode found.2) :=
      relocationTable_eq (by omega)
    simp [htable]

/-! ## Unwind codes -/

open Unwind

/-- The two bytes of a slot. -/
def slotBytes (bs : Bytes) (i : Nat) : Step (Option Bytes) := do
  return slice? bs (← mul 64 i 2) (← add 64 (← mul 64 i 2) 2)

/-- The number in a slot. -/
def operand16 (bs : Bytes) (i : Nat) : Step (Option Nat) := do
  match ← slotBytes bs i with
  | none => return none
  | some slot => return some (← fetch .u16 slot 0).toNat

/-- The number in a slot and the one after it. -/
def operand32 (bs : Bytes) (i : Nat) : Step (Option Nat) := do
  match ← slotBytes bs i with
  | none => return none
  | some low =>
    match ← slotBytes bs (← add 64 i 1) with
    | none => return none
    | some high =>
      let number := [← index low 0, ← index low 1, ← index high 0, ← index high 1]
      return some (← fetch .u32 number 0).toNat

/-- The operand in the slot after a code, scaled by the size of what is allocated or saved. -/
def scaled (bs : Bytes) (i scale : Nat) : Step (Option Nat) := do
  match ← operand16 bs (← add 64 i 1) with
  | none => return none
  | some operand => return some (← mul 32 operand scale)

/-- The operand in the two slots after a code. -/
def unscaled (bs : Bytes) (i : Nat) : Step (Option Nat) := do
  operand32 bs (← add 64 i 1)

/-- The operation of a code, if its operand is there, and the number of slots of the operand. -/
def operation (bs : Bytes) (i : Nat) (code info : Fin 16) : Step (Option Operation × Nat) := do
  match code.val with
  | 0 => return (some (.push info), 0)
  | 1 =>
    if info.val ≠ 0 then
      return ((← unscaled bs i).map fun size => .allocate (UInt32.ofNat size), 2)
    return ((← scaled bs i 8).map fun size => .allocate (UInt32.ofNat size), 1)
  | 2 =>
    let size ← mul 32 (← add 32 info.val 1) 8
    return (some (.allocate (UInt32.ofNat size)), 0)
  | 3 => return (some .setFrameRegister, 0)
  | 4 => return ((← scaled bs i 8).map fun offset => .save info (UInt32.ofNat offset), 1)
  | 5 => return ((← unscaled bs i).map fun offset => .save info (UInt32.ofNat offset), 2)
  | 8 => return ((← scaled bs i 16).map fun offset => .saveVector info (UInt32.ofNat offset), 1)
  | 9 => return ((← unscaled bs i).map fun offset => .saveVector info (UInt32.ofNat offset), 2)
  | 10 => return (some (.pushMachineFrame info), 0)
  | _ => return (some (.unknown code), 0)

/-- One more code of an array. -/
def codeTurn (bs : Bytes) :
    Nat × List Code → Step ((Nat × List Code) ⊕ (List Code × Bool)) := fun (i, found) => do
  if i < bs.length / 2 then
    let low ← index bs (← mul 64 i 2)
    let high ← index bs (← add 64 (← mul 64 i 2) 1)
    let slot : Slot := ⟨low, high⟩
    let (operation, extra) ← operation bs i slot.operation slot.info
    match operation with
    | none => return .inr (found, true)
    | some operation =>
      let taken ← add 64 1 extra
      return .inl (← add 64 i taken, found ++ [⟨low, operation⟩])
  else
    return .inr (found, false)

/-- The codes of an array, and whether the last one is cut off. -/
def unwindCodes (bs : Bytes) : Step (List Code × Bool) :=
  loop (codeTurn bs) (0, [])

section Codes

variable {bs : Bytes} {i : Nat}

/-- Two bytes make up a slot. -/
lemma length_slots (bs : Bytes) : (Slot.ofBytes bs).length = bs.length / 2 := by
  fun_induction Slot.ofBytes bs with
  | case1 low high rest ih =>
    simp only [List.length_cons, ih]
    omega
  | case2 bs hshort =>
    match bs with
    | [] => rfl
    | [_] => simp
    | low :: high :: rest => exact absurd rfl (hshort low high rest)

/-- A slot consists of the two bytes at twice its number. -/
lemma getElem?_slots (bs : Bytes) (i : Nat) : (Slot.ofBytes bs)[i]? =
    bs[i * 2]?.bind fun low => bs[i * 2 + 1]?.map fun high => ⟨low, high⟩ := by
  fun_induction Slot.ofBytes bs generalizing i with
  | case1 low high rest ih =>
    cases i with
    | zero => rfl
    | succ i =>
      rw [List.getElem?_cons_succ, ih, show (i + 1) * 2 = i * 2 + 1 + 1 by omega]
      rfl
  | case2 bs hshort =>
    match bs with
    | [] => rfl
    | [_] =>
      cases i with
      | zero => rfl
      | succ i =>
        rw [show (i + 1) * 2 = i * 2 + 1 + 1 by omega]
        rfl
    | low :: high :: rest => exact absurd rfl (hshort low high rest)

/-- The bytes of a slot are accessed without a fault. -/
lemma slotBytes_eq (h : i < 2 ^ 62) : slotBytes bs i =
    .ok ((Slot.ofBytes bs)[i]?.map fun s => [s.low, s.high]) := by
  rw [slotBytes, mul_eq (by omega)]
  simp only [ok_bind]
  rw [add_eq (by omega), getElem?_slots]
  by_cases hend : i * 2 + 2 ≤ bs.length
  · have hdrop : (bs.take (i * 2 + 2)).drop (i * 2) = [bs[i * 2], bs[i * 2 + 1]] := by
      rw [List.drop_take, Nat.add_sub_cancel_left, List.drop_eq_getElem_cons (by omega),
        List.drop_eq_getElem_cons (by omega)]
      rfl
    simp only [slice?_eq (Nat.le_add_right _ _) hend, hdrop, ok_bind, pure_eq]
    rw [List.getElem?_eq_getElem (by omega), List.getElem?_eq_getElem (by omega)]
    rfl
  · have hnone : slice? bs (i * 2) (i * 2 + 2) = none := if_neg fun hrange => hend hrange.2
    simp only [hnone, ok_bind, pure_eq]
    rw [List.getElem?_eq_none (show bs.length ≤ i * 2 + 1 by omega)]
    cases bs[i * 2]? <;> rfl

/-- The slots after a code. -/
lemma getElem?_drop_slots (bs : Bytes) (i k : Nat) :
    ((Slot.ofBytes bs).drop (i + 1))[k]? = (Slot.ofBytes bs)[i + 1 + k]? :=
  List.getElem?_drop

/-- An operand of one slot is read without a fault. -/
lemma operand16_eq (h : i < 2 ^ 62) : operand16 bs i =
    .ok ((Slot.ofBytes bs)[i]?.map fun s => Slot.value [s]) := by
  rw [operand16, slotBytes_eq h]
  cases (Slot.ofBytes bs)[i]? with
  | none => rfl
  | some s =>
    have hlow := s.low.toNat_lt
    have hhigh := s.high.toNat_lt
    have hread : (Layout.u16.read (Bytes.zeroExtended [s.low, s.high])).toNat =
        Slot.value [s] := by
      have hnumber : Layout.u16.read (Bytes.zeroExtended [s.low, s.high]) =
          UInt16.ofNat (Bytes.littleEndian [s.low, s.high]) := rfl
      rw [hnumber, UInt16.toNat_ofNat']
      simp only [Bytes.littleEndian, Slot.value]
      omega
    have hfetch : fetch .u16 [s.low, s.high] 0 =
        .ok (Layout.u16.read (Bytes.zeroExtended [s.low, s.high])) :=
      fetch_eq (by simp) (Nat.le_refl 2)
    simp only [Option.map_some, ok_bind, hfetch, pure_eq, hread]

/-- An operand of two slots is read without a fault. -/
lemma operand32_eq (h : i < 2 ^ 61) : operand32 bs i =
    .ok ((Slot.ofBytes bs)[i]?.bind fun s => (Slot.ofBytes bs)[i + 1]?.map fun t =>
      Slot.value [s, t]) := by
  rw [operand32, slotBytes_eq (by omega), add_eq (by omega)]
  simp only [ok_bind]
  rw [slotBytes_eq (by omega)]
  cases (Slot.ofBytes bs)[i]? with
  | none => rfl
  | some s =>
    cases (Slot.ofBytes bs)[i + 1]? with
    | none => rfl
    | some t =>
      have hsLow := s.low.toNat_lt
      have hsHigh := s.high.toNat_lt
      have htLow := t.low.toNat_lt
      have htHigh := t.high.toNat_lt
      have hread : (Layout.u32.read
          (Bytes.zeroExtended [s.low, s.high, t.low, t.high])).toNat = Slot.value [s, t] := by
        have hnumber : Layout.u32.read (Bytes.zeroExtended [s.low, s.high, t.low, t.high]) =
            UInt32.ofNat (Bytes.littleEndian [s.low, s.high, t.low, t.high]) := rfl
        rw [hnumber, UInt32.toNat_ofNat']
        simp only [Bytes.littleEndian, Slot.value]
        omega
      have hfetch : fetch .u32 [s.low, s.high, t.low, t.high] 0 =
          .ok (Layout.u32.read (Bytes.zeroExtended [s.low, s.high, t.low, t.high])) :=
        fetch_eq (by simp) (Nat.le_refl 4)
      have hindex (a b : UInt8) : index [a, b] 0 = .ok a ∧ index [a, b] 1 = .ok b := ⟨rfl, rfl⟩
      simp only [Option.map_some, ok_bind, (hindex _ _).1, (hindex _ _).2, hfetch, pure_eq, hread]
      rfl

/-- The slots of an operand, when all of them are there. -/
def operandOf (rest : List Slot) (n : Nat) : Option Nat :=
  if (rest.take n).length < n then none else some (Slot.value (rest.take n))

/-- An operand that is scaled does not overflow. -/
lemma scaled_eq (h : i < 2 ^ 60) {scale : Nat} (hscale : scale ≤ 16) : scaled bs i scale =
    .ok ((operandOf ((Slot.ofBytes bs).drop (i + 1)) 1).map fun operand => operand * scale) := by
  have hrest := getElem?_drop_slots bs i 0
  rw [scaled, add_eq (by omega)]
  simp only [ok_bind]
  rw [operand16_eq (by omega), ← Nat.add_zero (i + 1), ← hrest, Nat.add_zero]
  cases (Slot.ofBytes bs).drop (i + 1) with
  | nil => rfl
  | cons s rest =>
    have hlow := s.low.toNat_lt
    have hhigh := s.high.toNat_lt
    have hvalue : Slot.value [s] < 2 ^ 16 := by
      simp only [Slot.value]
      omega
    have hproduct : Slot.value [s] * scale ≤ Slot.value [s] * 16 := Nat.mul_le_mul_left _ hscale
    simp only [List.getElem?_cons_zero, Option.map_some, ok_bind,
      mul_eq (show Slot.value [s] * scale < 2 ^ 32 by omega)]
    rfl

/-- An operand that is not scaled is read without a fault. -/
lemma unscaled_eq (h : i < 2 ^ 60) :
    unscaled bs i = .ok (operandOf ((Slot.ofBytes bs).drop (i + 1)) 2) := by
  have hfirst := getElem?_drop_slots bs i 0
  have hsecond := getElem?_drop_slots bs i 1
  rw [unscaled, add_eq (by omega)]
  simp only [ok_bind]
  rw [operand32_eq (by omega), ← hsecond, ← Nat.add_zero (i + 1), ← hfirst, Nat.add_zero]
  match (Slot.ofBytes bs).drop (i + 1) with
  | [] => rfl
  | [_] => rfl
  | _ :: _ :: rest => simp [operandOf]

/-- The operation of a code is there when all slots of its operand are. -/
lemma operation_eq (h : i < 2 ^ 60) (code info : Fin 16) :
    operation bs i code info =
      .ok ((operandOf ((Slot.ofBytes bs).drop (i + 1)) (Operation.operandSlots code info)).map
          (Operation.ofParts code info),
        Operation.operandSlots code info) := by
  have hinfo := info.isLt
  have hnone (rest : List Slot) : operandOf rest 0 = some 0 := by simp [operandOf, Slot.value]
  obtain ⟨code, hcode⟩ := code
  rw [operation]
  simp only [scaled_eq h (by decide : 8 ≤ 16), scaled_eq h (by decide : 16 ≤ 16), unscaled_eq h,
    Operation.operandSlots]
  interval_cases code
  -- The size of a large allocation is scaled or not, that of a small one is a part of the code.
  case «1» =>
    by_cases hsmall : info.val = 0
    · rw [if_neg (not_not.mpr hsmall), if_pos hsmall]
      simp only [ok_bind, pure_eq, Option.map_map]
      congr 3
      funext operand
      simp [Operation.ofParts, hsmall]
    · rw [if_pos hsmall, if_neg hsmall]
      simp only [ok_bind, pure_eq]
      congr 3
      funext operand
      simp [Operation.ofParts, hsmall]
  case «2» =>
    rw [add_eq (by omega)]
    simp only [ok_bind]
    rw [mul_eq (by omega), hnone]
    rfl
  all_goals simp only [ok_bind, pure_eq, hnone, Option.map_map, Option.map_some]
  all_goals rfl

/-- What was found so far and what the slots hold from a place on. -/
def codesAfter (bs : Bytes) : Nat × List Code → List Code × Bool := fun (i, found) =>
  let rest := Code.decode ((Slot.ofBytes bs).drop i)
  (found ++ rest.1, rest.2)

/-- An operation has an operand of at most two slots. -/
lemma operandSlots_le (code info : Fin 16) : Operation.operandSlots code info ≤ 2 := by
  rw [Operation.operandSlots]
  split
  · split <;> decide
  all_goals decide

/-- One turn decodes an operation and goes on behind it, or ends without a fault. -/
lemma codeTurn_eq (hbs : bs.length < 2 ^ 60) (i : Nat) (found : List Code) :
    codeTurn bs (i, found) = .ok (.inr (codesAfter bs (i, found))) ∨
      ∃ next, codeTurn bs (i, found) = .ok (.inl next) ∧
        bs.length / 2 - next.1 < bs.length / 2 - i ∧
        codesAfter bs next = codesAfter bs (i, found) := by
  have hlength := length_slots bs
  rw [codeTurn, codesAfter]
  by_cases hi : i < bs.length / 2
  · have hslots : i < (Slot.ofBytes bs).length := by omega
    have hslot : (Slot.ofBytes bs)[i] = ⟨bs[i * 2], bs[i * 2 + 1]⟩ := by
      have hget := getElem?_slots bs i
      rw [List.getElem?_eq_getElem hslots, List.getElem?_eq_getElem (by omega),
        List.getElem?_eq_getElem (by omega)] at hget
      simpa using hget
    rw [if_pos hi, mul_eq (by omega), List.drop_eq_getElem_cons hslots, hslot, Code.decode]
    simp only [ok_bind]
    rw [add_eq (by omega), index_eq (by omega)]
    simp only [ok_bind]
    rw [index_eq (by omega)]
    simp only [ok_bind]
    rw [operation_eq (by omega)]
    -- How many slots an operation has is all that the place of the next code depends on.
    generalize hn : Operation.operandSlots (Slot.operation ⟨bs[i * 2], bs[i * 2 + 1]⟩)
      (Slot.info ⟨bs[i * 2], bs[i * 2 + 1]⟩) = n
    have hn2 : n ≤ 2 := hn ▸ operandSlots_le _ _
    simp only [ok_bind, operandOf]
    by_cases hshort : (((Slot.ofBytes bs).drop (i + 1)).take n).length < n
    · left
      rw [if_pos hshort, if_pos hshort]
      simp
    · right
      rw [if_neg hshort, if_neg hshort]
      simp only [Option.map_some]
      rw [add_eq (by omega)]
      simp only [ok_bind]
      rw [add_eq (by omega)]
      refine ⟨_, rfl, by simp only; omega, ?_⟩
      simp [codesAfter, List.drop_drop, Nat.add_assoc]
  · left
    have hrest : (Slot.ofBytes bs).drop i = [] := List.drop_of_length_le (by omega)
    rw [if_neg hi, hrest]
    simp [Code.decode]

/-- Unwind codes are decoded without a fault, and their loop ends since each operation takes
slots. -/
lemma unwindCodes_eq (hbs : bs.length < 2 ^ 60) :
    unwindCodes bs = .ok (Code.decode (Slot.ofBytes bs)) := by
  refine loop_eq (fun _ => True) (fun s => bs.length / 2 - s.1) (codesAfter bs) ?_ trivial
    (by simp only; omega)
  rintro ⟨i, found⟩ _
  obtain hend | ⟨next, hnext, hless, hsame⟩ := codeTurn_eq hbs i found
  · exact .inl hend
  · exact .inr ⟨next, hnext, trivial, hless, hsame⟩

end Codes

/-! ## Exceptions -/

/-- What follows the unwind codes. -/
def trailer (reader : Reader) (flags : UInt8) (address : UInt32) : Step Trailer := do
  if Info.hasFlag flags Info.chainFlag then
    match ← reader.record? RuntimeFunction.layout address.toNat with
    | some function => return .chain function
    | none => return .unavailable
  else if Info.declaresHandler flags then
    match ← reader.fetch? .u32 address.toNat with
    | some handler => return .handler handler (address + 4)
    | none => return .unavailable
  else
    return .none

/-- The codes at an address, and whether the last one is cut off. -/
def codesAt (reader : Reader) (address : UInt32) (count : UInt8) :
    Step (Option (List Code × Bool)) := do
  if count = 0 then return some ([], false)
  match ← reader address.toNat (← mul 64 count.toNat 2) with
  | none => return none
  | some bs => return some (← unwindCodes bs)

/-- The unwind information at an address. -/
def unwindInfo (reader : Reader) (address : UInt32) : Step Detail := do
  match ← reader address.toNat Info.headerSize with
  | none => return .unavailable
  | some header =>
    let version := (← index header 0) &&& 7
    if version ≠ 1 then return .unknownVersion version
    let flags := (← index header 0) >>> 3
    let slotCount ← index header 2
    let slotsAddress := address + 4
    match ← codesAt reader slotsAddress slotCount with
    | none => return .unavailable
    | some (codes, truncated) =>
      let slot := (← add 32 slotCount.toNat 1) / 2 * 2
      let trailer ← trailer reader flags (slotsAddress + UInt32.ofNat (← mul 32 slot 2))
      let sizeOfProlog ← index header 1
      let frameRegister := (← index header 3) &&& 15
      let frameOffset := (← index header 3) >>> 4
      return .info {
        version, flags, sizeOfProlog, slotCount, frameRegister, frameOffset, codes, truncated
        trailer }

/-- What the unwind address of a function leads to. -/
def unwindDetail (reader : Reader) (function : RuntimeFunction) : Step Detail := do
  if function.isChained then
    return .chained (← reader.record? RuntimeFunction.layout function.chainAddress.toNat)
  else
    unwindInfo reader function.unwindInfo

/-- The entries of an exception directory. -/
def exceptionTable (reader : Reader) (bs : Bytes) : Step (List Entry) := do
  let functions ← records RuntimeFunction.layout bs
  functions.mapM fun function => return ⟨function, ← unwindDetail reader function⟩

section Exceptions

variable {reader : Reader} {memory : Memory}

/-- The trailer of unwind information is read without a fault. -/
lemma trailer_eq (h : reader.Serves memory) (flags : UInt8) (address : UInt32) :
    trailer reader flags address = .ok (Detail.trailerAt memory flags address) := by
  have haddress := address.toNat_lt
  rw [trailer, Detail.trailerAt, h.record?_eq (by decide) haddress,
    h.fetch?_eq (by decide) haddress]
  by_cases hchain : Info.hasFlag flags Info.chainFlag
  · rw [if_pos hchain, if_pos hchain]
    cases memory.record? RuntimeFunction.layout address.toNat <;> rfl
  rw [if_neg hchain, if_neg hchain]
  by_cases hhandler : Info.declaresHandler flags
  · rw [if_pos hhandler, if_pos hhandler]
    cases memory.record? .u32 address.toNat <;> rfl
  · rw [if_neg hhandler, if_neg hhandler]
    rfl

/-- The slots at an address are read and decoded without a fault. -/
lemma codesAt_eq (h : reader.Serves memory) (address : UInt32) (count : UInt8) :
    codesAt reader address count =
      .ok ((Detail.slotsAt memory address count).map Code.decode) := by
  have hcount := count.toNat_lt
  rw [codesAt, Detail.slotsAt]
  by_cases hzero : count = 0
  · rw [if_pos hzero, if_pos hzero]
    simp [Code.decode]
  · rw [if_neg hzero, if_neg hzero, mul_eq (by omega)]
    simp only [ok_bind]
    rw [h.read_eq _ _ address.toNat_lt (by omega)]
    cases hbs : memory address.toNat (count.toNat * 2) with
    | none => rfl
    | some bs =>
      have hlength := h.exact _ _ _ hbs
      have hcodes : unwindCodes bs = .ok (Code.decode (Slot.ofBytes bs)) :=
        unwindCodes_eq (by omega)
      simp [hcodes]

/-- The unwind information at an address is decoded without a fault. -/
lemma unwindInfo_eq (h : reader.Serves memory) (address : UInt32) :
    unwindInfo reader address = .ok (Detail.infoAt memory address) := by
  rw [unwindInfo, h.read_eq _ _ address.toNat_lt (by decide), Detail.infoAt]
  cases hheader : memory address.toNat Info.headerSize with
  | none => rfl
  | some header =>
    have hlength : header.length = 4 := h.exact _ _ _ hheader
    have hindex {i : Nat} (hi : i < 4) : index header i = .ok (header.zeroExtended i) := by
      rw [index_eq (by omega), Bytes.zeroExtended_of_lt]
    have hcount := (header.zeroExtended 2).toNat_lt
    simp only [ok_bind, hindex (by decide : 0 < 4), hindex (by decide : 1 < 4),
      hindex (by decide : 2 < 4), hindex (by decide : 3 < 4), codesAt_eq h, trailer_eq h]
    by_cases hversion : header.zeroExtended 0 &&& 7 = 1
    · rw [if_neg (not_not.mpr hversion), if_neg (not_not.mpr hversion), add_eq (by omega)]
      simp only [ok_bind]
      rw [mul_eq (by omega)]
      cases Detail.slotsAt memory (address + 4) (header.zeroExtended 2) <;> rfl
    · rw [if_pos hversion, if_pos hversion]
      rfl

/-- What a function leads to is decoded without a fault. -/
lemma unwindDetail_eq (h : reader.Serves memory) (function : RuntimeFunction) :
    unwindDetail reader function = .ok (Detail.ofFunction memory function) := by
  rw [unwindDetail, Detail.ofFunction,
    h.record?_eq (by decide) function.chainAddress.toNat_lt, unwindInfo_eq h]
  cases function.isChained <;> rfl

/-- An exception table is decoded without a fault. -/
lemma exceptionTable_eq (h : reader.Serves memory) (bs : Bytes) :
    exceptionTable reader bs = .ok (decodeTable memory bs) := by
  rw [exceptionTable, records_eq (by decide) (by decide), decodeTable]
  simp only [ok_bind]
  apply mapM_eq
  intro function _
  simp [unwindDetail_eq h]

end Exceptions

/-- The entries of the exception directory. -/
def exceptions (e : Executable) : Step (Option (List Entry)) := do
  match ← directory e DirectorySlot.exceptions.index with
  | none => return none
  | some (_, bytes) => return some (← exceptionTable (memory e) bytes)

/-- The header of the common language runtime. -/
def commonRuntime (e : Executable) : Step (Option CommonRuntime) := do
  match ← directory e DirectorySlot.commonRuntime.index with
  | none => return none
  | some (range, _) => (memory e).record? CommonRuntime.layout range.address.toNat

variable {e : Executable}

/-- The exceptions of an executable are decoded without a fault. -/
theorem exceptions_eq (h : Fits e.image) : exceptions e = .ok e.exceptions := by
  rw [exceptions, directory_eq h, Executable.exceptions]
  cases e.directoryOf .exceptions with
  | none => rfl
  | some found => simp [exceptionTable_eq (memory_serves h)]

/-- The header of the common runtime is decoded without a fault. -/
theorem commonRuntime_eq (h : Fits e.image) : commonRuntime e = .ok e.commonRuntime := by
  rw [commonRuntime, directory_eq h, Executable.commonRuntime]
  cases e.directoryOf .commonRuntime with
  | none => rfl
  | some found => exact (memory_serves h).record?_eq (by decide) found.1.address.toNat_lt

end PeCoff.Machine
