import Mathlib
import PeCoff.Proofs.Machine.Streams

/-!
# Written unwind codes

An unwind code is written as a first slot and an operand of up to two more, and some operations can
be written in several forms. The main statement is `decode_eq_iff_written`: an array of slots is
decoded to the codes of which it is written, and it is truncated exactly when behind them stand some
slots of one more code, but not all of them. Every array is written so.
-/

namespace PeCoff.Unwind

/-! ## Slots -/

namespace Slot

variable {offset : UInt8} {code info : Fin 16}

/-- The first slot of a code. -/
def first (offset : UInt8) (code info : Fin 16) : Slot :=
  ⟨offset, UInt8.ofNat (code.val + 16 * info.val)⟩

/-- The slot that holds a 16-bit number. -/
def ofWord (w : UInt16) : Slot :=
  ⟨UInt8.ofNat w.toNat, UInt8.ofNat (w.toNat / 256)⟩

/-- The slots that hold a 32-bit number, the lower half first. -/
def ofDword (d : UInt32) : List Slot :=
  [ofWord (UInt16.ofNat d.toNat), ofWord (UInt16.ofNat (d.toNat / 65536))]

/-- The bytes of a slot. -/
def bytes (s : Slot) : Bytes :=
  [s.low, s.high]

/-- A slot takes two bytes. -/
lemma length_flatMap_bytes (slots : List Slot) :
    (slots.flatMap bytes).length = 2 * slots.length := by
  rw [List.length_flatMap]
  simp [bytes, Nat.mul_comm]

/-- The first slot of an operation tells its code. -/
@[simp] lemma operation_first : (first offset code info).operation = code := by
  obtain ⟨code, hcode⟩ := code
  simp only [first, operation, UInt8.toNat_ofNat', Fin.mk.injEq]
  omega

/-- The first slot of an operation tells its info. -/
@[simp] lemma info_first : (first offset code info).info = info := by
  obtain ⟨code, hcode⟩ := code
  obtain ⟨info, hinfo⟩ := info
  simp only [first, Slot.info, UInt8.toNat_ofNat', Fin.mk.injEq]
  omega

/-- Every slot is a first slot. -/
lemma first_operation_info (s : Slot) : first s.low s.operation s.info = s := by
  obtain ⟨low, high⟩ := s
  have hhigh : high.toNat % 16 + 16 * (high.toNat / 16) = high.toNat := Nat.mod_add_div _ _
  simp only [first, operation, info, hhigh, UInt8.ofNat_toNat]

/-- The operand of one slot is its number. -/
@[simp] lemma value_ofWord (w : UInt16) : value [ofWord w] = w.toNat := by
  have hw := w.toNat_lt
  simp only [value, ofWord, UInt8.toNat_ofNat']
  omega

/-- The operand of two slots is the number of both, the low half first. -/
@[simp] lemma value_ofDword (d : UInt32) : value (ofDword d) = d.toNat := by
  have hd := d.toNat_lt
  simp only [value, ofDword, ofWord, UInt8.toNat_ofNat', UInt16.toNat_ofNat']
  omega

/-- Any slot holds a 16-bit number. -/
lemma exists_ofWord {operand : List Slot} (h : operand.length = 1) :
    ∃ w, operand = [ofWord w] := by
  obtain ⟨⟨low, high⟩, rfl⟩ := List.length_eq_one_iff.mp h
  have hlow := low.toNat_lt
  have hhigh := high.toNat_lt
  refine ⟨UInt16.ofNat (low.toNat + 256 * high.toNat), ?_⟩
  simp only [ofWord, UInt16.toNat_ofNat', List.cons.injEq, mk.injEq, ← UInt8.toNat_inj,
    UInt8.toNat_ofNat', and_true]
  omega

/-- Any two slots hold a 32-bit number. -/
lemma exists_ofDword {operand : List Slot} (h : operand.length = 2) :
    ∃ d, operand = ofDword d := by
  obtain ⟨s, t, rfl⟩ := List.length_eq_two.mp h
  obtain ⟨v, hv⟩ := exists_ofWord (List.length_singleton (a := s))
  obtain ⟨w, hw⟩ := exists_ofWord (List.length_singleton (a := t))
  have hvlt := v.toNat_lt
  have hwlt := w.toNat_lt
  refine ⟨UInt32.ofNat (v.toNat + 65536 * w.toNat), ?_⟩
  have hlow : UInt16.ofNat (UInt32.ofNat (v.toNat + 65536 * w.toNat)).toNat = v := by
    rw [← UInt16.toNat_inj, UInt16.toNat_ofNat', UInt32.toNat_ofNat']
    omega
  have hhigh : UInt16.ofNat ((UInt32.ofNat (v.toNat + 65536 * w.toNat)).toNat / 65536) = w := by
    rw [← UInt16.toNat_inj, UInt16.toNat_ofNat', UInt32.toNat_ofNat']
    omega
  rw [ofDword, hlow, hhigh, List.head_eq_of_cons_eq hv, List.head_eq_of_cons_eq hw]

/-- The slots of a byte string are those whose bytes it consists of, but for an odd last byte. -/
lemma ofBytes_eq_iff {bs : Bytes} {slots : List Slot} : ofBytes bs = slots ↔
    ∃ stray : Bytes, stray.length < 2 ∧ bs = slots.flatMap bytes ++ stray := by
  constructor
  · rintro rfl
    fun_induction ofBytes bs with
    | case1 low high rest ih =>
      obtain ⟨stray, hstray, hrest⟩ := ih
      exact ⟨stray, hstray, congrArg (low :: high :: ·) hrest⟩
    | case2 bs hshort =>
      refine ⟨bs, ?_, rfl⟩
      rcases bs with _ | ⟨low, _ | ⟨high, rest⟩⟩
      · exact Nat.zero_lt_two
      · exact Nat.one_lt_two
      · exact absurd rfl (hshort low high rest)
  · rintro ⟨stray, hstray, rfl⟩
    induction slots with
    | nil =>
      rcases stray with _ | ⟨low, _ | ⟨high, rest⟩⟩
      · rfl
      · rfl
      · simp only [List.length_cons] at hstray
        omega
    | cons s slots ih => exact congrArg (s :: ·) ih

end Slot

/-! ## Forms of operations -/

/-- The forms in which operations can be written: with a code, the information in the first slot and
an operand. Where the operation does not depend on the information, it may be anything. -/
inductive Operation.Form : Operation → (code info : Fin 16) → (operand : List Slot) → Prop
  | push (register : Fin 16) : Form (push register) 0 register []
  | allocateLarge (units : UInt16) :
    Form (allocate (units.toUInt32 * 8)) 1 0 [Slot.ofWord units]
  | allocateHuge (size : UInt32) {info : Fin 16} (h : info ≠ 0) :
    Form (allocate size) 1 info (Slot.ofDword size)
  | allocateSmall (units : Fin 16) :
    Form (allocate ((UInt32.ofNat units.val + 1) * 8)) 2 units []
  | setFrameRegister (info : Fin 16) : Form setFrameRegister 3 info []
  | save (register : Fin 16) (units : UInt16) :
    Form (save register (units.toUInt32 * 8)) 4 register [Slot.ofWord units]
  | saveFar (register : Fin 16) (offset : UInt32) :
    Form (save register offset) 5 register (Slot.ofDword offset)
  | saveVector (register : Fin 16) (units : UInt16) :
    Form (saveVector register (units.toUInt32 * 16)) 8 register [Slot.ofWord units]
  | saveVectorFar (register : Fin 16) (offset : UInt32) :
    Form (saveVector register offset) 9 register (Slot.ofDword offset)
  | pushMachineFrame (info : Fin 16) : Form (pushMachineFrame info) 10 info []
  | unknown {code : Fin 16} (info : Fin 16) (h : code ∈ [6, 7, 11, 12, 13, 14, 15]) :
    Form (unknown code) code info []

namespace Operation

variable {operation : Operation} {code info : Fin 16} {operand : List Slot}

/-- A scaled operand is scaled as a number of 32 bits. -/
lemma ofNat_mul_eq (units : UInt16) (scale : Nat) :
    UInt32.ofNat (units.toNat * scale) = units.toUInt32 * UInt32.ofNat scale := by
  rw [UInt32.ofNat_mul, UInt32.ofNat_uInt16ToNat]

/-- A form has an operand of as many slots as its code says. -/
lemma Form.length_eq (h : operation.Form code info operand) :
    operand.length = operandSlots code info := by
  cases h with
  | allocateHuge size hinfo =>
    have hval : info.val ≠ 0 := fun hzero => hinfo (Fin.ext hzero)
    exact (if_neg hval).symm
  | unknown info hcode =>
    simp only [List.mem_cons, List.not_mem_nil, or_false] at hcode
    rcases hcode with rfl | rfl | rfl | rfl | rfl | rfl | rfl <;> rfl
  | _ => rfl

/-- Each form stands for its operation. -/
lemma Form.ofParts_eq (h : operation.Form code info operand) :
    ofParts code info (Slot.value operand) = operation := by
  cases h with
  | push => rfl
  | allocateLarge units =>
    rw [Slot.value_ofWord]
    exact congrArg allocate (ofNat_mul_eq units 8)
  -- The info field tells the two large allocations apart: all numbers but zero mean the long one.
  | allocateHuge size hinfo =>
    have hval : info.val ≠ 0 := fun hzero => hinfo (Fin.ext hzero)
    rw [Slot.value_ofDword]
    simp only [ofParts, Fin.val_one, if_neg hval, UInt32.ofNat_toNat]
  | allocateSmall units =>
    refine congrArg allocate ?_
    rw [UInt32.ofNat_mul, UInt32.ofNat_add]
    rfl
  | setFrameRegister => rfl
  | save _ units =>
    rw [Slot.value_ofWord]
    exact congrArg (Operation.save info) (ofNat_mul_eq units 8)
  | saveFar _ offset =>
    rw [Slot.value_ofDword]
    exact congrArg (Operation.save info) UInt32.ofNat_toNat
  | saveVector _ units =>
    rw [Slot.value_ofWord]
    exact congrArg (Operation.saveVector info) (ofNat_mul_eq units 16)
  | saveVectorFar _ offset =>
    rw [Slot.value_ofDword]
    exact congrArg (Operation.saveVector info) UInt32.ofNat_toNat
  | pushMachineFrame => rfl
  | unknown info hcode =>
    simp only [List.mem_cons, List.not_mem_nil, or_false] at hcode
    rcases hcode with rfl | rfl | rfl | rfl | rfl | rfl | rfl <;> rfl

/-- The codes with a meaning and those without one. -/
lemma code_cases (code : Fin 16) : code = 0 ∨ code = 1 ∨ code = 2 ∨ code = 3 ∨ code = 4 ∨
    code = 5 ∨ code = 8 ∨ code = 9 ∨ code = 10 ∨ code ∈ [6, 7, 11, 12, 13, 14, 15] := by
  decide +revert

/-- A code with an operand of the right length is a form of some operation. -/
lemma exists_form (h : operand.length = operandSlots code info) :
    ∃ operation : Operation, operation.Form code info operand := by
  -- The code decides the form, but for large allocations, where the info field does.
  rcases code_cases code with rfl | rfl | rfl | rfl | rfl | rfl | rfl | rfl | rfl | hcode
  · rw [List.length_eq_zero_iff.mp h]
    exact ⟨_, .push info⟩
  · by_cases hinfo : info = 0
    · subst hinfo
      obtain ⟨units, rfl⟩ := Slot.exists_ofWord h
      exact ⟨_, .allocateLarge units⟩
    · have hval : info.val ≠ 0 := fun hzero => hinfo (Fin.ext hzero)
      obtain ⟨size, rfl⟩ := Slot.exists_ofDword (h.trans (if_neg hval))
      exact ⟨_, .allocateHuge size hinfo⟩
  · rw [List.length_eq_zero_iff.mp h]
    exact ⟨_, .allocateSmall info⟩
  · rw [List.length_eq_zero_iff.mp h]
    exact ⟨_, .setFrameRegister info⟩
  · obtain ⟨units, rfl⟩ := Slot.exists_ofWord h
    exact ⟨_, .save info units⟩
  · obtain ⟨offset, rfl⟩ := Slot.exists_ofDword h
    exact ⟨_, .saveFar info offset⟩
  · obtain ⟨units, rfl⟩ := Slot.exists_ofWord h
    exact ⟨_, .saveVector info units⟩
  · obtain ⟨offset, rfl⟩ := Slot.exists_ofDword h
    exact ⟨_, .saveVectorFar info offset⟩
  · rw [List.length_eq_zero_iff.mp h]
    exact ⟨_, .pushMachineFrame info⟩
  · have hform : Form (.unknown code) code info [] := .unknown info hcode
    rw [← hform.length_eq] at h
    rw [List.length_eq_zero_iff.mp h]
    exact ⟨_, hform⟩

end Operation

/-! ## Arrays of codes -/

namespace Code

variable {c : Code} {a b slots part rest cut : List Slot} {codes : List Code} {truncated : Bool}

/-- A code is written as slots: a first slot with its place in the prolog, and an operand. -/
inductive WrittenAs (c : Code) : List Slot → Prop
  | intro {code info : Fin 16} {operand : List Slot} (h : c.operation.Form code info operand) :
    WrittenAs c (Slot.first c.offset code info :: operand)

/-- Some of the slots that a code is written as: at least the first one, but not all. -/
def CutOff (slots : List Slot) : Prop :=
  ∃ c whole, WrittenAs c whole ∧ slots <+: whole ∧ slots ≠ [] ∧ slots ≠ whole

/-- An array consists of written codes. When it is truncated, some slots of one more code follow. -/
def Written (slots : List Slot) (codes : List Code) (truncated : Bool) : Prop :=
  ∃ parts cut, slots = parts.flatten ++ cut ∧ List.Forall₂ WrittenAs codes parts ∧
    (truncated = false ∧ cut = [] ∨ truncated = true ∧ CutOff cut)

/-- No slots hold no operations, and none is cut off. -/
lemma decode_nil : decode [] = ([], false) := by
  rw [decode]

/-- The first operation is decoded with its operand, then those behind it. -/
lemma decode_cons (s : Slot) (rest : List Slot) : decode (s :: rest) =
    let n := Operation.operandSlots s.operation s.info
    if (rest.take n).length < n then ([], true)
    else
      (⟨s.low, Operation.ofParts s.operation s.info (Slot.value (rest.take n))⟩
        :: (decode (rest.drop n)).1, (decode (rest.drop n)).2) := by
  rw [decode]

/-- What an operation is written as is a first slot and an operand. -/
lemma WrittenAs.exists_form (h : WrittenAs c part) : ∃ code info operand,
    c.operation.Form code info operand ∧ part = Slot.first c.offset code info :: operand := by
  cases h with
  | intro hform => exact ⟨_, _, _, hform, rfl⟩

/-- A written code is decoded, and what follows it is decoded as it is without it. -/
lemma WrittenAs.decode_append (h : WrittenAs c part) (rest : List Slot) :
    decode (part ++ rest) = (c :: (decode rest).1, (decode rest).2) := by
  cases h with
  | intro hform =>
    rw [List.cons_append, decode_cons]
    simp only [Slot.operation_first, Slot.info_first]
    rw [← hform.length_eq, List.take_left, List.drop_left, if_neg (Nat.lt_irrefl _),
      hform.ofParts_eq]
    rfl

/-- Nothing is decoded of a code that is cut off. -/
lemma CutOff.decode_eq (h : CutOff cut) : decode cut = ([], true) := by
  obtain ⟨c, whole, hc, ⟨missing, rfl⟩, hnil, hne⟩ := h
  have hmissing : missing.length ≠ 0 := by
    intro hzero
    rw [List.length_eq_zero_iff.mp hzero, List.append_nil] at hne
    exact hne rfl
  cases cut with
  | nil => exact absurd rfl hnil
  | cons s front =>
    obtain ⟨code, info, operand, hform, hwhole⟩ := hc.exists_form
    rw [List.cons_append] at hwhole
    obtain ⟨rfl, rfl⟩ := List.cons.inj hwhole
    have hlength := hform.length_eq
    rw [List.length_append] at hlength
    rw [decode_cons]
    simp only [Slot.operation_first, Slot.info_first]
    rw [if_pos (by rw [List.length_take]; omega)]

/-- At the front of an array stands a written code or one that is cut off. -/
lemma writtenAs_or_cutOff (s : Slot) (rest : List Slot) :
    (∃ c part rest', WrittenAs c part ∧ s :: rest = part ++ rest') ∨ CutOff (s :: rest) := by
  have hwritten (operand : List Slot)
      (h : operand.length = Operation.operandSlots s.operation s.info) :
      ∃ c, WrittenAs c (s :: operand) := by
    obtain ⟨operation, hform⟩ := Operation.exists_form h
    have hc : WrittenAs ⟨s.low, operation⟩ (Slot.first s.low s.operation s.info :: operand) :=
      .intro hform
    rw [Slot.first_operation_info] at hc
    exact ⟨_, hc⟩
  by_cases hlength : Operation.operandSlots s.operation s.info ≤ rest.length
  · obtain ⟨c, hc⟩ := hwritten _ (List.length_take_of_le hlength)
    exact .inl ⟨c, _, rest.drop _, hc, by rw [List.cons_append, List.take_append_drop]⟩
  · -- Any slots may stand for those that are cut off.
    let missing := List.replicate (Operation.operandSlots s.operation s.info - rest.length) s
    have hmissing : missing.length ≠ 0 := by
      rw [List.length_replicate]
      omega
    obtain ⟨c, hc⟩ := hwritten (rest ++ missing) (by
      rw [List.length_append, List.length_replicate]
      omega)
    refine .inr ⟨c, _, hc, ⟨missing, rfl⟩, List.cons_ne_nil s rest, fun hwhole => hmissing ?_⟩
    have hlengths := congrArg List.length hwhole
    simp only [List.length_cons, List.length_append] at hlengths
    omega

/-- Every array is written in some way. -/
lemma exists_written (slots : List Slot) : ∃ codes truncated, Written slots codes truncated := by
  induction hn : slots.length using Nat.strong_induction_on generalizing slots with
  | _ n ih =>
    cases slots with
    | nil => exact ⟨[], false, [], [], rfl, .nil, .inl ⟨rfl, rfl⟩⟩
    | cons s rest =>
      rcases writtenAs_or_cutOff s rest with ⟨c, part, rest', hc, hslots⟩ | hcut
      · have hpart : part.length ≠ 0 := by
          cases hc
          exact Nat.succ_ne_zero _
        have hlength := congrArg List.length hslots
        rw [List.length_append, hn] at hlength
        obtain ⟨codes, truncated, parts, cut, hrest, hparts, hcut⟩ :=
          ih rest'.length (by omega) rest' rfl
        refine ⟨c :: codes, truncated, part :: parts, cut, ?_, .cons hc hparts, hcut⟩
        rw [hslots, hrest, List.flatten_cons, List.append_assoc]
      · exact ⟨[], true, [], s :: rest, rfl, .nil, .inr ⟨rfl, hcut⟩⟩

/-- What is written is decoded. -/
lemma Written.decode_eq (h : Written slots codes truncated) :
    decode slots = (codes, truncated) := by
  obtain ⟨parts, cut, rfl, hparts, hcut⟩ := h
  induction hparts with
  | nil =>
    rcases hcut with ⟨rfl, rfl⟩ | ⟨rfl, hcut⟩
    · exact decode_nil
    · exact hcut.decode_eq
  | cons hc _ ih => rw [List.flatten_cons, List.append_assoc, hc.decode_append, ih]

/-- An array is decoded to the codes of which it is written, and it is truncated exactly when some
slots of one more code follow them. -/
lemma decode_eq_iff : decode slots = (codes, truncated) ↔ Written slots codes truncated := by
  constructor
  · intro h
    obtain ⟨codes', truncated', hwritten⟩ := exists_written slots
    cases h.symm.trans hwritten.decode_eq
    exact hwritten
  · exact Written.decode_eq

/-- Written codes in front of an array do not change how it is written. -/
lemma Written.append {codes' : List Code} (ha : Written a codes false)
    (hb : Written b codes' truncated) : Written (a ++ b) (codes ++ codes') truncated := by
  obtain ⟨parts, cut, rfl, hparts, ⟨-, rfl⟩ | ⟨hfalse, -⟩⟩ := ha
  · obtain ⟨parts', cut, rfl, hparts', hcut⟩ := hb
    refine ⟨parts ++ parts', cut, ?_, List.rel_append hparts hparts', hcut⟩
    rw [List.append_nil, List.flatten_append, List.append_assoc]
  · cases hfalse

/-- An array of slots is decoded to codes exactly when it is written of these codes, each in one of
its forms, and it is truncated exactly when behind them stand some slots of one more code, but not
all of them. Behind an array that is not truncated another array is decoded as it is without it. The
slots are those of the bytes of the array, of which an odd last byte does not count. -/
theorem decode_eq_iff_written :
    (∀ slots codes truncated, decode slots = (codes, truncated) ↔
      ∃ parts cut, slots = parts.flatten ++ cut ∧ List.Forall₂ WrittenAs codes parts ∧
        (truncated = false ∧ cut = [] ∨ truncated = true ∧ CutOff cut)) ∧
    (∀ a b, (decode a).2 = false →
      decode (a ++ b) = ((decode a).1 ++ (decode b).1, (decode b).2)) ∧
    ∀ bs slots, Slot.ofBytes bs = slots ↔
      ∃ stray : Bytes, stray.length < 2 ∧ bs = slots.flatMap Slot.bytes ++ stray := by
  refine ⟨fun slots codes truncated => decode_eq_iff, fun a b ha => ?_,
    fun bs slots => Slot.ofBytes_eq_iff⟩
  have hwritten : Written a (decode a).1 false := decode_eq_iff.mp (Prod.ext rfl ha)
  exact decode_eq_iff.mpr (hwritten.append (decode_eq_iff.mp rfl))

/-- Slots of two codes, of which the first one has an operand that looks like a code. -/
def prologSlots : List Slot :=
  [⟨9, 0x01⟩, ⟨0x20, 0x01⟩, ⟨4, 0x30⟩]

/-- The slots of a code that lacks the last slot of its operand. -/
def cutSlots : List Slot :=
  [⟨1, 0x65⟩, ⟨7, 0x00⟩]

/-- The last operation of the sample is cut off. -/
lemma cutOff_cutSlots : CutOff cutSlots := by
  have hwhole : WrittenAs ⟨1, .save 6 7⟩ (.first 1 5 6 :: Slot.ofDword 7) :=
    .intro (.saveFar 6 7)
  exact ⟨_, _, hwhole, by decide, by decide, by decide⟩

/-- The codes are decoded from their bytes with an odd byte behind them, and also in front of the
code that is cut off. -/
theorem decode_eq_iff_written_cut :
    Slot.ofBytes (prologSlots.flatMap Slot.bytes ++ [0xFF]) = prologSlots ∧
    decode prologSlots = ([⟨9, .allocate 0x900⟩, ⟨4, .push 3⟩], false) ∧
    decode cutSlots = ([], true) ∧
    decode (prologSlots ++ cutSlots) = ([⟨9, .allocate 0x900⟩, ⟨4, .push 3⟩], true) := by
  obtain ⟨hwritten, happend, hbytes⟩ := decode_eq_iff_written
  have hfirst : WrittenAs ⟨9, .allocate 0x900⟩ [.first 9 1 0, .ofWord 0x0120] :=
    .intro (.allocateLarge 0x0120)
  have hsecond : WrittenAs ⟨4, .push 3⟩ [.first 4 0 3] := .intro (.push 3)
  have hprolog := (hwritten prologSlots [⟨9, .allocate 0x900⟩, ⟨4, .push 3⟩] false).mpr
    ⟨_, [], rfl, .cons hfirst (.cons hsecond .nil), .inl ⟨rfl, rfl⟩⟩
  have hcut := (hwritten cutSlots [] true).mpr
    ⟨[], cutSlots, rfl, .nil, .inr ⟨rfl, cutOff_cutSlots⟩⟩
  have hboth := happend prologSlots cutSlots (by rw [hprolog])
  rw [hprolog, hcut] at hboth
  exact ⟨(hbytes _ _).mpr ⟨[0xFF], by decide, rfl⟩, hprolog, hcut, hboth⟩

end Code

end PeCoff.Unwind
