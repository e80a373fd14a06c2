import Mathlib
import PeCoff.Proofs.Flat
import PeCoff.Proofs.Machine.Access

/-!
# Records in byte strings

What is decoded of a byte string is told by the bytes that the records are written as. The main
statements are `decode?_eq_some_iff` for the record at the front and `decodeAll_eq_iff` for records
laid end to end. The offset of each field in a composed record follows from `readAt_pair`.
-/

namespace PeCoff.Layout

variable {α β : Type} {l : Layout α} {bs : Bytes} {a : α} {xs : List α}

/-- A record is decoded exactly where its bytes are. -/
lemma decode?_eq_some_iff : l.decode? bs = some a ↔ bs.take l.size = l.write a := by
  rw [decode?_eq, Option.ite_none_right_eq_some, Option.some_inj]
  constructor
  · rintro ⟨hlength, rfl⟩
    exact (l.write_read_bytes bs hlength).symm
  · intro hbytes
    have hlength := congrArg List.length hbytes
    rw [List.length_take, length_write] at hlength
    have hle : l.size ≤ bs.length := by omega
    refine ⟨hle, l.write_injective ?_⟩
    rw [l.write_read_bytes bs hle, hbytes]

/-- A written record is decoded again, whatever lies behind it. -/
lemma decode?_write_append (a : α) (rest : Bytes) : l.decode? (l.write a ++ rest) = some a := by
  rw [decode?_eq_some_iff, ← l.length_write a, List.take_left]

/-- Written records are decoded again. -/
lemma decodeAll_flatMap_write (hl : 0 < l.size) (xs : List α) :
    l.decodeAll (xs.flatMap l.write) = xs := by
  induction xs with
  | nil => simp [decodeAll, Bytes.exactRows, Bytes.takeRows]
  | cons a xs ih =>
    rw [List.flatMap_cons, Machine.decodeAll_eq hl, decode?_write_append, ← l.length_write a,
      List.drop_left, ih]

/-- The decoded records are written as all bytes but those of a shorter rest. -/
lemma flatMap_write_decodeAll (hl : 0 < l.size) (bs : Bytes) :
    (l.decodeAll bs).flatMap l.write = bs.take (bs.length / l.size * l.size) := by
  induction hn : bs.length using Nat.strong_induction_on generalizing bs with
  | _ n ih =>
    rw [Machine.decodeAll_eq hl]
    cases hdecode : l.decode? bs with
    | none =>
      rw [decode?_eq, ite_eq_right_iff] at hdecode
      have hshort : n < l.size := by
        by_contra hle
        cases hdecode (by omega)
      rw [Nat.div_eq_of_lt hshort, Nat.zero_mul, List.take_zero]
      rfl
    | some a =>
      have hfront := decode?_eq_some_iff.mp hdecode
      have hle := l.size_le_of_decode? hdecode
      have hdiv : n / l.size * l.size = l.size + (n - l.size) / l.size * l.size := by
        rw [Nat.div_eq_sub_div hl (by omega), Nat.succ_mul, Nat.add_comm]
      have hrest := ih (n - l.size) (by omega) (bs.drop l.size) (by rw [List.length_drop, hn])
      rw [List.flatMap_cons, hrest, hdiv, List.take_add, hfront]

/-- The records of a byte string are those that are written as its bytes, but for a shorter rest. -/
lemma decodeAll_eq_iff (hl : 0 < l.size) :
    l.decodeAll bs = xs ↔ xs.flatMap l.write = bs.take (bs.length / l.size * l.size) := by
  rw [← flatMap_write_decodeAll hl]
  constructor
  · rintro rfl
    rfl
  · intro h
    rw [← decodeAll_flatMap_write hl (l.decodeAll bs), ← h, decodeAll_flatMap_write hl]

/-- The records of a byte string are those that are written in front of a shorter rest. -/
lemma decodeAll_eq_iff_append (hl : 0 < l.size) : l.decodeAll bs = xs ↔
    ∃ stray : Bytes, stray.length < l.size ∧ bs = xs.flatMap l.write ++ stray := by
  constructor
  · rintro rfl
    refine ⟨bs.drop (bs.length / l.size * l.size), ?_, ?_⟩
    · rw [List.length_drop, ← Nat.mod_eq_sub_div_mul]
      exact Nat.mod_lt _ hl
    · rw [flatMap_write_decodeAll hl, List.take_append_drop]
  · rintro ⟨stray, hstray, rfl⟩
    have hlength : (xs.flatMap l.write).length = xs.length * l.size := by
      simp only [List.length_flatMap, length_write, List.map_const', List.sum_replicate,
        smul_eq_mul]
    have hdiv : (xs.length * l.size + stray.length) / l.size = xs.length := by
      rw [Nat.mul_comm, Nat.mul_add_div hl, Nat.div_eq_of_lt hstray, Nat.add_zero]
    rw [decodeAll_eq_iff hl, List.length_append, hlength, hdiv, ← hlength, List.take_left]

/-- Each record lies as many records behind the first one as its number says. -/
lemma getElem?_decodeAll (hl : 0 < l.size) (bs : Bytes) (k : Nat) :
    (l.decodeAll bs)[k]? = l.decode? (bs.drop (k * l.size)) := by
  induction k generalizing bs with
  | zero =>
    rw [Machine.decodeAll_eq hl, Nat.zero_mul, List.drop_zero]
    cases l.decode? bs <;> rfl
  | succ k ih =>
    rw [Machine.decodeAll_eq hl, Nat.succ_mul, Nat.add_comm (k * l.size), ← List.drop_drop]
    cases hdecode : l.decode? bs with
    | none =>
      rw [decode?_eq, ite_eq_right_iff] at hdecode
      have hshort : ¬ l.size ≤ bs.length := fun hle => by cases hdecode hle
      rw [decode?_eq, if_neg (by simp only [List.length_drop]; omega)]
      rfl
    | some a => exact ih _

/-! ## Offsets of fields -/

/-- The record at an offset of a byte sequence. -/
def readAt (l : Layout α) (f : Nat → UInt8) (offset : Nat) : α :=
  l.read fun i => f (offset + i)

variable {f : Nat → UInt8} {offset : Nat}

/-- A record at the front is read from there. -/
lemma readAt_zero : l.readAt f 0 = l.read f := by
  simp only [readAt, Nat.zero_add]

/-- A record behind some bytes is read at their number. -/
lemma read_drop : l.read (Bytes.zeroExtended (bs.drop offset)) = l.readAt bs.zeroExtended offset := by
  rw [Machine.zeroExtended_drop, readAt]

/-- A record lies in a front of a string that reaches to its end. -/
lemma readAt_take {n : Nat} (h : offset + l.size ≤ n) :
    l.readAt (Bytes.zeroExtended (bs.take n)) offset = l.readAt bs.zeroExtended offset := by
  apply l.read_congr
  intro i hi
  have hn : offset + i < n := by omega
  simp [Bytes.zeroExtended, List.getD_eq_getElem?_getD, hn]

/-- The second record of a pair lies behind the first one. -/
lemma readAt_pair {r : Layout β} :
    (l.pair r).readAt f offset = (l.readAt f offset, r.readAt f (offset + l.size)) := by
  simp only [readAt, pair, Nat.add_assoc]

/-- A record is built of its parts wherever they lie. -/
lemma readAt_equiv {build : α → β} {parts : β → α} {hbuild : ∀ b, build (parts b) = b}
    {hparts : ∀ a, parts (build a) = a} :
    (l.equiv build parts hbuild hparts).readAt f offset = build (l.readAt f offset) :=
  rfl

/-- The record of a row lies as many records behind the first one as its number says. -/
lemma readAt_vector {n : Nat} :
    (l.vector n).readAt f offset = .ofFn fun i : Fin n => l.readAt f (offset + i * l.size) := by
  induction n with
  | zero => exact Vector.ext nofun
  | succ n ih =>
    have hread : (l.vector (n + 1)).readAt f offset =
        ((l.vector n).readAt f offset).push (l.readAt f (offset + n * l.size)) := by
      rw [← size_vector, vector, readAt_equiv, readAt_pair]
    rw [hread, ih, Vector.ofFn_succ]
    rfl

end PeCoff.Layout

/-! ## Places -/

namespace PeCoff

variable {α : Type} {place : Nat} {bs tail : Bytes}

/-- Elements with the places at which they lie one after the other. -/
def places (size : α → Nat) : (place : Nat) → List α → List (Nat × α)
  | _, [] => []
  | place, a :: as => (place, a) :: places size (place + size a) as

/-- The elements that have places are all of them. -/
lemma map_snd_places (size : α → Nat) (place : Nat) (as : List α) :
    (places size place as).map Prod.snd = as := by
  induction as generalizing place with
  | nil => rfl
  | cons a as ih => exact congrArg (a :: ·) (ih _)

/-- Elements that are written one after the other lie at their places. -/
lemma drop_of_mem_places {write : α → Bytes} {as : List α}
    (hbs : bs.drop place = as.flatMap write ++ tail) :
    ∀ p ∈ places (fun a => (write a).length) place as,
      ∃ tail, bs.drop p.1 = write p.2 ++ tail := by
  induction as generalizing place with
  | nil => exact List.forall_mem_nil _
  | cons a as ih =>
    rw [List.flatMap_cons, List.append_assoc] at hbs
    have hrest : bs.drop (place + (write a).length) = as.flatMap write ++ tail := by
      rw [← List.drop_drop, hbs, List.drop_left]
    exact List.forall_mem_cons.mpr ⟨⟨_, hbs⟩, ih hrest⟩

end PeCoff

namespace PeCoff.Text.Utf16

/-- The units of a byte string are those whose bytes it consists of, but for an odd last byte. -/
lemma units_eq_iff {bs : Bytes} {us : List UInt16} :
    units bs = us ↔
      ∃ stray : Bytes, stray.length < 2 ∧ bs = us.flatMap Layout.u16.write ++ stray := by
  rw [← Machine.decodeAll_u16_eq]
  exact Layout.decodeAll_eq_iff_append (by decide)

/-- Units that are written in front of a byte string are in front of its units. -/
lemma units_flatMap_append (us : List UInt16) (rest : Bytes) :
    units (us.flatMap Layout.u16.write ++ rest) = us ++ units rest := by
  obtain ⟨stray, hstray, hrest⟩ := units_eq_iff.mp (Eq.refl (units rest))
  refine units_eq_iff.mpr ⟨stray, hstray, ?_⟩
  rw [List.flatMap_append, List.append_assoc, ← hrest]

end PeCoff.Text.Utf16
