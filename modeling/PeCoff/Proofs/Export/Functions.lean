import Mathlib
import PeCoff.Proofs.Export.Tables

/-!
# The functions of an export table

An export table is decoded from the header of the directory and its address table. The main
statements are `decode_eq`, which gives the functions by index, `decode_cases`, which says which
failure arises when, and `exists_mem_functions_iff`, by which the ordinals of the functions are those
of the exported indices.
-/

namespace PeCoff.Export.Table

variable {memory : Memory} {range : DataDirectory} {d : Directory}

/-- The functions of a directory by index: one for each address other than zero. -/
def functionsOf (memory : Memory) (range : DataDirectory) (d : Directory)
    (addresses : List UInt32) : List Function :=
  let names := (nameAddresses addresses.length (Tables.read memory d).pairs).toList
  ((List.range addresses.length).filter fun i => addresses.getD i 0 ≠ 0).map fun i => {
    ordinal := d.ordinal i
    address := addresses.getD i 0
    name := nameAt memory (names.getD i 0)
    target := targetAt memory range (addresses.getD i 0) }

/-- A record at an address was decoded from the bytes there. -/
lemma exists_of_record? {α : Type} {l : Layout α} {address : Nat} {a : α}
    (h : memory.record? l address = some a) :
    ∃ bs, memory address l.size = some bs ∧ l.decode bs = .ok a := by
  obtain ⟨bs, hbs, ha⟩ := Option.bind_eq_some_iff.mp h
  refine ⟨bs, hbs, ?_⟩
  rw [Layout.decode, ha]

/-- A table is decoded when its header and its addresses can be read. -/
lemma decode_eq (hd : memory.record? Directory.layout range.address.toNat = some d)
    {addresses : List UInt32} (hf : (Tables.read memory d).functions = some addresses) :
    decode memory range = .ok {
      directory := d
      libraryName := memory.text d.libraryName.toNat
      functions := functionsOf memory range d addresses } := by
  obtain ⟨bs, hbs, hdecode⟩ := exists_of_record? hd
  have hlength :
      (nameAddresses addresses.length (Tables.read memory d).pairs).toList.length =
        addresses.length := by simp
  rw [functionsOf, ← filterMap_function?_eq memory range d addresses _ hlength]
  unfold decode
  simp only [hbs, hdecode, bind, Except.bind, hf]
  rfl

/-- A header that can be read without its addresses gives no table. -/
lemma decode_of_functions_eq_none
    (hd : memory.record? Directory.layout range.address.toNat = some d)
    (hf : (Tables.read memory d).functions = none) :
    decode memory range = .error (.missingTable .address) := by
  obtain ⟨bs, hbs, hdecode⟩ := exists_of_record? hd
  unfold decode
  simp only [hbs, hdecode, bind, Except.bind, hf]
  rfl

/-- Decoding an export table fails because nothing is at its address, because the header is cut
short, or because the addresses cannot be read. -/
lemma decode_cases (memory : Memory) (range : DataDirectory) :
    (memory range.address.toNat Directory.layout.size = none ∧
      decode memory range = .error (.unmapped range.address)) ∨
    (∃ bs, memory range.address.toNat Directory.layout.size = some bs ∧
      bs.length < Directory.layout.size ∧
      decode memory range = .error (.tooShort Directory.layout.size bs.length)) ∨
    (∃ d, memory.record? Directory.layout range.address.toNat = some d ∧
      (Tables.read memory d).functions = none ∧
      decode memory range = .error (.missingTable .address)) ∨
    ∃ d addresses, memory.record? Directory.layout range.address.toNat = some d ∧
      (Tables.read memory d).functions = some addresses ∧
      decode memory range = .ok {
        directory := d
        libraryName := memory.text d.libraryName.toNat
        functions := functionsOf memory range d addresses } := by
  -- The cases are in the order of the checks: the range, its length, the table of functions.
  cases hbs : memory range.address.toNat Directory.layout.size with
  | none =>
    refine .inl ⟨rfl, ?_⟩
    simp only [decode, hbs]
    rfl
  | some bs =>
    by_cases hlength : Directory.layout.size ≤ bs.length
    · have hd : memory.record? Directory.layout range.address.toNat =
          some (Directory.layout.read bs.zeroExtended) := by
        rw [Memory.record?, hbs, Option.bind_some, Layout.decode?_eq, if_pos hlength]
      cases hf : (Tables.read memory (Directory.layout.read bs.zeroExtended)).functions with
      | none => exact .inr (.inr (.inl ⟨_, hd, hf, decode_of_functions_eq_none hd hf⟩))
      | some addresses => exact .inr (.inr (.inr ⟨_, addresses, hd, hf, decode_eq hd hf⟩))
    · refine .inr (.inl ⟨bs, rfl, Nat.lt_of_not_le hlength, ?_⟩)
      simp only [decode, hbs, Layout.decode, Layout.decode?_eq, if_neg hlength]
      rfl

/-- A table has a header and addresses that can be read. -/
lemma exists_of_decode {t : Table} (h : decode memory range = .ok t) :
    ∃ addresses, memory.record? Directory.layout range.address.toNat = some t.directory ∧
      (Tables.read memory t.directory).functions = some addresses ∧
      t.functions = functionsOf memory range t.directory addresses := by
  obtain ⟨-, hdecode⟩ | ⟨_, -, -, hdecode⟩ | ⟨_, -, -, hdecode⟩ | ⟨_, addresses, hd, hf, hdecode⟩ :=
    decode_cases memory range
  case inr.inr.inr =>
    obtain rfl := Except.ok.inj (hdecode.symm.trans h)
    exact ⟨addresses, hd, hf, rfl⟩
  all_goals cases hdecode.symm.trans h

/-- The ordinals of the functions are those of the exported indices. -/
lemma exists_mem_functions_iff (range : DataDirectory) {addresses : List UInt32}
    (hf : (Tables.read memory d).functions = some addresses) (o : UInt32) :
    (∃ f ∈ functionsOf memory range d addresses, f.ordinal = o) ↔
      ∃ i, (Tables.read memory d).Exports i ∧ d.ordinal i = o := by
  simp only [functionsOf, List.mem_map, List.mem_filter, List.mem_range, decide_eq_true_eq]
  constructor
  · rintro ⟨f, ⟨i, ⟨_, hi⟩, rfl⟩, ho⟩
    exact ⟨i, by simpa [Tables.Exports, hf] using hi, ho⟩
  · rintro ⟨i, hi, ho⟩
    have hne : addresses.getD i 0 ≠ 0 := by simpa [Tables.Exports, hf] using hi
    exact ⟨_, ⟨i, ⟨hi.lt hf, hne⟩, rfl⟩, ho⟩

end PeCoff.Export.Table
