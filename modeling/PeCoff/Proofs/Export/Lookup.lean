import Mathlib
import PeCoff.Proofs.Export.Description

/-!
# Functions by ordinal

The ordinal of a function is the sum of the first ordinal and the index of its address, which wraps
at 32 bits. Addresses that are zero are left out of the list of functions, so that a place in the
list says nothing about the ordinal there. The main statement is `findOrdinal_of_decode`: the
ordinals in a table differ from each other, and a function is found by its ordinal exactly when the
address at the index of the ordinal is not zero.
-/

namespace PeCoff

/-- The memory may answer a request with fewer bytes than were asked for, but never with more. -/
def Memory.Bounded (memory : Memory) : Prop :=
  ∀ address n bs, memory address n = some bs → bs.length ≤ n

/-- An exact memory answers with no more bytes than were asked for. -/
lemma Memory.Exact.bounded {memory : Memory} (hm : memory.Exact) : memory.Bounded :=
  fun address n bs h => (hm address n bs h).le

namespace Export

/-- The index of an ordinal: its distance from the first ordinal, around the end of 32 bits. -/
def Directory.indexOf (d : Directory) (o : UInt32) : Nat :=
  (o.toNat + (2 ^ 32 - d.base.toNat)) % 2 ^ 32

/-- An index below the capacity of 32 bits has an ordinal exactly when it is the index of it. -/
lemma Directory.ordinal_eq_iff (d : Directory) {i : Nat} (hi : i < addressLimit) (o : UInt32) :
    d.ordinal i = o ↔ i = d.indexOf o := by
  have hbase := d.base.toNat_lt
  have ho := o.toNat_lt
  simp only [addressLimit] at hi
  rw [← UInt32.toNat_inj, ordinal, UInt32.toNat_add, UInt32.toNat_ofNat', indexOf]
  omega

/-- A memory that does not answer with too many bytes has fewer addresses than 32 bits can count. -/
lemma Tables.length_functions_of_bounded {memory : Memory} (hm : memory.Bounded) {d : Directory}
    {addresses : List UInt32} (h : (read memory d).functions = some addresses) :
    addresses.length < addressLimit := by
  obtain ⟨bs, hbs, rfl⟩ := Option.map_eq_some_iff.mp h
  have hlength := hm _ _ _ hbs
  have hsize : Layout.u32.size = 4 := rfl
  have hcount := d.numberOfFunctions.toNat_lt
  rw [hsize] at hlength
  rw [Layout.length_decodeAll, hsize, addressLimit]
  omega

namespace Table

variable {memory : Memory} {range : DataDirectory} {d : Directory} {addresses : List UInt32}

/-- The index of a function is that of its ordinal. -/
lemma eq_indexOf_of_mem (hlt : addresses.length < addressLimit) {i : Nat}
    (hi : i ∈ exportedIndices addresses) {o : UInt32} (ho : d.ordinal i = o) :
    i = d.indexOf o := by
  have hrange := List.mem_range.mp (List.mem_filter.mp hi).1
  exact (d.ordinal_eq_iff (hrange.trans hlt) o).mp ho

/-- Functions of different indices have different ordinals. -/
lemma pairwise_ordinal_functionsOf (hlt : addresses.length < addressLimit) :
    (functionsOf memory range d addresses).Pairwise fun f g => f.ordinal ≠ g.ordinal := by
  have hnodup : (exportedIndices addresses).Nodup := List.nodup_range.filter _
  rw [functionsOf, List.pairwise_map]
  refine List.Pairwise.imp_of_mem (fun hi hj hne ho => hne ?_) hnodup
  exact (eq_indexOf_of_mem hlt hi ho).trans (eq_indexOf_of_mem hlt hj rfl).symm

/-- An index is exported when its address is there and is not zero. -/
lemma mem_exportedIndices_iff {i : Nat} :
    i ∈ exportedIndices addresses ↔ ∃ a, addresses[i]? = some a ∧ a ≠ 0 := by
  rw [exportedIndices, List.mem_filter, List.mem_range, decide_eq_true_eq,
    List.getD_eq_getElem?_getD]
  constructor
  · rintro ⟨hlt, hne⟩
    rw [List.getElem?_eq_getElem hlt] at hne ⊢
    exact ⟨_, rfl, hne⟩
  · rintro ⟨a, ha, hne⟩
    rw [ha]
    exact ⟨(List.getElem?_eq_some_iff.mp ha).1, hne⟩

/-- A function with an ordinal is the one at the index of the ordinal. -/
lemma address_of_mem_functionsOf (hlt : addresses.length < addressLimit) {f : Function}
    (hf : f ∈ functionsOf memory range d addresses) :
    addresses[d.indexOf f.ordinal]? = some f.address ∧ f.address ≠ 0 := by
  obtain ⟨i, hi, rfl⟩ := List.mem_map.mp hf
  obtain ⟨a, ha, hne⟩ := mem_exportedIndices_iff.mp hi
  rw [← eq_indexOf_of_mem hlt hi rfl, List.getD_eq_getElem?_getD, ha]
  exact ⟨rfl, hne⟩

/-- There is a function with each ordinal whose index has an address other than zero. -/
lemma exists_mem_functionsOf {o : UInt32} {a : UInt32} (hlt : addresses.length < addressLimit)
    (ha : addresses[d.indexOf o]? = some a) (hne : a ≠ 0) :
    ∃ f ∈ functionsOf memory range d addresses, f.ordinal = o := by
  have hmem := mem_exportedIndices_iff.mpr ⟨a, ha, hne⟩
  have hindex := (List.getElem?_eq_some_iff.mp ha).1
  exact ⟨_, List.mem_map_of_mem hmem, (d.ordinal_eq_iff (hindex.trans hlt) o).mpr rfl⟩

/-- The ordinals in an export table differ from each other, also when they wrap. For an ordinal
whatsoever there is a function if and only if the address at the index of the ordinal is there and
is not zero, and then the function that is found has the ordinal and this address. -/
theorem findOrdinal_of_decode (hm : memory.Bounded) {t : Table}
    (h : decode memory range = .ok t) :
    ∃ addresses, (Tables.read memory t.directory).functions = some addresses ∧
      t.functions.Pairwise (fun f g => f.ordinal ≠ g.ordinal) ∧
      ∀ o, ((t.findOrdinal o).isSome ↔
          ∃ a, addresses[t.directory.indexOf o]? = some a ∧ a ≠ 0) ∧
        ∀ f, t.findOrdinal o = some f → f ∈ t.functions ∧ f.ordinal = o ∧
          addresses[t.directory.indexOf o]? = some f.address := by
  obtain ⟨addresses, -, hf, hfunctions⟩ := exists_of_decode h
  have hlt := Tables.length_functions_of_bounded hm hf
  simp only [findOrdinal, hfunctions]
  refine ⟨addresses, hf, pairwise_ordinal_functionsOf hlt, fun o => ⟨?_, fun f hfound => ?_⟩⟩
  · simp only [List.find?_isSome, decide_eq_true_eq]
    constructor
    · rintro ⟨f, hmem, rfl⟩
      exact ⟨f.address, address_of_mem_functionsOf hlt hmem⟩
    · rintro ⟨a, ha, hne⟩
      exact exists_mem_functionsOf hlt ha hne
  · have hmem := List.mem_of_find?_eq_some hfound
    have ho : f.ordinal = o := by simpa using List.find?_some hfound
    exact ⟨hmem, ho, ho ▸ (address_of_mem_functionsOf hlt hmem).1⟩

/-- Ordinals of a table whose ordinals wrap: the first function has the last ordinal, the function
after it would have ordinal zero but has no address, and none has ordinal four. -/
theorem findOrdinal_of_decode_mixed : mixedMemory.Bounded ∧
    ∃ t, decode mixedMemory ⟨0, 98⟩ = .ok t ∧
      t.functions.Pairwise (fun f g => f.ordinal ≠ g.ordinal) ∧
      (∃ f, t.findOrdinal 0xFFFFFFFF = some f ∧ f.address = 0x1000) ∧ t.findOrdinal 0 = none ∧
      (∃ f, t.findOrdinal 3 = some f ∧ f.address = 0x3000) ∧ t.findOrdinal 4 = none := by
  have hm : mixedMemory.Bounded := (Memory.flat_exact _ _).bounded
  have hf : (Tables.read mixedMemory mixedDirectory).functions = some mixedFunctions := by
    decide +kernel
  obtain ⟨t, ht, hd⟩ : ∃ t, decode mixedMemory ⟨0, 98⟩ = .ok t ∧ t.directory = mixedDirectory :=
    Build.exists_of_any (by decide +kernel)
  obtain ⟨addresses, hf', hpairwise, hlookup⟩ := findOrdinal_of_decode hm ht
  rw [hd] at hf' hlookup
  obtain rfl := Option.some.inj (hf.symm.trans hf')
  have hfound {o a : UInt32} (ha : mixedFunctions[mixedDirectory.indexOf o]? = some a)
      (hne : a ≠ 0) : ∃ f, t.findOrdinal o = some f ∧ f.address = a := by
    obtain ⟨f, hf⟩ := Option.isSome_iff_exists.mp ((hlookup o).1.mpr ⟨a, ha, hne⟩)
    obtain ⟨-, -, haddress⟩ := (hlookup o).2 f hf
    exact ⟨f, hf, Option.some.inj (haddress.symm.trans ha)⟩
  have hmissing {o : UInt32} (h : mixedFunctions.getD (mixedDirectory.indexOf o) 0 = 0) :
      t.findOrdinal o = none := by
    rw [← Option.not_isSome_iff_eq_none, (hlookup o).1]
    rintro ⟨a, ha, hne⟩
    rw [List.getD_eq_getElem?_getD, ha] at h
    exact hne h
  exact ⟨hm, t, ht, hpairwise, hfound (by decide) (by decide), hmissing (by decide),
    hfound (by decide) (by decide), hmissing (by decide)⟩

end Table

end Export

end PeCoff
