import Mathlib
import PeCoff.Proofs.Build
import PeCoff.Proofs.Export.Functions

/-!
# What an export table lists

An export table is read off a header and three tables, each of its own length. The main statement is
`forall₂_describes_of_decode`: a table lists one function for each address other than zero, in the
order of the addresses, each called by the last name that is given to its index, and it is there
unless the header or the addresses cannot be read.
-/

namespace PeCoff.Export

/-- The last entry of the name table that belongs to an index. -/
def lastPair? (pairs : List (Nat × UInt32)) (index : Nat) : Option (Nat × UInt32) :=
  (pairs.filter fun p => p.1 = index).getLast?

/-- A further entry of the name table is the last one of its own index and of no other. -/
lemma lastPair?_concat (pairs : List (Nat × UInt32)) (p : Nat × UInt32) (index : Nat) :
    lastPair? (pairs ++ [p]) index = if p.1 = index then some p else lastPair? pairs index := by
  by_cases hp : p.1 = index <;> simp [lastPair?, hp]

/-- Entries of indices beyond a count do not matter for an index below it. -/
lemma lastPair?_filter {index count : Nat} (h : index < count) (pairs : List (Nat × UInt32)) :
    lastPair? (pairs.filter fun p => p.1 < count) index = lastPair? pairs index := by
  rw [lastPair?, lastPair?, List.filter_filter]
  congr 2
  funext p
  by_cases hp : p.1 = index <;> simp [hp, h]

namespace Table

variable {memory : Memory} {range : DataDirectory} {d : Directory}

/-- After the pass over the name table an index has the address of the last name given to it. -/
lemma getD_nameAddresses {count index : Nat} (hindex : index < count)
    (pairs : List (Nat × UInt32)) :
    (nameAddresses count pairs).toList.getD index 0 =
      ((lastPair? pairs index).map Prod.snd).getD 0 := by
  rw [List.getD_eq_getElem?_getD, Array.getElem?_toList]
  induction pairs using List.reverseRecOn with
  | nil => simp [nameAddresses, lastPair?, hindex]
  | append_singleton pairs p ih =>
    have hstep : nameAddresses count (pairs ++ [p]) =
        (nameAddresses count pairs).setIfInBounds p.1 p.2 := by
      rw [nameAddresses, List.foldl_concat, nameAddresses]
    rw [hstep, lastPair?_concat, Array.getElem?_setIfInBounds, size_nameAddresses]
    by_cases hp : p.1 = index
    · simp [hp, hindex]
    · rw [if_neg hp, if_neg hp, ih]

/-! ## Names and targets -/

/-- A function has only its ordinal exactly when the address of its name is zero. -/
lemma nameAt_eq_ordinal_iff {address : UInt32} :
    nameAt memory address = .ordinal ↔ address = 0 := by
  rw [nameAt]
  split
  · simp [*]
  · split <;> simp [*]

/-- A function has a name exactly when the name can be read at a nonzero address. -/
lemma nameAt_eq_named_iff {address : UInt32} {name : String} :
    nameAt memory address = .named name ↔
      address ≠ 0 ∧ memory.text address.toNat = some name := by
  rw [nameAt]
  split
  · simp [*]
  · split <;> simp [*]

/-- A name is unresolved exactly when it cannot be read at its nonzero address. -/
lemma nameAt_eq_unresolved_iff {address a : UInt32} :
    nameAt memory address = .unresolved a ↔
      address = a ∧ a ≠ 0 ∧ memory.text a.toNat = none := by
  rw [nameAt]
  split
  · simp only [reduceCtorEq, false_iff]
    rintro ⟨rfl, hne, -⟩
    contradiction
  · split <;> rename_i htext
    · simp only [reduceCtorEq, false_iff]
      rintro ⟨rfl, -, hnone⟩
      rw [hnone] at htext
      cases htext
    · simp only [Name.unresolved.injEq]
      constructor
      · rintro rfl
        exact ⟨rfl, ‹_›, htext⟩
      · exact And.left

/-- The address lies in the directory, whose end may exceed 32 bits. -/
def Inside (range : DataDirectory) (address : UInt32) : Prop :=
  range.address.toNat ≤ address.toNat ∧
    address.toNat < range.address.toNat + range.size.toNat

/-- A directory contains the addresses from its own up to its end. -/
lemma contains_iff {address : UInt32} : range.contains address ↔ Inside range address := by
  simp only [DataDirectory.contains, Inside, Bool.and_eq_true, decide_eq_true_eq,
    UInt32.le_iff_toNat_le]

/-- An address is a forwarder exactly when it lies inside the directory and can be read as a
name. -/
lemma targetAt_eq_forwarder_iff {address : UInt32} {function : String} :
    targetAt memory range address = .forwarder function ↔
      Inside range address ∧ memory.text address.toNat = some function := by
  rw [targetAt, ← contains_iff]
  split
  · split <;> simp [*]
  · simp [*]

/-- Every other address is that of a function. -/
lemma targetAt_eq_address_iff {address a : UInt32} :
    targetAt memory range address = .address a ↔
      address = a ∧ ¬ (Inside range address ∧ (memory.text address.toNat).isSome) := by
  rw [targetAt, ← contains_iff]
  split
  · split <;> simp [*]
  · simp [*]

/-- Where a record was decoded there are bytes. -/
lemma ne_none_of_record? {α : Type} {l : Layout α} {address : Nat} {a : α}
    (h : memory.record? l address = some a) : memory address l.size ≠ none := by
  obtain ⟨bs, hbs, -⟩ := exists_of_record? h
  simp [hbs]

/-! ## What is listed -/

/-- What a table with given addresses and names lists for an index. -/
structure Describes (memory : Memory) (range : DataDirectory) (d : Directory)
    (addresses : List UInt32) (pairs : List (Nat × UInt32)) (index : Nat) (f : Function) :
    Prop where
  ordinal : f.ordinal.toNat = (d.base.toNat + index) % 2 ^ 32
  address : addresses[index]? = some f.address
  address_ne_zero : f.address ≠ 0
  /-- No name is given to the index, or the last one is at address zero. -/
  name_ordinal : f.name = .ordinal ↔ ∀ p, lastPair? pairs index = some p → p.2 = 0
  name_named : ∀ name, f.name = .named name ↔ ∃ p, lastPair? pairs index = some p ∧
    p.2 ≠ 0 ∧ memory.text p.2.toNat = some name
  name_unresolved : ∀ a, f.name = .unresolved a ↔ ∃ p, lastPair? pairs index = some p ∧
    p.2 = a ∧ a ≠ 0 ∧ memory.text a.toNat = none
  target_forwarder : ∀ function, f.target = .forwarder function ↔
    Inside range f.address ∧ memory.text f.address.toNat = some function
  target_address : ∀ a, f.target = .address a ↔
    f.address = a ∧ ¬ (Inside range f.address ∧ (memory.text f.address.toNat).isSome)

/-- The indices of the addresses other than zero. -/
def exportedIndices (addresses : List UInt32) : List Nat :=
  (List.range addresses.length).filter fun i => addresses.getD i 0 ≠ 0

/-- What is listed for an index is what its address and its last name tell. Names of indices beyond
the addresses may be added or left out. -/
lemma describes_of_mem {addresses : List UInt32} {pairs : List (Nat × UInt32)}
    (hpairs : pairs.filter (fun p => p.1 < addresses.length) =
      (Tables.read memory d).pairs.filter fun p => p.1 < addresses.length)
    {index : Nat} (h : index ∈ exportedIndices addresses) :
    Describes memory range d addresses pairs index {
      ordinal := d.ordinal index
      address := addresses.getD index 0
      name := nameAt memory
        ((nameAddresses addresses.length (Tables.read memory d).pairs).toList.getD index 0)
      target := targetAt memory range (addresses.getD index 0) } := by
  obtain ⟨hlt, hne⟩ := List.mem_filter.mp h
  have hlt : index < addresses.length := List.mem_range.mp hlt
  -- Only the last pair of an index counts, and pairs past the table do not change which that is.
  have hlast : lastPair? pairs index = lastPair? (Tables.read memory d).pairs index := by
    rw [← lastPair?_filter hlt, hpairs, lastPair?_filter hlt]
  rw [getD_nameAddresses hlt, ← hlast]
  constructor
  · simp [Directory.ordinal]
  · simp [List.getD_eq_getElem?_getD, hlt]
  · simpa using hne
  · rw [nameAt_eq_ordinal_iff]
    cases lastPair? pairs index <;> simp
  · intro name
    rw [nameAt_eq_named_iff]
    cases lastPair? pairs index <;> simp
  · intro a
    rw [nameAt_eq_unresolved_iff]
    cases lastPair? pairs index with
    | none =>
      simp only [Option.map_none, Option.getD_none, reduceCtorEq, false_and, exists_false, iff_false]
      rintro ⟨hzero, hne, -⟩
      exact hne hzero.symm
    | some p => simp
  · exact fun _ => targetAt_eq_forwarder_iff
  · exact fun _ => targetAt_eq_address_iff

/-- The functions of a directory are described index by index. -/
lemma forall₂_describes_functionsOf {addresses : List UInt32} {pairs : List (Nat × UInt32)}
    (hpairs : pairs.filter (fun p => p.1 < addresses.length) =
      (Tables.read memory d).pairs.filter fun p => p.1 < addresses.length) :
    List.Forall₂ (Describes memory range d addresses pairs) (exportedIndices addresses)
      (functionsOf memory range d addresses) := by
  rw [functionsOf, List.forall₂_map_right_iff]
  exact List.forall₂_same.mpr fun index hindex => describes_of_mem hpairs hindex

/-- Without names, or without the indices they belong to, no function has a name. -/
lemma name_eq_ordinal_of_mem {addresses : List UInt32}
    (hnames : (Tables.read memory d).names = none ∨ (Tables.read memory d).ordinals = none)
    {f : Function} (hf : f ∈ functionsOf memory range d addresses) : f.name = .ordinal := by
  have hpairs : (Tables.read memory d).pairs = [] := by
    rw [Tables.pairs]
    rcases hnames with hnames | hordinals
    · rw [hnames]
    · rw [hordinals]
      cases (Tables.read memory d).names <;> rfl
  obtain ⟨index, hindex, rfl⟩ := List.mem_map.mp hf
  rw [(describes_of_mem rfl hindex).name_ordinal, hpairs]
  simp [lastPair?]

/-- An export table lists one function for each address other than zero, in the order of the
addresses. Its name is the last one given to the index, and names of indices beyond the addresses
are without effect. There is no table when nothing is at its place, when the addresses cannot be
read, or when a memory answers for the header with too few bytes. -/
theorem forall₂_describes_of_decode (memory : Memory) (range : DataDirectory) :
    (∀ t, decode memory range = .ok t → ∃ addresses,
      memory.record? Directory.layout range.address.toNat = some t.directory ∧
      (Tables.read memory t.directory).functions = some addresses ∧
      (∀ pairs : List (Nat × UInt32), pairs.filter (fun p => p.1 < addresses.length) =
          (Tables.read memory t.directory).pairs.filter (fun p => p.1 < addresses.length) →
        List.Forall₂ (Describes memory range t.directory addresses pairs)
          (exportedIndices addresses) t.functions) ∧
      ((Tables.read memory t.directory).names = none ∨
          (Tables.read memory t.directory).ordinals = none →
        ∀ f ∈ t.functions, f.name = .ordinal)) ∧
    (decode memory range = .error (.unmapped range.address) ↔
      memory range.address.toNat 40 = none) ∧
    (decode memory range = .error (.missingTable .address) ↔
      ∃ d, memory.record? Directory.layout range.address.toNat = some d ∧
        (Tables.read memory d).functions = none) ∧
    ∀ error, decode memory range = .error error →
      error = .unmapped range.address ∨ error = .missingTable .address ∨
        ∃ bs, memory range.address.toNat 40 = some bs ∧ bs.length < 40 ∧
          error = .tooShort 40 bs.length := by
  have hsize : Directory.layout.size = 40 := rfl
  -- Decoding ends in one of four ways, each of which settles all parts of the statement.
  obtain ⟨hnone, hdecode⟩ | ⟨bs, hbs, hshort, hdecode⟩ | ⟨d, hd, hf, hdecode⟩ |
    ⟨d, addresses, hd, hf, hdecode⟩ := decode_cases memory range
  · simp [hdecode, Memory.record?, ← hsize, hnone]
  · have hrecord : memory.record? Directory.layout range.address.toNat = none := by
      rw [Memory.record?, hbs, Option.bind_some, Layout.decode?_eq, if_neg (by omega)]
    simp [hdecode, hrecord, ← hsize, hbs, hshort]
  · simp [hdecode, hd, hf, ← hsize, ne_none_of_record? hd]
  · refine ⟨fun t ht => ?_, ?_, ?_, ?_⟩
    · obtain rfl := Except.ok.inj (hdecode.symm.trans ht)
      exact ⟨addresses, hd, hf, fun _ => forall₂_describes_functionsOf,
        fun hnames _ => name_eq_ordinal_of_mem hnames⟩
    · simp [hdecode, ← hsize, ne_none_of_record? hd]
    · simp [hdecode, hd, hf]
    · simp [hdecode]

/-- The addresses of five functions: the second is zero, and the third lies in the directory. -/
def mixedFunctions : List UInt32 :=
  [0x1000, 0, 94, 0x2000, 0x3000]

/-- A header with the last ordinal, so that the ordinals wrap after the first function. -/
def mixedDirectory : Directory :=
  { Build.exportDirectory 0 mixedFunctions (List.replicate 5 0) with base := 0xFFFFFFFF }

/-- A directory in which one index has two names, one a name at address zero, one a name that cannot
be read, and one name belongs to no address. -/
def mixedMemory : Memory :=
  .flat (.ofList (Directory.layout.write mixedDirectory
    ++ (Build.exportBytes 0 mixedFunctions [90, 92, 0, 0x9000, 90] [0, 0, 3, 4, 9]).drop 40
    ++ "A\x00B\x00X.Y\x00".toUTF8.data.toList)) true

/-- The name that belongs to no address may be left out of the description. -/
theorem forall₂_describes_of_decode_mixed : ∃ t, decode mixedMemory ⟨0, 98⟩ = .ok t ∧
    (decode mixedMemory ⟨0x9000, 98⟩ = .error (.unmapped 0x9000)) ∧
    List.Forall₂ (Describes mixedMemory ⟨0, 98⟩ mixedDirectory mixedFunctions
      [(0, 90), (0, 92), (3, 0), (4, 0x9000)]) [0, 2, 3, 4] t.functions := by
  have hf : (Tables.read mixedMemory mixedDirectory).functions = some mixedFunctions := by
    decide +kernel
  have hpairs : (Tables.read mixedMemory mixedDirectory).pairs =
      [(0, 90), (0, 92), (3, 0), (4, 0x9000), (9, 90)] := by decide +kernel
  obtain ⟨t, ht, hd⟩ : ∃ t, decode mixedMemory ⟨0, 98⟩ = .ok t ∧ t.directory = mixedDirectory :=
    Build.exists_of_any (by decide +kernel)
  obtain ⟨hlisted, -⟩ := forall₂_describes_of_decode mixedMemory ⟨0, 98⟩
  obtain ⟨addresses, -, hf', hdescribes, -⟩ := hlisted t ht
  obtain ⟨-, hunmapped, -⟩ := forall₂_describes_of_decode mixedMemory ⟨0x9000, 98⟩
  rw [hd] at hf' hdescribes
  obtain rfl := Option.some.inj (hf.symm.trans hf')
  refine ⟨t, ht, hunmapped.mpr (by decide +kernel), hdescribes _ ?_⟩
  rw [hpairs]
  rfl

end Table

end PeCoff.Export
