import Mathlib
import PeCoff.Export.Symbols
import PeCoff.Export.Table
import PeCoff.Proofs.Memory

/-!
# The tables of an export directory

What both readings of an export directory have in common: which indices are exported, how many
names an index has, and the two passes over the name table as functions of an index. The main
statements are `getElem?_isNamed`, which says what the marks of named indices are, and
`filterMap_function?_eq`, which gives the exported functions by index.
-/

namespace PeCoff.Export

/-- Two columns side by side, each row with its index. -/
lemma zipIdx_zip_eq {α β : Type} (xs : List α) (ys : List β) (x : α) (y : β)
    (h : ys.length = xs.length) :
    (xs.zip ys).zipIdx = (List.range xs.length).map fun i => ((xs.getD i x, ys.getD i y), i) := by
  apply List.ext_getElem
  · simp [h]
  · intro i _ hi
    simp only [List.length_map, List.length_range] at hi
    simp [List.getD_eq_getElem?_getD, hi, h]

/-- A pass that keeps some elements and maps them is a filter and a map. -/
lemma filterMap_eq_map_filter {α β : Type} {f : α → Option β} {p : α → Prop} [DecidablePred p]
    {g : α → β} {xs : List α} (h : ∀ a ∈ xs, f a = if p a then some (g a) else none) :
    xs.filterMap f = (xs.filter p).map g := by
  induction xs with
  | nil => rfl
  | cons a xs ih =>
    have ha := h a List.mem_cons_self
    have hxs := ih fun b hb => h b (List.mem_cons_of_mem a hb)
    by_cases hp : p a <;> simp [ha, hp, hxs]

/-- Indices below the capacity of 32 bits have different ordinals. -/
lemma Directory.ordinal_inj (d : Directory) {i j : Nat} (hi : i < addressLimit)
    (hj : j < addressLimit) : d.ordinal i = d.ordinal j ↔ i = j := by
  refine ⟨fun h => ?_, fun h => h ▸ rfl⟩
  have hnat : (d.ordinal i).toNat = (d.ordinal j).toNat := congrArg UInt32.toNat h
  simp only [ordinal, UInt32.toNat_add, UInt32.toNat_ofNat'] at hnat
  simp only [addressLimit] at hi hj
  omega

namespace Tables

/-- All three tables can be read. -/
structure Readable (tables : Tables) : Prop where
  names : tables.names.isSome
  ordinals : tables.ordinals.isSome
  functions : tables.functions.isSome

instance (tables : Tables) : Decidable tables.Readable :=
  decidable_of_iff (tables.names.isSome ∧ tables.ordinals.isSome ∧ tables.functions.isSome)
    ⟨fun ⟨h₁, h₂, h₃⟩ => ⟨h₁, h₂, h₃⟩, fun ⟨h₁, h₂, h₃⟩ => ⟨h₁, h₂, h₃⟩⟩

/-- The address table holds an address other than zero at an index. -/
def Exports (tables : Tables) (index : Nat) : Prop :=
  (tables.functions.getD []).getD index 0 ≠ 0

instance (tables : Tables) (index : Nat) : Decidable (tables.Exports index) :=
  inferInstanceAs (Decidable (_ ≠ _))

/-- How many entries of the name table belong to an index. -/
def nameCount (tables : Tables) (index : Nat) : Nat :=
  tables.pairs.countP fun p => p.1 = index

/-- An exported index lies in the address table. -/
lemma Exports.lt {tables : Tables} {addresses : List UInt32} {index : Nat}
    (hf : tables.functions = some addresses) (h : tables.Exports index) :
    index < addresses.length := by
  by_contra hge
  apply h
  rw [hf, Option.getD_some, List.getD_eq_getElem?_getD, List.getElem?_eq_none (by omega)]
  rfl

/-- A column of an exact memory has the declared number of entries. -/
lemma length_column {α : Type} {memory : Memory} (hm : memory.Exact) {l : Layout α}
    (hl : 0 < l.size) {address count : UInt32} {xs : List α}
    (h : column memory l address count = some xs) : xs.length = count.toNat := by
  obtain ⟨bs, hbs, rfl⟩ := Option.map_eq_some_iff.mp h
  rw [Layout.length_decodeAll, hm _ _ _ hbs, Nat.mul_div_cancel _ hl]

/-- The address table of an exact memory has fewer entries than 32 bits can count. -/
lemma length_functions_lt {memory : Memory} (hm : memory.Exact) {d : Directory}
    {addresses : List UInt32} (h : (read memory d).functions = some addresses) :
    addresses.length < addressLimit := by
  rw [length_column hm (by decide) h]
  exact d.numberOfFunctions.toNat_lt

/-- An exported index of an exact memory is a 32-bit number. -/
lemma Exports.lt_addressLimit {memory : Memory} (hm : memory.Exact) {d : Directory} {index : Nat}
    (h : (read memory d).Exports index) : index < addressLimit := by
  cases hf : (read memory d).functions with
  | none => exact absurd (by simp [hf]) h
  | some addresses => exact Nat.lt_trans (h.lt hf) (length_functions_lt hm hf)

/-- The index of an entry of the name table is a 16-bit number. -/
lemma fst_lt_of_mem_pairs {tables : Tables} {p : Nat × UInt32} (h : p ∈ tables.pairs) :
    p.1 < 65536 := by
  unfold pairs at h
  split at h
  · have hfst := (List.of_mem_zip h).1
    obtain ⟨ordinal, _, hordinal⟩ := List.mem_map.mp hfst
    rw [← hordinal]
    exact ordinal.toNat_lt
  · simp at h

end Tables

/-! ## Passes over the name table -/

/-- A pass that sets elements of an array keeps its size. -/
lemma size_foldl_setIfInBounds {α β : Type} (index : β → Nat) (value : β → α) (xs : List β)
    (elements : Array α) :
    (xs.foldl (fun elements x => elements.setIfInBounds (index x) (value x)) elements).size =
      elements.size := by
  induction xs generalizing elements with
  | nil => rfl
  | cons x xs ih => rw [List.foldl_cons, ih, Array.size_setIfInBounds]

namespace Symbols

/-- The marks cover the indices of the address table. -/
@[simp] lemma size_isNamed (count : Nat) (pairs : List (Nat × UInt32)) :
    (isNamed count pairs).size = count := by
  rw [isNamed, size_foldl_setIfInBounds Prod.fst fun _ => true, Array.size_replicate]

/-- The mark of an index tells whether an entry of the name table belongs to it. -/
lemma getElem?_isNamed (count : Nat) (pairs : List (Nat × UInt32)) (i : Nat) (hi : i < count) :
    (isNamed count pairs)[i]? = some (pairs.any fun p => p.1 = i) := by
  have hfold (marks : Array Bool) (hmarks : i < marks.size) :
      (pairs.foldl (fun marks p => marks.setIfInBounds p.1 true) marks)[i]? =
        some (marks[i] || pairs.any fun p => p.1 = i) := by
    induction pairs generalizing marks with
    | nil => simp [hmarks]
    | cons p pairs ih =>
      rw [List.foldl_cons, ih _ (by simpa using hmarks), Array.getElem_setIfInBounds hmarks]
      by_cases hp : p.1 = i <;> simp [hp]
  rw [isNamed, hfold _ (by simpa using hi)]
  simp

end Symbols

namespace Table

/-- There is one name address for each index of the address table. -/
@[simp] lemma size_nameAddresses (count : Nat) (pairs : List (Nat × UInt32)) :
    (nameAddresses count pairs).size = count := by
  rw [nameAddresses, size_foldl_setIfInBounds Prod.fst Prod.snd, Array.size_replicate]

/-- The functions of a table, one for each exported index in the order of the indices. -/
lemma filterMap_function?_eq (memory : Memory) (range : DataDirectory) (d : Directory)
    (addresses names : List UInt32) (h : names.length = addresses.length) :
    ((addresses.zip names).zipIdx.filterMap fun ((address, name), index) =>
        function? memory range d index address name) =
      ((List.range addresses.length).filter fun i => addresses.getD i 0 ≠ 0).map fun i => {
        ordinal := d.ordinal i
        address := addresses.getD i 0
        name := nameAt memory (names.getD i 0)
        target := targetAt memory range (addresses.getD i 0) } := by
  rw [zipIdx_zip_eq addresses names 0 0 h, List.filterMap_map]
  apply filterMap_eq_map_filter
  intro i _
  by_cases hi : addresses.getD i 0 = 0
  · rw [if_neg (not_not.mpr hi)]
    exact if_pos hi
  · rw [if_pos hi]
    exact if_neg hi

end Table

end PeCoff.Export
