import Mathlib
import PeCoff.Proofs.Import.Rebase

/-!
# Rebased delay-load directories

The old form of a delay-load directory and the form relative to the image mean the same. The main
statement is `found_of_rebased`, by which the same libraries and functions are found in a directory
before and after rebasing. The fields that are written must keep clear of each other, of the strings
and records that are read, and of the fields that stay as they are; `exists_found_ne` shows that the
last cannot be left out.
-/

namespace PeCoff.Import

/-! ## Elements of the walks -/

section Elements

variable {memory : Memory} {wide : Bool} {base bias value : UInt64} {p : Nat} {d : DelayedDescriptor}

/-- A descriptor goes on with the table exactly when it is that of a library. -/
lemma isTerminator_eq_false_iff : d.isTerminator = false ↔ d.IsLibrary := by
  simp [DelayedDescriptor.isTerminator, DelayedDescriptor.IsLibrary, and_assoc]

/-- A number that can be read is a thunk unless it is zero. -/
lemma Thunk.at?_of_pointer? (h : memory.pointer? wide p = some value) :
    Thunk.at? memory wide bias p =
      if value = 0 then none else some (Thunk.decode memory wide bias value) := by
  rw [Thunk.at?, h]
  by_cases hzero : value = 0
  · simp [hzero]
  · simp [hzero]

/-- Without a number there is no thunk. -/
lemma Thunk.at?_eq_none (h : memory.pointer? wide p = none) :
    Thunk.at? memory wide bias p = none := by
  rw [Thunk.at?, h]
  rfl

/-- A descriptor that can be read is that of a library unless it ends the table. -/
lemma DelayedLibrary.at?_of_record?
    (h : memory.record? DelayedDescriptor.layout p = some d) :
    DelayedLibrary.at? memory wide base p =
      if d.IsLibrary then some {
        address := p
        descriptor := d
        name := (d.toAddress base d.name).bind memory.text
        thunks := (d.toAddress base d.nameTable).bind (Thunk.array memory wide (d.bias base)) }
      else none := by
  rw [DelayedLibrary.at?, h]
  by_cases hlibrary : d.IsLibrary
  · simp [hlibrary, isTerminator_eq_false_iff.mpr hlibrary]
  · have hend : d.isTerminator = true := by
      simpa using mt isTerminator_eq_false_iff.mp hlibrary
    simp [hlibrary, hend]

/-- Without a descriptor there is no library. -/
lemma DelayedLibrary.at?_eq_none (h : memory.record? DelayedDescriptor.layout p = none) :
    DelayedLibrary.at? memory wide base p = none := by
  rw [DelayedLibrary.at?, h]
  rfl

/-- A thunk is read as a nonzero number. -/
lemma exists_of_isSome_thunk (h : (Thunk.at? memory wide bias p).isSome) :
    ∃ v, memory.pointer? wide p = some v ∧ v ≠ 0 := by
  cases hpointer : memory.pointer? wide p with
  | none => simp [Thunk.at?_eq_none hpointer] at h
  | some v =>
    refine ⟨v, rfl, ?_⟩
    rintro rfl
    simp [Thunk.at?_of_pointer? hpointer] at h

/-- A library is read as its descriptor. -/
lemma exists_of_isSome_library (h : (DelayedLibrary.at? memory wide base p).isSome) :
    ∃ d, memory.record? DelayedDescriptor.layout p = some d ∧ d.IsLibrary := by
  cases hrecord : memory.record? DelayedDescriptor.layout p with
  | none => simp [DelayedLibrary.at?_eq_none hrecord] at h
  | some d =>
    refine ⟨d, rfl, ?_⟩
    by_contra hlibrary
    simp [DelayedLibrary.at?_of_record? hrecord, hlibrary] at h

end Elements

/-! ## Hints and names -/

section HintName

variable {image image' : Image} {zeroReadable : Bool} {address : Nat}

/-- A hint and a name are read when both can be, and addresses go on behind the hint. -/
lemma isSome_hintName? {memory : Memory} : (Thunk.hintName? memory address).isSome ↔
    (memory.record? .u16 address).isSome ∧ address + 2 < addressLimit ∧
      (memory.text (address + 2)).isSome := by
  rw [Thunk.hintName?]
  cases memory.record? .u16 address with
  | none => simp
  | some hint =>
    cases memory.text (address + 2) with
    | none => simp
    | some name => by_cases hlimit : address + 2 < addressLimit <;> simp [hlimit]

/-- Whether there is a hint and a name in flat memory depends on the size of the file alone. -/
lemma isSome_flat_hintName? : (Thunk.hintName? (.flat image zeroReadable) address).isSome ↔
    (Memory.Addressable zeroReadable address ∧ address + 2 ≤ image.size) ∧
      address + 2 < addressLimit ∧
        Memory.Addressable zeroReadable (address + 2) ∧ address + 2 + 1 ≤ image.size := by
  rw [isSome_hintName?, Memory.isSome_flat_record?, Memory.isSome_flat_text]
  rfl

/-- Files that agree in the bytes of a hint and its name give the same ones. -/
lemma flat_hintName?_congr (hsize : image'.size = image.size)
    (h : (Thunk.hintName? (.flat image zeroReadable) address).isSome → ∀ skip n,
      skip + n ≤ 2 + (Memory.flat image zeroReadable).stringExtent (address + 2) →
        image'.read (address + skip) n = image.read (address + skip) n) :
    Thunk.hintName? (.flat image' zeroReadable) address =
      Thunk.hintName? (.flat image zeroReadable) address := by
  cases hfound : Thunk.hintName? (.flat image zeroReadable) address with
  | none =>
    rw [← Option.not_isSome_iff_eq_none, isSome_flat_hintName?, hsize, ← isSome_flat_hintName?,
      hfound]
    exact Bool.false_ne_true
  | some found =>
    have h := h (by rw [hfound]; rfl)
    have hhint : (Memory.flat image' zeroReadable).record? .u16 address =
        (Memory.flat image zeroReadable).record? .u16 address := by
      have hread : image'.read address Layout.u16.size = image.read address Layout.u16.size :=
        h 0 2 (by omega)
      rw [Memory.record?, Memory.record?, Memory.flat, Memory.flat, hread]
    have hname : (Memory.flat image' zeroReadable).text (address + 2) =
        (Memory.flat image zeroReadable).text (address + 2) := by
      apply Memory.flat_text_congr hsize
      intro _ skip n hle
      rw [Nat.add_assoc]
      exact h (2 + skip) n (by omega)
    rw [← hfound, Thunk.hintName?, Thunk.hintName?, hhint, hname]

end HintName

/-! ## The fields after rebasing -/

namespace DelayedDirectory

/-- A pointer after rebasing. -/
def rebasedPointer (base : UInt64) (value : UInt32) : UInt32 :=
  if value = 0 then 0 else value + base.toUInt32

/-- A number of a name table after rebasing. -/
def rebasedSlot (wide : Bool) (base value : UInt64) : UInt64 :=
  if IsAddress wide value then value + base else value

/-- Adding the image base to a pointer does not overflow. -/
lemma toNat_add_base {base : UInt64} {value : UInt32}
    (h : value.toNat + base.toNat < 2 ^ 32) :
    (value + base.toUInt32).toNat = value.toNat + base.toNat := by
  rw [UInt32.toNat_add, UInt64.toNat_toUInt32, Nat.add_mod_mod, Nat.mod_eq_of_lt h]

/-- Adding the image base to a slot does not overflow. -/
lemma toNat_add_of_lt {wide : Bool} {base slot : UInt64}
    (h : slot.toNat + base.toNat < (ordinalFlag wide).toNat) :
    (slot + base).toNat = slot.toNat + base.toNat := by
  have hflag := (ordinalFlag wide).toNat_lt
  rw [UInt64.toNat_add, Nat.mod_eq_of_lt (by omega)]

/-- A slot with the image base added still has the width of a pointer. -/
lemma fitsPointer_add {wide : Bool} {base slot : UInt64}
    (h : slot.toNat + base.toNat < (ordinalFlag wide).toNat) :
    Memory.FitsPointer wide (slot + base) := by
  rw [Memory.FitsPointer, toNat_add_of_lt h]
  cases wide with
  | true => exact .inl rfl
  | false => exact .inr (Nat.lt_trans h (by decide))

section Fields

variable {directory : DelayedDirectory} {base : UInt64} {image image' : Image} {p skip : Nat}
  {d : DelayedDescriptor} {value : UInt32} {slot : UInt64}

/-- The fields of a descriptor lie at their places in it. -/
lemma holds_fields (h : image.Holds p (DelayedDescriptor.layout.write d)) :
    image.Holds p (Layout.u32.write d.attributes) ∧
      ∀ x ∈ d.pointers, image.Holds (p + x.1) (Layout.u32.write x.2) := by
  have hbytes : DelayedDescriptor.layout.write d = Layout.u32.write d.attributes ++
      (Layout.u32.write d.name ++ (Layout.u32.write d.moduleHandle ++
        (Layout.u32.write d.addressTable ++ (Layout.u32.write d.nameTable ++
          (Layout.u32.write d.boundAddressTable ++ (Layout.u32.write d.unloadTable ++
            Layout.u32.write d.timeDateStamp)))))) := rfl
  rw [hbytes] at h
  obtain ⟨hattributes, h⟩ := Image.holds_append_iff.mp h
  obtain ⟨hname, h⟩ := Image.holds_append_iff.mp h
  obtain ⟨-, h⟩ := Image.holds_append_iff.mp h
  obtain ⟨haddressTable, h⟩ := Image.holds_append_iff.mp h
  obtain ⟨hnameTable, -⟩ := Image.holds_append_iff.mp h
  refine ⟨hattributes, ?_⟩
  intro x hx
  simp only [DelayedDescriptor.pointers, List.mem_cons, List.not_mem_nil, or_false] at hx
  rcases hx with rfl | rfl | rfl
  · exact hname
  · exact haddressTable
  · exact hnameTable

variable (hkeeps : directory.KeepsApart base)
  (hpatched : Patched (directory.Rewrites base) directory.image image')
include hpatched

/-- Whether a number can be read is the same after rebasing. -/
lemma pointer?_rebased_eq_none_iff :
    (directory.inFile image').memory.pointer? directory.wide p = none ↔
      directory.memory.pointer? directory.wide p = none := by
  rw [← Option.not_isSome_iff_eq_none, ← Option.not_isSome_iff_eq_none, memory, memory,
    Memory.isSome_flat_pointer?, Memory.isSome_flat_pointer?, inFile, hpatched.size_eq]

/-- Whether a descriptor can be read is the same after rebasing. -/
lemma record?_rebased_eq_none_iff :
    (directory.inFile image').memory.record? DelayedDescriptor.layout p = none ↔
      directory.memory.record? DelayedDescriptor.layout p = none := by
  rw [← Option.not_isSome_iff_eq_none, ← Option.not_isSome_iff_eq_none, memory, memory,
    Memory.isSome_flat_record?, Memory.isSome_flat_record?, inFile, hpatched.size_eq]

include hkeeps

/-- Each pointer of a descriptor is rebased. -/
lemma holds_rebasedPointer (hd : directory.DescriptorAt p d) (hx : (skip, value) ∈ d.pointers) :
    image'.Holds (p + skip) (Layout.u32.write (rebasedPointer base value)) := by
  by_cases hzero : value = 0
  · subst hzero
    obtain ⟨-, hfields⟩ := holds_fields hd.holds.2
    rw [rebasedPointer, if_pos rfl]
    apply hpatched.holds_of_apart _ (hfields _ hx)
    intro x hrewrites
    exact hkeeps x hrewrites _ _ (.pointer hd hx)
  · rw [rebasedPointer, if_neg hzero]
    exact hpatched.written _ (.pointer hd hx hzero)

/-- A descriptor is read after rebasing with its mode and its pointers changed. -/
lemma exists_rebased_descriptor (hd : directory.DescriptorAt p d) :
    ∃ d', (directory.inFile image').memory.record? DelayedDescriptor.layout p = some d' ∧
      d'.attributes = d.attributes &&& 0xFFFFFFFE ∧
      d'.name = rebasedPointer base d.name ∧
      d'.addressTable = rebasedPointer base d.addressTable ∧
      d'.nameTable = rebasedPointer base d.nameTable := by
  obtain ⟨hplace, hholds⟩ := hd.holds
  have hle := hholds.end_le
  rw [Layout.length_write, ← hpatched.size_eq] at hle
  obtain ⟨d', hd'⟩ := Option.isSome_iff_exists.mp (Memory.isSome_flat_record?.mpr ⟨hplace, hle⟩)
  obtain ⟨hattributes, hpointers⟩ := holds_fields (Memory.flat_record?_eq_some_iff.mp hd').2
  have hsame {k : Nat} {v v' : UInt32} (h : (k, v) ∈ d.pointers) (h' : (k, v') ∈ d'.pointers) :
      v' = rebasedPointer base v := by
    have hrebased := holds_rebasedPointer hkeeps hpatched hd h
    exact Layout.u32.write_injective ((hpointers _ h').unique hrebased (by simp))
  have hmode := hattributes.unique (hpatched.written _ (.mode hd)) (by simp)
  refine ⟨d', hd', Layout.u32.write_injective hmode, ?_, ?_, ?_⟩
  · exact hsame d.name_mem_pointers d'.name_mem_pointers
  · exact hsame d.addressTable_mem_pointers d'.addressTable_mem_pointers
  · exact hsame d.nameTable_mem_pointers d'.nameTable_mem_pointers

/-- A number of a name table is read after rebasing as the rebased number. -/
lemma pointer?_rebased (h : directory.Rebasable base) (hs : directory.SlotAt p slot) :
    (directory.inFile image').memory.pointer? directory.wide p =
      some (rebasedSlot directory.wide base slot) := by
  obtain ⟨hfits, hplace, hholds⟩ := hs.holds
  apply Memory.flat_pointer?_eq_some_iff.mpr
  by_cases haddress : IsAddress directory.wide slot
  · rw [rebasedSlot, if_pos haddress]
    refine ⟨?_, hplace, hpatched.written _ (.slot hs haddress)⟩
    exact fitsPointer_add (h.slot_lt p slot hs haddress)
  · rw [rebasedSlot, if_neg haddress]
    refine ⟨hfits, hplace, hpatched.holds_of_apart ?_ hholds⟩
    intro x hrewrites
    rw [Memory.length_pointerBytes]
    exact hkeeps x hrewrites _ _ (.slot hs haddress)

end Fields

/-! ## What is found after rebasing -/

section Found

variable {directory : DelayedDirectory} {base : UInt64} {image' : Image} {p : Nat}
  {d d' : DelayedDescriptor} {slot : UInt64}

/-- A pointer that was rebased is zero when it was before. -/
lemma rebasedPointer_eq_zero_iff {value : UInt32}
    (hlt : value ≠ 0 → value.toNat + base.toNat < 2 ^ 32) :
    rebasedPointer base value = 0 ↔ value = 0 := by
  by_cases hzero : value = 0
  · rw [rebasedPointer, if_pos hzero, hzero]
  · rw [rebasedPointer, if_neg hzero]
    refine iff_of_false (fun hsum => ?_) hzero
    have hsum := congrArg UInt32.toNat hsum
    rw [toNat_add_base (hlt hzero), UInt32.toNat_zero] at hsum
    exact hzero (UInt32.toNat_inj.mp (by rw [UInt32.toNat_zero]; omega))

/-- A number other than zero is not rebased to zero. -/
lemma rebasedSlot_ne_zero {wide : Bool}
    (hlt : IsAddress wide slot → slot.toNat + base.toNat < (ordinalFlag wide).toNat)
    (hne : slot ≠ 0) : rebasedSlot wide base slot ≠ 0 := by
  by_cases haddress : IsAddress wide slot
  · rw [rebasedSlot, if_pos haddress, ne_eq, ← UInt64.toNat_inj, toNat_add_of_lt (hlt haddress)]
    rw [ne_eq, ← UInt64.toNat_inj, UInt64.toNat_zero] at hne
    rw [UInt64.toNat_zero]
    omega
  · rw [rebasedSlot, if_neg haddress]
    exact hne

/-- Nothing is taken off the pointers of a relative descriptor. -/
lemma bias_relative (hmode : d.attributes &&& 1 ≠ 0) : d.bias base = 0 := by
  simp [DelayedDescriptor.bias, DelayedDescriptor.mode, hmode]

/-- The image base is taken off the pointers of a descriptor whose lowest flag was cleared. -/
lemma bias_rebased (hmode : d'.attributes = d.attributes &&& 0xFFFFFFFE) : d'.bias base = base := by
  have hclear : d'.attributes &&& 1 = 0 := by
    rw [hmode, UInt32.and_assoc]
    exact UInt32.and_zero
  simp [DelayedDescriptor.bias, DelayedDescriptor.mode, hclear]

/-- A pointer that is relative to the image leads to the address it holds. -/
lemma toAddress_relative (hmode : d.attributes &&& 1 ≠ 0) (value : UInt32) :
    d.toAddress base value = some value.toNat := by
  rw [DelayedDescriptor.toAddress, bias_relative hmode]
  exact if_pos (Nat.zero_le _)

/-- A rebased pointer leads to the address that the pointer held. -/
lemma toAddress_rebased {value : UInt32} (hmode : d'.attributes = d.attributes &&& 0xFFFFFFFE)
    (hvalue : value ≠ 0) (hlt : value.toNat + base.toNat < 2 ^ 32) :
    d'.toAddress base (rebasedPointer base value) = some value.toNat := by
  rw [DelayedDescriptor.toAddress, bias_rebased hmode, rebasedPointer, if_neg hvalue,
    toNat_add_base hlt]
  simp only [Nat.le_add_left, if_true, Nat.add_sub_cancel]

/-- A descriptor is one of a library after rebasing when it was before. -/
lemma isLibrary_rebased_iff (h : directory.Rebasable base) (hd : directory.DescriptorAt p d)
    (hname : d'.name = rebasedPointer base d.name)
    (haddressTable : d'.addressTable = rebasedPointer base d.addressTable)
    (hnameTable : d'.nameTable = rebasedPointer base d.nameTable) :
    d'.IsLibrary ↔ d.IsLibrary := by
  have hlt := h.pointer_lt p d hd
  have hzero (x : Nat × UInt32) (hx : x ∈ d.pointers) :=
    not_congr (rebasedPointer_eq_zero_iff (hlt x hx))
  rw [DelayedDescriptor.IsLibrary, hname, haddressTable, hnameTable]
  exact and_congr (hzero (4, d.name) d.name_mem_pointers)
    (and_congr (hzero (12, d.addressTable) d.addressTable_mem_pointers)
      (hzero (16, d.nameTable) d.nameTable_mem_pointers))

variable (h : directory.Rebasable base) (hkeeps : directory.KeepsApart base)
  (hpatched : Patched (directory.Rewrites base) directory.image image')
include h hpatched

/-- The name of a library is the same after rebasing. -/
lemma text_rebased (hd : directory.DescriptorAt p d) (hlibrary : d.IsLibrary) :
    (directory.inFile image').memory.text d.name.toNat = directory.memory.text d.name.toNat := by
  apply Memory.flat_text_congr hpatched.size_eq
  intro hfound skip n hle
  apply hpatched.read_eq
  intro x hrewrites
  exact (h.reads_apart x hrewrites _ _ (.name hd hlibrary hfound)).piece hle

/-- A hint and a name are the same after rebasing. -/
lemma hintName?_rebased (hs : directory.SlotAt p slot) (haddress : IsAddress directory.wide slot) :
    Thunk.hintName? (directory.inFile image').memory slot.toUInt32.toNat =
      Thunk.hintName? directory.memory slot.toUInt32.toNat := by
  apply flat_hintName?_congr hpatched.size_eq
  intro hfound skip n hle
  apply hpatched.read_eq
  intro x hrewrites
  exact (h.reads_apart x hrewrites _ _ (.record hs haddress hfound)).piece hle

/-- A function is found after rebasing by the rebased number. -/
lemma decode_rebased (hs : directory.SlotAt p slot) (hne : slot ≠ 0) :
    Thunk.decode (directory.inFile image').memory directory.wide base
        (rebasedSlot directory.wide base slot) =
      (Thunk.decode directory.memory directory.wide 0 slot).shift base.toUInt32 := by
  obtain ⟨hfits, -, -⟩ := hs.holds
  by_cases haddress : IsAddress directory.wide slot
  -- Rebased or not, an address lies below the highest bit.
  · have hlt := h.slot_lt p slot hs haddress
    have hsum := toNat_add_of_lt hlt
    have hclear : ¬ Thunk.isOrdinal directory.wide slot := by
      rw [isOrdinal_iff hfits, UInt64.not_le]
      exact haddress.2
    have hclear' : ¬ Thunk.isOrdinal directory.wide (slot + base) := by
      rw [isOrdinal_iff (fitsPointer_add hlt), UInt64.not_le, UInt64.lt_iff_toNat_lt, hsum]
      exact hlt
    have hle : base ≤ slot + base := by
      rw [UInt64.le_iff_toNat_le, hsum]
      exact Nat.le_add_left _ _
    rw [rebasedSlot, if_pos haddress, Thunk.decode, Thunk.decode, if_neg hclear, if_neg hclear',
      if_pos hle, if_pos UInt64.zero_le, UInt64.add_sub_cancel, UInt64.sub_zero,
      hintName?_rebased h hpatched hs haddress]
    cases Thunk.hintName? directory.memory slot.toUInt32.toNat with
    | none => simp only [Thunk.shift, UInt64.toUInt32_add]
    | some found => simp only [Thunk.shift, UInt64.toUInt32_add]
  · have hset : Thunk.isOrdinal directory.wide slot := by
      rw [isOrdinal_iff hfits, ← UInt64.not_lt]
      exact fun hlt => haddress ⟨hne, hlt⟩
    rw [rebasedSlot, if_neg haddress, Thunk.decode, Thunk.decode, if_pos hset, if_pos hset,
      Thunk.shift]

include hkeeps

/-- A number of a name table leads to the same function after rebasing. -/
lemma thunk_rebased (hreaches : ∀ v, directory.memory.pointer? directory.wide p = some v →
      directory.SlotAt p v) :
    (Thunk.at? directory.memory directory.wide 0 p).map (Thunk.shift base.toUInt32) =
      Thunk.at? (directory.inFile image').memory directory.wide base p := by
  cases hpointer : directory.memory.pointer? directory.wide p with
  | none =>
    have hnone := (pointer?_rebased_eq_none_iff hpatched).mpr hpointer
    rw [Thunk.at?_eq_none hpointer, Thunk.at?_eq_none hnone]
    rfl
  -- What was read decides whether the number is rebased, and both walks end at a zero.
  | some slot =>
    have hs := hreaches slot hpointer
    have hrebased := pointer?_rebased hkeeps hpatched h hs
    rw [Thunk.at?_of_pointer? hpointer, Thunk.at?_of_pointer? hrebased]
    by_cases hne : slot = 0
    · have hzero : ¬ IsAddress directory.wide slot := fun haddress => haddress.1 hne
      rw [rebasedSlot, if_neg hzero, if_pos hne, if_pos hne]
      rfl
    · have hne' := rebasedSlot_ne_zero (h.slot_lt p slot hs) hne
      rw [if_neg hne, if_neg hne', decode_rebased h hpatched hs hne]
      rfl

/-- The functions of a library are the same after rebasing. -/
lemma array_rebased (hd : directory.DescriptorAt p d) (hlibrary : d.IsLibrary) :
    (Thunk.array directory.memory directory.wide 0 d.nameTable.toNat).map
        (List.map (Thunk.shift base.toUInt32)) =
      Thunk.array (directory.inFile image').memory directory.wide base d.nameTable.toNat := by
  have hwalk : (walk (Memory.pointerWidth directory.wide)
      (Thunk.at? directory.memory directory.wide 0) d.nameTable.toNat).map
        (Thunk.shift base.toUInt32) =
      (walk (Memory.pointerWidth directory.wide)
        (Thunk.at? (directory.inFile image').memory directory.wide base) d.nameTable.toNat).map
          id := by
    -- The walks go through the same places, and the thunks at a place differ by the base.
    apply map_walk_eq _ _ fun q hq => exists_of_isSome_thunk hq
    intro q hq
    rw [Option.map_id]
    exact thunk_rebased h hkeeps hpatched fun v hv => ⟨p, d, hd, hlibrary, hq, hv⟩
  rw [List.map_id] at hwalk
  cases hfirst : directory.memory.pointer? directory.wide d.nameTable.toNat with
  | none =>
    have hnone := (pointer?_rebased_eq_none_iff hpatched).mpr hfirst
    rw [Thunk.array, Thunk.array, hfirst, hnone]
    rfl
  | some slot =>
    have hsome := mt (pointer?_rebased_eq_none_iff hpatched).mp
      (by rw [hfirst]; exact Option.some_ne_none slot)
    obtain ⟨slot', hfirst'⟩ := Option.ne_none_iff_exists'.mp hsome
    rw [Thunk.array, Thunk.array, hfirst, hfirst', ← hwalk]
    rfl

/-- A library is the same after rebasing. -/
lemma library_rebased
    (hreaches : ∀ d, directory.memory.record? DelayedDescriptor.layout p = some d →
      directory.DescriptorAt p d) :
    (DelayedLibrary.at? directory.memory directory.wide base p).map
        (fun l => (l.name, l.thunks.map (List.map (Thunk.shift base.toUInt32)))) =
      (DelayedLibrary.at? (directory.inFile image').memory directory.wide base p).map
        DelayedLibrary.found := by
  -- A descriptor is there in both files or in neither.
  cases hrecord : directory.memory.record? DelayedDescriptor.layout p with
  | none =>
    have hnone := (record?_rebased_eq_none_iff hpatched).mpr hrecord
    rw [DelayedLibrary.at?_eq_none hrecord, DelayedLibrary.at?_eq_none hnone]
    rfl
  | some d =>
    have hd := hreaches d hrecord
    obtain ⟨d', hrecord', hmode, hname, haddressTable, hnameTable⟩ :=
      exists_rebased_descriptor hkeeps hpatched hd
    have hsame := isLibrary_rebased_iff h hd hname haddressTable hnameTable
    rw [DelayedLibrary.at?_of_record? hrecord, DelayedLibrary.at?_of_record? hrecord']
    -- It ends both lists or neither.
    by_cases hlibrary : d.IsLibrary
    · have hrelative := h.relative p d hd hlibrary
      have hlt := h.pointer_lt p d hd
      -- The one file names the addresses relative to the base, the other includes the base.
      have hname_address : d'.toAddress base d'.name = some d.name.toNat := by
        rw [hname]
        exact toAddress_rebased hmode hlibrary.1 (hlt _ d.name_mem_pointers hlibrary.1)
      have htable_address : d'.toAddress base d'.nameTable = some d.nameTable.toNat := by
        rw [hnameTable]
        exact toAddress_rebased hmode hlibrary.2.2 (hlt _ d.nameTable_mem_pointers hlibrary.2.2)
      have hname_found := text_rebased h hpatched hd hlibrary
      have hthunks_found := array_rebased h hkeeps hpatched hd hlibrary
      rw [if_pos hlibrary, if_pos (hsame.mpr hlibrary), Option.map_some, Option.map_some,
        DelayedLibrary.found]
      simp only [toAddress_relative hrelative, hname_address, htable_address, Option.bind_some,
        bias_relative hrelative, bias_rebased hmode, hname_found, hthunks_found]
    · rw [if_neg hlibrary, if_neg (mt hsame.mp hlibrary)]
      rfl

end Found

variable {directory : DelayedDirectory} {base : UInt64}

/-- What is written when a directory is rebased lies in the file. -/
lemma Rewrites.end_le {x : Patch} (hx : directory.Rewrites base x) :
    x.offset + x.bytes.length ≤ directory.image.size := by
  cases hx with
  | mode hd =>
    obtain ⟨hattributes, -⟩ := holds_fields hd.holds.2
    have hle := hattributes.end_le
    rwa [Layout.length_write] at hle ⊢
  | pointer hd hpointer =>
    obtain ⟨-, hpointers⟩ := holds_fields hd.holds.2
    have hle := (hpointers _ hpointer).end_le
    rwa [Layout.length_write] at hle ⊢
  | slot hs =>
    have hle := hs.holds.2.2.end_le
    rwa [Memory.length_pointerBytes] at hle ⊢

/-- A directory with relative pointers can be rebased, and then the same libraries and functions are
found as before. -/
theorem found_of_rebased (h : directory.Rebasable base) (hkeeps : directory.KeepsApart base)
    (size : UInt32) :
    (∃ image', Patched (directory.Rewrites base) directory.image image') ∧
    ∀ image', Patched (directory.Rewrites base) directory.image image' →
      ((directory.inFile image').libraries base size).map DelayedLibrary.found =
        (directory.libraries base size).map fun l =>
          (l.name, l.thunks.map (List.map (Thunk.shift base.toUInt32))) := by
  refine ⟨exists_patched (fun x hx => hx.end_le) h.rewrites_apart, ?_⟩
  intro image' hpatched
  symm
  apply map_walk_eq _ _ fun q hq => exists_of_isSome_library hq
  intro q hq
  exact library_rebased h hkeeps hpatched fun d hd => ⟨hq, hd⟩

/-- A directory in narrow memory, of given descriptors with other bytes behind them. -/
def narrowDirectory (descriptors : List DelayedDescriptor) (behind : Bytes) : DelayedDirectory where
  image := .ofList <|
    [0, 0, 0, 0] ++ descriptors.flatMap DelayedDescriptor.layout.write ++ behind
  zeroReadable := false
  wide := false
  start := 4

/-- The directory in the file that was patched for a base. -/
def rebase (directory : DelayedDirectory) (base : UInt64) : Image :=
  .ofList (patchAll (directory.rewrites base) directory.image.toList)

/-- A directory with one library, from which one function is taken by name, one by ordinal and one
by a name that cannot be read. -/
def sampleDirectory : DelayedDirectory :=
  narrowDirectory [⟨1, 68, 0, 9, 76, 0, 0, 0⟩, ⟨0, 0, 0, 0, 0, 0, 0, 0⟩] <|
    [65, 0, 7, 0, 102, 0, 0, 0]
      ++ ([70, 0x80000009, 0xFFFF, 0] : List UInt32).flatMap Layout.u32.write

/-- The functions of the sample are found in both forms. -/
theorem found_of_rebased_sample :
    ((sampleDirectory.inFile (sampleDirectory.rebase 0x400000)).libraries 0x400000 0).map
        DelayedLibrary.found =
      [(some "A", some [.named 7 "f" 0x400046, .ordinal 9, .unresolved 0x40FFFF])] := by
  have hrebasable : sampleDirectory.Rebasable 0x400000 := by
    apply rebasable_of_checks <;> decide +kernel
  have hkeeps : sampleDirectory.KeepsApart 0x400000 := by
    apply keepsApart_of_checks <;> decide +kernel
  have hpatched : Patched (sampleDirectory.Rewrites 0x400000) sampleDirectory.image
      (sampleDirectory.rebase 0x400000) := by
    apply patched_of_checks <;> decide +kernel
  have hfound := (found_of_rebased hrebasable hkeeps 0).2 _ hpatched
  rw [hfound]
  decide +kernel

/-- A directory can be rebased, but other libraries or functions are found then. -/
structure FoundDiffers (directory : DelayedDirectory) (base : UInt64) : Prop where
  rebasable : directory.Rebasable base
  patched : Patched (directory.Rewrites base) directory.image (directory.rebase base)
  found_ne : ((directory.inFile (directory.rebase base)).libraries base 0).map
      DelayedLibrary.found ≠
    (directory.libraries base 0).map fun l =>
      (l.name, l.thunks.map (List.map (Thunk.shift base.toUInt32)))

/-- What is found can differ where a field that is written lies over one that stays as it is: over
an ordinal, over the zero that ends a name table, and over a zero pointer. -/
theorem exists_found_ne :
    FoundDiffers (narrowDirectory [⟨1, 0x80000005, 0, 1, 8, 0, 0, 0⟩] []) 1 ∧
    FoundDiffers (narrowDirectory [⟨1, 0x44, 0, 1, 9, 0, 0, 0⟩] []) 0x400000 ∧
    FoundDiffers (narrowDirectory [⟨1, 0x1000, 0, 1, 53, 0, 0, 0⟩, ⟨0, 1, 0, 1, 0, 1, 0, 0⟩] [])
      0x400000 := by
  refine ⟨⟨?_, ?_, ?_⟩, ⟨?_, ?_, ?_⟩, ⟨?_, ?_, ?_⟩⟩
  case refine_1 | refine_4 | refine_7 => apply rebasable_of_checks <;> decide +kernel
  case refine_2 | refine_5 | refine_8 => apply patched_of_checks <;> decide +kernel
  case refine_3 | refine_6 | refine_9 => decide +kernel

end DelayedDirectory

end PeCoff.Import
