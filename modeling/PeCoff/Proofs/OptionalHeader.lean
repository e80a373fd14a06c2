import Mathlib
import PeCoff.Header.Optional
import PeCoff.Proofs.Layout

/-!
# Optional headers as zero-filled bytes

An optional header is decoded from bytes that go on without end: those of the file as far as the
header is declared and the file lasts, and zeros behind them. The main statement is
`readFrom_eq_zeroFilled`, which says at which offset each field stands, that no other byte of the
file matters, and that the decoded header and its bytes determine each other.
-/

namespace PeCoff

/-! ## Offsets of the fields -/

/-- A directory is its address and its size, one behind the other. -/
lemma DataDirectory.readAt_layout {f : Nat → UInt8} {offset : Nat} :
    layout.readAt f offset = ⟨Layout.u32.readAt f offset, Layout.u32.readAt f (offset + 4)⟩ := by
  rw [layout, Layout.readAt_equiv, Layout.readAt_pair]
  rfl

namespace OptionalFields

variable {Base Word : Type} {base : Layout Base} {word : Layout Word} {f : Nat → UInt8}

open Layout in
/-- The fields of an optional header at their offsets, for given widths. -/
def readAt (base : Layout Base) (word : Layout Word) (f : Nat → UInt8) :
    OptionalFields Base Word where
  magic := u16.readAt f 0
  majorLinkerVersion := u8.readAt f 2
  minorLinkerVersion := u8.readAt f 3
  sizeOfCode := u32.readAt f 4
  sizeOfInitializedData := u32.readAt f 8
  sizeOfUninitializedData := u32.readAt f 12
  addressOfEntryPoint := u32.readAt f 16
  baseOfCode := u32.readAt f 20
  baseOfData := base.readAt f 24
  imageBase := word.readAt f (24 + base.size)
  sectionAlignment := u32.readAt f 32
  fileAlignment := u32.readAt f 36
  majorSystemVersion := u16.readAt f 40
  minorSystemVersion := u16.readAt f 42
  majorImageVersion := u16.readAt f 44
  minorImageVersion := u16.readAt f 46
  majorSubsystemVersion := u16.readAt f 48
  minorSubsystemVersion := u16.readAt f 50
  win32Version := u32.readAt f 52
  sizeOfImage := u32.readAt f 56
  sizeOfHeaders := u32.readAt f 60
  checkSum := u32.readAt f 64
  subsystem := u16.readAt f 68
  dllCharacteristics := u16.readAt f 70
  sizeOfStackReserve := word.readAt f 72
  sizeOfStackCommit := word.readAt f (72 + word.size)
  sizeOfHeapReserve := word.readAt f (72 + 2 * word.size)
  sizeOfHeapCommit := word.readAt f (72 + 3 * word.size)
  loaderFlags := u32.readAt f (72 + 4 * word.size)
  declaredSlots := u32.readAt f (76 + 4 * word.size)
  slots := .ofFn fun i =>
    ⟨u32.readAt f (80 + 4 * word.size + 8 * i), u32.readAt f (84 + 4 * word.size + 8 * i)⟩

/-- The fields are read at these offsets, since the base of the image ends at the same offset in
both layouts. -/
lemma read_layout (h : base.size + word.size = 8) :
    (layout base word).read f = readAt base word f := by
  have hu8 : Layout.u8.size = 1 := rfl
  have hu16 : Layout.u16.size = 2 := rfl
  have hu32 : Layout.u32.size = 4 := rfl
  have hslot : DataDirectory.layout.size = 8 := rfl
  have hbase (n : Nat) : n + base.size + word.size = n + 8 := by omega
  have htwo : 72 + word.size + word.size = 72 + 2 * word.size := by omega
  have hthree : 72 + 2 * word.size + word.size = 72 + 3 * word.size := by omega
  have hfour : 72 + 3 * word.size + word.size = 72 + 4 * word.size := by omega
  have hcount : 72 + 4 * word.size + 4 = 76 + 4 * word.size := by omega
  have hslots : 76 + 4 * word.size + 4 = 80 + 4 * word.size := by omega
  have hsize (i : Nat) : 80 + 4 * word.size + 8 * i + 4 = 84 + 4 * word.size + 8 * i := by omega
  rw [← Layout.readAt_zero]
  simp only [layout, Layout.readAt_equiv, Layout.readAt_pair, Layout.readAt_vector,
    DataDirectory.readAt_layout, hu8, hu16, hu32, hslot, hbase, htwo, hthree, hfour, hcount,
    hslots, Nat.zero_add, Nat.reduceAdd, Nat.mul_comm _ 8, hsize]
  rfl

end OptionalFields

/-! ## Zero-filled bytes -/

namespace Image

variable {image image' : Image} {offset size : Nat}

/-- The bytes of a file from an offset on, with zeros from a size or the end of the file on. -/
def zeroFilled (image : Image) (offset size i : Nat) : UInt8 :=
  if h : i < size ∧ offset + i < image.size then image.bytes.get (offset + i) h.2 else 0

/-- Bytes that were cut off read as zeros. -/
lemma zeroExtended_clipped :
    (image.clipped offset size).zeroExtended = image.zeroFilled offset size := by
  funext i
  rw [clipped_eq, zeroFilled]
  have hlength : ((image.toList.drop offset).take size).length =
      min size (image.size - offset) := by
    rw [List.length_take, List.length_drop, length_toList]
  split
  next h =>
    rw [Bytes.zeroExtended_of_lt _ _ (by omega), List.getElem_take, List.getElem_drop]
    rfl
  next h => exact Bytes.zeroExtended_of_length_le _ _ (by omega)

/-- Files with the same bytes up to a size are the same when zeros follow from there. -/
lemma zeroFilled_congr (h : ∀ i < size, image'.toList[offset + i]? = image.toList[offset + i]?) :
    image'.zeroFilled offset size = image.zeroFilled offset size := by
  rw [← zeroExtended_clipped, ← zeroExtended_clipped, clipped_eq, clipped_eq]
  refine congrArg Bytes.zeroExtended (List.ext_getElem? fun i => ?_)
  simp only [List.getElem?_take, List.getElem?_drop]
  split
  next hi => exact h i hi
  next => rfl

end Image

/-! ## Headers -/

namespace OptionalHeader

variable {f g : Nat → UInt8} {h : OptionalHeader}

/-- The signature of the wide layout stands in the first two bytes. -/
lemma read_u16_eq_wideMagic_iff : Layout.u16.read f = wideMagic ↔ f 0 = 0x0B ∧ f 1 = 0x02 := by
  have hbytes : Layout.u16.write (Layout.u16.read f) = [f 0, f 1] := Layout.u16.write_read f
  have hmagic : Layout.u16.write wideMagic = [0x0B, 0x02] := by decide
  rw [← Layout.u16.write_injective.eq_iff, hbytes, hmagic, List.cons.injEq, List.cons.injEq,
    and_iff_left rfl]

/-- The first two bytes tell the layout of a header. -/
lemma read_eq : read f =
    if f 0 = 0x0B ∧ f 1 = 0x02 then wide (.readAt .unit .u64 f)
    else narrow (.readAt .u32 .u32 f) := by
  rw [read, wideLayout, narrowLayout, OptionalFields.read_layout rfl,
    OptionalFields.read_layout rfl]
  exact if_congr read_u16_eq_wideMagic_iff rfl rfl

/-- No byte past the wide layout has an influence. -/
lemma read_congr (hfg : ∀ i < wideLayout.size, f i = g i) : read f = read g := by
  have hmagic : Layout.u16.read f = Layout.u16.read g :=
    Layout.u16.read_congr fun i hi => hfg i (Nat.lt_of_lt_of_le hi (by decide))
  have hnarrow : narrowLayout.read f = narrowLayout.read g :=
    narrowLayout.read_congr fun i hi => hfg i (Nat.lt_of_lt_of_le hi (by decide))
  rw [read, read, hmagic, wideLayout.read_congr hfg, hnarrow]

/-- A header is read from the bytes of its declared size, with zeros behind them. -/
lemma readFrom_eq (image : Image) (offset : Nat) (declaredSize : UInt16) :
    readFrom image offset declaredSize = read (image.zeroFilled offset declaredSize.toNat) := by
  rw [readFrom, decode, Image.zeroExtended_clipped]
  refine read_congr fun i hi => ?_
  simp only [Image.zeroFilled, Nat.lt_min, and_iff_left hi]

/-- A decoded header is written as the bytes it was read from. -/
lemma write_read : (read f).write = (List.range (if (read f).isWide then 240 else 224)).map f := by
  rw [read]
  split
  · exact wideLayout.write_read f
  · exact narrowLayout.write_read f

/-- A header with the signature of its layout is decoded from its bytes. -/
lemma read_write_append (hmagic : h.isWide ↔ h.magic = wideMagic) (rest : Bytes) :
    read (Bytes.zeroExtended (h.write ++ rest)) = h := by
  cases h with
  | narrow fields =>
    have hread := narrowLayout.read_write_append fields rest
    have hsignature : Layout.u16.read (Bytes.zeroExtended (narrowLayout.write fields ++ rest)) =
        fields.magic := congrArg OptionalFields.magic hread
    have hne : fields.magic ≠ wideMagic := fun heq => Bool.false_ne_true (hmagic.mpr heq)
    rw [read, write, hsignature, if_neg hne, hread]
  | wide fields =>
    have hread := wideLayout.read_write_append fields rest
    have hsignature : Layout.u16.read (Bytes.zeroExtended (wideLayout.write fields ++ rest)) =
        fields.magic := congrArg OptionalFields.magic hread
    have heq : fields.magic = wideMagic := hmagic.mp rfl
    rw [read, write, hsignature, if_pos heq, hread]

/-- The optional header at an offset of a file is decoded from the bytes of the file there, with
zeros from the declared size and from the end of the file on. The first two of them choose the
layout, and each field stands at its offset of that layout. Bytes from the declared size on have no
influence. The header is written as the bytes it was decoded from, and every header with the
signature of its layout is decoded from the bytes that it is written as, so that no two fields share
a byte. -/
theorem readFrom_eq_zeroFilled (image : Image) (offset : Nat) (declaredSize : UInt16) :
    (readFrom image offset declaredSize =
      let f := image.zeroFilled offset declaredSize.toNat
      if f 0 = 0x0B ∧ f 1 = 0x02 then wide (.readAt .unit .u64 f)
      else narrow (.readAt .u32 .u32 f)) ∧
    (∀ image' : Image,
      (∀ i < declaredSize.toNat, image'.toList[offset + i]? = image.toList[offset + i]?) →
        readFrom image' offset declaredSize = readFrom image offset declaredSize) ∧
    (readFrom image offset declaredSize).write =
      (List.range (if (readFrom image offset declaredSize).isWide then 240 else 224)).map
        (image.zeroFilled offset declaredSize.toNat) ∧
    ∀ (h : OptionalHeader) (front back : Bytes), (h.isWide ↔ h.magic = wideMagic) →
      h.write.length ≤ declaredSize.toNat →
        readFrom (.ofList (front ++ h.write ++ back)) front.length declaredSize = h := by
  refine ⟨?_, fun image' himage => ?_, ?_, fun h front back hmagic hsize => ?_⟩
  · rw [readFrom_eq, read_eq]
  · rw [readFrom_eq, readFrom_eq, Image.zeroFilled_congr himage]
  · rw [readFrom_eq]
    exact write_read
  · have hlist : (Image.ofList (front ++ h.write ++ back)).toList = front ++ h.write ++ back := rfl
    rw [readFrom_eq, ← Image.zeroExtended_clipped, Image.clipped_eq, hlist, List.append_assoc,
      List.drop_left, List.take_append, List.take_of_length_le hsize, read_write_append hmagic]

/-- A file that holds the first three bytes of a wide header. -/
def cutImage : Image :=
  .ofList [0xFF, 0x0B, 0x02, 14, 0xAA]

/-- A wide header with another number in each byte behind the signature. -/
def countedHeader : OptionalHeader :=
  .wide (.readAt .unit .u64 fun i => if i = 0 then 0x0B else UInt8.ofNat (i + 1))

/-- The header is wide when three bytes are declared, and narrow when its signature is cut in half;
a byte behind the declared size does not matter. A whole header is read back. -/
theorem readFrom_eq_zeroFilled_cut :
    (readFrom cutImage 1 3).write = [0x0B, 0x02, 14] ++ List.replicate 237 0 ∧
    (readFrom cutImage 1 1).write = [0x0B] ++ List.replicate 223 0 ∧
    readFrom (.ofList [0xFF, 0x0B, 0x02, 14]) 1 3 = readFrom cutImage 1 3 ∧
    readFrom (.ofList ([0xFF] ++ countedHeader.write ++ [0xFF])) 1 240 = countedHeader := by
  obtain ⟨hwide, hsame, hwideBytes, -⟩ := readFrom_eq_zeroFilled cutImage 1 3
  obtain ⟨hnarrow, -, hnarrowBytes, -⟩ := readFrom_eq_zeroFilled cutImage 1 1
  obtain ⟨-, -, -, hback⟩ := readFrom_eq_zeroFilled cutImage 1 240
  refine ⟨?_, ?_, hsame _ (by decide), hback countedHeader [0xFF] [0xFF] (by decide) ?_⟩
  · rw [hwideBytes, hwide]
    decide +kernel
  · rw [hnarrowBytes, hnarrow]
    decide +kernel
  · exact (wideLayout.length_write _).le

end OptionalHeader

end PeCoff
