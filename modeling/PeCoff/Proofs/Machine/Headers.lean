import Mathlib
import PeCoff.FileKind
import PeCoff.Proofs.Machine.Memory

/-!
# Headers on a machine

The headers of an image, from the first two bytes of the file to the section table, and what leads
from them to a directory. The main statements are `detectKind_eq` and `parseExecutable_eq`.
-/

namespace PeCoff.Machine

variable {image : Image}

/-! ## The DOS header -/

/-- The bytes of a file at an offset, or the reason why there are none. -/
def readExact (image : Image) (offset length : Nat) : Except DecodeError Bytes :=
  match readFile image offset length with
  | some bs => .ok bs
  | none => .error (.outOfBounds offset image.size)

/-- A range of a file is read, or its end is reported. -/
lemma readExact_eq (h : Fits image) (offset length : Nat) :
    readExact image offset length = image.readExact offset length := by
  rw [readExact, readFile_eq h]
  rfl

/-- The DOS header at the front of a byte string. -/
def dosHeader (bs : Bytes) : Step (Except DecodeError DosHeader) := do
  match slice? bs 0 DosHeader.size with
  | none => return .error (.tooShort DosHeader.size bs.length)
  | some front =>
    let signature ← fetch .u16 front 0
    if signature ≠ DosHeader.signature then return .error .dosSignature
    let paragraphs ← fetch .u16 front 8
    let relocationTable ← fetch .u16 front 24
    let newHeader ← fetch .u32 front 60
    return .ok ⟨paragraphs, relocationTable, newHeader.toInt32⟩

/-- A field of the front of a string is that field of the string. -/
lemma fetch_front_eq {α : Type} {l : Layout α} {bs : Bytes} {start stop : Nat}
    (hstop : stop ≤ bs.length) (hword : stop < 2 ^ 64) (h : start + l.size ≤ stop) :
    fetch l (bs.take stop) start = .ok (l.read fun i => bs.zeroExtended (start + i)) := by
  have hslice : fetch l ((bs.take stop).drop 0) start =
      .ok (l.read (Bytes.zeroExtended (bs.drop (0 + start)))) :=
    fetch_slice_eq hword hstop (by omega)
  rwa [List.drop_zero, Nat.zero_add, zeroExtended_drop] at hslice

/-- The first header is decoded without a fault. -/
lemma dosHeader_eq (bs : Bytes) : dosHeader bs = .ok (DosHeader.decode bs) := by
  rw [dosHeader, DosHeader.decode]
  by_cases hlength : bs.length < DosHeader.size
  · rw [if_pos hlength, slice?, if_neg (by omega)]
    rfl
  · have hsize : DosHeader.size ≤ bs.length := Nat.not_lt.mp hlength
    have half (i : Nat) (hi : i + 2 ≤ 64) :
        fetch .u16 (bs.take DosHeader.size) i = .ok (DosHeader.half bs.zeroExtended i) :=
      fetch_front_eq hsize (by decide) hi
    have field : fetch .u32 (bs.take DosHeader.size) 60 =
        .ok (Layout.u32.read fun i => bs.zeroExtended (60 + i)) :=
      fetch_front_eq hsize (by decide) (by decide)
    rw [if_neg hlength, slice?_eq (Nat.zero_le _) hsize]
    simp only [List.drop_zero, half 0 (by decide), half 8 (by decide), half 24 (by decide), field,
      ok_bind, pure_eq]
    by_cases hsignature : DosHeader.half bs.zeroExtended 0 = DosHeader.signature
    · rw [if_neg (not_not.mpr hsignature), if_neg (not_not.mpr hsignature)]
      rfl
    · rw [if_pos hsignature, if_pos hsignature]

/-- The DOS header at the front of a file. -/
def fileDosHeader (image : Image) : Step (Except DecodeError DosHeader) :=
  match readExact image 0 DosHeader.size with
  | .error error => return .error error
  | .ok bs => dosHeader bs

/-- The first header of a file is decoded without a fault. -/
lemma fileDosHeader_eq (h : Fits image) :
    fileDosHeader image = .ok (DosHeader.readFrom image 0) := by
  rw [fileDosHeader, readExact_eq h, DosHeader.readFrom]
  cases image.readExact 0 DosHeader.size with
  | error error => rfl
  | ok bs => exact dosHeader_eq bs

/-- Whether the file only holds the place of a real module. -/
def isPlaceholder (image : Image) : Step Bool := do
  let stop := DosHeader.size + Image.placeholderMark.length
  match readFile image 0 stop with
  | none => return false
  | some head =>
    let field ← fetch .u32 head 60
    if (stop : Int) ≤ field.toInt32.toInt then
      let rest ← slice head DosHeader.size head.length
      return rest == Image.placeholderMark
    else
      return false

/-- The mark of a placeholder is looked for without a fault. -/
lemma isPlaceholder_eq (h : Fits image) : isPlaceholder image = .ok image.isPlaceholder := by
  have hmark : Image.placeholderMark.length = 21 := by decide
  rw [isPlaceholder, Image.isPlaceholder, readFile_eq h]
  simp only [hmark]
  cases hread : image.read 0 (DosHeader.size + 21) with
  | none => rfl
  | some head =>
    have hlength : head.length = 85 := Image.length_read hread
    have hsize : DosHeader.size = 64 := rfl
    obtain ⟨x, hx, hfield⟩ : ∃ x, fetch .u32 head 60 = .ok x ∧
        x.toInt32 = DosHeader.newHeaderField head.zeroExtended := by
      rw [fetch_eq (by omega) (by rw [hlength]; decide), zeroExtended_drop]
      exact ⟨_, rfl, rfl⟩
    simp only [hx, ok_bind, hfield]
    rw [slice_eq (by omega) (Nat.le_refl _), List.take_length]
    by_cases hle : ((DosHeader.size + 21 : Nat) : Int) ≤
        (DosHeader.newHeaderField head.zeroExtended).toInt
    · rw [if_pos hle, decide_eq_true hle]
      rfl
    · rw [if_neg hle, decide_eq_false hle]
      rfl

/-! ## Kinds of files -/

/-- The kind of a file. -/
def detectKind (image : Image) : Step FileKind := do
  match ← fileRecord? image .u16 0 with
  | none => return .unknown
  | some signature =>
    if signature = FileKind.debugSignature then return .debug
    if signature ≠ DosHeader.signature then return .unknown
    match ← fileDosHeader image with
    | .error _ => return .unknown
    | .ok header =>
      match header.newHeaderOffset with
      | none => return .unknown
      | some offset =>
        match ← fileRecord? image .u32 offset with
        | none => return .unknown
        | some newSignature => return .ofNewHeader newSignature

/-- The kind of a file is told without a fault. -/
theorem detectKind_eq (h : Fits image) : detectKind image = .ok (FileKind.detect image) := by
  rw [detectKind, FileKind.detect, fileRecord?_eq h]
  simp only [ok_bind]
  cases image.record? .u16 0 with
  | none => rfl
  | some signature =>
    simp only
    by_cases hdebug : signature = FileKind.debugSignature
    · rw [if_pos hdebug, if_pos hdebug]
      rfl
    rw [if_neg hdebug, if_neg hdebug]
    by_cases hdos : signature = DosHeader.signature
    · rw [if_neg (not_not.mpr hdos), if_pos hdos, fileDosHeader_eq h, FileKind.detectNewHeader]
      simp only [ok_bind]
      cases DosHeader.readFrom image 0 with
      | error error => rfl
      | ok header =>
        simp only [Except.toOption, Option.bind_eq_bind, Option.bind_some]
        cases header.newHeaderOffset with
        | none => rfl
        | some offset =>
          simp only [fileRecord?_eq h, ok_bind, Option.bind_some]
          cases image.record? .u32 offset with
          | none => rfl
          | some newSignature => rfl
    · rw [if_pos hdos, if_neg hdos]
      rfl

/-! ## The optional header -/

/-- A buffer of zeros into which the front of a string is copied. -/
def fill (size : Nat) (bs : Bytes) : Step Bytes := do
  let buffer : Bytes := List.replicate size 0
  let n := min bs.length size
  let target ← slice buffer 0 n
  let source ← slice bs 0 n
  if target.length ≠ source.length then throw .copy
  return source ++ buffer.drop n

/-- The signature of an optional header, zero when the header is too short for it. -/
def leadingMagic : Bytes → UInt16
  | low :: high :: _ => Layout.u16.read (Bytes.zeroExtended [low, high])
  | _ => 0

/-- The optional header held by a byte string that may be too short. -/
def optionalHeader (bs : Bytes) : Step OptionalHeader := do
  if leadingMagic bs = OptionalHeader.wideMagic then
    let buffer ← fill OptionalHeader.wideLayout.size bs
    return .wide (← fetch OptionalHeader.wideLayout buffer 0)
  else
    let buffer ← fill OptionalHeader.narrowLayout.size bs
    return .narrow (← fetch OptionalHeader.narrowLayout buffer 0)

/-- Bytes are copied into zeros without a fault, since only as many are copied as fit. -/
lemma fill_eq (size : Nat) (bs : Bytes) :
    fill size bs = .ok (bs.take size ++ List.replicate (size - bs.length) 0) := by
  have hbuffer : min bs.length size ≤ (List.replicate size (0 : UInt8)).length := by
    rw [List.length_replicate]
    omega
  rw [fill]
  simp only
  rw [slice_eq (Nat.zero_le _) hbuffer, slice_eq (Nat.zero_le _) (Nat.min_le_left _ _)]
  simp only [ok_bind, List.drop_zero, List.length_take, List.length_replicate]
  rw [if_neg (by omega)]
  simp only [pure_eq, List.drop_replicate]
  rcases Nat.le_total bs.length size with h | h
  · rw [Nat.min_eq_left h, List.take_length, List.take_of_length_le h]
  · rw [Nat.min_eq_right h, Nat.sub_self, Nat.sub_eq_zero_of_le h]

/-- A record read from a filled buffer is the one that zeros extend. -/
lemma fetch_fill_eq {α : Type} {l : Layout α} (hl : l.size < 2 ^ 64) (bs : Bytes) :
    fetch l (bs.take l.size ++ List.replicate (l.size - bs.length) 0) 0 =
      .ok (l.read bs.zeroExtended) := by
  have hlength : (bs.take l.size ++ List.replicate (l.size - bs.length) 0).length = l.size := by
    rw [List.length_append, List.length_take, List.length_replicate]
    omega
  rw [fetch_eq (by omega) (by omega), List.drop_zero]
  congr 1
  apply l.read_congr
  intro i hi
  by_cases hbs : i < bs.length
  · rw [Bytes.zeroExtended_of_lt _ _ (by omega), Bytes.zeroExtended_of_lt _ _ hbs,
      List.getElem_append_left (by rw [List.length_take]; omega), List.getElem_take]
  · rw [Bytes.zeroExtended_of_lt _ _ (by omega),
      Bytes.zeroExtended_of_length_le _ _ (Nat.not_lt.mp hbs),
      List.getElem_append_right (by rw [List.length_take]; omega), List.getElem_replicate]

/-- The signature of the wide layout does not fit into one byte. -/
lemma magic_ne_wideMagic_of_length_lt {bs : Bytes} (h : bs.length < 2) :
    Layout.u16.read bs.zeroExtended ≠ OptionalHeader.wideMagic := by
  have hhigh : bs.zeroExtended 1 = 0 := Bytes.zeroExtended_of_length_le _ _ (by omega)
  have hlow := (bs.zeroExtended 0).toNat_lt
  intro hmagic
  have hnat := congrArg UInt16.toNat hmagic
  have hread : (Layout.u16.read bs.zeroExtended).toNat =
      ((bs.zeroExtended 0).toNat + 256 * ((bs.zeroExtended 1).toNat + 256 * 0)) % 2 ^ 16 := by
    simp [Layout.u16, Layout.number, Bytes.littleEndian, List.range_succ]
  rw [hread, hhigh] at hnat
  simp only [OptionalHeader.wideMagic, UInt8.toNat_zero, UInt16.reduceToNat] at hnat
  omega

/-- The signature chooses the layout that it chooses for a string extended by zeros. -/
lemma leadingMagic_eq_wideMagic_iff (bs : Bytes) :
    leadingMagic bs = OptionalHeader.wideMagic ↔
      Layout.u16.read bs.zeroExtended = OptionalHeader.wideMagic := by
  have hzero : (0 : UInt16) ≠ OptionalHeader.wideMagic := by decide
  match bs with
  | [] => exact ⟨fun h => absurd h hzero,
      fun h => absurd h (magic_ne_wideMagic_of_length_lt (by simp))⟩
  | [b] => exact ⟨fun h => absurd h hzero,
      fun h => absurd h (magic_ne_wideMagic_of_length_lt (by simp))⟩
  | low :: high :: rest =>
    have hread : Layout.u16.read (Bytes.zeroExtended [low, high]) =
        Layout.u16.read (Bytes.zeroExtended (low :: high :: rest)) :=
      Layout.u16.read_take (low :: high :: rest) (n := 2) (Nat.le_refl 2)
    rw [leadingMagic, hread]

/-- The optional header is decoded without a fault, however many bytes there are. -/
lemma optionalHeader_eq (bs : Bytes) : optionalHeader bs = .ok (OptionalHeader.decode bs) := by
  have hwide : OptionalHeader.wideLayout.size < 2 ^ 64 := by decide
  have hnarrow : OptionalHeader.narrowLayout.size < 2 ^ 64 := by decide
  rw [optionalHeader, OptionalHeader.decode, OptionalHeader.read]
  simp only [fill_eq, ok_bind, fetch_fill_eq hwide, fetch_fill_eq hnarrow,
    leadingMagic_eq_wideMagic_iff]
  split <;> rfl

/-- The optional header at an offset of a file, of a declared size. -/
def fileOptionalHeader (image : Image) (offset : Nat) (declaredSize : UInt16) :
    Step OptionalHeader := do
  let wanted := min declaredSize.toNat OptionalHeader.wideLayout.size
  let length := min wanted (image.size - offset)
  optionalHeader ((readFile image offset length).getD [])

/-- The optional header of a file is decoded without a fault. -/
lemma fileOptionalHeader_eq (h : Fits image) (offset : Nat) (declaredSize : UInt16) :
    fileOptionalHeader image offset declaredSize =
      .ok (OptionalHeader.readFrom image offset declaredSize) := by
  have hread (n : Nat) : (image.read offset (min n (image.size - offset))).getD [] =
      image.clipped offset n := by
    have hsize := image.length_toList
    rw [Image.clipped_eq, Image.read]
    by_cases hoffset : offset ≤ image.size
    · rw [if_pos (by omega), Option.getD_some, Image.clipped_eq]
      conv_rhs => rw [List.take_eq_take_min, List.length_drop, hsize]
    · have hdrop : image.toList.drop offset = [] := List.drop_of_length_le (by omega)
      rw [if_neg (by omega), hdrop, List.take_nil]
      rfl
  rw [fileOptionalHeader, OptionalHeader.readFrom]
  simp only [readFile_eq h, hread, optionalHeader_eq]

/-! ## Images -/

/-- Section headers from a number on, as long as the file holds them. -/
def sectionHeaders (image : Image) (offset : Nat) :
    (remaining number : Nat) → Step (List SectionHeader)
  | 0, _ => return []
  | remaining + 1, number => do
    let distance ← mul 64 number SectionHeader.layout.size
    let place ← add 64 offset distance
    match ← fileRecord? image SectionHeader.layout place with
    | none => return []
    | some s => return s :: (← sectionHeaders image offset remaining (number + 1))

/-- The place of an entry never exceeds a word, since the entry before it is in the file. -/
lemma sectionHeaders_eq (h : Fits image) {offset remaining number : Nat}
    (hplace : offset + number * SectionHeader.layout.size < 2 ^ 64) :
    sectionHeaders image offset remaining number = .ok (SectionHeader.readTable image
      (offset + number * SectionHeader.layout.size) remaining) := by
  induction remaining generalizing number with
  | zero => rfl
  | succ remaining ih =>
    rw [sectionHeaders, mul_eq (by omega), SectionHeader.readTable]
    simp only [ok_bind]
    rw [add_eq hplace]
    simp only [ok_bind, fileRecord?_eq h]
    cases hrecord : image.record? SectionHeader.layout
        (offset + number * SectionHeader.layout.size) with
    | none => rfl
    | some s =>
      have hnext : offset + (number + 1) * SectionHeader.layout.size < 2 ^ 64 := by
        obtain ⟨bs, hread, -⟩ := Option.map_eq_some_iff.mp hrecord
        obtain ⟨hend, -⟩ := (image.read_eq_some_iff _ _ _).mp hread
        rw [Nat.succ_mul, ← Nat.add_assoc]
        exact Nat.lt_of_le_of_lt hend h
      simp only [ih hnext, Nat.succ_mul, Nat.add_assoc]
      rfl

/-- Checks that the new header at an offset starts with its signature. -/
def checkPeSignature (image : Image) (offset : Nat) : Step (Except DecodeError Unit) := do
  match ← fileRecord? image .u32 offset with
  | none => return .error (.outOfBounds offset image.size)
  | some signature =>
    if signature = Image.peSignature then return .ok ()
    return .error .peSignature

/-- The signature is checked without a fault. -/
lemma checkPeSignature_eq (h : Fits image) (offset : Nat) :
    checkPeSignature image offset = .ok (image.checkPeSignature offset) := by
  rw [checkPeSignature, fileRecord?_eq h, Image.checkPeSignature, Image.record]
  cases image.record? .u32 offset with
  | none => rfl
  | some signature =>
    simp only [bind, Except.bind]
    by_cases hsignature : signature = Image.peSignature
    · rw [if_pos hsignature, if_neg (not_not.mpr hsignature)]
      rfl
    · rw [if_neg hsignature, if_pos hsignature]
      rfl

/-- The image that a file holds. -/
def parseExecutable (image : Image) : Step (Except DecodeError Executable) := do
  match ← fileDosHeader image with
  | .error error => return .error error
  | .ok dosHeader =>
    match dosHeader.newHeaderOffset with
    | none => return .error .peSignature
    | some headerOffset =>
      match ← checkPeSignature image headerOffset with
      | .error error => return .error error
      | .ok () =>
        let coffOffset ← add 64 headerOffset Layout.u32.size
        match ← fileRecord? image CoffHeader.layout coffOffset with
        | none => return .error (.outOfBounds coffOffset image.size)
        | some coffHeader =>
          let optionalOffset ← add 64 coffOffset CoffHeader.layout.size
          let optionalHeader ←
            fileOptionalHeader image optionalOffset coffHeader.sizeOfOptionalHeader
          let tableOffset ← add 64 optionalOffset coffHeader.sizeOfOptionalHeader.toNat
          let sections ←
            sectionHeaders image tableOffset coffHeader.numberOfSections.toNat 0
          let _ ← isPlaceholder image
          return .ok { image, dosHeader, headerOffset, coffHeader, optionalHeader, sections }

/-- The pointer to the new header is a nonnegative number of 32 bits. -/
lemma newHeaderOffset_lt {header : DosHeader} {offset : Nat}
    (h : header.newHeaderOffset = some offset) : offset < 2 ^ 31 := by
  have hbound := header.newHeader.toInt_lt
  rw [DosHeader.newHeaderOffset] at h
  split at h
  · cases h
    omega
  · cases h

/-- An executable is decoded without a fault. -/
theorem parseExecutable_eq (h : Fits image) :
    parseExecutable image = .ok (Executable.parse image) := by
  rw [parseExecutable, Executable.parse, fileDosHeader_eq h]
  simp only [ok_bind]
  cases DosHeader.readFrom image 0 with
  | error error => rfl
  | ok dosHeader =>
    simp only [bind, Except.bind]
    cases hoffset : dosHeader.newHeaderOffset with
    | none => rfl
    | some headerOffset =>
      -- The offset is below half of 32 bits, so no sum of it and of sizes reaches a word.
      have hlt := newHeaderOffset_lt hoffset
      have hu32 : Layout.u32.size = 4 := rfl
      have hcoff : CoffHeader.layout.size = 20 := rfl
      simp only [checkPeSignature_eq h]
      cases image.checkPeSignature headerOffset with
      | error error => rfl
      | ok _ =>
        simp only
        rw [add_eq (by omega)]
        simp only [fileRecord?_eq h, Image.record]
        cases image.record? CoffHeader.layout (headerOffset + Layout.u32.size) with
        | none => rfl
        | some coffHeader =>
          have hsize := coffHeader.sizeOfOptionalHeader.toNat_lt
          simp only
          rw [add_eq (by omega)]
          simp only [fileOptionalHeader_eq h]
          rw [add_eq (by omega)]
          simp only
          rw [sectionHeaders_eq h (by omega), isPlaceholder_eq h, Nat.zero_mul]
          rfl

/-! ## Names of sections -/

/-- The name of a section in its header. -/
def shortName (s : SectionHeader) : Step String := do
  return Text.ofUtf8 (← cut s.name.toList)

/-- The name in a section header is cut and decoded without a fault. -/
lemma shortName_eq (s : SectionHeader) : shortName s = .ok s.shortName := by
  rw [shortName, cut_eq]
  rfl

/-- A number of 32 bits with one more decimal digit. It wraps. -/
def withDigit (n : UInt32) (digit : UInt8) : Step UInt32 := do
  return n * 10 + UInt32.ofNat (← sub digit.toNat 48)

/-- What follows a slash at the front of a name. -/
def afterSlash : Bytes → Option Bytes
  | [] => none
  | b :: rest => if b = 47 then some rest else none

/-- The place in the string table to which the name of a section refers. -/
def longNameOffset (s : SectionHeader) : Step (Option UInt32) := do
  match afterSlash (← cut s.name.toList) with
  | some rest => return some (← (rest.takeWhile SectionHeader.isDigit).foldlM withDigit 0)
  | none => return none

/-- The file offset of the string table, if there is a symbol table. -/
def stringTableOffset (h : CoffHeader) : Step (Option Nat) := do
  if h.pointerToSymbolTable = 0 ∨ h.numberOfSymbols = 0 then return none
  let length ← mul 64 h.numberOfSymbols.toNat 18
  return some (← add 64 h.pointerToSymbolTable.toNat length)

/-- The name of a section in the string table. -/
def longName (e : Executable) (s : SectionHeader) : Step (Option String) := do
  match ← stringTableOffset e.coffHeader, ← longNameOffset s with
  | some table, some offset =>
    match ← fileRecord? e.image .u32 table with
    | none => return none
    | some declared =>
      if offset < declared then
        return (← stringAt e.image (← add 64 table offset.toNat)).map Text.ofUtf8
      else
        return none
  | _, _ => return none

/-- The name of a section. -/
def sectionName (e : Executable) (s : SectionHeader) : Step SectionName := do
  let short ← shortName s
  match ← longName e s with
  | some name => return .long short name
  | none => return .short short

/-- Digits are taken off the code of zero without an underflow. -/
lemma foldlM_withDigit_eq {digits : Bytes} (h : ∀ d ∈ digits, SectionHeader.isDigit d)
    (n : UInt32) : digits.foldlM withDigit n =
      .ok (digits.foldl (fun n d => n * 10 + (d - 48).toUInt32) n) := by
  induction digits generalizing n with
  | nil => rfl
  | cons d digits ih =>
    have hdigit := h d List.mem_cons_self
    simp only [SectionHeader.isDigit, Bool.and_eq_true, decide_eq_true_eq] at hdigit
    have hle : 48 ≤ d.toNat := UInt8.le_iff_toNat_le.mp hdigit.1
    have hdifference : UInt32.ofNat (d.toNat - 48) = (d - 48).toUInt32 := by
      apply UInt32.toNat_inj.mp
      have hlt := d.toNat_lt
      rw [UInt32.toNat_ofNat_of_lt' (by simp only [UInt32.size]; omega), UInt8.toNat_toUInt32,
        UInt8.toNat_sub_of_le _ _ hdigit.1]
      rfl
    rw [List.foldlM_cons, withDigit, sub_eq hle, List.foldl_cons, ← hdifference]
    exact ih (fun d hd => h d (List.mem_cons_of_mem _ hd)) _

/-- A reference to the string table is a slash with digits behind it. -/
lemma longNameOffset_of_afterSlash (s : SectionHeader) :
    s.longNameOffset = (afterSlash s.rawName).map fun rest =>
      (rest.takeWhile SectionHeader.isDigit).foldl (fun n d => n * 10 + (d - 48).toUInt32) 0 := by
  rw [SectionHeader.longNameOffset]
  split
  · next rest hname =>
    rw [hname]
    rfl
  · next hname =>
    cases hraw : s.rawName with
    | nil => rfl
    | cons b rest =>
      have hb : b ≠ 47 := fun heq => hname rest (by rw [hraw, heq])
      rw [afterSlash, if_neg hb]
      rfl

/-- A reference to the string table is read without a fault. -/
lemma longNameOffset_eq (s : SectionHeader) : longNameOffset s = .ok s.longNameOffset := by
  rw [longNameOffset, cut_eq, longNameOffset_of_afterSlash, SectionHeader.rawName]
  simp only [ok_bind]
  cases afterSlash (Bytes.untilZero s.name.toList) with
  | none => rfl
  | some rest =>
    have hdigits : ∀ d ∈ rest.takeWhile SectionHeader.isDigit, SectionHeader.isDigit d :=
      fun d hd => List.mem_takeWhile_imp hd
    simp only [foldlM_withDigit_eq hdigits]
    rfl

/-- There are symbols unless their place or their number is zero. -/
lemma hasSymbols_iff {h : CoffHeader} :
    h.hasSymbols ↔ ¬ (h.pointerToSymbolTable = 0 ∨ h.numberOfSymbols = 0) := by
  simp [CoffHeader.hasSymbols]

/-- The string table lies behind the symbols without an overflow. -/
lemma stringTableOffset_eq (h : CoffHeader) :
    stringTableOffset h = .ok h.stringTableOffset := by
  have hpointer := h.pointerToSymbolTable.toNat_lt
  have hcount := h.numberOfSymbols.toNat_lt
  rw [stringTableOffset, CoffHeader.stringTableOffset]
  by_cases hnone : h.pointerToSymbolTable = 0 ∨ h.numberOfSymbols = 0
  · rw [if_pos hnone, if_neg fun hsymbols => hasSymbols_iff.mp hsymbols hnone]
    rfl
  · rw [if_neg hnone, if_pos (hasSymbols_iff.mpr hnone), mul_eq (by omega)]
    simp only [ok_bind]
    rw [add_eq (by omega)]
    rfl

/-- The offset of the string table is far below the limit of a word. -/
lemma stringTableOffset_lt {h : CoffHeader} {table : Nat}
    (htable : h.stringTableOffset = some table) : table < 2 ^ 37 := by
  have hpointer := h.pointerToSymbolTable.toNat_lt
  have hcount := h.numberOfSymbols.toNat_lt
  rw [CoffHeader.stringTableOffset] at htable
  split at htable
  · cases htable
    simp only [CoffHeader.symbolSize]
    omega
  · cases htable

/-- A long name is looked up without a fault. -/
lemma longName_eq {e : Executable} (h : Fits e.image) (s : SectionHeader) :
    longName e s = .ok (s.longName e.image e.stringTableOffset) := by
  rw [longName, stringTableOffset_eq, longNameOffset_eq, SectionHeader.longName,
    Executable.stringTableOffset]
  simp only [ok_bind]
  cases htable : e.coffHeader.stringTableOffset with
  | none => rfl
  | some table =>
    cases s.longNameOffset with
    | none => rfl
    | some offset =>
      have hlt := stringTableOffset_lt htable
      have hoffset := offset.toNat_lt
      simp only [fileRecord?_eq h, ok_bind, Option.bind_eq_bind, Option.bind_some]
      cases e.image.record? .u32 table with
      | none => rfl
      | some declared =>
        by_cases hinside : offset < declared
        · rw [Option.bind_some]
          simp only [if_pos hinside, guard, add_eq (show table + offset.toNat < 2 ^ 64 by omega),
            stringAt_eq h, ok_bind]
          rfl
        · rw [Option.bind_some]
          simp only [if_neg hinside, guard]
          rfl

/-- The name of a section is found without a fault. -/
lemma sectionName_eq {e : Executable} (h : Fits e.image) (s : SectionHeader) :
    sectionName e s = .ok (e.sectionName s) := by
  rw [sectionName, shortName_eq, longName_eq h, Executable.sectionName,
    SectionHeader.resolveName]
  simp only [ok_bind]
  cases s.longName e.image e.stringTableOffset <;> rfl

/-! ## Directories -/

/-- The address and size of a directory, if the header declares its slot. -/
def dataDirectory (e : Executable) (number : Nat) : Step (Option DataDirectory) := do
  if slotCount ≤ number then return none
  if e.optionalHeader.declaredSlots.toNat ≤ number then return none
  return some (← index e.optionalHeader.slots.toList number)

/-- The place of a directory is looked up without a fault, whatever its number. -/
lemma dataDirectory_eq (e : Executable) (number : Nat) :
    dataDirectory e number = .ok (e.dataDirectory number) := by
  rw [dataDirectory, Executable.dataDirectory, OptionalHeader.slot?]
  by_cases hcount : slotCount ≤ number
  · have hnone : e.optionalHeader.slots[number]? = none := by simpa using hcount
    rw [if_pos hcount, hnone, ite_self]
    rfl
  rw [if_neg hcount]
  by_cases hdeclared : e.optionalHeader.declaredSlots.toNat ≤ number
  · rw [if_pos hdeclared, if_neg (Nat.not_lt.mpr hdeclared)]
    rfl
  · have hlt : number < slotCount := Nat.lt_of_not_le hcount
    rw [if_neg hdeclared, if_pos (Nat.lt_of_not_le hdeclared), index_eq (by simpa using hlt)]
    simp [hlt]

/-- The address and size of a directory and its bytes. -/
def directory (e : Executable) (number : Nat) : Step (Option (DataDirectory × Bytes)) := do
  match ← dataDirectory e number with
  | none => return none
  | some range =>
    match ← memory e range.address.toNat range.size.toNat with
    | none => return none
    | some bytes => return some (range, bytes)

/-- A directory and its bytes are looked up without a fault. -/
lemma directory_eq {e : Executable} (h : Fits e.image) (slot : DirectorySlot) :
    directory e slot.index = .ok (e.directoryOf slot) := by
  rw [directory, dataDirectory_eq, Executable.directoryOf, Executable.directory]
  cases e.dataDirectory slot.index with
  | none => rfl
  | some range =>
    have haddress := range.address.toNat_lt
    have hsize := range.size.toNat_lt
    simp only [ok_bind, (memory_serves h).read_eq _ _ haddress (Nat.lt_trans hsize (by decide)),
      Option.bind_eq_bind, Option.bind_some]
    cases e.memory range.address.toNat range.size.toNat with
    | none => rfl
    | some bytes => rfl

/-- The bytes of a directory are as many as its size says. -/
lemma length_directoryOf_lt {e : Executable} {slot : DirectorySlot} {range : DataDirectory}
    {bytes : Bytes} (h : e.directoryOf slot = some (range, bytes)) : bytes.length < 2 ^ 32 := by
  simp only [Executable.directoryOf, Executable.directory, Option.bind_eq_bind,
    Option.bind_eq_some_iff] at h
  obtain ⟨found, _, bs, hbs, hpair⟩ := h
  cases hpair
  rw [e.memory_exact _ _ _ hbs]
  exact range.size.toNat_lt

end PeCoff.Machine
