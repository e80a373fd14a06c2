import Mathlib
import PeCoff.DebugFile
import PeCoff.Executable
import PeCoff.FileKind
import PeCoff.Proofs.Layout
import PeCoff.Proofs.Parsing

/-!
# Detection and decoding

The kind of a file is told by signatures, and so is whether its headers are decoded. The main
statement is `parse_iff_detect`: the headers of an image are decoded exactly for files of that kind
that hold a whole COFF header, those of a split debug file exactly for files of its kind that hold a
whole header, and a file of an older kind is refused for its signature.
-/

namespace PeCoff

namespace Image

variable {image : Image} {α : Type} {l : Layout α} {offset : Nat} {a : α}

/-- The signed number that a DOS header has as the place of the new header. -/
def newHeaderPointer (image : Image) : Int :=
  (DosHeader.newHeaderField image.toList.zeroExtended).toInt

/-- A range cannot be read exactly when it ends behind the file. -/
lemma read_eq_none_iff {n : Nat} : image.read offset n = none ↔ image.size < offset + n := by
  rw [read, ite_eq_right_iff]
  simp

/-- A record is read exactly where the file has all of its bytes. -/
lemma record?_eq_some_iff : image.record? l offset = some a ↔
    offset + l.size ≤ image.size ∧ l.readAt image.toList.zeroExtended offset = a := by
  rw [record?, Option.map_eq_some_iff, Layout.readAt, ← Machine.zeroExtended_drop]
  simp only [read_eq_some_iff]
  constructor
  · rintro ⟨bs, ⟨hle, rfl⟩, rfl⟩
    exact ⟨hle, (l.read_take _ (Nat.le_refl _)).symm⟩
  · rintro ⟨hle, rfl⟩
    exact ⟨_, ⟨hle, rfl⟩, l.read_take _ (Nat.le_refl _)⟩

/-- A record cannot be read exactly when it ends behind the file. -/
lemma record?_eq_none_iff : image.record? l offset = none ↔ image.size < offset + l.size := by
  rw [record?, Option.map_eq_none_iff, read_eq_none_iff]

end Image

variable {image : Image} {header : DosHeader} {offset : Nat} {signature : UInt32}
  {kind : FileKind} {e : Executable}

/-! ## Signatures -/

namespace DosHeader

/-- A DOS header is decoded where the file holds all of it and it has its signature. -/
lemma readFrom_eq_ok_iff : readFrom image 0 = .ok header ↔
    size ≤ image.size ∧ half image.toList.zeroExtended 0 = DosHeader.signature ∧
      ⟨half image.toList.zeroExtended 8, half image.toList.zeroExtended 24,
        newHeaderField image.toList.zeroExtended⟩ = header := by
  rw [readFrom, Image.readExact]
  cases hread : image.read 0 size with
  | none =>
    have hend := Image.read_eq_none_iff.mp hread
    exact iff_of_false nofun fun h => by omega
  | some bs =>
    obtain ⟨hle, rfl⟩ := (image.read_eq_some_iff 0 size bs).mp hread
    rw [Nat.zero_add] at hle
    rw [List.drop_zero]
    have half_eq (i : Nat) (hi : i + Layout.u16.size ≤ size) :
        half (Bytes.zeroExtended (image.toList.take size)) i = half image.toList.zeroExtended i :=
      Layout.readAt_take hi
    have hfield : newHeaderField (Bytes.zeroExtended (image.toList.take size)) =
        newHeaderField image.toList.zeroExtended :=
      congrArg UInt32.toInt32 (Layout.readAt_take (by decide))
    have hlength : (image.toList.take size).length = size :=
      List.length_take_of_le (by rwa [Image.length_toList])
    simp only [bind, Except.bind, decode]
    rw [if_neg (by omega), half_eq 0 (by decide), half_eq 8 (by decide), half_eq 24 (by decide),
      hfield]
    by_cases hsignature : half image.toList.zeroExtended 0 = DosHeader.signature
    · simp [hsignature, hle]
    · simp [hsignature]

end DosHeader

/-- The DOS header of a file leads to a signature at an offset. -/
structure LeadsTo (image : Image) (offset : Nat) (signature : UInt32) : Prop where
  header : ∃ header, DosHeader.readFrom image 0 = .ok header ∧
    header.newHeaderOffset = some offset
  signature : image.record? .u32 offset = some signature

/-- A new header lies where the pointer says. -/
lemma LeadsTo.pointer_eq (h : LeadsTo image offset signature) :
    image.newHeaderPointer = offset := by
  obtain ⟨header, hheader, hoffset⟩ := h.header
  obtain ⟨-, -, rfl⟩ := DosHeader.readFrom_eq_ok_iff.mp hheader
  obtain ⟨hpos, hoffset⟩ := Option.ite_none_right_eq_some.mp hoffset
  rw [← Option.some.inj hoffset, Int.toNat_of_nonneg hpos]
  rfl

namespace FileKind

/-- No new header makes a file a debug file. -/
lemma ofNewHeader_ne_debug : ofNewHeader signature ≠ debug := by
  unfold ofNewHeader
  split_ifs <;> exact nofun

/-- Of all signatures only one is that of a portable executable. -/
lemma ofNewHeader_eq_pe_iff : ofNewHeader signature = pe ↔ signature = Image.peSignature := by
  unfold ofNewHeader
  split_ifs with h <;> simp [h]

/-- A file with a new header is of the kind that its signature says. -/
lemma detectNewHeader_eq_some_iff : detectNewHeader image = some kind ↔
    ∃ offset signature, LeadsTo image offset signature ∧ ofNewHeader signature = kind := by
  simp only [detectNewHeader, Option.bind_eq_bind, Option.bind_eq_some_iff]
  constructor
  · rintro ⟨header, hheader, offset, hoffset, signature, hsignature, hkind⟩
    refine ⟨offset, signature, ⟨⟨header, ?_, hoffset⟩, hsignature⟩, Option.some.inj hkind⟩
    cases hread : DosHeader.readFrom image 0 with
    | error error =>
      rw [hread] at hheader
      cases hheader
    | ok found =>
      rw [hread] at hheader
      cases hheader
      rfl
  · rintro ⟨offset, signature, ⟨⟨header, hheader, hoffset⟩, hsignature⟩, rfl⟩
    exact ⟨header, by rw [hheader]; rfl, offset, hoffset, signature, hsignature, rfl⟩

/-- A file is a debug file exactly by its first two bytes. -/
lemma detect_eq_debug_iff :
    detect image = debug ↔ image.record? .u16 0 = some debugSignature := by
  have hdos : DosHeader.signature ≠ debugSignature := by decide
  rw [detect]
  cases image.record? .u16 0 with
  | none => simp
  | some signature =>
    simp only
    split_ifs with hdebug hmz
    · simp [hdebug]
    · rw [hmz, Option.some_inj]
      refine iff_of_false ?_ hdos
      cases hnew : detectNewHeader image with
      | none => exact nofun
      | some kind =>
        obtain ⟨_, _, -, rfl⟩ := detectNewHeader_eq_some_iff.mp hnew
        exact ofNewHeader_ne_debug
    · simp [hdebug]

/-- A file is of one of the kinds that have a DOS header when that header leads to the signature of
the kind. -/
lemma detect_eq_iff (hdebug : kind ≠ debug) (hunknown : kind ≠ unknown) :
    detect image = kind ↔
      ∃ offset signature, LeadsTo image offset signature ∧ ofNewHeader signature = kind := by
  have hdos : DosHeader.signature ≠ debugSignature := by decide
  rw [← detectNewHeader_eq_some_iff]
  -- All answers but those of the new header are excluded by the hypotheses.
  constructor
  · intro h
    rw [detect] at h
    cases hrecord : image.record? .u16 0 with
    | none =>
      rw [hrecord] at h
      exact absurd h.symm hunknown
    | some signature =>
      simp only [hrecord] at h
      split_ifs at h with hsignature hmz
      · exact absurd h.symm hdebug
      · cases hnew : detectNewHeader image with
        | none =>
          rw [hnew] at h
          exact absurd h.symm hunknown
        | some found =>
          rw [hnew] at h
          exact congrArg some h
      · exact absurd h.symm hunknown
  · intro h
    obtain ⟨offset, signature, ⟨⟨header, hheader, -⟩, -⟩, -⟩ := detectNewHeader_eq_some_iff.mp h
    obtain ⟨hsize, hmz, -⟩ := DosHeader.readFrom_eq_ok_iff.mp hheader
    have hrecord : image.record? .u16 0 = some DosHeader.signature :=
      Image.record?_eq_some_iff.mpr ⟨Nat.le_trans (by decide) hsize, hmz⟩
    rw [detect, hrecord]
    simp only [if_neg hdos, h]
    rfl

/-- A file is a portable executable exactly when its old header leads to the signature. -/
lemma detect_eq_pe_iff :
    detect image = pe ↔ ∃ offset, LeadsTo image offset Image.peSignature := by
  rw [detect_eq_iff (by decide) (by decide)]
  simp only [ofNewHeader_eq_pe_iff]
  constructor
  · rintro ⟨offset, _, h, rfl⟩
    exact ⟨offset, h⟩
  · rintro ⟨offset, h⟩
    exact ⟨offset, _, h, rfl⟩

end FileKind

/-! ## Images -/

namespace Executable

/-- What is decoded as an executable has the signature at the place of its headers. -/
lemma leadsTo_of_parse (h : parse image = .ok e) :
    LeadsTo image e.headerOffset Image.peSignature := by
  have hdecoded := parse_eq_ok_iff.mp h
  exact ⟨⟨e.dosHeader, hdecoded.dosHeader, hdecoded.headerOffset⟩, hdecoded.signature⟩

/-- Another signature than that of an image is refused. -/
lemma parse_of_ne (h : LeadsTo image offset signature) (hne : signature ≠ Image.peSignature) :
    parse image = .error .peSignature := by
  obtain ⟨⟨header, hheader, hoffset⟩, hsignature⟩ := h
  simp only [parse, hheader, bind, Except.bind, hoffset, Image.checkPeSignature, Image.record,
    hsignature, if_pos hne]
  rfl

/-- Behind the signature of an image nothing but a COFF header is needed. -/
lemma parse_of_leadsTo (h : LeadsTo image offset Image.peSignature) :
    (offset + 24 ≤ image.size → ∃ e, parse image = .ok e) ∧
    (image.size < offset + 24 →
      parse image = .error (.outOfBounds (offset + 4) image.size)) := by
  obtain ⟨⟨header, hheader, hoffset⟩, hsignature⟩ := h
  have hsize : Layout.u32.size = 4 := rfl
  have hcoff : CoffHeader.layout.size = 20 := rfl
  have hcheck := Image.checkPeSignature_eq_ok_iff (u := ()).mpr hsignature
  simp only [parse, hheader, bind, Except.bind, hoffset, hcheck, Image.record, hsize]
  cases hrecord : image.record? CoffHeader.layout (offset + 4) with
  | none =>
    have hend := Image.record?_eq_none_iff.mp hrecord
    exact ⟨fun hle => by omega, fun _ => rfl⟩
  | some coffHeader =>
    obtain ⟨hend, -⟩ := Image.record?_eq_some_iff.mp hrecord
    exact ⟨fun _ => ⟨_, rfl⟩, fun hlt => by omega⟩

/-- An image of the kind of images is refused only for the end of the file. -/
lemma parse_eq_error_iff (h : LeadsTo image offset Image.peSignature) {error : DecodeError} :
    parse image = .error error ↔
      image.size < offset + 24 ∧ error = .outOfBounds (offset + 4) image.size := by
  obtain ⟨hok, herror⟩ := parse_of_leadsTo h
  rcases Nat.lt_or_ge image.size (offset + 24) with hlt | hle
  · rw [herror hlt, Except.error.injEq, eq_comm]
    exact (and_iff_right hlt).symm
  · obtain ⟨e, he⟩ := hok hle
    rw [he]
    exact iff_of_false nofun fun hend => by omega

/-- A portable executable is decoded exactly when its file header is complete. -/
lemma exists_parse_eq_ok_iff : (∃ e, parse image = .ok e) ↔
    FileKind.detect image = .pe ∧ image.newHeaderPointer + 24 ≤ image.size := by
  rw [FileKind.detect_eq_pe_iff]
  constructor
  · rintro ⟨e, he⟩
    have hleads := leadsTo_of_parse he
    refine ⟨⟨_, hleads⟩, ?_⟩
    by_contra hlt
    rw [hleads.pointer_eq] at hlt
    obtain ⟨-, herror⟩ := parse_of_leadsTo hleads
    rw [herror (by omega)] at he
    cases he
  · rintro ⟨⟨offset, hleads⟩, hle⟩
    rw [hleads.pointer_eq] at hle
    exact (parse_of_leadsTo hleads).1 (by omega)

/-- A file of one of the older kinds is refused for its signature. -/
lemma parse_of_older (h : FileKind.detect image ∈ [.ne, .le, .dos]) :
    parse image = .error .peSignature := by
  obtain ⟨hdebug, hunknown, hpe⟩ : FileKind.detect image ≠ .debug ∧
      FileKind.detect image ≠ .unknown ∧ FileKind.detect image ≠ .pe := by
    revert h
    cases FileKind.detect image <;> decide
  obtain ⟨offset, signature, hleads, hsignature⟩ :=
    (FileKind.detect_eq_iff hdebug hunknown).mp rfl
  exact parse_of_ne hleads fun hpeSignature =>
    hpe (hsignature ▸ FileKind.ofNewHeader_eq_pe_iff.mpr hpeSignature)

end Executable

/-! ## Split debug files -/

/-- The header of a split debug file is decoded where the file holds all of it and its signature. -/
lemma DebugFile.parse_eq_ok_iff : (∃ d, parse image = .ok d) ↔
    FileKind.detect image = .debug ∧ DebugHeader.size ≤ image.size := by
  have hu16 : Layout.u16.size ≤ DebugHeader.size := by decide
  rw [FileKind.detect_eq_debug_iff, Image.record?_eq_some_iff]
  simp only [parse, bind, Except.bind, Image.readExact, Nat.zero_add]
  cases hread : image.read 0 DebugHeader.size with
  | none =>
    have hend := Image.read_eq_none_iff.mp hread
    refine iff_of_false ?_ fun h => by omega
    rintro ⟨d, hd⟩
    cases hd
  | some bs =>
    obtain ⟨hle, rfl⟩ := (image.read_eq_some_iff 0 DebugHeader.size bs).mp hread
    rw [Nat.zero_add] at hle
    have hlength : ((image.toList.drop 0).take DebugHeader.size).length = DebugHeader.size :=
      List.length_take_of_le (by rwa [List.drop_zero, Image.length_toList])
    simp only [DebugHeader.decode]
    rw [if_neg (by omega), List.drop_zero, Layout.u16.read_take _ hu16]
    by_cases h : Layout.u16.read image.toList.zeroExtended = FileKind.debugSignature
    · rw [if_neg (not_not.mpr h)]
      exact iff_of_true ⟨_, rfl⟩ ⟨⟨Nat.le_trans hu16 hle, h⟩, hle⟩
    · rw [if_pos h]
      refine iff_of_false ?_ fun hboth => h hboth.1.2
      rintro ⟨d, hd⟩
      cases hd

/-- The headers of an image are decoded exactly when the file is of the kind of images and holds the
signature and the COFF header to which its DOS header leads. Any other file of this kind is refused
because it ends before the COFF header does, and a file of an older kind is refused for its
signature. The header of a split debug file is decoded exactly when the file is of that kind and
holds all of the header. No file holds both. -/
theorem parse_iff_detect (image : Image) :
    ((∃ e, Executable.parse image = .ok e) ↔
      FileKind.detect image = .pe ∧ image.newHeaderPointer + 24 ≤ image.size) ∧
    (FileKind.detect image = .pe → ∃ offset : Nat, image.newHeaderPointer = offset ∧
      ∀ error, Executable.parse image = .error error ↔
        image.size < offset + 24 ∧ error = .outOfBounds (offset + 4) image.size) ∧
    (FileKind.detect image ∈ [.ne, .le, .dos] →
      Executable.parse image = .error .peSignature) ∧
    ((∃ d, DebugFile.parse image = .ok d) ↔
      FileKind.detect image = .debug ∧ 48 ≤ image.size) ∧
    ¬ ((∃ e, Executable.parse image = .ok e) ∧ ∃ d, DebugFile.parse image = .ok d) := by
  refine ⟨Executable.exists_parse_eq_ok_iff, fun hkind => ?_, Executable.parse_of_older,
    DebugFile.parse_eq_ok_iff, ?_⟩
  · obtain ⟨offset, hleads⟩ := FileKind.detect_eq_pe_iff.mp hkind
    exact ⟨offset, hleads.pointer_eq, fun error => Executable.parse_eq_error_iff hleads⟩
  · rintro ⟨he, hd⟩
    have hpe := (Executable.exists_parse_eq_ok_iff.mp he).1
    rw [(DebugFile.parse_eq_ok_iff.mp hd).1] at hpe
    cases hpe

/-- A DOS header, with the new header right behind it, of which only the signature is there. -/
def stubImage (signature : Bytes) : Image :=
  .ofList <| Layout.u16.write DosHeader.signature ++ List.replicate 58 0 ++ Layout.u32.write 64
    ++ signature

/-- A file that ends with the signature of an image is refused for its end, and one with an older
signature for that. -/
theorem parse_iff_detect_stubs :
    FileKind.detect (stubImage [80, 69, 0, 0]) = .pe ∧
    Executable.parse (stubImage [80, 69, 0, 0]) = .error (.outOfBounds 68 68) ∧
    FileKind.detect (stubImage [78, 69, 5, 1]) = .ne ∧
    Executable.parse (stubImage [78, 69, 5, 1]) = .error .peSignature := by
  have hpe : FileKind.detect (stubImage [80, 69, 0, 0]) = .pe := by decide +kernel
  have hne : FileKind.detect (stubImage [78, 69, 5, 1]) = .ne := by decide +kernel
  have hpointer : (stubImage [80, 69, 0, 0]).newHeaderPointer = 64 := by decide +kernel
  have hsize : (stubImage [80, 69, 0, 0]).size = 68 := by decide +kernel
  obtain ⟨-, hcut, -⟩ := parse_iff_detect (stubImage [80, 69, 0, 0])
  obtain ⟨-, -, holder, -⟩ := parse_iff_detect (stubImage [78, 69, 5, 1])
  obtain ⟨offset, hoffset, herror⟩ := hcut hpe
  have herror := herror (.outOfBounds 68 68)
  rw [hsize, show offset = 64 by omega] at herror
  exact ⟨hpe, herror.mpr ⟨by decide, rfl⟩, hne, holder (by rw [hne]; decide)⟩

end PeCoff
