import Mathlib
import PeCoff.Executable

/-!
# Decoded executables

An executable is decoded from a file when each of its headers is decoded at its own offset. The main
statement is `Executable.parse_eq_ok_iff`, which lists the headers with their offsets.
-/

namespace PeCoff

namespace Image

variable {image : Image} {offset : Nat}

/-- A record is decoded exactly when it can be read. -/
lemma record_eq_ok_iff {α : Type} {l : Layout α} {a : α} :
    image.record l offset = .ok a ↔ image.record? l offset = some a := by
  rw [record]
  cases image.record? l offset with
  | none =>
    constructor
    · intro h
      cases h
    · intro h
      cases h
  | some found => rw [Except.ok.injEq, Option.some_inj]

/-- The signature is accepted exactly when it is the one of a portable executable. -/
lemma checkPeSignature_eq_ok_iff {u : Unit} :
    image.checkPeSignature offset = .ok u ↔ image.record? .u32 offset = some peSignature := by
  rw [← record_eq_ok_iff, checkPeSignature]
  cases image.record .u32 offset with
  | error error =>
    constructor
    · intro h
      cases h
    · intro h
      cases h
  | ok signature =>
    simp only [bind, Except.bind, Except.ok.injEq]
    split
    next hne =>
      refine iff_of_false (fun h => ?_) hne
      cases h
    next heq => exact iff_of_true rfl (not_not.mp heq)

end Image

namespace Executable

/-- An executable has the headers that a file holds, each of them at its own offset. -/
structure DecodedFrom (image : Image) (e : Executable) : Prop where
  image_eq : e.image = image
  dosHeader : DosHeader.readFrom image 0 = .ok e.dosHeader
  headerOffset : e.dosHeader.newHeaderOffset = some e.headerOffset
  signature : image.record? .u32 e.headerOffset = some Image.peSignature
  coffHeader :
    image.record? CoffHeader.layout (e.headerOffset + Layout.u32.size) = some e.coffHeader
  optionalHeader : e.optionalHeader =
    .readFrom image (e.headerOffset + Layout.u32.size + CoffHeader.layout.size)
      e.coffHeader.sizeOfOptionalHeader
  sections : e.sections =
    SectionHeader.readTable image e.sectionTableOffset e.coffHeader.numberOfSections.toNat

variable {image : Image} {e : Executable}

/-- The headers of a file are decoded as those of an executable that has them. -/
lemma parse_eq_ok_iff : parse image = .ok e ↔ e.DecodedFrom image := by
  constructor
  · intro h
    -- Each step either fails, which `h` excludes, or gives the next field of the description.
    simp only [parse, bind, Except.bind] at h
    split at h
    · cases h
    next dosHeader hdos =>
    split at h
    case h_2 => cases h
    next headerOffset hoffset =>
    split at h
    · cases h
    next hsignature =>
    split at h
    · cases h
    next coffHeader hcoff =>
    cases h
    have hsignature := Image.checkPeSignature_eq_ok_iff.mp hsignature
    have hcoff := Image.record_eq_ok_iff.mp hcoff
    constructor <;> simp only [hdos, hoffset, hsignature, hcoff, sectionTableOffset]
  · rintro ⟨rfl, hdos, hoffset, hsignature, hcoff, hoptional, hsections⟩
    have hcheck := Image.checkPeSignature_eq_ok_iff (u := ()).mpr hsignature
    have hrecord := Image.record_eq_ok_iff.mpr hcoff
    simp only [parse, bind, Except.bind, hdos, hoffset, hcheck, hrecord, ← hoptional]
    rw [sectionTableOffset] at hsections
    rw [← hsections]
    rfl

end Executable

end PeCoff
