import Mathlib
import PeCoff.Proofs.Detection
import PeCoff.Proofs.OptionalHeader

/-!
# Headers in a file

What a file holds as the bytes of a header is decoded as that header; the main statements are
`DosHeader.readFrom_of_holds`, `OptionalHeader.readFrom_of_holds` and `readTable_of_holds`. The
section table has as many entries as are declared and there, each at its own offset, as
`SectionHeader.readTable_eq` says.
-/

namespace PeCoff

namespace Image

variable {α : Type} {image : Image} {l : Layout α} {offset : Nat} {a : α}

/-- A record is decoded exactly where the file holds its bytes. -/
lemma record?_eq_some_iff_holds :
    image.record? l offset = some a ↔ image.Holds offset (l.write a) := by
  rw [record?, Option.map_eq_some_iff, Holds, Layout.length_write]
  constructor
  · rintro ⟨bs, hread, rfl⟩
    have hlength := length_read hread
    rwa [l.write_read_bytes bs hlength.ge, List.take_of_length_le hlength.le]
  · intro hread
    exact ⟨_, hread, l.read_write a⟩

end Image

/-! ## The DOS header -/

namespace DosHeader

/-- The bytes of a DOS header, with zeros in the place of the fields that are not kept. -/
def write (h : DosHeader) : Bytes :=
  Layout.u16.write signature ++ List.replicate 6 0 ++ Layout.u16.write h.paragraphs
    ++ List.replicate 14 0 ++ Layout.u16.write h.relocationTable ++ List.replicate 34 0
    ++ Layout.u32.write h.newHeader.toUInt32

/-- The first header is written in as many bytes as it has. -/
@[simp] lemma length_write (h : DosHeader) : h.write.length = size := by
  simp only [write, List.length_append, Layout.length_write, List.length_replicate]
  rfl

/-- A DOS header is decoded where the file holds its bytes. -/
lemma readFrom_of_holds {image : Image} {h : DosHeader} (hheld : image.Holds 0 h.write) :
    readFrom image 0 = .ok h := by
  have hend := hheld.end_le
  rw [length_write, Nat.zero_add] at hend
  simp only [write, Image.holds_append_iff, List.length_append, Layout.length_write,
    List.length_replicate, ← Image.record?_eq_some_iff_holds, Image.record?_eq_some_iff] at hheld
  obtain ⟨⟨⟨⟨⟨⟨⟨-, hsignature⟩, -⟩, -, hparagraphs⟩, -⟩, -, hrelocations⟩, -⟩, -, hplace⟩ := hheld
  refine readFrom_eq_ok_iff.mpr ⟨hend, hsignature, ?_⟩
  rw [mk.injEq]
  exact ⟨hparagraphs, hrelocations, congrArg UInt32.toInt32 hplace⟩

end DosHeader

/-! ## The optional header -/

/-- A header with the signature of its layout is decoded where the file holds its bytes. -/
lemma OptionalHeader.readFrom_of_holds {image : Image} {offset : Nat} {h : OptionalHeader}
    {declaredSize : UInt16} (hmagic : h.isWide ↔ h.magic = wideMagic)
    (hsize : h.write.length ≤ declaredSize.toNat) (hheld : image.Holds offset h.write) :
    readFrom image offset declaredSize = h := by
  obtain ⟨-, hbytes⟩ := Image.holds_iff.mp hheld
  have hfront : (image.toList.drop offset).take declaredSize.toNat =
      h.write ++ ((image.toList.drop offset).take declaredSize.toNat).drop h.write.length := by
    conv_lhs => rw [← List.take_append_drop h.write.length
      ((image.toList.drop offset).take declaredSize.toNat)]
    rw [List.take_take, Nat.min_eq_left hsize, ← hbytes]
  rw [readFrom_eq, ← Image.zeroExtended_clipped, Image.clipped_eq, hfront,
    read_write_append hmagic]

/-! ## The section table -/

namespace SectionHeader

variable {image : Image} {offset count : Nat}

/-- The section table has as many entries as are declared and there, one after the other. -/
lemma readTable_eq : readTable image offset count =
    (List.range (min count ((image.size - offset) / layout.size))).map fun k =>
      layout.readAt image.toList.zeroExtended (offset + layout.size * k) := by
  have hpos : 0 < layout.size := by decide
  induction count generalizing offset with
  | zero => rw [Nat.zero_min]; rfl
  | succ count ih =>
    rw [readTable]
    cases hrecord : image.record? layout offset with
    | none =>
      have hend := Image.record?_eq_none_iff.mp hrecord
      rw [Nat.div_eq_of_lt (by omega), Nat.min_zero]
      rfl
    | some s =>
      obtain ⟨hend, hread⟩ := Image.record?_eq_some_iff.mp hrecord
      have hcount : (image.size - offset) / layout.size =
          (image.size - (offset + layout.size)) / layout.size + 1 := by
        rw [Nat.div_eq_sub_div hpos (by omega), Nat.sub_sub]
      simp only
      rw [ih, hcount, Nat.succ_min_succ, List.range_succ_eq_map, List.map_cons, List.map_map,
        Nat.mul_zero, Nat.add_zero, hread]
      refine congrArg (s :: ·) (List.map_congr_left fun k _ => ?_)
      rw [Function.comp_apply, Nat.mul_succ, Nat.add_assoc, Nat.add_comm layout.size]

/-- Section headers that the file holds one after the other are decoded again. -/
lemma readTable_of_holds {headers : List SectionHeader}
    (hheld : image.Holds offset (headers.flatMap layout.write)) :
    readTable image offset headers.length = headers := by
  induction headers generalizing offset with
  | nil => rfl
  | cons s headers ih =>
    rw [List.flatMap_cons] at hheld
    obtain ⟨hfront, hrest⟩ := Image.holds_append_iff.mp hheld
    rw [Layout.length_write] at hrest
    rw [List.length_cons, readTable, Image.record?_eq_some_iff_holds.mpr hfront]
    simp only
    rw [ih hrest]

/-- A section table is read as far as the file goes. -/
lemma length_readTable : (readTable image offset count).length =
    min count ((image.size - offset) / layout.size) := by
  rw [readTable_eq, List.length_map, List.length_range]

/-- Each entry of the section table lies as many entries behind its start as come before it. -/
lemma record?_of_getElem?_readTable {k : Nat} {s : SectionHeader}
    (h : (readTable image offset count)[k]? = some s) :
    image.record? layout (offset + layout.size * k) = some s := by
  have hpos : 0 < layout.size := by decide
  rw [readTable_eq, List.getElem?_map, Option.map_eq_some_iff] at h
  obtain ⟨k', hk, hread⟩ := h
  obtain ⟨hlt, rfl⟩ := List.getElem?_eq_some_iff.mp hk
  rw [List.getElem_range] at hread
  rw [List.length_range] at hlt
  have hrows : layout.size * (k + 1) ≤ image.size - offset :=
    calc layout.size * (k + 1) ≤ layout.size * ((image.size - offset) / layout.size) :=
          Nat.mul_le_mul_left _ (by omega)
      _ ≤ image.size - offset := Nat.mul_div_le _ _
  rw [Nat.mul_succ] at hrows
  exact Image.record?_eq_some_iff.mpr ⟨by omega, hread⟩

end SectionHeader

end PeCoff
