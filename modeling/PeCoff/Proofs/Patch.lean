import Mathlib
import PeCoff.Proofs.Flat

/-!
# Patched files

A file is patched by writing bytes over it in several places. The main statements are
`exists_patched`, by which patches that keep clear of each other can all be made, and
`Patched.read_eq`, by which ranges that keep clear of the patches read as before.
-/

namespace PeCoff

/-- Two ranges, each an offset and a length, keep clear of each other. -/
def Apart (offset₁ length₁ offset₂ length₂ : Nat) : Prop :=
  offset₁ + length₁ ≤ offset₂ ∨ offset₂ + length₂ ≤ offset₁

instance (offset₁ length₁ offset₂ length₂ : Nat) :
    Decidable (Apart offset₁ length₁ offset₂ length₂) :=
  inferInstanceAs (Decidable (_ ∨ _))

/-- Bytes to be written at an offset. -/
structure Patch where
  offset : Nat
  bytes : Bytes
  deriving DecidableEq, Repr

namespace Patch

/-- The patch writes the byte at an offset. -/
def Covers (p : Patch) (i : Nat) : Prop :=
  p.offset ≤ i ∧ i < p.offset + p.bytes.length

instance (p : Patch) (i : Nat) : Decidable (p.Covers i) :=
  inferInstanceAs (Decidable (_ ∧ _))

/-- A patch keeps clear of a range. -/
def ApartFrom (p : Patch) (offset length : Nat) : Prop :=
  Apart p.offset p.bytes.length offset length

instance (p : Patch) (offset length : Nat) : Decidable (p.ApartFrom offset length) :=
  inferInstanceAs (Decidable (Apart _ _ _ _))

/-- A patch that keeps clear of a range keeps clear of each piece of it. -/
lemma ApartFrom.piece {p : Patch} {offset length skip n : Nat} (h : p.ApartFrom offset length)
    (hle : skip + n ≤ length) : p.ApartFrom (offset + skip) n := by
  cases h with
  | inl hbefore => exact .inl (Nat.le_add_right_of_le hbefore)
  | inr hbehind => exact .inr (by omega)

end Patch

/-- The bytes of a file after a list of patches. -/
def patchAll (patches : List Patch) (bs : Bytes) : Bytes :=
  patches.foldl
    (fun bs p => bs.take p.offset ++ p.bytes ++ bs.drop (p.offset + p.bytes.length)) bs

/-- A file is another one with patches made to it. -/
structure Patched (patches : Patch → Prop) (image image' : Image) : Prop where
  size_eq : image'.size = image.size
  written : ∀ p, patches p → image'.Holds p.offset p.bytes
  kept : ∀ i, (∀ p, patches p → ¬ p.Covers i) → image'.toList[i]? = image.toList[i]?

namespace Patched

variable {patches : Patch → Prop} {image image' : Image} {offset length : Nat}

/-- A range that keeps clear of the patches reads as before. -/
lemma read_eq (h : Patched patches image image')
    (hapart : ∀ p, patches p → p.ApartFrom offset length) :
    image'.read offset length = image.read offset length := by
  have hbytes : (image'.toList.drop offset).take length =
      (image.toList.drop offset).take length := by
    apply List.ext_getElem?
    intro i
    rw [List.getElem?_take, List.getElem?_take, List.getElem?_drop, List.getElem?_drop]
    split
    next hi =>
      apply h.kept
      intro p hp hcovers
      obtain ⟨hstart, hstop⟩ := hcovers
      cases hapart p hp with
      | inl hbefore => omega
      | inr hbehind => omega
    next => rfl
  rw [Image.read, Image.read, h.size_eq, Image.clipped_eq, Image.clipped_eq, hbytes]

/-- What a file held clear of the patches is held as before. -/
lemma holds_of_apart {bs : Bytes} (h : Patched patches image image')
    (hapart : ∀ p, patches p → p.ApartFrom offset bs.length) (hholds : image.Holds offset bs) :
    image'.Holds offset bs :=
  (h.read_eq hapart).trans hholds

end Patched

section Existence

variable {patches : Patch → Prop} {image : Image}

open Classical in
/-- The byte at an offset after patches that keep clear of each other. -/
noncomputable def patchedByte (patches : Patch → Prop) (image : Image) (i : Nat) : UInt8 :=
  if h : ∃ p, patches p ∧ p.Covers i then h.choose.bytes.getD (i - h.choose.offset) 0
  else image.toList.getD i 0

/-- The file after patches that keep clear of each other. -/
noncomputable def patched (patches : Patch → Prop) (image : Image) : Image :=
  .ofList ((List.range image.size).map (patchedByte patches image))

/-- Patches that lie in a file, and of which each two keep clear of each other, can all be made. -/
theorem exists_patched (hfit : ∀ p, patches p → p.offset + p.bytes.length ≤ image.size)
    (hapart : ∀ p q, patches p → patches q → p = q ∨ p.ApartFrom q.offset q.bytes.length) :
    ∃ image', Patched patches image image' := by
  have hlist : (patched patches image).toList =
      (List.range image.size).map (patchedByte patches image) := rfl
  have hsize : (patched patches image).size = image.size := by
    rw [← Image.length_toList, hlist, List.length_map, List.length_range]
  refine ⟨patched patches image, hsize, ?_, ?_⟩
  · intro p hp
    have hle := hfit p hp
    refine Image.holds_iff.mpr ⟨by rw [hsize]; exact hle, ?_⟩
    rw [hlist]
    apply List.ext_getElem
    · simp only [List.length_take, List.length_drop, List.length_map, List.length_range]
      omega
    · intro i hi _
      have hcovered : ∃ q, patches q ∧ q.Covers (p.offset + i) :=
        ⟨p, hp, Nat.le_add_right _ _, Nat.add_lt_add_left hi _⟩
      -- The patch that covers a byte of this one is this one.
      have hsame : hcovered.choose = p := by
        obtain ⟨hq, hstart, hstop⟩ := hcovered.choose_spec
        refine (hapart _ _ hq hp).resolve_right fun hclear => ?_
        cases hclear with
        | inl hbefore => omega
        | inr hbehind => omega
      rw [List.getElem_take, List.getElem_drop, List.getElem_map, List.getElem_range, patchedByte,
        dif_pos hcovered, hsame, Nat.add_sub_cancel_left, List.getD_eq_getElem _ _ hi]
  · intro i hclear
    rw [hlist, List.getElem?_map]
    have huncovered : ¬ ∃ p, patches p ∧ p.Covers i := fun ⟨p, hp, hcovers⟩ => hclear p hp hcovers
    by_cases hi : i < image.size
    · have hget : image.toList[i]? = some (image.toList.getD i 0) := by
        rw [List.getD_eq_getElem _ _ (by rwa [Image.length_toList]), List.getElem?_eq_getElem]
      rw [List.getElem?_range hi, Option.map_some, patchedByte, dif_neg huncovered, hget]
    · rw [List.getElem?_eq_none (by simpa using hi),
        List.getElem?_eq_none (by rw [Image.length_toList]; omega)]
      rfl

end Existence

end PeCoff
