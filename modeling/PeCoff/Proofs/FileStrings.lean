import Mathlib
import PeCoff.Proofs.Flat

/-!
# Strings of a file

A string of a file is read by its offset or, in flat memory, by its address. By its offset it is cut
out of a piece of the file at the first zero byte; by its address its length is found byte by byte,
and its bytes are read afterwards. The main statement is `flat_string_eq_stringAt`: both ways lead
to the same string, in a file of which each byte has an address.
-/

namespace PeCoff

namespace Bytes

variable {bs s : Bytes}

/-- The front of a byte string is cut off before a zero byte, or it is the whole string. -/
lemma untilZero_eq_iff : bs.untilZero = s ↔ 0 ∉ s ∧ (bs = s ∨ s ++ [0] <+: bs) := by
  constructor
  · rintro rfl
    have hzero : 0 ∉ bs.untilZero := fun h => by simpa using List.mem_takeWhile_imp h
    refine ⟨hzero, ?_⟩
    have hsplit : bs.untilZero ++ bs.dropWhile (· != 0) = bs := List.takeWhile_append_dropWhile
    cases hrest : bs.dropWhile (· != 0) with
    | nil =>
      rw [hrest, List.append_nil] at hsplit
      exact .inl hsplit.symm
    | cons b rest =>
      have hb := List.head_dropWhile_not (p := (· != 0)) (l := bs) (by simp [hrest])
      simp only [hrest, List.head_cons, bne_eq_false_iff_eq] at hb
      rw [hrest, hb] at hsplit
      exact .inr ⟨rest, by rw [List.append_assoc, List.singleton_append, hsplit]⟩
  · rintro ⟨hzero, hcut⟩
    have hall : ∀ b ∈ s, (b != 0) = true := fun b hb => bne_iff_ne.mpr fun h => hzero (h ▸ hb)
    rcases hcut with rfl | ⟨rest, rfl⟩
    · exact List.takeWhile_eq_self_iff.mpr hall
    · rw [untilZero, List.append_assoc, List.takeWhile_append_of_pos hall, List.singleton_append,
        List.takeWhile_cons_of_neg (by decide), List.append_nil]

/-- What follows a terminated string does not matter. -/
lemma untilZero_append (h : 0 ∈ bs) (rest : Bytes) : untilZero (bs ++ rest) = untilZero bs := by
  obtain ⟨hzero, hcut⟩ := untilZero_eq_iff.mp (Eq.refl bs.untilZero)
  have hcut := hcut.resolve_left fun heq => hzero (heq ▸ h)
  exact untilZero_eq_iff.mpr ⟨hzero, .inr (hcut.trans (List.prefix_append _ _))⟩

/-- A string that is cut off behind a zero byte has the same front. -/
lemma untilZero_take {k n : Nat} (hk : bs[k]? = some 0) (hkn : k < n) :
    untilZero (bs.take n) = untilZero bs := by
  have hmem : 0 ∈ bs.take n := List.mem_of_getElem? (by rw [List.getElem?_take_of_lt hkn, hk])
  rw [← untilZero_append hmem (bs.drop n), List.take_append_drop]

end Bytes

namespace Image

variable {image : Image} {offset : Nat} {s : Bytes}

/-- A file holds the fronts of what it has from an offset on. -/
lemma holds_iff_isPrefix (hoffset : offset ≤ image.size) :
    image.Holds offset s ↔ s <+: image.toList.drop offset := by
  have hsize := image.length_toList
  rw [holds_iff, List.prefix_iff_eq_take]
  refine and_iff_right_of_imp fun hs => ?_
  have hlength := congrArg List.length hs
  rw [List.length_take, List.length_drop] at hlength
  omega

/-- What is found as the string at an offset is a string of the file. -/
lemma isStringAt_of_stringAt (h : image.stringAt offset = some s) :
    image.IsStringAt offset s := by
  rw [stringAt] at h
  split at h
  case isFalse => cases h
  case isTrue hstart =>
    rw [clipped_eq, Option.some.injEq, Bytes.untilZero_eq_iff] at h
    obtain ⟨hzero, hcut⟩ := h
    have hholds (xs : Bytes) : image.Holds offset xs ↔ xs <+: image.toList.drop offset :=
      holds_iff_isPrefix hstart.le
    rcases hcut with hall | hfront
    -- Without a zero byte the piece is as long as a string can be, or it ends with the file.
    · have hsize := image.length_toList
      have hlength := congrArg List.length hall
      rw [List.length_take, List.length_drop] at hlength
      exact ⟨hstart, (hholds s).mpr (hall ▸ List.take_prefix _ _), hzero, by omega, by omega⟩
    · obtain ⟨hfront, hle⟩ := List.prefix_take_iff.mp hfront
      rw [List.length_append] at hle
      exact isStringAt_of_terminated ((hholds _).mpr hfront) hzero (by omega)

/-- A string of the file is found at its offset. -/
lemma IsStringAt.stringAt_eq (h : image.IsStringAt offset s) :
    image.stringAt offset = some s := by
  have hholds (xs : Bytes) : image.Holds offset xs ↔ xs <+: image.toList.drop offset :=
    holds_iff_isPrefix h.start_lt.le
  have hfront := (hholds s).mp h.holds
  rw [stringAt, if_pos h.start_lt, clipped_eq, Option.some.injEq, Bytes.untilZero_eq_iff]
  refine ⟨h.zero_notMem, ?_⟩
  rcases h.length_le.eq_or_lt with hfull | hlt
  · rw [← hfull]
    exact .inl (List.prefix_iff_eq_take.mp hfront).symm
  rcases h.ends.resolve_left hlt.ne with hend | hzero
  · have hall : s = image.toList.drop offset :=
      hfront.eq_of_length (by rw [List.length_drop, length_toList]; omega)
    exact .inl (by rw [← hall, List.take_of_length_le h.length_le])
  · have hterminated := (hholds _).mp (holds_append_iff.mpr ⟨h.holds, hzero⟩)
    exact .inr (List.prefix_take_iff.mpr ⟨hterminated, by simpa using hlt⟩)

/-- A string is read exactly where there is one. -/
lemma stringAt_eq_some_iff : image.stringAt offset = some s ↔ image.IsStringAt offset s :=
  ⟨isStringAt_of_stringAt, IsStringAt.stringAt_eq⟩

/-- No string is read exactly from the end of the file on. -/
lemma stringAt_eq_none_iff : image.stringAt offset = none ↔ image.size ≤ offset := by
  rw [stringAt, ite_eq_right_iff, ← Nat.not_lt]
  exact imp_congr_right fun _ => by simp

end Image

namespace Memory

/-- In flat memory the string at an address is the string of the file at that offset, if each byte
of the file has an address. There is none at the end of the file and behind it, and what there is
before the end goes on to the first zero byte, the end of the file or the greatest length. -/
theorem flat_string_eq_stringAt (image : Image) (hsize : image.size ≤ addressLimit) (p : UInt32) :
    (flat image true).string p.toNat = image.stringAt p.toNat ∧
      (image.stringAt p.toNat = none ↔ image.size ≤ p.toNat) ∧
      ∀ s, image.stringAt p.toNat = some s ↔ image.IsStringAt p.toNat s := by
  refine ⟨?_, Image.stringAt_eq_none_iff, fun s => Image.stringAt_eq_some_iff⟩
  cases hstring : image.stringAt p.toNat with
  | none =>
    have hend := Image.stringAt_eq_none_iff.mp hstring
    rw [← Option.not_isSome_iff_eq_none, isSome_flat_string]
    exact fun h => absurd h.2 (Nat.not_le_of_lt (Nat.lt_succ_of_le hend))
  | some s =>
    have hs := Image.stringAt_eq_some_iff.mp hstring
    exact flat_string_eq_some (.inr rfl) hs (hs.holds.end_le.trans hsize)

/-- A file without a zero byte that is one byte longer than a string can be. -/
def unterminatedFile : Image :=
  .ofList (List.replicate Image.maxString 65 ++ [66])

/-- The sample is one byte longer than a string may be. -/
lemma size_unterminatedFile : unterminatedFile.size = Image.maxString + 1 := by
  rw [unterminatedFile, Image.size_ofList, List.length_append, List.length_replicate,
    List.length_singleton]

/-- The string of the sample is cut off at the limit. -/
lemma isStringAt_unterminatedFile :
    unterminatedFile.IsStringAt 0 (List.replicate Image.maxString 65) where
  start_lt := by rw [size_unterminatedFile]; exact Nat.succ_pos _
  holds := Image.holds_ofList [] _ [66]
  zero_notMem h := by cases List.eq_of_mem_replicate h
  length_le := List.length_replicate.le
  ends := .inl List.length_replicate

/-- At the front of a long file without a zero byte both ways lead to as many bytes as a string can
have, and at its end to none. -/
theorem flat_string_eq_stringAt_unterminated : unterminatedFile.size ≤ addressLimit ∧
    (flat unterminatedFile true).string (0 : UInt32).toNat =
      some (List.replicate Image.maxString 65) ∧
    unterminatedFile.stringAt (0 : UInt32).toNat = some (List.replicate Image.maxString 65) ∧
    (flat unterminatedFile true).string (4097 : UInt32).toNat = none := by
  have hsize : unterminatedFile.size ≤ addressLimit := by
    rw [size_unterminatedFile]
    decide
  obtain ⟨hfront, -, hstring⟩ := flat_string_eq_stringAt unterminatedFile hsize 0
  obtain ⟨hend, hnone, -⟩ := flat_string_eq_stringAt unterminatedFile hsize 4097
  have hstring := (hstring _).mpr isStringAt_unterminatedFile
  exact ⟨hsize, hfront.trans hstring, hstring,
    hend.trans (hnone.mpr size_unterminatedFile.le)⟩

end Memory

end PeCoff
