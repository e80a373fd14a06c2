import Mathlib
import PeCoff.Text.Unicode

/-!
# Text in memory

Text is stored as UTF-8. The main statement is `ofUtf8_toUtf8`, by which text that was stored reads
back. A character takes one to four bytes, and for each of these lengths one lemma shows that its
first byte announces the bytes that follow and that these lie in the ranges announced. Of bytes that
decode badly or not at all `Utf8.mem_decode_iff` says that no character of one byte gets lost or
added.
-/

namespace PeCoff.Text

namespace Utf8

variable {b : UInt8} {bs : Bytes} {ranges : List (UInt8 × UInt8)} {v : Nat}

/-- A byte lies in a range. -/
def InRange (range : UInt8 × UInt8) (b : UInt8) : Prop :=
  range.1 ≤ b ∧ b ≤ range.2

/-- Bytes that lie in the ranges, one after the other, are all counted. -/
lemma matching_append (h : List.Forall₂ InRange ranges bs) (rest : Bytes) :
    matching ranges (bs ++ rest) = bs.length := by
  induction h with
  | nil => rfl
  | cons hb _ ih =>
    rw [InRange] at hb
    rw [List.cons_append, matching, if_pos hb, ih, List.length_cons]

/-- A first byte and the bytes that continue it make up one character. -/
lemma decode_cons_append (hb : continuation b = some ranges)
    (h : List.Forall₂ InRange ranges bs) (rest : Bytes) :
    decode (b :: bs ++ rest) = Char.ofNat (codePoint b bs) :: decode rest := by
  have hlength : ranges.length = bs.length := h.length_eq
  have hstep : step b (bs ++ rest) = (Char.ofNat (codePoint b bs), bs.length) := by
    simp only [step, hb, matching_append h, hlength, if_true, List.take_left]
  rw [List.cons_append, decode, hstep]
  simp only [List.drop_left]

/-- The range of the second byte of three or four. -/
def second (b : UInt8) : UInt8 × UInt8 :=
  (if b = 0xE0 then 0xA0 else if b = 0xF0 then 0x90 else 0x80,
    if b = 0xED then 0x9F else if b = 0xF4 then 0x8F else 0xBF)

/-- A byte of seven bits is a character of its own. -/
lemma continuation_one (h : b ≤ 0x7F) : continuation b = some [] :=
  if_pos h

/-- One byte continues a first byte of this range. -/
lemma continuation_two (h₁ : 0xC2 ≤ b) (h₂ : b ≤ 0xDF) : continuation b = some [tail] := by
  grind [continuation]

/-- Two bytes continue a first byte of this range, the first of them in a range of its own. -/
lemma continuation_three (h₁ : 0xE0 ≤ b) (h₂ : b ≤ 0xEF) :
    continuation b = some [second b, tail] := by
  grind [continuation, second, tail]

/-- Three bytes continue a first byte of this range, the first of them in a range of its own. -/
lemma continuation_four (h₁ : 0xF0 ≤ b) (h₂ : b ≤ 0xF4) :
    continuation b = some [second b, tail, tail] := by
  grind [continuation, second, tail]

/-- A byte that was made from a small number is in a range when the number is. -/
lemma inRange_ofNat {range : UInt8 × UInt8} {n : Nat} (hlow : range.1.toNat ≤ n)
    (hhigh : n ≤ range.2.toNat) : InRange range (UInt8.ofNat n) := by
  have hlt := range.2.toNat_lt
  have hn : (UInt8.ofNat n).toNat = n := UInt8.toNat_ofNat_of_lt (show _ < 256 by omega)
  rw [InRange, UInt8.le_iff_toNat_le, UInt8.le_iff_toNat_le, hn]
  exact ⟨hlow, hhigh⟩

/-- The byte that continues a character by six bits. -/
def continued (n : Nat) : UInt8 := UInt8.ofNat (n % 64 + 128)

/-- A byte that continues a character has its six bits below the mark. -/
lemma toNat_continued (n : Nat) : (continued n).toNat = n % 64 + 128 :=
  UInt8.toNat_ofNat_of_lt (show _ < 256 by omega)

/-- A byte that continues a character is in the range of such bytes. -/
lemma inRange_continued (n : Nat) : InRange tail (continued n) :=
  @inRange_ofNat tail _ (Nat.le_add_left 128 _) (show n % 64 + 128 ≤ 191 by omega)

/-- A number below 128 is its own encoding. -/
lemma decode_one (h : v ≤ 0x7F) (rest : Bytes) :
    decode ([UInt8.ofNat v] ++ rest) = Char.ofNat v :: decode rest := by
  have hlead : (UInt8.ofNat v).toNat = v := UInt8.toNat_ofNat_of_lt (show _ < 256 by omega)
  have hrange : InRange (0, 0x7F) (UInt8.ofNat v) := inRange_ofNat (Nat.zero_le v) h
  rw [decode_cons_append (continuation_one hrange.2) .nil]
  simp only [codePoint, List.length_nil, List.foldl_nil, hlead]

/-- A first byte and the bytes that continue it, each by six bits of a number, make up the character
of all these bits. -/
lemma decode_bits {lead : Nat} (ns : List Nat) (hlead : lead < 256)
    (hcount : 0 < ns.length ∧ ns.length ≤ 3) (hb : continuation (UInt8.ofNat lead) = some ranges)
    (h : List.Forall₂ InRange ranges (ns.map continued)) (rest : Bytes)
    (hv : ns.foldl (fun x n => x * 64 + n % 64) (lead % (64 / 2 ^ ns.length)) = v) :
    decode (UInt8.ofNat lead :: ns.map continued ++ rest) = Char.ofNat v :: decode rest := by
  have hcontinued (n : Nat) : (continued n).toNat % 64 = n % 64 := by
    rw [toNat_continued]
    omega
  have hbits : codePoint (UInt8.ofNat lead) (ns.map continued) =
      ns.foldl (fun x n => x * 64 + n % 64) (lead % (64 / 2 ^ ns.length)) := by
    have hfirst : (UInt8.ofNat lead).toNat = lead := UInt8.toNat_ofNat_of_lt hlead
    simp only [codePoint, List.length_map, List.foldl_map, hcontinued, hfirst]
    -- The first byte of two keeps five bits of the character, and each further byte takes one away.
    obtain hcount | hcount | hcount : ns.length = 1 ∨ ns.length = 2 ∨ ns.length = 3 := by omega
    all_goals simp only [hcount, Nat.reducePow, Nat.reduceDiv]
  rw [decode_cons_append hb h, hbits, hv]

/-- The second byte of three or four is in its range. A character that fits into fewer bytes, half
of a pair and a character past the last one are out of the range. -/
lemma inRange_second {lead n : Nat} (hlead : lead < 256) (hthree : lead = 0xE0 → 0x20 ≤ n % 64)
    (hpair : lead = 0xED → n % 64 ≤ 0x1F) (hfour : lead = 0xF0 → 0x10 ≤ n % 64)
    (hlast : lead = 0xF4 → n % 64 ≤ 0x0F) : InRange (second (UInt8.ofNat lead)) (continued n) := by
  have htoNat : (UInt8.ofNat lead).toNat = lead := UInt8.toNat_ofNat_of_lt hlead
  simp only [InRange, second, UInt8.le_iff_toNat_le, ← UInt8.toNat_inj, htoNat, toNat_continued,
    apply_ite UInt8.toNat, UInt8.reduceToNat]
  constructor
  · split_ifs <;> omega
  · split_ifs <;> omega

/-- A number of up to eleven bits is encoded in two bytes. -/
lemma decode_two (h : 0x7F < v) (hv : v ≤ 0x7FF) (rest : Bytes) :
    decode ([UInt8.ofNat (v / 64 % 32 + 192), continued v] ++ rest) =
      Char.ofNat v :: decode rest := by
  have hrange : InRange (0xC2, 0xDF) (UInt8.ofNat (v / 64 % 32 + 192)) :=
    inRange_ofNat (show 194 ≤ _ by omega) (show _ ≤ 223 by omega)
  refine decode_bits [v] (by omega) (by simp) (continuation_two hrange.1 hrange.2)
    (.cons (inRange_continued v) .nil) rest ?_
  simp only [List.foldl_cons, List.foldl_nil, List.length_cons, List.length_nil]
  omega

/-- A number of up to sixteen bits that is no half of a pair is encoded in three bytes. -/
lemma decode_three (h : 0x7FF < v) (hv : v < 0xD800 ∨ 0xDFFF < v ∧ v ≤ 0xFFFF) (rest : Bytes) :
    decode ([UInt8.ofNat (v / 4096 % 16 + 224), continued (v / 64), continued v] ++ rest) =
      Char.ofNat v :: decode rest := by
  have hrange : InRange (0xE0, 0xEF) (UInt8.ofNat (v / 4096 % 16 + 224)) :=
    inRange_ofNat (show 224 ≤ _ by omega) (show _ ≤ 239 by omega)
  have hsecond : InRange (second (UInt8.ofNat (v / 4096 % 16 + 224))) (continued (v / 64)) :=
    inRange_second (by omega) (by omega) (by omega) (by omega) (by omega)
  refine decode_bits [v / 64, v] (by omega) (by simp) (continuation_three hrange.1 hrange.2)
    (.cons hsecond (.cons (inRange_continued v) .nil)) rest ?_
  simp only [List.foldl_cons, List.foldl_nil, List.length_cons, List.length_nil]
  omega

/-- A larger number, up to that of the last character, is encoded in four bytes. -/
lemma decode_four (h : 0xFFFF < v) (hv : v < 0x110000) (rest : Bytes) :
    decode ([UInt8.ofNat (v / 262144 % 8 + 240), continued (v / 4096), continued (v / 64),
      continued v] ++ rest) = Char.ofNat v :: decode rest := by
  have hrange : InRange (0xF0, 0xF4) (UInt8.ofNat (v / 262144 % 8 + 240)) :=
    inRange_ofNat (show 240 ≤ _ by omega) (show _ ≤ 244 by omega)
  have hsecond : InRange (second (UInt8.ofNat (v / 262144 % 8 + 240))) (continued (v / 4096)) :=
    inRange_second (by omega) (by omega) (by omega) (by omega) (by omega)
  refine decode_bits [v / 4096, v / 64, v] (by omega) (by simp)
    (continuation_four hrange.1 hrange.2)
    (.cons hsecond (.cons (inRange_continued _) (.cons (inRange_continued v) .nil))) rest ?_
  simp only [List.foldl_cons, List.foldl_nil, List.length_cons, List.length_nil]
  omega

/-- The encoding of a character is decoded to it, whatever follows. -/
lemma decode_utf8EncodeChar_append (c : Char) (rest : Bytes) :
    decode (String.utf8EncodeChar c ++ rest) = c :: decode rest := by
  have hc : Char.ofNat c.val.toNat = c := Char.ofNat_toNat c
  have hvalid : c.val.toNat < 0xD800 ∨ 0xDFFF < c.val.toNat ∧ c.val.toNat < 0x110000 := c.valid
  rw [String.utf8EncodeChar]
  generalize c.val.toNat = v at hc hvalid
  subst hc
  split
  case isTrue hone => exact decode_one hone rest
  split
  case isFalse.isTrue hone htwo => exact decode_two (Nat.lt_of_not_le hone) htwo rest
  split
  case isFalse.isFalse.isTrue htwo hthree =>
    exact decode_three (Nat.lt_of_not_le htwo) (hvalid.imp_right fun h => ⟨h.1, hthree⟩) rest
  case isFalse.isFalse.isFalse hthree =>
    exact decode_four (Nat.lt_of_not_le hthree) (by omega) rest

/-- The encoding of several characters is decoded to them. -/
lemma decode_flatMap_utf8EncodeChar (cs : List Char) :
    decode (cs.flatMap String.utf8EncodeChar) = cs := by
  induction cs with
  | nil => rw [List.flatMap_nil, decode]
  | cons c cs ih => rw [List.flatMap_cons, decode_utf8EncodeChar_append, ih]

/-- Decoding makes at most one character of a byte. -/
lemma length_decode_le (bs : Bytes) : (decode bs).length ≤ bs.length := by
  induction bs using decode.induct with
  | case1 => simp [decode]
  | case2 b rest c n hstep ih =>
    rw [List.length_drop] at ih
    rw [decode, hstep, List.length_cons, List.length_cons]
    omega

/-! ## Characters of one byte -/

/-- The counted bytes lie in the ranges, one after the other. -/
lemma forall₂_take_matching (ranges : List (UInt8 × UInt8)) (bs : Bytes) :
    List.Forall₂ InRange (ranges.take (matching ranges bs)) (bs.take (matching ranges bs)) := by
  induction ranges generalizing bs with
  | nil => exact .nil
  | cons range ranges ih =>
    cases bs with
    | nil => exact .nil
    | cons b bs =>
      rw [matching]
      by_cases hb : range.1 ≤ b ∧ b ≤ range.2
      · rw [if_pos hb]
        exact .cons hb (ih bs)
      · rw [if_neg hb]
        exact .nil

/-- What a first byte announces, by the length of its character. -/
lemma continuation_cases (h : continuation b = some ranges) :
    b ≤ 0x7F ∧ ranges = [] ∨ (0xC2 ≤ b ∧ b ≤ 0xDF) ∧ ranges = [tail] ∨
      (0xE0 ≤ b ∧ b ≤ 0xEF) ∧ ranges = [second b, tail] ∨
      (0xF0 ≤ b ∧ b ≤ 0xF4) ∧ ranges = [second b, tail, tail] := by
  by_cases hone : b ≤ 0x7F
  · rw [continuation_one hone] at h
    exact .inl ⟨hone, (Option.some.inj h).symm⟩
  by_cases htwo : 0xC2 ≤ b ∧ b ≤ 0xDF
  · rw [continuation_two htwo.1 htwo.2] at h
    exact .inr (.inl ⟨htwo, (Option.some.inj h).symm⟩)
  by_cases hthree : 0xE0 ≤ b ∧ b ≤ 0xEF
  · rw [continuation_three hthree.1 hthree.2] at h
    exact .inr (.inr (.inl ⟨hthree, (Option.some.inj h).symm⟩))
  by_cases hfour : 0xF0 ≤ b ∧ b ≤ 0xF4
  · rw [continuation_four hfour.1 hfour.2] at h
    exact .inr (.inr (.inr ⟨hfour, (Option.some.inj h).symm⟩))
  · have hnone : continuation b = none := by grind [continuation]
    rw [hnone] at h
    cases h

/-- The second byte of a character is never one of seven bits. -/
lemma le_second (b : UInt8) : 0x80 ≤ (second b).1 := by
  rw [second]
  split_ifs <;> decide

/-- Bytes that continue a character are above those that are characters of their own. -/
lemma le_of_mem_continuation (h : continuation b = some ranges) :
    ∀ range ∈ ranges, 0x80 ≤ range.1 := by
  have htail : (0x80 : UInt8) ≤ tail.1 := by decide
  rcases continuation_cases h with ⟨-, rfl⟩ | ⟨-, rfl⟩ | ⟨-, rfl⟩ | ⟨-, rfl⟩
  · simp
  · simpa using htail
  · simpa using ⟨le_second b, htail⟩
  · simpa using ⟨le_second b, htail⟩

/-- A byte that nothing continues is a character of its own. -/
lemma le_of_continuation_nil (h : continuation b = some []) : b ≤ 0x7F := by
  rcases continuation_cases h with ⟨hb, -⟩ | ⟨-, h⟩ | ⟨-, h⟩ | ⟨-, h⟩
  · exact hb
  all_goals cases h

/-- Bytes in ranges that begin at a byte or above it are not below it. -/
lemma le_of_forall₂ {low : UInt8} (h : List.Forall₂ InRange ranges bs)
    (hlow : ∀ range ∈ ranges, low ≤ range.1) : ∀ b ∈ bs, low ≤ b := by
  induction h with
  | nil => simp
  | cons hb _ ih =>
    rw [List.forall_mem_cons] at hlow ⊢
    exact ⟨UInt8.le_trans hlow.1 hb.1, ih hlow.2⟩

/-- A character of several bytes has a code point above those of one byte. -/
lemma le_codePoint (hb : continuation b = some ranges) (hne : ranges ≠ [])
    (h : List.Forall₂ InRange ranges bs) : 0x80 ≤ codePoint b bs := by
  rcases continuation_cases hb with ⟨-, rfl⟩ | ⟨hlead, rfl⟩ | ⟨hlead, rfl⟩ | ⟨hlead, rfl⟩
  · exact absurd rfl hne
  · obtain _ | ⟨hx, _ | _⟩ := h
    simp only [UInt8.le_iff_toNat_le, UInt8.reduceToNat] at hlead
    simp only [codePoint, List.length_cons, List.length_nil, List.foldl_cons, List.foldl_nil]
    omega
  · obtain _ | ⟨hx, _ | ⟨hy, _ | _⟩⟩ := h
    simp only [InRange, second, UInt8.le_iff_toNat_le, ← UInt8.toNat_inj, apply_ite UInt8.toNat,
      UInt8.reduceToNat] at hlead hx
    simp only [codePoint, List.length_cons, List.length_nil, List.foldl_cons, List.foldl_nil]
    split_ifs at hx <;> omega
  · obtain _ | ⟨hx, _ | ⟨hy, _ | ⟨hz, _ | _⟩⟩⟩ := h
    simp only [InRange, second, UInt8.le_iff_toNat_le, ← UInt8.toNat_inj, apply_ite UInt8.toNat,
      UInt8.reduceToNat] at hlead hx
    simp only [codePoint, List.length_cons, List.length_nil, List.foldl_cons, List.foldl_nil]
    split_ifs at hx <;> omega

section OneByte

variable {c : Char}

/-- A character of seven bits fits into a byte. -/
lemma toNat_toUInt8_of_lt (hc : c.toNat < 0x80) : c.toUInt8.toNat = c.toNat :=
  UInt8.toNat_ofNat_of_lt (show c.toNat < 256 by omega)

/-- A number other than zero is the code point of the only character that it gives. -/
lemma ofNat_eq_iff (hne : c ≠ '\x00') {n : Nat} : Char.ofNat n = c ↔ n = c.toNat := by
  constructor
  · rintro rfl
    rw [Char.toNat_ofNat]
    split_ifs with hvalid
    · rfl
    · exact absurd (dif_neg hvalid) hne
  · rintro rfl
    exact Char.ofNat_toNat c

/-- A first byte gives a character of one byte exactly if it is this byte. -/
lemma step_fst_eq_iff (hne : c ≠ '\x00') (hc : c.toNat < 0x80) (b : UInt8) (rest : Bytes) :
    (step b rest).1 = c ↔ b = c.toUInt8 := by
  have hchar {n : Nat} (hn : 0x80 ≤ n) : Char.ofNat n ≠ c := fun h => by
    rw [(ofNat_eq_iff hne).mp h] at hn
    exact absurd hc (Nat.not_lt.mpr hn)
  have hreplacement : replacement ≠ c := @hchar 0xFFFD (by decide)
  have hlong (hb : ¬ b ≤ 0x7F) : b ≠ c.toUInt8 := by
    rintro rfl
    rw [UInt8.le_iff_toNat_le, toNat_toUInt8_of_lt hc] at hb
    exact hb (Nat.le_of_lt_succ hc)
  by_cases hb : b ≤ 0x7F
  · have hstep : step b rest = (Char.ofNat b.toNat, 0) := by
      rw [step, continuation_one hb]
      rfl
    rw [hstep, ofNat_eq_iff hne, ← UInt8.toNat_inj, toNat_toUInt8_of_lt hc]
  -- A byte past 0x7F starts a sequence of several bytes or none, and so gives a character past
  -- 0x7F.
  · refine iff_of_false ?_ (hlong hb)
    rw [step]
    cases hcontinuation : continuation b with
    | none => exact hreplacement
    | some ranges =>
      by_cases hfull : matching ranges rest = ranges.length
      · have hmatching := forall₂_take_matching ranges rest
        rw [hfull, List.take_length] at hmatching
        have hempty : ranges ≠ [] := fun h => hb (le_of_continuation_nil (h ▸ hcontinuation))
        have hfrom := le_codePoint hcontinuation hempty hmatching
        simp only [hfull, if_true]
        exact hchar hfrom
      · simp only [hfull, if_false]
        exact hreplacement

/-- The bytes that belong to a character besides its first one are no characters of their own. -/
lemma notMem_take_step (hc : c.toNat < 0x80) (b : UInt8) (rest : Bytes) :
    c.toUInt8 ∉ rest.take (step b rest).2 := by
  rw [step]
  cases hcontinuation : continuation b with
  | none => simp
  | some ranges =>
    have hlow := le_of_mem_continuation hcontinuation
    have hbytes := le_of_forall₂ (forall₂_take_matching ranges rest)
      fun range h => hlow range (List.mem_of_mem_take h)
    have htail : c.toUInt8 ∉ rest.take (matching ranges rest) := by
      intro hmem
      have hle := UInt8.le_iff_toNat_le.mp (hbytes _ hmem)
      rw [toNat_toUInt8_of_lt hc] at hle
      exact absurd hc (Nat.not_lt.mpr hle)
    by_cases hfull : matching ranges rest = ranges.length
    · simp only [hfull, if_true]
      rwa [hfull] at htail
    · simp only [hfull, if_false]
      exact htail

/-- A character of one byte other than zero occurs in decoded text exactly where its byte does. -/
lemma mem_decode_iff (hne : c ≠ '\x00') (hc : c.toNat < 0x80) :
    c ∈ decode bs ↔ c.toUInt8 ∈ bs := by
  fun_induction decode bs with
  | case1 => simp
  | case2 b rest c' n hstep ih =>
    have hfirst := step_fst_eq_iff hne hc b rest
    have hrest := notMem_take_step hc b rest
    rw [hstep] at hfirst hrest
    have hdrop : c.toUInt8 ∈ rest ↔ c.toUInt8 ∈ rest.drop n := by
      rw [← List.take_append_drop n rest, List.mem_append, or_iff_right hrest, List.take_append_drop]
    rw [List.mem_cons, List.mem_cons, ih, hdrop, eq_comm, hfirst, eq_comm]

end OneByte

end Utf8

/-- The bytes in which text is stored. -/
def toUtf8 (s : String) : Bytes :=
  s.toUTF8.data.toList

/-- Text is stored as its characters, one behind the other. -/
lemma toUtf8_eq (s : String) : toUtf8 s = s.toList.flatMap String.utf8EncodeChar := by
  conv_lhs => rw [toUtf8, ← String.ofList_toList (s := s)]
  rw [String.toUTF8_eq_toByteArray, String.toByteArray_ofList, List.utf8Encode,
    List.data_toByteArray]

/-- Text that was stored reads back. -/
theorem ofUtf8_toUtf8 (s : String) : ofUtf8 (toUtf8 s) = s := by
  rw [ofUtf8, toUtf8_eq, Utf8.decode_flatMap_utf8EncodeChar, String.ofList_toList]

end PeCoff.Text
