import Mathlib
import PeCoff.Report.Directories

/-!
# Reading escaped text

Escaped text is read from left to right: after a backslash a letter, a number in hexadecimal or
octal digits or a second backslash stands for one code, and any other character stands for its own.
The main statement is `unescape_escaped`: escaped text reads back as what was written, without a
zero at its end, and no text breaks the line of a report on which it stands. It rests on what is
written for one code (`Piece`), which takes no character from what comes after it and leaves none to
it.
-/

namespace PeCoff.Text.Escape

/-! ## Reading -/

/-- What a letter after a backslash stands for; a second backslash stands for itself. -/
def ofLetter? : Char → Option Nat
  | 'a' => some 7
  | 'b' => some 8
  | 't' => some 9
  | 'n' => some 10
  | 'v' => some 11
  | 'f' => some 12
  | 'r' => some 13
  | 'e' => some 27
  | '\\' => some 92
  | _ => none

/-- The value of a digit; a letter may be of either case. -/
def digitValue (d : Char) : Nat :=
  if d.toNat < 58 then d.toNat - 48 else if d.toNat < 71 then d.toNat - 55 else d.toNat - 87

/-- The number that digits write in a base. -/
def valueOf (base : Nat) (ds : List Char) : Nat :=
  ds.foldl (fun n d => base * n + digitValue d) 0

/-- The digits at the front, as many as there are up to a greatest number. -/
def digitsAt (isDigit : Nat → Bool) (most : Nat) (cs : List Char) : List Char :=
  (cs.take most).takeWhile fun d => isDigit d.toNat

/-- The number at the front and how many digits it has, unless these are too few. -/
def number? (isDigit : Nat → Bool) (base least most : Nat) (cs : List Char) : Option (Nat × Nat) :=
  let ds := digitsAt isDigit most cs
  if least ≤ ds.length then some (valueOf base ds, ds.length) else none

/-- What the characters after a backslash stand for, and how many of them belong to it. A
hexadecimal number has at least `least` and at most `most` digits, an octal number at most three. -/
def escape? (least most : Nat) : List Char → Option (Nat × Nat)
  | [] => none
  | c :: rest =>
    if c = 'x' then
      (number? isHexDigit 16 least most rest).map fun (n, length) => (n, length + 1)
    else
      match ofLetter? c with
      | some n => some (n, 1)
      | none => number? isOctalDigit 8 1 3 (c :: rest)

/-- The codes for which the characters of an escaped text stand. -/
def unescape (least most : Nat) : List Char → List Nat
  | [] => []
  | c :: rest =>
    if c = '\\' then
      match escape? least most rest with
      | some (n, length) => n :: unescape least most (rest.drop length)
      | none => c.toNat :: unescape least most rest
    else
      c.toNat :: unescape least most rest
termination_by cs => cs.length
decreasing_by all_goals simp only [List.length_drop, List.length_cons]; omega

/-- A list without a zero at its end; of several zeros there only the last is left out. -/
def withoutFinalZero (codes : List Nat) : List Nat :=
  if codes.getLast? = some 0 then codes.dropLast else codes

variable {least most base n c : Nat} {next : Option Nat} {isDigit : Nat → Bool}
  {ds cs tail : List Char} {codes : List Nat}

/-- A character other than a backslash stands for itself. -/
lemma unescape_of_ne {d : Char} (h : d ≠ '\\') :
    unescape least most (d :: tail) = d.toNat :: unescape least most tail := by
  rw [unescape, if_neg h]

/-- An escape stands for the number that it is read as. -/
lemma unescape_of_escape? (h : escape? least most (cs ++ tail) = some (n, cs.length)) :
    unescape least most ('\\' :: (cs ++ tail)) = n :: unescape least most tail := by
  rw [unescape, if_pos rfl, h]
  simp only [List.drop_left]

/-- Only a zero that comes last is left out. -/
lemma withoutFinalZero_cons (h : ¬ (c = 0 ∧ codes = [])) :
    withoutFinalZero (c :: codes) = c :: withoutFinalZero codes := by
  cases codes with
  | nil =>
    have hc : c ≠ 0 := fun hc => h ⟨hc, rfl⟩
    simp [withoutFinalZero, hc]
  | cons d codes =>
    simp only [withoutFinalZero, List.getLast?_cons_cons, List.dropLast_cons_cons]
    split <;> rfl

/-- Two lists are the same but for a zero at the end of one of them. -/
def SameUpToZero {α : Type} [OfNat α 0] (xs ys : List α) : Prop :=
  xs = ys ∨ xs = ys ++ [0] ∨ ys = xs ++ [0]

/-- Lists that agree without a zero at the end differ at most in such a zero. -/
lemma sameUpToZero_of_withoutFinalZero {xs ys : List Nat}
    (h : withoutFinalZero xs = withoutFinalZero ys) : SameUpToZero xs ys := by
  have hcases (zs : List Nat) : zs = withoutFinalZero zs ∨ zs = withoutFinalZero zs ++ [0] := by
    rw [withoutFinalZero]
    split
    · next hlast => exact .inr (List.dropLast_append_getLast? 0 hlast).symm
    · exact .inl rfl
  obtain hx | hx := hcases xs
  · obtain hy | hy := hcases ys
    · exact .inl (hx.trans (h.trans hy.symm))
    · exact .inr (.inr (by rw [hy, ← h, ← hx]))
  · obtain hy | hy := hcases ys
    · exact .inr (.inl (by rw [hx, h, ← hy]))
    · exact .inl (by rw [hx, h, ← hy])

/-- Elements agree up to a last zero when their numbers do. -/
lemma SameUpToZero.of_map {α : Type} [OfNat α 0] {f : α → Nat} (hf : Function.Injective f)
    (hzero : f 0 = 0) {xs ys : List α} (h : SameUpToZero (xs.map f) (ys.map f)) :
    SameUpToZero xs ys := by
  have hconcat (zs : List α) : zs.map f ++ [0] = (zs ++ [0]).map f := by
    rw [List.map_append, List.map_singleton, hzero]
  have hinj := hf.list_map
  rw [SameUpToZero, hconcat, hconcat] at h
  exact h.imp (fun h => hinj h) (Or.imp (fun h => hinj h) fun h => hinj h)

/-! ## Numerals -/

/-- A digit has the value that it was made of. -/
lemma digitValue_digitChar : ∀ k < 16, digitValue (Nat.digitChar k) = k := by
  decide

/-- A number below sixteen has a hexadecimal digit. -/
lemma isHexDigit_digitChar : ∀ k < 16, isHexDigit (Nat.digitChar k).toNat := by
  decide

/-- A number below eight has an octal digit. -/
lemma isOctalDigit_digitChar : ∀ k < 8, isOctalDigit (Nat.digitChar k).toNat := by
  decide

/-- One more digit multiplies the value by the base. -/
lemma valueOf_append (ds : List Char) (d : Char) :
    valueOf base (ds ++ [d]) = base * valueOf base ds + digitValue d := by
  rw [valueOf, List.foldl_append]
  rfl

/-- A number is the value of its digits. -/
lemma valueOf_toDigits (hbase : 1 < base) (hle : base ≤ 16) (n : Nat) :
    valueOf base (Nat.toDigits base n) = n := by
  induction n using Nat.strongRecOn with
  | ind n ih =>
    rw [Nat.toDigits_eq_if hbase]
    by_cases hn : n < base
    · rw [if_pos hn, valueOf, List.foldl_cons, List.foldl_nil, Nat.mul_zero, Nat.zero_add,
        digitValue_digitChar n (Nat.lt_of_lt_of_le hn hle)]
    · have hlt : n / base < n := Nat.div_lt_self (by omega) hbase
      have hmod : n % base < 16 := Nat.lt_of_lt_of_le (Nat.mod_lt n (by omega)) hle
      rw [if_neg hn, valueOf_append, ih _ hlt, digitValue_digitChar _ hmod, Nat.div_add_mod]

/-- The digits of a number are among those of its base. -/
lemma isDigit_of_mem_toDigits (hbase : 1 < base)
    (hdigit : ∀ k < base, isDigit (Nat.digitChar k).toNat) {d : Char}
    (h : d ∈ Nat.toDigits base n) : isDigit d.toNat := by
  induction n using Nat.strongRecOn with
  | ind n ih =>
    rw [Nat.toDigits_eq_if hbase] at h
    by_cases hn : n < base
    · rw [if_pos hn, List.mem_singleton] at h
      exact h ▸ hdigit n hn
    · rw [if_neg hn, List.mem_append, List.mem_singleton] at h
      obtain h | rfl := h
      · exact ih _ (Nat.div_lt_self (by omega) hbase) h
      · exact hdigit _ (Nat.mod_lt n (by omega))

/-- Padding brings digits to the width, if they are not more. -/
lemma length_padLeft (h : ds.length ≤ n) : (padLeft n '0' ds).length = n := by
  rw [padLeft, List.length_append, List.length_replicate, Nat.sub_add_cancel h]

/-- Padding adds nothing but zeros. -/
lemma mem_padLeft {d : Char} (h : d ∈ padLeft n '0' ds) : d = '0' ∨ d ∈ ds := by
  rw [padLeft, List.mem_append] at h
  exact h.imp_left List.eq_of_mem_replicate

/-- Zeros in front of a number do not change its value. -/
lemma valueOf_padLeft (width : Nat) (ds : List Char) :
    valueOf base (padLeft width '0' ds) = valueOf base ds := by
  have hzeros (k : Nat) : valueOf base (List.replicate k '0') = 0 := by
    induction k with
    | zero => rfl
    | succ k ih => rw [List.replicate_succ', valueOf_append, ih]; rfl
  rw [valueOf, padLeft, List.foldl_append, ← valueOf, hzeros, valueOf]

/-- Digits that write a number and are told from what comes next: no digit does, or there are as
many of them as are read at most. -/
structure Numeral (isDigit : Nat → Bool) (base least most n : Nat) (next : Option Nat)
    (ds : List Char) : Prop where
  digits : ∀ d ∈ ds, isDigit d.toNat
  value : valueOf base ds = n
  least_le : least ≤ ds.length
  le_most : ds.length ≤ most
  ends : ds.length = most ∨ next.any isDigit = false

/-- Digits are read up to the first character that is none, or up to the greatest number. -/
lemma digitsAt_append (hds : ∀ d ∈ ds, isDigit d.toNat) (hmost : ds.length ≤ most)
    (hends : ds.length = most ∨ ∀ d ∈ tail.head?, isDigit d.toNat = false) :
    digitsAt isDigit most (ds ++ tail) = ds := by
  have hrest : (tail.take (most - ds.length)).takeWhile (fun d => isDigit d.toNat) = [] := by
    obtain hfull | hends := hends
    · rw [hfull, Nat.sub_self, List.take_zero, List.takeWhile_nil]
    · cases tail with
      | nil => rw [List.take_nil, List.takeWhile_nil]
      | cons d tail =>
        have hd := hends d rfl
        cases most - ds.length with
        | zero => rfl
        | succ k => rw [List.take_succ_cons, List.takeWhile_cons_of_neg (by simpa using hd)]
  rw [digitsAt, List.take_append, List.take_of_length_le hmost, List.takeWhile_append_of_pos hds,
    hrest, List.append_nil]

/-- A numeral is read as its number. -/
lemma Numeral.number?_append (h : Numeral isDigit base least most n next ds)
    (hnext : next.any isDigit = false → ∀ d ∈ tail.head?, isDigit d.toNat = false) :
    number? isDigit base least most (ds ++ tail) = some (n, ds.length) := by
  rw [number?, digitsAt_append h.digits h.le_most (h.ends.imp_right hnext), if_pos h.least_le,
    h.value]

/-- A number filled up to the greatest number of digits is told from anything. -/
lemma numeral_padLeft (hbase : 1 < base) (hle : base ≤ 16)
    (hdigit : ∀ k < base, isDigit (Nat.digitChar k).toNat) (hmost : 0 < most)
    (hn : n < base ^ most) (hleast : least ≤ most) (next : Option Nat) :
    Numeral isDigit base least most n next (padLeft most '0' (Nat.toDigits base n)) := by
  have hfull := length_padLeft ((Nat.length_toDigits_le_iff hbase hmost).mpr hn)
  refine ⟨fun d hd => ?_, ?_, by omega, by omega, .inl hfull⟩
  · obtain rfl | hd := mem_padLeft hd
    · exact hdigit 0 (Nat.lt_trans Nat.zero_lt_one hbase)
    · exact isDigit_of_mem_toDigits hbase hdigit hd
  · rw [valueOf_padLeft, valueOf_toDigits hbase hle]

/-- A number need not be filled up unless a digit comes next. -/
lemma numeral_toDigits (hbase : 1 < base) (hle : base ≤ 16)
    (hdigit : ∀ k < base, isDigit (Nat.digitChar k).toNat) (hmost : 0 < most)
    (hn : n < base ^ most) (hnext : ¬ next.any isDigit) :
    Numeral isDigit base 1 most n next (Nat.toDigits base n) where
  digits := fun _ => isDigit_of_mem_toDigits hbase hdigit
  value := valueOf_toDigits hbase hle n
  least_le := Nat.length_toDigits_pos
  le_most := (Nat.length_toDigits_le_iff hbase hmost).mpr hn
  ends := .inr (Bool.eq_false_of_not_eq_true hnext)

/-! ## What is written -/

/-- What is written for a code before the next one, if there is one. -/
inductive Piece (least most c : Nat) (next : Option Nat) : List Char → Prop
  | hex {ds : List Char} (h : Numeral isHexDigit 16 least most c next ds) :
    Piece least most c next ('\\' :: 'x' :: ds)
  | octal {ds : List Char} (h : Numeral isOctalDigit 8 1 3 c next ds) :
    Piece least most c next ('\\' :: ds)
  | letter {l : Char} (hx : l ≠ 'x') (h : ofLetter? l = some c) : Piece least most c next ['\\', l]
  | literal {d : Char} (hne : d ≠ '\\') (hd : d.toNat = c) (hlow : 0x20 ≤ c) (hhigh : c ≤ 0x7F) :
    Piece least most c next [d]

/-- A text is written piece by piece, but for a zero at its end. -/
inductive Written (least most : Nat) : List Nat → List Char → Prop
  | nil : Written least most [] []
  | zero : Written least most [0] []
  | cons {c : Nat} {codes : List Nat} {cs tail : List Char} (hkept : ¬ (c = 0 ∧ codes = []))
      (hc : Piece least most c codes.head? cs) (h : Written least most codes tail) :
    Written least most (c :: codes) (cs ++ tail)

/-- The letter of a character is read back, and it does not start a hexadecimal escape. -/
lemma ofLetter?_of_letter? {l : Char} (h : letter? c = some l) :
    l ≠ 'x' ∧ ofLetter? l = some c := by
  unfold letter? at h
  split at h <;> cases h <;> exact ⟨by decide, rfl⟩

/-- A control character is written by its letter, or by an octal number if it has none. -/
lemma control_cases (hc : c < 32) (next : Option Nat) :
    (∃ l, letter? c = some l ∧ control c next = ['\\', l]) ∨
      ∃ ds, letter? c = none ∧ Numeral isOctalDigit 8 1 3 c next ds ∧
        control c next = '\\' :: ds := by
  have hlt : c < 8 ^ 3 := Nat.lt_trans hc (by decide)
  rw [control]
  cases hletter : letter? c with
  | some l => exact .inl ⟨l, rfl, rfl⟩
  | none =>
    refine .inr ?_
    by_cases hnext : next.any isOctalDigit = true
    · exact ⟨_, rfl, numeral_padLeft (by decide) (by decide) isOctalDigit_digitChar (by decide) hlt
        (by decide) next, if_pos hnext⟩
    · exact ⟨_, rfl, numeral_toDigits (by decide) (by decide) isOctalDigit_digitChar (by decide) hlt
        hnext, if_neg hnext⟩

/-- The escape of a control character is one that may be written for it. -/
lemma piece_control (hc : c < 32) (next : Option Nat) :
    Piece least most c next (control c next) := by
  obtain ⟨l, hletter, hcontrol⟩ | ⟨ds, -, hds, hcontrol⟩ := control_cases hc next
  · obtain ⟨hx, hl⟩ := ofLetter?_of_letter? hletter
    rw [hcontrol]
    exact .letter hx hl
  · rw [hcontrol]
    exact .octal hds

/-- Any other ASCII character is written as it is, but for the backslash. -/
lemma piece_plain (hlow : 0x20 ≤ c) (hhigh : c ≤ 0x7F) (next : Option Nat) :
    Piece least most c next (plain c) := by
  rw [plain]
  split
  · next hbackslash => exact .letter (by decide) (by rw [hbackslash]; rfl)
  · next hbackslash =>
    have hvalid : c.isValidChar := .inl (by omega)
    have hc : (Char.ofNat c).toNat = c := by rw [Char.toNat_ofNat, if_pos hvalid]
    exact .literal (fun h => hbackslash (hc ▸ congrArg Char.toNat h)) hc hlow hhigh

/-- 8-bit text is written with two hexadecimal digits. -/
lemma written_narrow (bs : Bytes) : Written 2 2 (bs.map UInt8.toNat) (narrow bs) := by
  induction bs with
  | nil => exact .nil
  | cons b rest ih =>
    by_cases hzero : b = 0 ∧ rest = []
    · obtain ⟨rfl, rfl⟩ := hzero
      exact .zero
    · have hkept : ¬ (b.toNat = 0 ∧ rest.map UInt8.toNat = []) := by
        simpa [← UInt8.toNat_inj] using hzero
      refine .cons hkept ?_ ih
      rw [if_neg hzero, List.head?_map]
      split_ifs with hwide hcontrol
      · exact .hex (numeral_padLeft (by decide) (by decide) isHexDigit_digitChar (by decide)
          b.toNat_lt (by decide) _)
      · exact piece_control hcontrol _
      · exact piece_plain (Nat.le_of_not_lt hcontrol) (Nat.le_of_not_lt hwide) _

/-- A unit that is written is written as a piece before the text of the units after it. -/
lemma exists_piece_wide {u : UInt16} {rest : List UInt16} (hkept : ¬ (u = 0 ∧ rest = [])) :
    ∃ cs, wide (u :: rest) = cs ++ wide rest ∧
      Piece 1 4 u.toNat (rest.map UInt16.toNat).head? cs := by
  refine ⟨_, rfl, ?_⟩
  rw [if_neg hkept, List.head?_map]
  split_ifs with hwide hnext hcontrol
  · exact .hex (numeral_padLeft (by decide) (by decide) isHexDigit_digitChar (by decide)
      u.toNat_lt (by decide) _)
  · exact .hex (numeral_toDigits (by decide) (by decide) isHexDigit_digitChar (by decide)
      u.toNat_lt hnext)
  · exact piece_control hcontrol _
  · exact piece_plain (Nat.le_of_not_lt hcontrol) (Nat.le_of_not_lt hwide) _

/-- UTF-16 text is written with one to four hexadecimal digits. -/
lemma written_wide (us : List UInt16) : Written 1 4 (us.map UInt16.toNat) (wide us) := by
  induction us with
  | nil => exact .nil
  | cons u rest ih =>
    by_cases hzero : u = 0 ∧ rest = []
    · obtain ⟨rfl, rfl⟩ := hzero
      exact .zero
    · have hkept : ¬ (u.toNat = 0 ∧ rest.map UInt16.toNat = []) := by
        simpa [← UInt16.toNat_inj] using hzero
      obtain ⟨cs, hcs, hpiece⟩ := exists_piece_wide hzero
      rw [hcs]
      exact .cons hkept hpiece ih

/-! ## Reading what is written -/

/-- Characters start with a backslash or with one that stands for the next code. -/
def Follow (next : Option Nat) (cs : List Char) : Prop :=
  ∀ d ∈ cs.head?, d = '\\' ∨ next = some d.toNat

/-- A text starts with a backslash or with a character that stands for its first code. -/
lemma Written.follow (h : Written least most codes cs) : Follow codes.head? cs := by
  intro d hd
  cases h with
  | nil | zero => cases hd
  | cons _ hc =>
    cases hc with
    | hex | octal | letter => exact .inl (Option.some.inj hd).symm
    | literal hne hc => exact .inr (by rw [← Option.some.inj hd, hc, List.head?_cons])

/-- When no digit comes next, none is written next. -/
lemma Follow.isDigit_head? (h : Follow next cs) (hbackslash : isDigit '\\'.toNat = false)
    (hnext : next.any isDigit = false) : ∀ d ∈ cs.head?, isDigit d.toNat = false := by
  intro d hd
  obtain rfl | hcode := h d hd
  · exact hbackslash
  · simpa [hcode] using hnext

/-- A digit is not a character that is no digit. -/
lemma ne_of_isDigit {d x : Char} (hd : isDigit d.toNat) (hx : isDigit x.toNat = false) : d ≠ x := by
  rintro rfl
  rw [hd] at hx
  cases hx

/-- An octal number is read after a backslash, since it starts with no letter. -/
lemma Numeral.escape?_octal (h : Numeral isOctalDigit 8 1 3 c next ds)
    (hnext : next.any isOctalDigit = false → ∀ d ∈ tail.head?, isOctalDigit d.toNat = false) :
    escape? least most (ds ++ tail) = some (c, ds.length) := by
  have hnumber := h.number?_append hnext
  obtain ⟨d, ds, rfl⟩ := List.exists_cons_of_length_pos h.least_le
  have hne {x : Char} (hx : isOctalDigit x.toNat = false) : d ≠ x :=
    ne_of_isDigit (h.digits d List.mem_cons_self) hx
  have hletter : ofLetter? d = none := by
    rw [ofLetter?.eq_10] <;> exact hne rfl
  rw [List.cons_append, escape?, if_neg (hne rfl), hletter]
  exact hnumber

/-- A piece reads back as its code, whatever is written after it. -/
lemma Piece.unescape_append (hc : Piece least most c next cs) (h : Follow next tail) :
    unescape least most (cs ++ tail) = c :: unescape least most tail := by
  cases hc with
  | @hex ds hds =>
    have hread : escape? least most ('x' :: ds ++ tail) = some (c, ('x' :: ds).length) := by
      rw [List.cons_append, escape?, if_pos rfl, hds.number?_append (h.isDigit_head? rfl)]
      rfl
    exact unescape_of_escape? hread
  | octal hds => exact unescape_of_escape? (hds.escape?_octal (h.isDigit_head? rfl))
  | @letter l hx hl =>
    have hread : escape? least most ([l] ++ tail) = some (c, [l].length) := by
      rw [List.singleton_append, escape?, if_neg hx, hl]
      rfl
    exact unescape_of_escape? hread
  | literal hne hd => rw [List.singleton_append, unescape_of_ne hne, hd]

/-- A text reads back without a zero at its end. -/
lemma Written.unescape_eq (h : Written least most codes cs) :
    unescape least most cs = withoutFinalZero codes := by
  induction h with
  | nil =>
    rw [unescape]
    rfl
  | zero =>
    rw [unescape]
    rfl
  | cons hkept hc h ih => rw [hc.unescape_append h.follow, ih, withoutFinalZero_cons hkept]

/-- Texts that are written alike differ at most in a zero at the end of one of them. -/
lemma Written.sameUpToZero {xs ys : List Nat} (hx : Written least most xs cs)
    (hy : Written least most ys cs) : SameUpToZero xs ys :=
  sameUpToZero_of_withoutFinalZero (hx.unescape_eq.symm.trans hy.unescape_eq)

/-! ## Lines -/

/-- All characters have codes from 0x20 to 0x7F, so that none of them ends a line. -/
def Printable (cs : List Char) : Prop :=
  ∀ d ∈ cs, 0x20 ≤ d.toNat ∧ d.toNat ≤ 0x7F

/-- Text is printable when both of its halves are. -/
lemma printable_append : Printable (cs ++ tail) ↔ Printable cs ∧ Printable tail :=
  List.forall_mem_append

/-- Text is printable when its first character and the rest are. -/
lemma printable_cons {d : Char} :
    Printable (d :: cs) ↔ (0x20 ≤ d.toNat ∧ d.toNat ≤ 0x7F) ∧ Printable cs :=
  List.forall_mem_cons

/-- Digits are printable. -/
lemma printable_of_isHexDigit (h : ∀ d ∈ ds, isHexDigit d.toNat) : Printable ds := by
  intro d hd
  have hdigit := h d hd
  simp only [isHexDigit, Bool.or_eq_true, Bool.and_eq_true, decide_eq_true_eq] at hdigit
  omega

/-- An octal digit is a hexadecimal one. -/
lemma isHexDigit_of_isOctalDigit (h : isOctalDigit n) : isHexDigit n := by
  simp only [isOctalDigit, isHexDigit, Bool.or_eq_true, Bool.and_eq_true, decide_eq_true_eq] at *
  omega

/-- An escape with a letter is printable. -/
lemma printable_of_ofLetter? {l : Char} (h : ofLetter? l = some c) : Printable ['\\', l] := by
  have hbackslash : 0x20 ≤ '\\'.toNat ∧ '\\'.toNat ≤ 0x7F := by decide
  refine printable_cons.mpr ⟨hbackslash, List.forall_mem_singleton.mpr ?_⟩
  unfold ofLetter? at h
  split at h
  case h_10 => cases h
  all_goals decide

/-- Whatever is written for a code is printable. -/
lemma Piece.printable (hc : Piece least most c next cs) : Printable cs := by
  cases hc with
  | hex h =>
    have hstart : Printable ['\\', 'x'] := by simp [Printable]
    exact printable_append.mpr ⟨hstart, printable_of_isHexDigit h.digits⟩
  | octal h =>
    have hstart : Printable ['\\'] := by simp [Printable]
    have hdigits := printable_of_isHexDigit fun d hd => isHexDigit_of_isOctalDigit (h.digits d hd)
    exact printable_append.mpr ⟨hstart, hdigits⟩
  | letter _ h => exact printable_of_ofLetter? h
  | literal _ hd hlow hhigh => exact List.forall_mem_singleton.mpr (hd ▸ ⟨hlow, hhigh⟩)

/-- Escaped text is printable. -/
lemma Written.printable (h : Written least most codes cs) : Printable cs := by
  induction h with
  | nil | zero => exact List.forall_mem_nil _
  | cons _ hc _ ih => exact printable_append.mpr ⟨hc.printable, ih⟩

/-- A hexadecimal number is printable. -/
lemma printable_hexOf (width n : Nat) : Printable (hexOf width n).toList := by
  rw [hexOf, String.toList_ofList]
  refine printable_of_isHexDigit fun d hd => ?_
  obtain rfl | hd := mem_padLeft hd
  · rfl
  · exact isDigit_of_mem_toDigits (by decide) isHexDigit_digitChar hd

/-- Quotes are printable. -/
lemma printable_quoted (h : Printable cs) : Printable (quoted cs) := by
  have hquote : Printable ['"'] := by simp [Printable]
  exact printable_append.mpr ⟨printable_append.mpr ⟨hquote, h⟩, hquote⟩

/-- A quoted text of 16-bit units is printable. -/
lemma printable_wideLiteral (units : List UInt16) : Printable (wideLiteral units) := by
  have hstart : Printable ['L'] := by simp [Printable]
  exact printable_append.mpr ⟨hstart, printable_quoted (written_wide units).printable⟩

/-- The label of a resource is printable. -/
lemma printable_label (id : Resource.Id) : Printable id.label.toList := by
  cases id with
  | number n => exact printable_hexOf 4 n.toNat
  | name units =>
    rw [Resource.Id.label, String.toList_ofList]
    exact printable_wideLiteral units

/-- The line of a text is printable when the text is. -/
lemma printable_textLine (width id : Nat) (h : Printable cs) :
    Printable (Report.textLine width id cs).toList := by
  have hline : (Report.textLine width id cs).toList =
      "    ".toList ++ (hexOf width id).toList ++ " ".toList ++ cs := by
    simp [Report.textLine, toString]
  have hblanks : Printable "    ".toList ∧ Printable " ".toList := by
    simp [Printable]
  simp only [hline, printable_append, printable_hexOf, hblanks, h, and_self]

/-- The line of a string is printable. -/
lemma printable_tableStringLine (s : Resource.TableString) :
    Printable (Report.tableStringLine s).toList :=
  printable_textLine 4 s.id.toNat (printable_quoted (written_wide s.units).printable)

/-- The line of a message is printable. -/
lemma printable_messageLine (m : Resource.Message) : Printable (Report.messageLine m).toList := by
  rw [Report.messageLine]
  refine printable_textLine 8 m.id ?_
  cases m.text with
  | wide units => exact printable_wideLiteral units
  | narrow bytes => exact printable_quoted (written_narrow bytes).printable

/-- Escaped text of UTF-16 units is printable and reads back as the units, without a zero at their
end, so that only the presence of such a zero is lost. The same holds for 8-bit text, where a
hexadecimal number has exactly two digits. No text breaks the line of a string table, a message or
the name of a resource. -/
theorem unescape_escaped :
    (∀ units : List UInt16, Printable (wide units) ∧
      unescape 1 4 (wide units) = withoutFinalZero (units.map UInt16.toNat) ∧
      ∀ others, wide units = wide others → SameUpToZero units others) ∧
    (∀ bytes : Bytes, Printable (narrow bytes) ∧
      unescape 2 2 (narrow bytes) = withoutFinalZero (bytes.map UInt8.toNat) ∧
      ∀ others, narrow bytes = narrow others → SameUpToZero bytes others) ∧
    (∀ s, Printable (Report.tableStringLine s).toList) ∧
    (∀ m, Printable (Report.messageLine m).toList) ∧
    ∀ id : Resource.Id, Printable id.label.toList := by
  refine ⟨fun units => ?_, fun bytes => ?_, printable_tableStringLine, printable_messageLine,
    printable_label⟩
  · have h := written_wide units
    refine ⟨h.printable, h.unescape_eq, fun others heq => ?_⟩
    have hothers := heq ▸ written_wide others
    exact .of_map (fun _ _ => UInt16.toNat_inj.mp) rfl (h.sameUpToZero hothers)
  · have h := written_narrow bytes
    refine ⟨h.printable, h.unescape_eq, fun others heq => ?_⟩
    have hothers := heq ▸ written_narrow others
    exact .of_map (fun _ _ => UInt8.toNat_inj.mp) rfl (h.sameUpToZero hothers)

/-- Texts that are written alike: one of them has a zero at its end. -/
theorem unescape_escaped_finalZero :
    wide [7, 0xE9, 0x62, 0] = wide [7, 0xE9, 0x62] ∧
    wide [7, 0xE9, 0x62] = "\\a\\x00e9b".toList ∧
    unescape 1 4 (wide [7, 0xE9, 0x62, 0]) = [7, 0xE9, 0x62] ∧
    SameUpToZero (α := UInt16) [7, 0xE9, 0x62, 0] [7, 0xE9, 0x62] ∧
    narrow [1, 0x37, 0xE9, 0x62, 0] = narrow [1, 0x37, 0xE9, 0x62] ∧
    narrow [1, 0x37, 0xE9, 0x62] = "\\0017\\xe9b".toList ∧
    unescape 2 2 (narrow [1, 0x37, 0xE9, 0x62, 0]) = [1, 0x37, 0xE9, 0x62] ∧
    SameUpToZero (α := UInt8) [1, 0x37, 0xE9, 0x62, 0] [1, 0x37, 0xE9, 0x62] := by
  obtain ⟨hwide, hnarrow, -⟩ := unescape_escaped
  obtain ⟨-, hunits, hsameUnits⟩ := hwide [7, 0xE9, 0x62, 0]
  obtain ⟨-, hbytes, hsameBytes⟩ := hnarrow [1, 0x37, 0xE9, 0x62, 0]
  have hunitsEq : wide [7, 0xE9, 0x62, 0] = wide [7, 0xE9, 0x62] := by decide
  have hbytesEq : narrow [1, 0x37, 0xE9, 0x62, 0] = narrow [1, 0x37, 0xE9, 0x62] := by decide
  exact ⟨hunitsEq, by decide, hunits, hsameUnits _ hunitsEq, hbytesEq, by decide, hbytes,
    hsameBytes _ hbytesEq⟩

end PeCoff.Text.Escape
