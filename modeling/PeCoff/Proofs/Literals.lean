import Mathlib
import PeCoff.Proofs.Escape

/-!
# Escaped text as a literal

Between double quotes escaped text looks like a literal of the C language. A literal ends at the
first quote that no backslash escapes, and a hexadecimal escape in it takes all digits that follow.
The main statement is `closingQuote?_and_literal?_iff`: text is such a literal, and one of the right
bytes, exactly when it holds no quote and no byte whose hexadecimal escape would take a digit more.
-/

namespace PeCoff.Text.Escape

variable {least most c : Nat} {next : Option Nat} {cs ds tail front back : List Char} {d : Char}
  {units : List UInt16}

/-! ## The closing quote -/

/-- The place of the first quote that no backslash escapes. A backslash that is itself escaped
escapes nothing. -/
def closingQuote? : (escaped : Bool) → List Char → Option Nat
  | _, [] => none
  | true, _ :: rest => (closingQuote? false rest).map (· + 1)
  | false, d :: rest =>
    if d = '"' then some 0 else (closingQuote? (d = '\\') rest).map (· + 1)

/-- Characters that are neither quotes nor backslashes do not close a literal. -/
lemma closingQuote?_append (h : ∀ d ∈ ds, d ≠ '"' ∧ d ≠ '\\') (tail : List Char) :
    closingQuote? false (ds ++ tail) = (closingQuote? false tail).map (· + ds.length) := by
  induction ds with
  | nil => exact Option.map_id'.symm
  | cons d ds ih =>
    obtain ⟨⟨hquote, hbackslash⟩, hds⟩ := List.forall_mem_cons.mp h
    rw [List.cons_append, closingQuote?, if_neg hquote, decide_eq_false hbackslash, ih hds,
      Option.map_map]
    rfl

/-- The character after a backslash closes nothing. -/
lemma closingQuote?_backslash (d : Char) (h : ∀ d ∈ ds, d ≠ '"' ∧ d ≠ '\\') (tail : List Char) :
    closingQuote? false ('\\' :: d :: ds ++ tail) =
      (closingQuote? false tail).map (· + (ds.length + 2)) := by
  have hne : '\\' ≠ '"' := by decide
  rw [List.cons_append, List.cons_append, closingQuote?, if_neg hne, decide_eq_true rfl,
    closingQuote?, closingQuote?_append h, Option.map_map, Option.map_map]
  rfl

/-- A digit is neither a quote nor a backslash. -/
lemma ne_of_isHexDigit (h : isHexDigit d.toNat) : d ≠ '"' ∧ d ≠ '\\' :=
  ⟨ne_of_isDigit h rfl, ne_of_isDigit h rfl⟩

/-- What is written for a code other than a quote holds no quote that closes. -/
lemma Piece.closingQuote?_append (hc : Piece least most c next cs) (hquote : c ≠ 34)
    (tail : List Char) :
    closingQuote? false (cs ++ tail) = (closingQuote? false tail).map (· + cs.length) := by
  cases hc with
  | hex hds =>
    exact closingQuote?_backslash 'x' (fun d hd => ne_of_isHexDigit (hds.digits d hd)) tail
  | octal hds =>
    obtain ⟨d, ds, rfl⟩ := List.exists_cons_of_length_pos hds.least_le
    have hdigits := (List.forall_mem_cons.mp hds.digits).2
    exact closingQuote?_backslash d
      (fun d hd => ne_of_isHexDigit (isHexDigit_of_isOctalDigit (hdigits d hd))) tail
  | letter => exact closingQuote?_backslash _ (List.forall_mem_nil _) tail
  | @literal d hne hd =>
    have hd : d ≠ '"' := by
      rintro rfl
      exact hquote hd.symm
    exact Escape.closingQuote?_append (List.forall_mem_singleton.mpr ⟨hd, hne⟩) tail

/-- Of two lists that are one when a character is added, the shorter one starts like the other. -/
lemma mem_head?_of_append_eq {xs ys zs : List Char} {q d : Char}
    (h : xs ++ [q] = ys ++ q :: zs) (hd : d ∈ ys.head?) : d ∈ xs.head? := by
  cases ys with
  | nil => cases hd
  | cons y ys =>
    cases xs with
    | nil =>
      rw [List.nil_append, List.cons_append, List.cons.injEq] at h
      exact absurd h.2.symm (List.append_ne_nil_of_right_ne_nil _ (List.cons_ne_nil _ _))
    | cons x xs =>
      rw [List.cons_append, List.cons_append, List.cons.injEq] at h
      rw [h.1]
      exact hd

/-- The text of units between quotes is closed at `front`: at its end, or where the first quote is
written. -/
structure ClosedAt (units : List UInt16) (front back : List Char) : Prop where
  text_eq : wide units ++ ['"'] = front ++ '"' :: back
  closes : closingQuote? false (front ++ '"' :: back) = some front.length
  back_eq_nil_iff : back = [] ↔ 34 ∉ units
  reads : 34 ∈ units →
    unescape 1 4 front = (units.takeWhile (· ≠ 34)).map UInt16.toNat

/-- A text that begins with a quote is closed before it begins. -/
lemma closedAt_quote (rest : List UInt16) : ClosedAt (34 :: rest) [] (wide rest ++ ['"']) where
  text_eq := rfl
  closes := rfl
  back_eq_nil_iff := by simp
  reads _ := by rw [unescape]; rfl

/-- A text of which nothing is written is closed at its end. -/
lemma closedAt_of_wide_eq_nil (h : wide units = []) (hunits : 34 ∉ units) :
    ClosedAt units [] [] where
  text_eq := by rw [h]
  closes := rfl
  back_eq_nil_iff := iff_of_true rfl hunits
  reads hmem := absurd hmem hunits

/-- A unit before the closing quote that is no quote itself. -/
lemma ClosedAt.cons {u : UInt16} {rest : List UInt16} (h : ClosedAt rest front back)
    (htext : wide (u :: rest) = cs ++ wide rest)
    (hpiece : Piece 1 4 u.toNat (rest.map UInt16.toNat).head? cs) (hu : u ≠ 34) :
    ClosedAt (u :: rest) (cs ++ front) back where
  text_eq := by rw [htext, List.append_assoc, h.text_eq, List.append_assoc]
  closes := by
    have hquote : u.toNat ≠ 34 := fun hu' => hu (UInt16.toNat_inj.mp hu')
    rw [List.append_assoc, hpiece.closingQuote?_append hquote, h.closes, Option.map_some,
      List.length_append, Nat.add_comm]
  back_eq_nil_iff := by
    rw [h.back_eq_nil_iff, List.mem_cons, not_or]
    exact (and_iff_right hu.symm).symm
  reads hmem := by
    have hrest : 34 ∈ rest := (List.mem_cons.mp hmem).resolve_left hu.symm
    have hfollow : Follow (rest.map UInt16.toNat).head? front := fun d hd =>
      (written_wide rest).follow d (mem_head?_of_append_eq h.text_eq hd)
    rw [hpiece.unescape_append hfollow, h.reads hrest,
      List.takeWhile_cons_of_pos (by simpa using hu)]
    rfl

/-- The text of units between quotes is closed somewhere. -/
lemma exists_closedAt (units : List UInt16) : ∃ front back, ClosedAt units front back := by
  induction units with
  | nil => exact ⟨[], [], closedAt_of_wide_eq_nil rfl List.not_mem_nil⟩
  | cons u rest ih =>
    by_cases hu : u = 34
    · rw [hu]
      exact ⟨_, _, closedAt_quote rest⟩
    · by_cases hzero : u = 0 ∧ rest = []
      · obtain ⟨rfl, rfl⟩ := hzero
        exact ⟨[], [], closedAt_of_wide_eq_nil rfl (by decide)⟩
      · obtain ⟨front, back, h⟩ := ih
        obtain ⟨cs, htext, hpiece⟩ := exists_piece_wide hzero
        exact ⟨_, _, h.cons htext hpiece hu⟩

/-! ## Literals -/

/-- What the characters after a backslash stand for, and how many of them belong to it. Of octal
digits up to three do, and of hexadecimal digits as many as there are. That `\e` is the escape
character is an extension of the language. -/
def escapeIn? (extended : Bool) : List Char → Option (Nat × Nat)
  | [] => none
  | d :: rest =>
    if d = '\'' ∨ d = '"' ∨ d = '?' then some (d.toNat, 1)
    else if d = 'e' ∧ !extended then none
    else escape? 1 rest.length (d :: rest)

/-- The codes for which characters stand up to a quote with nothing behind it. An escape that does
not exist or does not fit into a byte makes no literal, and neither does a line break. Trigraphs are
not looked for. -/
def contents? (extended : Bool) : List Char → Option (List Nat)
  | [] => none
  | d :: rest =>
    if d = '"' then
      if rest = [] then some [] else none
    else if d = '\n' then none
    else if d = '\\' then
      match escapeIn? extended rest with
      | some (n, length) =>
        if n < 256 then (contents? extended (rest.drop length)).map (n :: ·) else none
      | none => none
    else
      (contents? extended rest).map (d.toNat :: ·)
termination_by cs => cs.length
decreasing_by all_goals simp only [List.length_drop, List.length_cons]; omega

/-- The codes for which a string literal stands. -/
def literal? (extended : Bool) : List Char → Option (List Nat)
  | '"' :: rest => contents? extended rest
  | _ => none

/-- A byte can be written in a literal as it is in escaped text before the next one: it is no quote,
its escape exists, and a hexadecimal escape of it takes no digit more. -/
structure Safe (extended : Bool) (b : UInt8) (next : Option UInt8) : Prop where
  ne_quote : b ≠ 34
  ne_escape : b = 27 → extended
  apart : 127 < b.toNat → ∀ c ∈ next, isHexDigit c.toNat = false

/-- Every byte can be written in a literal as it is in escaped text. -/
structure SafeAll (extended : Bool) (bytes : Bytes) : Prop where
  quote_notMem : 34 ∉ bytes
  escape_notMem : 27 ∈ bytes → extended
  apart : bytes.IsChain fun b c => 127 < b.toNat → isHexDigit c.toNat = false

variable {extended : Bool} {b : UInt8} {rest : Bytes}

/-- A text is safe when its first byte is, given the next one, and the rest is. -/
lemma safeAll_cons : SafeAll extended (b :: rest) ↔
    Safe extended b rest.head? ∧ SafeAll extended rest := by
  constructor
  · rintro ⟨hquote, hescape, hapart⟩
    rw [List.mem_cons, not_or] at hquote
    rw [List.isChain_cons] at hapart
    exact ⟨⟨Ne.symm hquote.1, fun h => hescape (h ▸ List.mem_cons_self),
        fun h c hc => hapart.1 c hc h⟩,
      hquote.2, fun h => hescape (List.mem_cons_of_mem b h), hapart.2⟩
  · rintro ⟨⟨hquote, hescape, hapart⟩, hquotes, hescapes, haparts⟩
    refine ⟨?_, fun h => ?_, List.isChain_cons.mpr ⟨fun c hc h => hapart h c hc, haparts⟩⟩
    · rw [List.mem_cons, not_or]
      exact ⟨Ne.symm hquote, hquotes⟩
    · obtain h | h := List.mem_cons.mp h
      · exact hescape h.symm
      · exact hescapes h

/-- What it takes to be safe is a matter of the code. -/
lemma safe_iff {next : Option UInt8} : Safe extended b next ↔
    b.toNat ≠ 34 ∧ (b.toNat = 27 → extended) ∧
      (127 < b.toNat → ¬ (next.any fun c => isHexDigit c.toNat) = true) := by
  have hquote : b ≠ 34 ↔ b.toNat ≠ 34 := UInt8.toNat_inj.not.symm
  have hescape : b = 27 ↔ b.toNat = 27 := UInt8.toNat_inj.symm
  have hnext : (∀ c ∈ next, isHexDigit c.toNat = false) ↔
      ¬ (next.any fun c => isHexDigit c.toNat) = true := by
    simp only [Bool.not_eq_true, Option.any_eq_false, Option.mem_def]
  rw [← hquote, ← hescape, ← hnext]
  exact ⟨fun ⟨h₁, h₂, h₃⟩ => ⟨h₁, h₂, h₃⟩, fun ⟨h₁, h₂, h₃⟩ => ⟨h₁, h₂, h₃⟩⟩

/-! ## Reading a piece -/

/-- Behind a backslash an escape is read, and its value must be that of a byte. -/
lemma contents?_backslash (cs : List Char) :
    contents? extended ('\\' :: cs) = (escapeIn? extended cs).bind fun p =>
      if p.1 < 256 then (contents? extended (cs.drop p.2)).map (p.1 :: ·) else none := by
  rw [contents?, if_neg (by decide), if_neg (by decide), if_pos rfl]
  cases escapeIn? extended cs <;> rfl

/-- An escape that stands for a byte is read, whatever comes after it. -/
lemma contents?_of_escapeIn? (h : escapeIn? extended (cs ++ tail) = some (c, cs.length))
    (hc : c < 256) :
    contents? extended ('\\' :: (cs ++ tail)) = (contents? extended tail).map (c :: ·) := by
  rw [contents?_backslash, h, Option.bind_some, if_pos hc, List.drop_left]

/-- Apart from the three marks, escapes are read in both ways alike. -/
lemma escapeIn?_eq_escape? (hd : d ≠ '\'' ∧ d ≠ '"' ∧ d ≠ '?') (he : d = 'e' → extended)
    (cs : List Char) : escapeIn? extended (d :: cs) = escape? 1 cs.length (d :: cs) := by
  have hextended : ¬ (d = 'e' ∧ !extended) := by
    rintro ⟨hd', hnot⟩
    rw [he hd'] at hnot
    cases hnot
  rw [escapeIn?, if_neg (by simpa only [not_or] using hd), if_neg hextended]

/-- More digits make a number no smaller. -/
lemma le_foldl_digits (n : Nat) (ds : List Char) :
    n ≤ ds.foldl (fun n d => 16 * n + digitValue d) n := by
  induction ds generalizing n with
  | nil => exact Nat.le_refl n
  | cons d ds ih =>
    rw [List.foldl_cons]
    exact Nat.le_trans (by omega) (ih _)

/-- All digits at the front belong to a hexadecimal escape. -/
lemma escapeIn?_hex (hds : ∀ d ∈ ds, isHexDigit d.toNat) (hpos : 0 < ds.length)
    (tail : List Char) :
    escapeIn? extended ('x' :: (ds ++ tail)) =
      some (valueOf 16 (ds ++ tail.takeWhile fun d => isHexDigit d.toNat),
        (ds ++ tail.takeWhile fun d => isHexDigit d.toNat).length + 1) := by
  have hdigits : digitsAt isHexDigit (ds ++ tail).length (ds ++ tail) =
      ds ++ tail.takeWhile fun d => isHexDigit d.toNat := by
    rw [digitsAt, List.take_length, List.takeWhile_append_of_pos hds]
  have hleast : 1 ≤ (ds ++ tail.takeWhile fun d => isHexDigit d.toNat).length := by
    rw [List.length_append]
    omega
  rw [escapeIn?_eq_escape? (by decide) fun hx => absurd hx (by decide), escape?, if_pos rfl,
    number?, hdigits, if_pos hleast]
  rfl

/-- An octal escape takes the digits that are written for it. -/
lemma escapeIn?_octal (hds : Numeral isOctalDigit 8 1 3 c next ds)
    (htail : next.any isOctalDigit = false → ∀ d ∈ tail.head?, isOctalDigit d.toNat = false) :
    escapeIn? extended (ds ++ tail) = some (c, ds.length) := by
  have hnumber : escape? 1 (ds ++ tail).length.pred (ds ++ tail) = some (c, ds.length) :=
    hds.escape?_octal htail
  obtain ⟨d, ds, rfl⟩ := List.exists_cons_of_length_pos hds.least_le
  have hne {x : Char} (hx : isOctalDigit x.toNat = false) : d ≠ x :=
    ne_of_isDigit (hds.digits d List.mem_cons_self) hx
  rw [List.cons_append,
    escapeIn?_eq_escape? ⟨hne rfl, hne rfl, hne rfl⟩ fun h => absurd h (hne rfl)]
  exact hnumber

/-- The letter of a control character is read, but for that of the escape character, which only the
extended language has. -/
lemma escapeIn?_letter {l : Char} (h : letter? c = some l) (tail : List Char) :
    escapeIn? extended (l :: tail) = if c = 27 ∧ !extended then none else some (c, 1) := by
  obtain ⟨hx, hl⟩ := ofLetter?_of_letter? h
  have hquote : l ≠ '\'' ∧ l ≠ '"' ∧ l ≠ '?' := by
    refine ⟨?_, ?_, ?_⟩ <;> rintro rfl <;> cases hl
  split
  · next hescape =>
    obtain ⟨rfl, hextended⟩ := hescape
    cases h
    rw [escapeIn?, if_neg (by decide), if_pos ⟨rfl, hextended⟩]
  · next hescape =>
    have he : l = 'e' → extended := by
      rintro rfl
      cases hl
      simpa using hescape
    rw [escapeIn?_eq_escape? hquote he, escape?, if_neg hx, hl]

/-- A hexadecimal escape of a byte is read unless another digit follows, which makes the number too
large for a byte. -/
lemma contents?_hex (hb : 127 < b.toNat) (tail : List Char) :
    contents? extended ('\\' :: 'x' :: (padLeft 2 '0' (hexDigits b.toNat) ++ tail)) =
      if tail.head?.any fun d => isHexDigit d.toNat then none
      else (contents? extended tail).map (b.toNat :: ·) := by
  have hnumeral : Numeral isHexDigit 16 2 2 b.toNat none (padLeft 2 '0' (hexDigits b.toNat)) :=
    numeral_padLeft (by decide) (by decide) isHexDigit_digitChar (by decide) b.toNat_lt
      (by decide) _
  obtain ⟨hds, hvalue, hleast, -, -⟩ := hnumeral
  -- Only the value of the digits matters from here on.
  generalize padLeft 2 '0' (hexDigits b.toNat) = ds at hds hvalue hleast
  have hread : escapeIn? extended ('x' :: (ds ++ tail)) = _ :=
    escapeIn?_hex hds (Nat.lt_of_lt_of_le Nat.two_pos hleast) tail
  cases tail with
  | nil =>
    have hnone : (ds ++ [].takeWhile fun d => isHexDigit d.toNat) = ds := List.append_nil ds
    rw [hnone, hvalue, ← List.length_cons (a := 'x'), ← List.cons_append] at hread
    exact contents?_of_escapeIn? hread b.toNat_lt
  | cons d tail =>
    rw [List.head?_cons, Option.any_some]
    rw [List.takeWhile_cons] at hread
    split
    -- A hex digit behind the escape is read as part of it, and the value no longer fits into a
    -- byte.
    · next hd =>
      have hle := le_foldl_digits (16 * b.toNat + digitValue d)
        (tail.takeWhile fun d => isHexDigit d.toNat)
      rw [if_pos hd, valueOf, List.foldl_append, ← valueOf, hvalue, List.foldl_cons] at hread
      rw [contents?_backslash, hread, Option.bind_some, if_neg (by dsimp only; omega)]
    · next hd =>
      rw [if_neg hd, List.append_nil, hvalue, ← List.length_cons (a := 'x'), ← List.cons_append]
        at hread
      exact contents?_of_escapeIn? hread b.toNat_lt

/-- A control character is read, but for the escape character, which has its letter only in the
extended language. -/
lemma contents?_control (hc : c < 32)
    (htail : next.any isOctalDigit = false → ∀ d ∈ tail.head?, isOctalDigit d.toNat = false) :
    contents? extended (control c next ++ tail) =
      if c = 27 ∧ !extended then none else (contents? extended tail).map (c :: ·) := by
  have hbyte : c < 256 := Nat.lt_trans hc (by decide)
  obtain ⟨l, hletter, hcontrol⟩ | ⟨ds, hletter, hds, hcontrol⟩ := control_cases hc next
  · have hread : escapeIn? extended ([l] ++ tail) = _ := escapeIn?_letter hletter tail
    rw [hcontrol]
    split
    · next hescape =>
      rw [if_pos hescape] at hread
      rw [List.cons_append, contents?_backslash, hread, Option.bind_none]
    · next hescape =>
      rw [if_neg hescape] at hread
      exact contents?_of_escapeIn? hread hbyte
  · have hne : c ≠ 27 := by
      rintro rfl
      cases hletter
    rw [if_neg fun h => hne h.1, hcontrol]
    exact contents?_of_escapeIn? (escapeIn?_octal hds htail) hbyte

/-- Any other ASCII character is read, but for the quote, which ends the literal too early. -/
lemma contents?_plain (hlow : 0x20 ≤ c) (hhigh : c ≤ 0x7F) (htail : tail ≠ []) :
    contents? extended (plain c ++ tail) =
      if c = 34 then none else (contents? extended tail).map (c :: ·) := by
  have hvalid : c.isValidChar := .inl (by omega)
  have hc : (Char.ofNat c).toNat = c := by rw [Char.toNat_ofNat, if_pos hvalid]
  have hne (d : Char) (hd : c ≠ d.toNat) : Char.ofNat c ≠ d := fun h => hd (h ▸ hc.symm)
  rw [plain]
  by_cases hbackslash : c = 92
  · rw [if_pos hbackslash, if_neg (by omega), hbackslash]
    have hread : escapeIn? extended (['\\'] ++ tail) = some (92, ['\\'].length) := by
      rw [List.singleton_append, escapeIn?_eq_escape? (by decide) fun h => absurd h (by decide)]
      rfl
    exact contents?_of_escapeIn? hread (by decide)
  · rw [if_neg hbackslash, List.singleton_append, contents?]
    by_cases hquote : c = 34
    · rw [if_pos hquote, hquote, if_pos rfl, if_neg htail]
    · have hfeed : c ≠ '\n'.toNat := by
        rintro rfl
        exact absurd hlow (by decide)
      rw [if_neg hquote, if_neg (hne '"' hquote), if_neg (hne '\n' hfeed),
        if_neg (hne '\\' hbackslash), hc]

/-! ## Reading a text -/

/-- Before the closing quote no digit is written when no digit comes next. -/
lemma Follow.isDigit_head?_append {isDigit : Nat → Bool} (h : Follow next cs)
    (hbackslash : isDigit '\\'.toNat = false) (hquote : isDigit '"'.toNat = false)
    (hnext : next.any isDigit = false) : ∀ d ∈ (cs ++ ['"']).head?, isDigit d.toNat = false := by
  cases cs with
  | nil =>
    rintro d ⟨⟩
    exact hquote
  | cons d cs => exact h.isDigit_head? hbackslash hnext

/-- Behind a byte comes what is printed for the rest. -/
lemma follow_narrow (rest : Bytes) : Follow (rest.head?.map UInt8.toNat) (narrow rest) := by
  have h := (written_narrow rest).follow
  rwa [List.head?_map] at h

/-- A hexadecimal digit is written as it is. -/
lemma narrow_of_isHexDigit (h : isHexDigit b.toNat) :
    narrow (b :: rest) = Char.ofNat b.toNat :: narrow rest := by
  simp only [isHexDigit, Bool.or_eq_true, Bool.and_eq_true, decide_eq_true_eq] at h
  rw [narrow, if_neg (by omega), if_neg (by omega), plain, if_neg (by omega)]
  rfl

/-- Behind a byte comes a hexadecimal digit exactly when the next byte is one. -/
lemma any_head?_narrow (rest : Bytes) :
    ((narrow rest ++ ['"']).head?.any fun d => isHexDigit d.toNat) =
      rest.head?.any fun c => isHexDigit c.toNat := by
  by_cases hnext : (rest.head?.any fun c => isHexDigit c.toNat) = true
  · cases rest with
    | nil => cases hnext
    | cons c rest =>
      have hc : isHexDigit c.toNat = true := hnext
      have hchar : (Char.ofNat c.toNat).toNat = c.toNat := by
        rw [Char.toNat_ofNat, if_pos (.inl (Nat.lt_trans c.toNat_lt (by decide)))]
      rw [hnext, narrow_of_isHexDigit hc, List.cons_append, List.head?_cons, Option.any_some,
        hchar, hc]
  · rw [Bool.not_eq_true] at hnext
    have hcode : (rest.head?.map UInt8.toNat).any isHexDigit = false := by rwa [Option.any_map]
    have hhead := (follow_narrow rest).isDigit_head?_append rfl rfl hcode
    rw [hnext, Option.any_eq_false]
    intro d hd
    rw [hhead d hd]

/-- A byte that is written is read before the text of the bytes after it when it is safe there. -/
lemma contents?_narrow_cons (hkept : ¬ (b = 0 ∧ rest = [])) {codes : List Nat} :
    contents? extended (narrow (b :: rest) ++ ['"']) = some codes ↔
      Safe extended b rest.head? ∧
        (contents? extended (narrow rest ++ ['"'])).map (b.toNat :: ·) = some codes := by
  rw [narrow, if_neg hkept, List.append_assoc, safe_iff]
  split_ifs with hwide hcontrol
  · rw [List.cons_append, List.cons_append, contents?_hex hwide, any_head?_narrow,
      Option.ite_none_left_eq_some]
    have hne : b.toNat ≠ 34 ∧ b.toNat ≠ 27 := by omega
    simp only [hne, hwide, ne_eq, not_false_eq_true, false_imp_iff, forall_const, true_and]
  · rw [contents?_control hcontrol ((follow_narrow rest).isDigit_head?_append rfl rfl),
      Option.ite_none_left_eq_some]
    have hne : b.toNat ≠ 34 := by omega
    simp only [hne, hwide, ne_eq, not_false_eq_true, false_imp_iff, and_true, true_and, not_and,
      Bool.not_eq_eq_eq_not, Bool.not_true, Bool.not_eq_false]
  · rw [contents?_plain (Nat.le_of_not_lt hcontrol) (Nat.le_of_not_lt hwide)
        (List.append_ne_nil_of_right_ne_nil _ (List.cons_ne_nil _ _)),
      Option.ite_none_left_eq_some]
    have hne : b.toNat ≠ 27 := by omega
    simp only [hne, hwide, ne_eq, false_imp_iff, and_true]

/-- A text is read as it should be when each of its bytes is safe where it stands. -/
lemma contents?_narrow {bytes : Bytes} {codes : List Nat} :
    contents? extended (narrow bytes ++ ['"']) = some codes ↔
      codes = withoutFinalZero (bytes.map UInt8.toNat) ∧ SafeAll extended bytes := by
  have hempty : contents? extended ['"'] = some [] := by rw [contents?]; rfl
  induction bytes generalizing codes with
  | nil =>
    have hsafe : SafeAll extended [] := ⟨List.not_mem_nil, nofun, .nil⟩
    have hcodes : withoutFinalZero [] = [] := rfl
    rw [narrow, List.nil_append, hempty, List.map_nil, hcodes, and_iff_left hsafe, Option.some_inj,
      eq_comm]
  | cons b rest ih =>
    -- A last zero is a case of its own, since it is left out of the text.
    by_cases hzero : b = 0 ∧ rest = []
    · obtain ⟨rfl, rfl⟩ := hzero
      have hsafe : SafeAll extended [0] := ⟨by decide, fun h => absurd h (by decide), .singleton 0⟩
      have hcodes : withoutFinalZero ([0].map UInt8.toNat) = [] := rfl
      have htext : narrow [0] = [] := rfl
      rw [htext, List.nil_append, hempty, hcodes, and_iff_left hsafe, Option.some_inj, eq_comm]
    · have hkept : ¬ (b.toNat = 0 ∧ rest.map UInt8.toNat = []) := by
        simpa [← UInt8.toNat_inj] using hzero
      rw [contents?_narrow_cons hzero, safeAll_cons, Option.map_eq_some_iff, List.map_cons,
        withoutFinalZero_cons hkept]
      constructor
      · rintro ⟨hb, tail, htail, rfl⟩
        obtain ⟨rfl, hrest⟩ := ih.mp htail
        exact ⟨rfl, hb, hrest⟩
      · rintro ⟨rfl, hb, hrest⟩
        exact ⟨hb, _, ih.mpr ⟨rfl, hrest⟩, rfl⟩

/-! ## Text as a literal -/

/-- A wide literal is closed at the first quote of its text, so at its end exactly when there is
none, and what stands before that reads back as the units before it. Text of bytes is a literal
exactly when each byte is safe where it stands, and then one of these bytes without a zero at their
end. -/
theorem closingQuote?_and_literal?_iff (units : List UInt16) (extended : Bool) (bytes : Bytes)
    (codes : List Nat) :
    (∃ front back, wideLiteral units = 'L' :: '"' :: (front ++ '"' :: back) ∧
      closingQuote? false (front ++ '"' :: back) = some front.length ∧
      (back = [] ↔ 34 ∉ units) ∧
      (34 ∈ units → unescape 1 4 front = (units.takeWhile (· ≠ 34)).map UInt16.toNat)) ∧
    (literal? extended (narrowLiteral bytes) = some codes ↔
      codes = withoutFinalZero (bytes.map UInt8.toNat) ∧ SafeAll extended bytes) := by
  constructor
  · obtain ⟨front, back, h⟩ := exists_closedAt units
    refine ⟨front, back, ?_, h.closes, h.back_eq_nil_iff, h.reads⟩
    rw [← h.text_eq]
    rfl
  · exact contents?_narrow

/-- A quote after an escaped backslash closes the text; a digit after a hexadecimal escape belongs
to it, but no other letter does. -/
theorem closingQuote?_and_literal?_iff_backslash :
    34 ∈ ([92, 34, 65] : List UInt16) ∧
    wideLiteral [92, 34, 65] = "L\"\\\\\"A\"".toList ∧
    unescape 1 4 "\\\\".toList = [92] ∧
    narrowLiteral [0xE9, 0x67, 92, 0] = "\"\\xe9g\\\\\"".toList ∧
    literal? false (narrowLiteral [0xE9, 0x67, 92, 0]) = some [0xE9, 0x67, 92] := by
  obtain ⟨⟨front, back, htext, hcloses, -, hfront⟩, hread⟩ :=
    closingQuote?_and_literal?_iff [92, 34, 65] false [0xE9, 0x67, 92, 0] [0xE9, 0x67, 92]
  have htail : front ++ '"' :: back = (wideLiteral [92, 34, 65]).drop 2 := by rw [htext]; rfl
  have hplace : closingQuote? false ((wideLiteral [92, 34, 65]).drop 2) = some 2 := by decide
  have hlength : front.length = 2 := Option.some.inj (by rw [← hcloses, htail, hplace])
  have heq : front = "\\\\".toList := by
    have htake : (front ++ '"' :: back).take front.length = front := List.take_left
    rw [← htake, hlength, htail]
    decide
  have hmem : 34 ∈ ([92, 34, 65] : List UInt16) := by decide
  have hsafe : SafeAll false [0xE9, 0x67, 92, 0] := by
    refine ⟨by decide, fun h => absurd h (by decide), ?_⟩
    simp only [List.isChain_cons_cons]
    decide
  rw [heq] at hfront
  exact ⟨hmem, by decide, hfront hmem, by decide, hread.mpr ⟨rfl, hsafe⟩⟩

/-- Text with a quote is closed too early, and a hexadecimal escape before a digit takes it. -/
theorem exists_literal_ne :
    (wideLiteral [34]).length = 4 ∧ closingQuote? false ((wideLiteral [34]).drop 2) = some 0 ∧
    (∀ extended, literal? extended (narrowLiteral [34]) = none) ∧
    ∀ extended, literal? extended (narrowLiteral [0xE9, 0x62]) = none := by
  have hnone {bytes : Bytes} {extended : Bool} (h : ¬ SafeAll extended bytes) :
      literal? extended (narrowLiteral bytes) = none :=
    Option.eq_none_iff_forall_ne_some.mpr fun codes hcodes => h (contents?_narrow.mp hcodes).2
  refine ⟨by decide, by decide, fun extended => hnone ?_, fun extended => hnone ?_⟩
  · exact fun h => h.quote_notMem List.mem_cons_self
  · exact fun h => absurd (List.isChain_cons_cons.mp h.apart).1 (by decide)

end PeCoff.Text.Escape
