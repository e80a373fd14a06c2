import Mathlib
import PeCoff.Proofs.Machine.Access
import PeCoff.Proofs.Walk

/-!
# Memory on a machine

Addresses have 32 bits. A reader answers for a range of addresses, and it serves a memory when it
gives the same bytes for all addresses and lengths that a machine can ask for. The main statements
are `memory_serves`, by which the sections of an image serve its memory, `text_eq`, by which strings
are followed to their ends without a fault, and `walk_settles`, by which tables are followed in any
memory, also in one that answers with too few bytes.
-/

namespace PeCoff.Machine

/-- What answers requests for the bytes at an address. -/
abbrev Reader := (address length : Nat) → Step (Option Bytes)

/-- A reader gives the bytes of an exact memory wherever a machine can ask for them. -/
structure Reader.Serves (reader : Reader) (memory : Memory) : Prop where
  read_eq : ∀ address length, address < 2 ^ 32 → length < 2 ^ 64 →
    reader address length = .ok (memory address length)
  exact : memory.Exact

/-- A reader gives the bytes of a memory, which need not be exact, wherever a machine can ask for
them. -/
def Reader.Answers (reader : Reader) (memory : Memory) : Prop :=
  ∀ address length, address < 2 ^ 32 → length < 2 ^ 64 →
    reader address length = .ok (memory address length)

/-- A reader that serves a memory answers for it. -/
lemma Reader.Serves.answers {reader : Reader} {memory : Memory} (h : reader.Serves memory) :
    reader.Answers memory :=
  h.read_eq

section Records

variable {reader : Reader} {memory : Memory} {α : Type} {l : Layout α} {address : Nat}

/-- The record at an address. -/
def Reader.record? (reader : Reader) (l : Layout α) (address : Nat) : Step (Option α) := do
  match ← reader address l.size with
  | none => return none
  | some bs => parse l bs

/-- A record is decoded without a fault from whatever is answered, since its length is compared. -/
lemma Reader.Answers.record?_eq (h : reader.Answers memory) (hl : l.size < 2 ^ 64)
    (haddress : address < 2 ^ 32) :
    reader.record? l address = .ok (memory.record? l address) := by
  rw [Reader.record?, h _ _ haddress hl, Memory.record?]
  cases memory address l.size with
  | none => rfl
  | some bs => exact parse_eq_of_size_lt hl

/-- A record of an exact memory is decoded without a fault. -/
lemma Reader.Serves.record?_eq (h : reader.Serves memory) (hl : l.size < 2 ^ 64)
    (haddress : address < 2 ^ 32) :
    reader.record? l address = .ok (memory.record? l address) :=
  h.answers.record?_eq hl haddress

/-- The record at an address, all bytes of which are accessed without a look at how many there
are. -/
def Reader.fetch? (reader : Reader) (l : Layout α) (address : Nat) : Step (Option α) := do
  match ← reader address l.size with
  | none => return none
  | some bs => return some (← fetch l bs 0)

/-- Only an answer with too few bytes can be a fault. -/
lemma Reader.Answers.fetch?_settles (h : reader.Answers memory) (hl : l.size < 2 ^ 64)
    (haddress : address < 2 ^ 32) :
    Settles (¬ memory.Exact) (reader.fetch? l address) (memory.record? l address) := by
  rw [Reader.fetch?, h _ _ haddress hl, Memory.record?]
  cases hbs : memory address l.size with
  | none => exact .ok none
  | some bs =>
    simp only [ok_bind, Option.bind_some]
    obtain ⟨hdecode, hfetch⟩ | ⟨hshort, hdecode, hfetch⟩ := fetch_front_cases bs hl
    · rw [hfetch, hdecode]
      exact .ok _
    · rw [hfetch]
      exact .stop (fun hexact => absurd (hexact _ _ _ hbs) (Nat.ne_of_lt hshort)) _

/-- A record of an exact memory is fetched without a fault. -/
lemma Reader.Serves.fetch?_eq (h : reader.Serves memory) (hl : l.size < 2 ^ 64)
    (haddress : address < 2 ^ 32) :
    reader.fetch? l address = .ok (memory.record? l address) :=
  (h.answers.fetch?_settles hl haddress).eq_ok (not_not.mpr h.exact)

end Records

/-! ## Sections -/

/-- Whether a section holds a range of addresses. The end of the range may not fit. -/
def maps (s : SectionHeader) (address length : Nat) : Step Bool :=
  match checkedAdd 64 address length with
  | none => return false
  | some stop => do
    if s.virtualAddress.toNat ≤ address then
      let sectionEnd ← add 64 s.virtualAddress.toNat s.sizeOfRawData.toNat
      return stop ≤ sectionEnd
    else
      return false

/-- The first of some sections that holds a range of addresses. -/
def findSection (address length : Nat) : List SectionHeader → Step (Option SectionHeader)
  | [] => return none
  | s :: rest => do
    if ← maps s address length then return some s
    findSection address length rest

/-- The file offset of a range of addresses. -/
def resolve (sections : List SectionHeader) (address length : Nat) : Step (Option Nat) := do
  if address = 0 then return none
  match ← findSection address length sections.reverse with
  | none => return none
  | some s =>
    let distance ← sub address s.virtualAddress.toNat
    return some (← add 64 s.pointerToRawData.toNat distance)

/-- Whether a section holds a range is told without an overflow: a range whose end does not fit is
in no section. -/
lemma maps_eq (s : SectionHeader) (address length : Nat) :
    maps s address length = .ok (s.maps address length) := by
  have haddress := s.virtualAddress.toNat_lt
  have hsize := s.sizeOfRawData.toNat_lt
  rw [maps, SectionHeader.maps]
  by_cases hsum : address + length < 2 ^ 64
  · rw [checkedAdd_eq hsum]
    simp only
    by_cases hle : s.virtualAddress.toNat ≤ address
    · rw [if_pos hle, add_eq (by omega)]
      simp [hle]
    · rw [if_neg hle]
      simp [hle]
  · rw [checkedAdd_eq_none (Nat.not_lt.mp hsum)]
    have hnot : ¬ address + length ≤ s.virtualAddress.toNat + s.sizeOfRawData.toNat := by omega
    simp [hnot]

/-- The first section that holds a range is found without a fault. -/
lemma findSection_eq (address length : Nat) (sections : List SectionHeader) :
    findSection address length sections =
      .ok (sections.find? fun s => s.maps address length) := by
  induction sections with
  | nil => rfl
  | cons s rest ih =>
    rw [findSection, maps_eq]
    cases hs : s.maps address length with
    | true => simp [hs]
    | false => simp [hs, ih]

/-- A range of addresses is placed in the file without an overflow. -/
lemma resolve_eq (sections : List SectionHeader) (address length : Nat) :
    resolve sections address length = .ok (SectionHeader.resolve sections address length) := by
  rw [resolve, SectionHeader.resolve]
  by_cases hzero : address = 0
  · simp [hzero]
  rw [if_neg hzero, if_neg hzero, findSection_eq]
  cases hfind : sections.reverse.find? fun s => s.maps address length with
  | none => rfl
  | some s =>
    have hmaps : s.maps address length :=
      List.find?_some (p := fun s : SectionHeader => s.maps address length) hfind
    simp only [SectionHeader.maps, Bool.and_eq_true, decide_eq_true_eq] at hmaps
    obtain ⟨hle, hend⟩ := hmaps
    have haddress := s.virtualAddress.toNat_lt
    have hsize := s.sizeOfRawData.toNat_lt
    have hpointer := s.pointerToRawData.toNat_lt
    simp only [ok_bind, sub_eq hle]
    rw [add_eq (by omega)]
    rfl

/-- The bytes of an image at an address. -/
def memory (e : Executable) : Reader := fun address length => do
  match ← resolve e.sections address length with
  | none => return none
  | some offset => return readFile e.image offset length

/-- The sections of an executable serve its memory. -/
theorem memory_serves {e : Executable} (h : Fits e.image) : (memory e).Serves e.memory where
  read_eq address length haddress _ := by
    rw [memory, resolve_eq, Executable.memory, Executable.fileOffset]
    cases SectionHeader.resolve e.sections address length with
    | none => rfl
    | some offset => simp [readFile_eq h]
  exact := e.memory_exact

/-! ## Strings -/

variable {reader : Reader} {address : Nat}

/-- One more byte of a string, whose length is counted. -/
def stringTurn (reader : Reader) (address length : Nat) : Step (Nat ⊕ Nat) := do
  if length < Image.maxString then
    match checkedAdd 32 address length with
    | none => return .inr length
    | some place =>
      match ← reader place 1 with
      | none => return .inr length
      | some bs => if bs = [0] then return .inr length else return .inl (← add 64 length 1)
  else
    return .inr length

/-- The zero-terminated string at an address. -/
def string (reader : Reader) (address : Nat) : Step (Option Bytes) := do
  let length ← loop (stringTurn reader address) 0
  if length = 0 then
    match ← reader address 1 with
    | none => return none
    | some bs => return some (← slice bs 0 0)
  else
    reader address length

/-- The string at an address as text. -/
def text (reader : Reader) (address : Nat) : Step (Option String) := do
  return (← string reader address).map Text.ofUtf8

section Strings

variable {memory : Memory}

/-- A string is not followed past its limit. -/
lemma stringLength_le (memory : Memory) (limit address : Nat) :
    memory.stringLength limit address ≤ limit := by
  induction limit generalizing address with
  | zero => rfl
  | succ limit ih =>
    rw [Memory.stringLength]
    split
    · omega
    · split
      · omega
      · split
        · omega
        · exact Nat.succ_le_succ (ih _)

/-- At each turn the bytes counted so far and those that still follow make up the string. -/
lemma iterate_stringTurn_eq (h : reader.Answers memory) {turns : Nat}
    (hturns : Image.maxString < turns) :
    iterate (stringTurn reader address) turns 0 =
      .ok (memory.stringLength Image.maxString address) := by
  have hzero : memory.stringLength Image.maxString address =
      0 + memory.stringLength (Image.maxString - 0) (address + 0) := by simp
  rw [hzero]
  refine iterate_eq (fun length => length ≤ Image.maxString) (fun length => Image.maxString - length)
    (fun length => length + memory.stringLength (Image.maxString - length) (address + length))
    ?_ (Nat.zero_le _) hturns
  intro length hlength
  rw [stringTurn]
  by_cases hlimit : length < Image.maxString
  · rw [if_pos hlimit]
    obtain ⟨rest, hrest⟩ : ∃ rest, Image.maxString - length = rest + 1 :=
      ⟨Image.maxString - length - 1, by omega⟩
    rw [hrest, Memory.stringLength]
    -- Past the last address both sides stop, the one since a sum does not fit.
    by_cases hplace : address + length < 2 ^ 32
    · rw [checkedAdd_eq hplace, if_neg (by simp only [addressLimit]; omega)]
      simp only [h _ 1 hplace (by decide), ok_bind]
      cases memory (address + length) 1 with
      | none => exact .inl rfl
      | some bs =>
        simp only
        by_cases hnul : bs = [0]
        · rw [if_pos hnul, if_pos hnul]
          exact .inl rfl
        · rw [if_neg hnul, if_neg hnul,
            add_eq (by simp only [Image.maxString] at hlimit; omega)]
          refine .inr ⟨length + 1, rfl, hlimit, by omega, ?_⟩
          rw [show Image.maxString - (length + 1) = rest by omega, Nat.add_assoc address]
          omega
    · rw [checkedAdd_eq_none (Nat.not_lt.mp hplace),
        if_pos (by simp only [addressLimit]; omega)]
      exact .inl rfl
  · rw [if_neg hlimit, show Image.maxString - length = 0 by omega]
    exact .inl rfl

/-- A string is read without a fault, whether its bytes are answered for one by one or together. -/
lemma Reader.Answers.string_eq (h : reader.Answers memory) (haddress : address < 2 ^ 32) :
    string reader address = .ok (memory.string address) := by
  have hle := stringLength_le memory Image.maxString address
  rw [string, loop, iterate_stringTurn_eq h (by decide), Memory.string]
  simp only [ok_bind]
  cases hlength : memory.stringLength Image.maxString address with
  | zero =>
    rw [if_pos rfl, h _ _ haddress (by decide)]
    cases memory address 1 with
    | none => rfl
    | some bs =>
      simp only [ok_bind]
      rw [slice_eq (Nat.le_refl 0) (Nat.zero_le _)]
      rfl
  | succ length =>
    rw [hlength, Image.maxString] at hle
    rw [if_neg (Nat.succ_ne_zero length), h _ _ haddress (by omega)]

/-- A text is read without a fault. -/
lemma Reader.Answers.text_eq (h : reader.Answers memory) (haddress : address < 2 ^ 32) :
    text reader address = .ok (memory.text address) := by
  rw [text, h.string_eq haddress]
  rfl

/-- A text of an exact memory is read without a fault. -/
lemma text_eq (h : reader.Serves memory) (haddress : address < 2 ^ 32) :
    text reader address = .ok (memory.text address) :=
  h.answers.text_eq haddress

end Strings

/-! ## Tables without a length -/

section Walks

variable {α β : Type} {stride : Nat}

/-- What an element of a table leads to: the next number, or the end of the table. Without its first
element there is no table. -/
def walkNext (number next : Nat) (found : List α) :
    Option (Option α) → (Nat × List α) ⊕ Option (List α)
  | none => .inr (if number = 0 then none else some found)
  | some none => .inr (some found)
  | some (some a) => .inl (next, found ++ [a])

/-- One more element of a table. The number of the next one is computed before the element is
looked at. -/
def walkTurn (stride : Nat) (element : Nat → Step (Option (Option α))) (address : Nat) :
    Nat × List α → Step ((Nat × List α) ⊕ Option (List α)) := fun (number, found) => do
  let next ← add 32 number 1
  let slot ←
    match (checkedMul 32 number stride).bind (checkedAdd 32 address) with
    | none => pure none
    | some place => element place
  return walkNext number next found slot

/-- The elements of a table, up to the first one that cannot be read or ends the table. -/
def walk (stride : Nat) (element : Nat → Step (Option (Option α))) (address : Nat) :
    Step (Option (List α)) :=
  loop (walkTurn stride element address) (0, [])

/-- What the table holds from an element on. -/
def walkResult (stride : Nat) (element : Nat → Option (Option α)) (address : Nat) :
    Nat × List α → Option (List α) := fun (number, found) =>
  if number = 0 ∧ element address = none then none
  else some (found ++ PeCoff.walk stride (fun place => (element place).join)
    (address + number * stride))

/-- The number of an element stays small, since all elements before it have addresses. -/
lemma number_lt {address number : Nat} (hstride : 2 ≤ stride) (h : number ≤ room stride address) :
    number + 1 < 2 ^ 32 := by
  have hroom : ¬ 2 ^ 31 < room stride address := by
    rw [lt_room_iff (by omega), addressLimit]
    have htwo : 2 ^ 31 * 2 ≤ 2 ^ 31 * stride := Nat.mul_le_mul_left _ hstride
    omega
  omega

/-- A word counts all elements that have addresses. -/
lemma room_lt {address : Nat} (hstride : 2 ≤ stride) : room stride address < 2 ^ 64 := by
  have hroom : room stride address + 1 < 2 ^ 32 := number_lt hstride (Nat.le_refl _)
  omega

/-- The element with a number, unless its address does not fit. -/
def slotAt (stride : Nat) (element : Nat → Option (Option α)) (address number : Nat) :
    Option (Option α) :=
  if address + number * stride < 2 ^ 32 then element (address + number * stride) else none

/-- One turn of a walk leads to the next element or to the end, unless an answer is too short. -/
lemma walkTurn_settles {short : Prop} {element : Nat → Step (Option (Option α))}
    {element' : Nat → Option (Option α)} {address number : Nat} (found : List α)
    (hnumber : number + 1 < 2 ^ 32)
    (h : ∀ place < 2 ^ 32, Settles short (element place) (element' place)) :
    Settles short (walkTurn stride element address (number, found))
      (walkNext number (number + 1) found (slotAt stride element' address number)) := by
  rw [walkTurn]
  simp only [add_eq hnumber, ok_bind]
  by_cases hplace : address + number * stride < 2 ^ 32
  · rw [checkedMul_eq (by omega), Option.bind_some, checkedAdd_eq hplace, slotAt, if_pos hplace]
    exact (h _ hplace).bind (.ok _)
  · have hslot : (checkedMul 32 number stride).bind (checkedAdd 32 address) = none := by
      by_cases hoffset : number * stride < 2 ^ 32
      · rw [checkedMul_eq hoffset, Option.bind_some, checkedAdd_eq_none (Nat.not_lt.mp hplace)]
      · rw [checkedMul_eq_none (Nat.not_lt.mp hoffset)]
        rfl
    rw [hslot, slotAt, if_neg hplace]
    exact .ok _

/-- What a table holds from an element on is what the element leads to. -/
lemma walkResult_eq {element : Nat → Option (Option α)} {address number : Nat} (found : List α)
    (hstride : 0 < stride) (haddress : address < 2 ^ 32) :
    walkResult stride element address (number, found) =
      Sum.elim (walkResult stride element address) id
        (walkNext number (number + 1) found (slotAt stride element address number)) := by
  -- The first element has an address, so only its absence makes the table absent.
  have hpresent {slot : Option α} (hslot : slotAt stride element address number = some slot) :
      ¬ (number = 0 ∧ element address = none) := by
    rintro ⟨rfl, hnone⟩
    rw [slotAt, Nat.zero_mul, Nat.add_zero, if_pos haddress, hnone] at hslot
    cases hslot
  -- Without an element the walk is over, be it that the addresses end or that the table does.
  have hend (hslot : (slotAt stride element address number).join = none) :
      PeCoff.walk stride (fun place => (element place).join) (address + number * stride) = [] := by
    rw [slotAt] at hslot
    split at hslot
    · exact walk_of_eq_none hslot
    · exact walk_of_addressLimit_le (by simp only [addressLimit]; omega)
  cases hslot : slotAt stride element address number with
  | none =>
    have hrest := hend (by rw [hslot]; rfl)
    by_cases hfirst : number = 0
    · rw [slotAt, hfirst, Nat.zero_mul, Nat.add_zero, if_pos haddress] at hslot
      simp [walkResult, walkNext, hfirst, hslot]
    · simp [walkResult, walkNext, hfirst, hrest]
  | some slot =>
    cases slot with
    | none => simp [walkResult, walkNext, hpresent hslot, hend (by rw [hslot]; rfl)]
    | some a =>
      rw [slotAt] at hslot
      split at hslot
      · next hplace =>
        have hcons : PeCoff.walk stride (fun place => (element place).join)
            (address + number * stride) = a :: PeCoff.walk stride
              (fun place => (element place).join) (address + number * stride + stride) :=
          walk_of_eq_some hstride (by simpa [addressLimit] using hplace) (by rw [hslot]; rfl)
        have hnone : ¬ (number = 0 ∧ element address = none) :=
          hpresent (by rw [slotAt, if_pos hplace, hslot])
        simp [walkResult, walkNext, hnone, hcons, Nat.succ_mul, Nat.add_assoc]
      · cases hslot

/-- A walk ends within one more turn than elements can have addresses, if each of its elements is
found or stops at a table that is too short. -/
theorem walk_settles {short : Prop} {element : Nat → Step (Option (Option α))}
    {element' : Nat → Option (Option α)} {address turns : Nat} (hstride : 2 ≤ stride)
    (haddress : address < 2 ^ 32)
    (h : ∀ place < 2 ^ 32, Settles short (element place) (element' place))
    (hturns : room stride address < turns) :
    Settles short (iterate (walkTurn stride element address) turns (0, []))
      ((element' address).map fun _ =>
        PeCoff.walk stride (fun place => (element' place).join) address) := by
  have hstart : ((element' address).map fun _ =>
      PeCoff.walk stride (fun place => (element' place).join) address) =
        walkResult stride element' address (0, []) := by
    cases hfirst : element' address <;> simp [walkResult, hfirst]
  rw [hstart]
  refine iterate_settles (fun s => s.1 ≤ room stride address) (fun s => room stride address - s.1) _
    ?_ (Nat.zero_le _) hturns
  rintro ⟨number, found⟩ hinvariant
  have hturn : Settles short (walkTurn stride element address (number, found))
      (walkNext number (number + 1) found (slotAt stride element' address number)) :=
    walkTurn_settles found (number_lt hstride hinvariant) h
  rw [walkResult_eq found (by omega) haddress]
  cases hslot : slotAt stride element' address number with
  | none =>
    rw [hslot] at hturn
    exact .inl hturn
  | some slot =>
    cases slot with
    | none =>
      rw [hslot] at hturn
      exact .inl hturn
    | some a =>
      -- An element has an address, so that there is room for it.
      have hplace : address + number * stride < 2 ^ 32 := by
        by_contra hplace
        rw [slotAt, if_neg hplace] at hslot
        cases hslot
      have hroom : number < room stride address := (lt_room_iff (by omega)).mpr hplace
      rw [hslot] at hturn
      exact .inr ⟨(number + 1, found ++ [a]), hturn, hroom, Nat.sub_succ_lt_self _ _ hroom, rfl⟩

/-- The elements of a table without a length, found by a step at each address. Something is read
there first, and without it there is no element; what is read may be the end of the table. -/
structure Elements (short : Prop) (stride : Nat) (step : Nat → Step (Option (Option α)))
    (read : Nat → Option β) (element : Nat → Option α) : Prop where
  two_le_stride : 2 ≤ stride
  settles : ∀ place < 2 ^ 32,
    Settles short (step place) ((read place).map fun _ => element place)
  eq_none : ∀ place, read place = none → element place = none

namespace Elements

variable {short : Prop} {step : Nat → Step (Option (Option α))} {read : Nat → Option β}
  {element : Nat → Option α} {address : Nat}

/-- The loop of a walk ends with the table, which is absent when nothing can be read at its
start. -/
lemma iterate_settles (h : Elements short stride step read element) (haddress : address < 2 ^ 32)
    {turns : Nat} (hturns : room stride address < turns) :
    Settles short (iterate (walkTurn stride step address) turns (0, []))
      ((read address).map fun _ => PeCoff.walk stride element address) := by
  have hjoin (place : Nat) : ((read place).map fun _ => element place).join = element place := by
    cases hread : read place with
    | none => exact (h.eq_none place hread).symm
    | some b => rfl
  have hwalk := Machine.walk_settles h.two_le_stride haddress h.settles hturns
  rwa [funext hjoin, Option.map_map] at hwalk

/-- A walk ends with the table. -/
lemma walk_settles (h : Elements short stride step read element) (haddress : address < 2 ^ 32) :
    Settles short (walk stride step address)
      ((read address).map fun _ => PeCoff.walk stride element address) :=
  h.iterate_settles haddress (room_lt h.two_le_stride)

/-- A table that cannot be read is as good as an empty one. -/
lemma getD_eq (h : Elements short stride step read element) (address : Nat) :
    ((read address).map fun _ => PeCoff.walk stride element address).getD [] =
      PeCoff.walk stride element address := by
  cases hread : read address with
  | none => exact (walk_of_eq_none (h.eq_none address hread)).symm
  | some b => rfl

/-- What is made of the elements of a table, be it that there are none. -/
lemma table_settles {γ : Type} (h : Elements short stride step read element)
    (haddress : address < 2 ^ 32) (make : List α → γ) :
    Settles short (do return make ((← walk stride step address).getD []))
      (make (PeCoff.walk stride element address)) := by
  refine (h.walk_settles haddress).bind ?_
  rw [h.getD_eq]
  exact .ok _

end Elements

end Walks

end PeCoff.Machine
