import Mathlib
import PeCoff.Proofs.Resolution
import PeCoff.Proofs.Unwind.Table

/-!
# Addresses around the end

The slots of unwind information and its trailer are found from the address of its header, by sums
that are reduced to 32 bits. The main statement is `readInPlace_iff`: all parts come from behind the
header exactly when none of these sums is reduced. At the very end of the addresses they can be:
then a part is read from the start of the memory, or the address of the data of a handler is wrong.
-/

namespace PeCoff

/-- What can be read in an image lies in a section that starts no later. -/
lemma Executable.exists_section_of_memory {e : Executable} {address n : Nat} {bs : Bytes}
    (h : e.memory address n = some bs) :
    address ≠ 0 ∧ ∃ s ∈ e.sections, s.virtualAddress.toNat ≤ address := by
  obtain ⟨offset, hoffset, -⟩ := Option.bind_eq_some_iff.mp h
  obtain ⟨s, later, hplaces, -⟩ := SectionHeader.resolve_eq_some_iff.mp hoffset
  obtain ⟨earlier, hlisted⟩ := hplaces.listed
  refine ⟨hplaces.address_ne_zero, s, ?_, (SectionHeader.maps_iff.mp hplaces.maps).1⟩
  rw [hlisted]
  exact List.mem_append_right earlier List.mem_cons_self

namespace Unwind

/-- The place of the trailer of unwind information: behind the header and as many slots as there
are, one more when their number is odd. It is a number of any size. -/
def trailerPlace (place : Nat) (slotCount : UInt8) : Nat :=
  place + 4 + 2 * (slotCount.toNat + 1 - (slotCount.toNat + 1) % 2)

/-- All parts of unwind information come from behind the header at a place, and the data of a
handler lies behind the address of the handler. -/
structure ReadInPlace (memory : Memory) (place : Nat) (i : Info) : Prop where
  slots : i.slotCount ≠ 0 → place + 4 < addressLimit ∧
    ∃ bs, memory (place + 4) (2 * i.slotCount.toNat) = some bs ∧
      Code.decode (Slot.ofBytes bs) = (i.codes, i.truncated)
  chain : ∀ f, i.trailer = .chain f → trailerPlace place i.slotCount < addressLimit ∧
    memory.record? RuntimeFunction.layout (trailerPlace place i.slotCount) = some f
  handler : ∀ handler data, i.trailer = .handler handler data →
    trailerPlace place i.slotCount < addressLimit ∧
      memory.record? .u32 (trailerPlace place i.slotCount) = some handler ∧
      data.toNat = trailerPlace place i.slotCount + 4

/-- The address of a part is beyond the last one. -/
inductive Overruns (place : Nat) (i : Info) : Prop
  | slots (hcount : i.slotCount ≠ 0) (h : addressLimit ≤ place + 4)
  | chain (f : RuntimeFunction) (htrailer : i.trailer = .chain f)
    (h : addressLimit ≤ trailerPlace place i.slotCount)
  | handler (handler data : UInt32) (htrailer : i.trailer = .handler handler data)
    (h : addressLimit ≤ trailerPlace place i.slotCount + 4)

variable {memory : Memory} {f : RuntimeFunction} {i : Info} {address : UInt32}
  {flags count : UInt8}

/-- The trailer is not far behind the header. -/
lemma trailerPlace_le (place : Nat) (count : UInt8) : trailerPlace place count ≤ place + 516 := by
  have hcount := count.toNat_lt
  rw [trailerPlace]
  omega

/-- The trailer is looked for at its place, reduced to 32 bits. -/
lemma toNat_trailerAddress (address : UInt32) (count : UInt8) :
    (address + 4 + UInt32.ofNat (trailerSlot count * 2)).toNat =
      trailerPlace address.toNat count % addressLimit := by
  have hfour : (4 : UInt32).toNat = 4 := rfl
  have hslot : trailerSlot count = count.toNat + 1 - (count.toNat + 1) % 2 := by
    rw [trailerSlot]
    omega
  rw [UInt32.toNat_add, UInt32.toNat_add, UInt32.toNat_ofNat', hfour, hslot, trailerPlace,
    addressLimit]
  omega

/-- A trailer is what was read at an address, as the flags declare it: a function, else a handler
with its data behind its address, else nothing. What cannot be read is unavailable. -/
inductive TrailerRead (memory : Memory) (flags : UInt8) (address : Nat) : Trailer → Prop
  | chain (f : RuntimeFunction) (hflags : Info.hasFlag flags Info.chainFlag = true)
      (h : memory.record? RuntimeFunction.layout address = some f) :
    TrailerRead memory flags address (.chain f)
  | handler (handler data : UInt32) (hchain : Info.hasFlag flags Info.chainFlag = false)
      (hflags : Info.declaresHandler flags = true) (h : memory.record? .u32 address = some handler)
      (hdata : data.toNat = (address + 4) % addressLimit) :
    TrailerRead memory flags address (.handler handler data)
  | none (hchain : Info.hasFlag flags Info.chainFlag = false)
      (hflags : Info.declaresHandler flags = false) : TrailerRead memory flags address .none
  | noFunction (hflags : Info.hasFlag flags Info.chainFlag = true)
      (h : memory.record? RuntimeFunction.layout address = Option.none) :
    TrailerRead memory flags address .unavailable
  | noHandler (hchain : Info.hasFlag flags Info.chainFlag = false)
      (hflags : Info.declaresHandler flags = true)
      (h : memory.record? .u32 address = Option.none) :
    TrailerRead memory flags address .unavailable

/-- A chained function was read at its place. -/
lemma TrailerRead.record?_chain {place : Nat} {g : RuntimeFunction}
    (h : TrailerRead memory flags place (.chain g)) :
    memory.record? RuntimeFunction.layout place = some g := by
  cases h with
  | chain _ _ h => exact h

/-- A handler was read at its place, and its data lie behind it, modulo the number of addresses. -/
lemma TrailerRead.record?_handler {place : Nat} {handler data : UInt32}
    (h : TrailerRead memory flags place (.handler handler data)) :
    memory.record? .u32 place = some handler ∧ data.toNat = (place + 4) % addressLimit := by
  cases h with
  | handler _ _ _ _ h hdata => exact ⟨h, hdata⟩

/-- What is decoded of a trailer was read at its place. -/
lemma trailerRead_trailerAt (memory : Memory) (flags : UInt8) (address : UInt32) :
    TrailerRead memory flags address.toNat (Detail.trailerAt memory flags address) := by
  rw [Detail.trailerAt]
  by_cases hchain : Info.hasFlag flags Info.chainFlag = true
  · rw [if_pos hchain]
    cases hf : memory.record? RuntimeFunction.layout address.toNat with
    | some f => exact .chain f hchain hf
    | none => exact .noFunction hchain hf
  · have hchain' := Bool.eq_false_of_not_eq_true hchain
    rw [if_neg hchain]
    by_cases hhandler : Info.declaresHandler flags = true
    · rw [if_pos hhandler]
      cases ha : memory.record? .u32 address.toNat with
      | some a => exact .handler a _ hchain' hhandler ha (UInt32.toNat_add address 4)
      | none => exact .noHandler hchain' hhandler ha
    · rw [if_neg hhandler]
      exact .none hchain' (Bool.eq_false_of_not_eq_true hhandler)

/-- Where the slots and the trailer of decoded information were looked for. -/
lemma exists_of_infoAt (h : Detail.infoAt memory address = .info i) :
    ∃ slots, Detail.slotsAt memory (address + 4) i.slotCount = some slots ∧
      Code.decode slots = (i.codes, i.truncated) ∧
      i.trailer = Detail.trailerAt memory i.flags
        (address + 4 + UInt32.ofNat (trailerSlot i.slotCount * 2)) := by
  unfold Detail.infoAt at h
  split at h
  · cases h
  · simp only at h
    split at h
    · cases h
    · split at h
      · cases h
      · next slots hslots =>
        cases h
        exact ⟨slots, hslots, rfl, rfl⟩

/-- The parts of decoded information were read at their places, reduced to 32 bits. -/
structure ReadReduced (memory : Memory) (place : Nat) (i : Info) : Prop where
  slots : i.slotCount ≠ 0 →
    ∃ bs, memory ((place + 4) % addressLimit) (2 * i.slotCount.toNat) = some bs ∧
      Code.decode (Slot.ofBytes bs) = (i.codes, i.truncated)
  trailer : TrailerRead memory i.flags (trailerPlace place i.slotCount % addressLimit) i.trailer

/-- The information to which a function leads was read at reduced addresses. -/
lemma readReduced_of_ofFunction (h : Detail.ofFunction memory f = .info i) :
    ReadReduced memory f.unwindInfo.toNat i := by
  rw [Detail.ofFunction] at h
  split at h
  · cases h
  · obtain ⟨slots, hslots, hcodes, htrailer⟩ := exists_of_infoAt h
    constructor
    · intro hcount
      have hfour : (4 : UInt32).toNat = 4 := rfl
      rw [Detail.slotsAt, if_neg hcount, UInt32.toNat_add, hfour] at hslots
      obtain ⟨bs, hbs, rfl⟩ := Option.map_eq_some_iff.mp hslots
      exact ⟨bs, Nat.mul_comm 2 _ ▸ hbs, hcodes⟩
    · rw [htrailer, ← toNat_trailerAddress]
      exact trailerRead_trailerAt memory i.flags _

/-- Nothing is reduced unless a part overruns the addresses. -/
lemma ReadReduced.inPlace_iff {place : Nat} (h : ReadReduced memory place i) :
    ReadInPlace memory place i ↔ ¬ Overruns place i := by
  constructor
  · rintro hin (⟨hcount, hle⟩ | ⟨f, htrailer, hle⟩ | ⟨handler, data, htrailer, hle⟩)
    · exact absurd (hin.slots hcount).1 (not_lt.mpr hle)
    · exact absurd (hin.chain f htrailer).1 (not_lt.mpr hle)
    -- The address of the data has 32 bits.
    · obtain ⟨-, -, hdata⟩ := hin.handler handler data htrailer
      have hlt := data.toNat_lt
      rw [addressLimit] at hle
      omega
  · intro hfits
    refine ⟨fun hcount => ?_, fun f htrailer => ?_, fun handler data htrailer => ?_⟩
    · have hlt : place + 4 < addressLimit := not_le.mp fun hle => hfits (.slots hcount hle)
      have hslots := h.slots hcount
      rw [Nat.mod_eq_of_lt hlt] at hslots
      exact ⟨hlt, hslots⟩
    · have hlt := not_le.mp fun hle => hfits (.chain f htrailer hle)
      have hchain := (htrailer ▸ h.trailer).record?_chain
      rw [Nat.mod_eq_of_lt hlt] at hchain
      exact ⟨hlt, hchain⟩
    · have hlt := not_le.mp fun hle => hfits (.handler handler data htrailer hle)
      have hplace := Nat.lt_of_add_right_lt hlt
      obtain ⟨hhandler, hdata⟩ := (htrailer ▸ h.trailer).record?_handler
      rw [Nat.mod_eq_of_lt hplace] at hhandler hdata
      exact ⟨hplace, hhandler, hdata.trans (Nat.mod_eq_of_lt hlt)⟩

/-- The information of a function far enough from the end of the addresses is read in place. -/
lemma not_overruns_of_lt {place : Nat} (h : place + 520 < addressLimit) : ¬ Overruns place i := by
  have hle := trailerPlace_le place i.slotCount
  rintro (⟨-, h'⟩ | ⟨_, -, h'⟩ | ⟨_, _, -, h'⟩) <;> omega

/-- In an image whose sections all start behind the first addresses, nothing is read at an address
that was reduced. -/
lemma ReadReduced.overruns_iff {e : Executable} {place : Nat} (h : ReadReduced e.memory place i)
    (hplace : place < addressLimit) (hsections : ∀ s ∈ e.sections, 516 ≤ s.virtualAddress.toNat) :
    Overruns place i ↔ ∃ handler data, i.trailer = .handler handler data ∧
      addressLimit ≤ trailerPlace place i.slotCount + 4 := by
  have hle := trailerPlace_le place i.slotCount
  have hfits {n length : Nat} {bs : Bytes} (hn : n ≤ place + 516)
      (hbs : e.memory (n % addressLimit) length = some bs) : n < addressLimit := by
    obtain ⟨-, s, hs, hstart⟩ := Executable.exists_section_of_memory hbs
    have hfirst := hsections s hs
    simp only [addressLimit] at *
    omega
  constructor
  · rintro (⟨hcount, hover⟩ | ⟨f, htrailer, hover⟩ | ⟨handler, data, htrailer, hover⟩)
    · obtain ⟨bs, hbs, -⟩ := h.slots hcount
      exact absurd (hfits (by omega) hbs) (not_lt.mpr hover)
    · obtain ⟨bs, hbs, -⟩ := Option.bind_eq_some_iff.mp (htrailer ▸ h.trailer).record?_chain
      exact absurd (hfits hle hbs) (not_lt.mpr hover)
    · exact ⟨handler, data, htrailer, hover⟩
  · rintro ⟨handler, data, htrailer, hover⟩
    exact .handler handler data htrailer hover

/-- The parts of the unwind information of a function are read at addresses that are reduced to 32
bits. They come from behind the header, as they should, exactly when none of the addresses is beyond
the last one, and so for every function whose information starts at least 520 bytes before it. In an
image without a section at the first addresses a part is never read from elsewhere, and only the
address of the data of a handler can be wrong. -/
theorem readInPlace_iff (e : Executable) (h : Detail.ofFunction e.memory f = .info i) :
    ReadReduced e.memory f.unwindInfo.toNat i ∧
      (ReadInPlace e.memory f.unwindInfo.toNat i ↔ ¬ Overruns f.unwindInfo.toNat i) ∧
      (f.unwindInfo.toNat + 520 < addressLimit → ReadInPlace e.memory f.unwindInfo.toNat i) ∧
      ((∀ s ∈ e.sections, 516 ≤ s.virtualAddress.toNat) →
        (ReadInPlace e.memory f.unwindInfo.toNat i ↔ ∀ handler data,
          i.trailer = .handler handler data →
            trailerPlace f.unwindInfo.toNat i.slotCount + 4 < addressLimit)) := by
  have hreduced := readReduced_of_ofFunction h
  refine ⟨hreduced, hreduced.inPlace_iff, fun hlt => ?_, fun hsections => ?_⟩
  · exact hreduced.inPlace_iff.mpr (not_overruns_of_lt hlt)
  · rw [hreduced.inPlace_iff, hreduced.overruns_iff f.unwindInfo.toNat_lt hsections]
    simp only [not_exists, not_and, not_le]

/-- An image with unwind information at the end of the addresses. The first one has a handler, whose
address fills the last four bytes. The other one lies eight bytes before the end, and behind four
slots it should have a function; there is one at address four. -/
def lastImage : Image :=
  Build.image ⟨0, 0⟩
    [(4, RuntimeFunction.layout.write ⟨0x2000, 0x2010, 0x30⟩),
      (0xFFFFFFF0, [9, 0, 4, 0, 0, 0, 0, 0] ++ [0x21, 0, 4, 0, 0, 0x30, 0, 0, 0, 0, 0, 0])]

/-- The handler of the first information is read in place, but the address of its data is zero. -/
theorem readInPlace_iff_last : ∃ e i, Executable.parse lastImage = .ok e ∧
    Detail.ofFunction e.memory ⟨0x1000, 0x1010, 0xFFFFFFF0⟩ = .info i ∧
    i.trailer = .handler 0x3000 0 ∧ ¬ ReadInPlace e.memory 0xFFFFFFF0 i := by
  obtain ⟨e, he, hinfo⟩ : ∃ e, Executable.parse lastImage = .ok e ∧
      Detail.ofFunction e.memory ⟨0x1000, 0x1010, 0xFFFFFFF0⟩ = .info {
        version := 1
        flags := 1
        sizeOfProlog := 0
        slotCount := 4
        frameRegister := 0
        frameOffset := 0
        codes := [⟨0, .push 0⟩, ⟨0, .push 0⟩, ⟨0x21, .push 0⟩, ⟨4, .push 0⟩]
        truncated := false
        trailer := .handler 0x3000 0 } :=
    Build.exists_of_any (by decide +kernel)
  obtain ⟨-, hiff, -⟩ := readInPlace_iff e hinfo
  exact ⟨e, _, he, hinfo, rfl, fun hin => hiff.mp hin (.handler _ _ rfl (by decide))⟩

/-- A part can be read from elsewhere: the function behind the other information would lie beyond
the last address, and the one at address four is taken for it. -/
theorem exists_not_readInPlace : ∃ image e f i g, Executable.parse image = .ok e ∧
    Detail.ofFunction e.memory f = .info i ∧ i.trailer = .chain g ∧
    addressLimit ≤ trailerPlace f.unwindInfo.toNat i.slotCount ∧
    ¬ ReadInPlace e.memory f.unwindInfo.toNat i := by
  obtain ⟨e, he, hinfo⟩ : ∃ e, Executable.parse lastImage = .ok e ∧
      Detail.ofFunction e.memory ⟨0x1000, 0x1010, 0xFFFFFFF8⟩ = .info {
        version := 1
        flags := 4
        sizeOfProlog := 0
        slotCount := 4
        frameRegister := 0
        frameOffset := 0
        codes := [⟨0, .push 3⟩, ⟨0, .push 0⟩, ⟨0, .push 0⟩, ⟨0, .push 0⟩]
        truncated := false
        trailer := .chain ⟨0x2000, 0x2010, 0x30⟩ } :=
    Build.exists_of_any (by decide +kernel)
  have hover : addressLimit ≤ trailerPlace 0xFFFFFFF8 4 := by decide
  exact ⟨lastImage, e, _, _, _, he, hinfo, rfl, hover,
    fun hin => absurd (hin.chain _ rfl).1 (not_lt.mpr hover)⟩

end Unwind

end PeCoff
