import Mathlib
import PeCoff.Proofs.Machine.Imports

/-!
# Walks end

Tables and strings that end at a zero have no declared length, and a memory may never show a zero.
The main statement is `walks_end`: in every memory each of these walks ends, since its elements need
addresses, and none of its numbers outgrows its width on the way. The one thing that can stop a
machine early is a memory that answers with fewer bytes than were asked for.
-/

namespace PeCoff.Machine

open PeCoff.Import ThreadStorage

/-- The reader that gives the bytes of a memory. -/
def Reader.ofMemory (memory : Memory) : Reader := fun address length => .ok (memory address length)

/-- The reader of a memory answers for it. -/
lemma Reader.answers_ofMemory (memory : Memory) : (Reader.ofMemory memory).Answers memory :=
  fun _ _ _ _ => rfl

/-! ## Tables -/

section Tables

variable {α : Type}

/-- A walk finds some elements, as `Finds` says, and its loop ends with them within one more turn
than elements can have addresses. A table whose first element cannot be read has none. -/
structure Ends (memory : Memory) (stride : Nat) (step : Nat → Step (Option (Option α)))
    (element : Nat → Option α) (start : Nat) (found : List α) : Prop where
  iterate_settles : ∀ turns, room stride start < turns → ∃ result, result.getD [] = found ∧
    Settles (¬ memory.Exact) (iterate (walkTurn stride step start) turns (0, [])) result
  finds : Finds stride element start found

/-- A walk finds what the elements of a table are. -/
lemma Elements.ends {β : Type} {memory : Memory} {stride : Nat}
    {step : Nat → Step (Option (Option α))} {read : Nat → Option β} {element : Nat → Option α}
    {start : Nat} (h : Elements (¬ memory.Exact) stride step read element)
    (hstart : start < 2 ^ 32) :
    Ends memory stride step element start (PeCoff.walk stride element start) where
  iterate_settles _ hturns := ⟨_, h.getD_eq start, h.iterate_settles hstart hturns⟩
  finds := finds_walk (Nat.lt_of_succ_lt h.two_le_stride) element start

end Tables

/-! ## Strings -/

/-- The bytes of a string lie one after the other, each at an address and none of them zero, and the
string goes on as long as there are such bytes, up to a limit. -/
structure FindsBytes (memory : Memory) (limit start length : Nat) : Prop where
  byte_at : ∀ i < length, start + i < addressLimit ∧ ∃ bs, memory (start + i) 1 = some bs ∧ bs ≠ [0]
  ends : length < limit → start + length < addressLimit →
    ∀ bs, memory (start + length) 1 = some bs → bs = [0]
  length_le : length ≤ limit

section Strings

variable {memory : Memory} {limit start length : Nat}

/-- Without a byte to begin with there is an empty string. -/
lemma FindsBytes.nil (h : start < addressLimit → ∀ bs, memory start 1 = some bs → bs = [0]) :
    FindsBytes memory limit start 0 where
  byte_at i hi := absurd hi (Nat.not_lt_zero i)
  ends _ := h
  length_le := Nat.zero_le limit

/-- A byte comes before those of the string behind it. -/
lemma FindsBytes.cons {bs : Bytes} (hstart : start < addressLimit) (hbyte : memory start 1 = some bs)
    (hne : bs ≠ [0]) (h : FindsBytes memory limit (start + 1) length) :
    FindsBytes memory (limit + 1) start (length + 1) where
  byte_at i hi := by
    cases i with
    | zero => exact ⟨hstart, bs, hbyte, hne⟩
    | succ i =>
      rw [← Nat.add_assoc, Nat.add_right_comm]
      exact h.byte_at i (Nat.lt_of_succ_lt_succ hi)
  ends hlt := by
    rw [← Nat.add_assoc, Nat.add_right_comm]
    exact h.ends (Nat.lt_of_succ_lt_succ hlt)
  length_le := Nat.succ_le_succ h.length_le

/-- The counted bytes of a string are those that are found. -/
lemma findsBytes_stringLength (memory : Memory) (limit start : Nat) :
    FindsBytes memory limit start (memory.stringLength limit start) := by
  induction limit generalizing start with
  | zero => exact ⟨nofun, nofun, Nat.le_refl 0⟩
  | succ limit ih =>
    rw [Memory.stringLength]
    by_cases hstart : addressLimit ≤ start
    · rw [if_pos hstart]
      exact .nil fun hlt => absurd hlt (Nat.not_lt_of_le hstart)
    · rw [if_neg hstart]
      cases hbyte : memory start 1 with
      | none => exact .nil fun _ bs hbs => by rw [hbyte] at hbs; cases hbs
      | some bs =>
        by_cases hzero : bs = [0]
        · simp only [if_pos hzero]
          exact .nil fun _ bs' hbs => by rw [hbyte] at hbs; cases hbs; exact hzero
        · simp only [if_neg hzero]
          exact .cons (Nat.lt_of_not_le hstart) hbyte hzero (ih (start + 1))

/-- In an exact memory a string has as many bytes as were found. -/
lemma length_string {bs : Bytes} (hm : memory.Exact) (h : memory.string start = some bs) :
    bs.length = memory.stringLength Image.maxString start := by
  rw [Memory.string] at h
  cases hlength : memory.stringLength Image.maxString start with
  | zero =>
    rw [hlength] at h
    obtain ⟨_, -, rfl⟩ := Option.map_eq_some_iff.mp h
    rfl
  | succ length =>
    rw [hlength] at h
    exact hm _ _ _ h

/-- The bytes of a string are counted to their end within one more turn than a string can have
bytes, without any fault, and as many are read. -/
structure StringEnds (memory : Memory) (start : Nat) : Prop where
  iterate_eq : ∀ turns, Image.maxString < turns →
    iterate (stringTurn (.ofMemory memory) start) turns 0 =
      .ok (memory.stringLength Image.maxString start)
  finds : FindsBytes memory Image.maxString start (memory.stringLength Image.maxString start)
  length_string : memory.Exact → ∀ bs, memory.string start = some bs →
    bs.length = memory.stringLength Image.maxString start

end Strings

/-! ## All of them -/

section Walks

variable (memory : Memory) (wide : Bool)

/-- The functions of thread-local storage are those of an array, if there is one. -/
lemma callbacks_of_decode {imageBase : UInt64} {bs : Bytes} {info : Info}
    (h : Info.decode memory wide imageBase bs = some info) :
    (info.directory.callbackArray? imageBase = none ∧ info.callbacks = []) ∨
      ∃ start, info.directory.callbackArray? imageBase = some start ∧ info.callbacks =
        PeCoff.walk (Memory.pointerWidth wide) (Info.callback? memory wide) start := by
  obtain ⟨directory, -, hinfo⟩ := Option.bind_eq_some_iff.mp h
  cases hinfo
  simp only [Info.callbacksOf]
  cases directory.callbackArray? imageBase with
  | none => exact .inl ⟨rfl, rfl⟩
  | some start => exact .inr ⟨start, rfl, rfl⟩

/-- Every string ends. -/
lemma stringEnds {start : Nat} : StringEnds memory start where
  iterate_eq _ hturns := iterate_stringTurn_eq (Reader.answers_ofMemory memory) hturns
  finds := findsBytes_stringLength memory Image.maxString start
  length_string := fun hm _ => length_string hm

end Walks

/-- In every memory the walks over thunks, over the libraries of both kinds, over the functions of
thread-local storage and over strings end with what the decoders return. Elements and bytes are
found one stride after the other, none of them past the last address, and no number overflows; only
an answer that is too short can stop them. -/
theorem walks_end (memory : Memory) (wide : Bool) (imageBase : UInt64) (start size : UInt32) :
    (∀ bias, Settles (¬ memory.Exact) (thunks (.ofMemory memory) wide bias start.toNat)
        (Thunk.array memory wide bias start.toNat) ∧
      Ends memory (Memory.pointerWidth wide) (thunkAt (.ofMemory memory) wide bias)
        (Thunk.at? memory wide bias) start.toNat
        ((Thunk.array memory wide bias start.toNat).getD [])) ∧
    (Settles (¬ memory.Exact) (importTable (.ofMemory memory) wide start size)
        (Table.decode memory wide start size) ∧
      Ends memory Descriptor.layout.size (library (.ofMemory memory) wide)
        (Library.at? memory wide) start.toNat (Table.decode memory wide start size).libraries) ∧
    (Settles (¬ memory.Exact) (delayedTable (.ofMemory memory) wide imageBase start size)
        (DelayedTable.decode memory wide imageBase start size) ∧
      Ends memory DelayedDescriptor.layout.size (delayedLibrary (.ofMemory memory) wide imageBase)
        (DelayedLibrary.at? memory wide imageBase) start.toNat
        (DelayedTable.decode memory wide imageBase start size).libraries) ∧
    (∀ bs : Bytes, bs.length < 2 ^ 64 →
      Settles (¬ memory.Exact) (threadInfo (.ofMemory memory) wide imageBase bs)
        (Info.decode memory wide imageBase bs) ∧
      ∀ info, Info.decode memory wide imageBase bs = some info →
        (info.directory.callbackArray? imageBase = none ∧ info.callbacks = []) ∨
        ∃ array, info.directory.callbackArray? imageBase = some array ∧
          Ends memory (Memory.pointerWidth wide) (callback (.ofMemory memory) wide)
            (Info.callback? memory wide) array info.callbacks) ∧
    (string (.ofMemory memory) start.toNat = .ok (memory.string start.toNat) ∧
      StringEnds memory start.toNat) := by
  have hanswers := Reader.answers_ofMemory memory
  have hstart := start.toNat_lt
  -- The elements of each loop lie at exact distances: it ends where the addresses do.
  refine ⟨fun bias => ⟨thunks_settles hanswers hstart bias, ?_⟩,
    ⟨importTable_settles hanswers start size, (elements_library hanswers).ends hstart⟩,
    ⟨delayedTable_settles hanswers imageBase start size,
      (elements_delayedLibrary hanswers imageBase).ends hstart⟩,
    fun bs hbs => ⟨threadInfo_settles hanswers imageBase hbs, fun info hinfo => ?_⟩,
    ⟨hanswers.string_eq hstart, stringEnds memory⟩⟩
  · have hthunks : Elements (¬ memory.Exact) (Memory.pointerWidth wide)
        (thunkAt (.ofMemory memory) wide bias) _ _ := elements_thunkAt hanswers bias
    rw [array_eq_map_walk, hthunks.getD_eq]
    exact hthunks.ends hstart
  · obtain hnil | ⟨array, harray, hcallbacks⟩ := callbacks_of_decode memory wide hinfo
    · exact .inl hnil
    · rw [hcallbacks]
      exact .inr ⟨array, harray, (elements_callback hanswers).ends (callbackArray?_lt harray)⟩

/-- The memory in which every byte is one, so that nothing ever ends at a zero. -/
def ones : Memory := fun _ length => some (List.replicate length 1)

/-- The memory of ones is exact. -/
lemma ones_exact : ones.Exact := by
  intro address length bs h
  rw [← Option.some.inj h, List.length_replicate]

/-- In the memory of ones every number is a thunk. -/
lemma at?_ones_ne_none (address : Nat) : Thunk.at? ones false 0 address ≠ none := by
  have hpointer : ones.pointer? false address = some 0x01010101 := rfl
  rw [Thunk.at?, hpointer]
  simp

/-- In the memory of ones every descriptor is that of a library. -/
lemma library_ones_ne_none (address : Nat) : Library.at? ones false address ≠ none := by
  have hrecord : ones.record? Descriptor.layout address =
      some ⟨0x01010101, 0x01010101, 0x01010101, 0x01010101, 0x01010101⟩ := rfl
  rw [Library.at?, hrecord]
  simp [Descriptor.isTerminator]

/-- In the memory of ones every number is a function. -/
lemma callback?_ones_ne_none (address : Nat) : Info.callback? ones false address ≠ none := by
  have hpointer : ones.pointer? false address = some 0x01010101 := rfl
  rw [Info.callback?, hpointer]
  simp

/-- A directory of thread-local storage whose array of functions starts ten bytes below the
limit. -/
def lastArray : Bytes :=
  List.replicate 12 0 ++ Layout.u32.write 0xFFFFFFF6 ++ List.replicate 8 0

/-- Ten bytes below the limit there is room for three pointers, for one descriptor and for ten bytes
of a string. -/
theorem walks_end_ones :
    lastArray.length < 2 ^ 64 ∧
    (∃ found, thunks (.ofMemory ones) false 0 0xFFFFFFF6 = .ok (some found) ∧ found.length = 3) ∧
    (∃ table, importTable (.ofMemory ones) false 0xFFFFFFF6 0 = .ok table ∧
      table.libraries.length = 1) ∧
    (∃ info, threadInfo (.ofMemory ones) false 0 lastArray = .ok (some info) ∧
      info.callbacks.length = 3) ∧
    ∃ bs, string (.ofMemory ones) 0xFFFFFFF6 = .ok (some bs) ∧ bs.length = 10 := by
  -- No element of this memory is a last one, and each loop runs up to the end of the addresses.
  have hexact := not_not.mpr ones_exact
  have hlength : lastArray.length < 2 ^ 64 := by decide
  have hpointers : room (Memory.pointerWidth false) 0xFFFFFFF6 = 3 := by decide
  have hdescriptors : room Descriptor.layout.size 0xFFFFFFF6 = 1 := by decide
  obtain ⟨hthunks, ⟨himports, hlibraries⟩, -, hthreads, hstring, -⟩ :=
    walks_end ones false 0 0xFFFFFFF6 0
  obtain ⟨hfound, hpointers_end⟩ := hthunks 0
  obtain ⟨hinfo, hcallbacks⟩ := hthreads lastArray hlength
  refine ⟨hlength, ⟨_, hfound.eq_ok hexact, ?_⟩, ⟨_, himports.eq_ok hexact, ?_⟩, ?_, ?_⟩
  · exact (hpointers_end.finds.length_eq (by decide) at?_ones_ne_none).trans hpointers
  · exact (hlibraries.finds.length_eq (by decide) library_ones_ne_none).trans hdescriptors
  · have hdirectory : (Directory.decode false lastArray).toOption =
        some ⟨0, 0, 0, 0xFFFFFFF6, 0, 0⟩ := by decide +kernel
    have hdecode : Info.decode ones false 0 lastArray = some ⟨⟨0, 0, 0, 0xFFFFFFF6, 0, 0⟩,
        Info.callbacksOf ones false 0 ⟨0, 0, 0, 0xFFFFFFF6, 0, 0⟩⟩ := by
      rw [Info.decode, hdirectory]
      rfl
    refine ⟨_, by rw [hinfo.eq_ok hexact, hdecode], ?_⟩
    obtain ⟨hnone, -⟩ | ⟨array, harray, hends⟩ := hcallbacks _ hdecode
    · exact absurd hnone (by decide)
    · cases harray.symm.trans (show _ = some 0xFFFFFFF6 by decide)
      exact (hends.finds.length_eq (by decide) callback?_ones_ne_none).trans hpointers
  · have hbytes : ones.string 0xFFFFFFF6 = some (List.replicate 10 1) := by decide +kernel
    exact ⟨_, hstring.trans (congrArg Except.ok hbytes), rfl⟩

end PeCoff.Machine
