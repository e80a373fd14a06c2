import Mathlib
import PeCoff.ThreadStorage
import PeCoff.Proofs.Layout
import PeCoff.Proofs.Walk

/-!
# Thread-local storage in two widths

A directory whose addresses fit into 32 bits can be written in the narrow form and in the wide one,
and the functions to which it refers can be stored as an array of narrow or of wide numbers. The
main statement is `decode_eq_of_storedCallbacks`: both forms are decoded to the same directory and
the same functions, and where the address of the array is no address relative to the image base
there are no functions, but still the directory.
-/

namespace PeCoff

namespace ThreadStorage

variable {memory : Memory} {wide : Bool} {address : Nat} {imageBase : UInt64} {d : Directory}
  {callbacks : List UInt32}

/-! ## Directories -/

namespace Directory

/-- All addresses of a directory have 32 bits. -/
structure IsNarrow (d : Directory) : Prop where
  start_lt : d.start.toNat < 2 ^ 32
  stop_lt : d.stop.toNat < 2 ^ 32
  index_lt : d.index.toNat < 2 ^ 32
  callbacks_lt : d.callbacks.toNat < 2 ^ 32

/-- A directory can be written in a form: the wide form takes any of them. -/
def Fits (wide : Bool) (d : Directory) : Prop :=
  wide ∨ d.IsNarrow

/-- The fields of a directory in the narrow form. -/
def narrow (d : Directory) : UInt32 × UInt32 × UInt32 × UInt32 × UInt32 × UInt32 :=
  (d.start.toUInt32, d.stop.toUInt32, d.index.toUInt32, d.callbacks.toUInt32, d.sizeOfZeroFill,
    d.characteristics)

/-- The bytes of a directory in one of its forms. -/
def bytes (wide : Bool) (d : Directory) : Bytes :=
  if wide then wideLayout.write d else narrowLayout.write d.narrow

/-- A directory whose numbers have 32 bits is not changed by storing it in that width. -/
lemma ofNarrow_narrow (h : d.IsNarrow) : ofNarrow d.narrow = d := by
  have hwiden {a : UInt64} (ha : a.toNat < 2 ^ 32) : a.toUInt32.toUInt64 = a := by
    rw [← UInt64.toNat_inj, UInt32.toNat_toUInt64, UInt64.toNat_toUInt32, Nat.mod_eq_of_lt ha]
  rw [narrow, ofNarrow]
  simp only [hwiden h.start_lt, hwiden h.stop_lt, hwiden h.index_lt, hwiden h.callbacks_lt]

/-- A written directory is decoded again, whatever bytes follow it. -/
lemma decode_bytes_append (h : d.Fits wide) (rest : Bytes) :
    decode wide (d.bytes wide ++ rest) = .ok d := by
  cases wide with
  | true =>
    rw [decode, if_pos rfl, bytes, if_pos rfl, Layout.decode, Layout.decode?_write_append]
  | false =>
    rw [decode, if_neg Bool.false_ne_true, bytes, if_neg Bool.false_ne_true, Layout.decode,
      Layout.decode?_write_append]
    exact congrArg Except.ok (ofNarrow_narrow (h.resolve_left Bool.false_ne_true))

/-- There is no array of functions where the directory has no address for it, or one that lies below
the image base or too far above it. -/
lemma callbackArray?_eq_none (h : d.callbacks = 0 ∨ d.callbacks < imageBase ∨
    imageBase.toNat + 2 ^ 32 ≤ d.callbacks.toNat) : d.callbackArray? imageBase = none := by
  rw [callbackArray?, if_neg]
  rintro ⟨hne, hle, hlt⟩
  rw [UInt64.le_iff_toNat_le] at hle
  simp only [addressLimit] at hlt
  rcases h with hzero | hbelow | habove
  · exact hne hzero
  · rw [UInt64.lt_iff_toNat_lt] at hbelow
    omega
  · omega

/-- A directory with narrow addresses has an array of functions, unless its address is zero or lies
below the image base. -/
lemma IsNarrow.callbackArray?_eq (h : d.IsNarrow) (hne : d.callbacks ≠ 0)
    (hle : imageBase ≤ d.callbacks) :
    d.callbackArray? imageBase = some (d.callbacks.toNat - imageBase.toNat) := by
  have hlt := h.callbacks_lt
  exact if_pos ⟨hne, hle, by simp only [addressLimit]; omega⟩

end Directory

/-! ## Functions -/

/-- Functions are stored as an array of numbers other than zero. The array ends at a zero, at a
number that cannot be read, or with the addresses. -/
inductive StoredCallbacks (memory : Memory) (wide : Bool) : (address : Nat) → List UInt32 → Prop
  | zero {address : Nat}
      (h : memory address (Memory.pointerWidth wide) = some (Memory.pointerBytes wide 0)) :
      StoredCallbacks memory wide address []
  | unreadable {address : Nat} (h : memory address (Memory.pointerWidth wide) = none) :
      StoredCallbacks memory wide address []
  | limit {address : Nat} (h : addressLimit ≤ address) : StoredCallbacks memory wide address []
  | cons {address : Nat} {callback : UInt32} {callbacks : List UInt32}
      (haddress : address < addressLimit) (hne : callback ≠ 0)
      (h : memory address (Memory.pointerWidth wide) =
        some (Memory.pointerBytes wide callback.toUInt64))
      (hrest : StoredCallbacks memory wide (address + Memory.pointerWidth wide) callbacks) :
      StoredCallbacks memory wide address (callback :: callbacks)

namespace Info

/-- Stored functions are read up to the end of their array. -/
lemma walk_of_storedCallbacks (h : StoredCallbacks memory wide address callbacks) :
    walk (Memory.pointerWidth wide) (callback? memory wide) address =
      callbacks.map UInt32.toUInt64 := by
  have hwidth : 0 < Memory.pointerWidth wide := by cases wide <;> decide
  induction h with
  | zero h =>
    apply walk_of_eq_none
    rw [callback?, Memory.pointer?_eq_some (.inr (by decide)) h]
    rfl
  | unreadable h =>
    apply walk_of_eq_none
    rw [callback?, Memory.pointer?_eq_none h]
    rfl
  | limit h => exact walk_of_addressLimit_le h
  | @cons address callback callbacks haddress hne h _ ih =>
    have hfits : Memory.FitsPointer wide callback.toUInt64 :=
      .inr (by rw [UInt32.toNat_toUInt64]; exact callback.toNat_lt)
    have hne : callback.toUInt64 ≠ 0 := by
      rw [ne_eq, ← UInt64.toNat_inj, UInt32.toNat_toUInt64]
      exact fun hzero => hne (UInt32.toNat_inj.mp hzero)
    have hcallback : callback? memory wide address = some callback.toUInt64 := by
      rw [callback?, Memory.pointer?_eq_some hfits h]
      simp [hne]
    rw [walk_of_eq_some hwidth haddress hcallback, ih, List.map_cons]

/-- What is decoded of a written directory. -/
lemma decode_bytes_append (h : d.Fits wide) (rest : Bytes) :
    decode memory wide imageBase (d.bytes wide ++ rest) =
      some ⟨d, callbacksOf memory wide imageBase d⟩ := by
  rw [decode, Directory.decode_bytes_append h]
  rfl

/-- A directory with stored functions is decoded to both. -/
lemma decode_of_stored_callbacks (hd : d.IsNarrow) (hne : d.callbacks ≠ 0)
    (hle : imageBase ≤ d.callbacks)
    (h : StoredCallbacks memory wide (d.callbacks.toNat - imageBase.toNat) callbacks)
    (rest : Bytes) :
    decode memory wide imageBase (d.bytes wide ++ rest) =
      some ⟨d, callbacks.map UInt32.toUInt64⟩ := by
  rw [decode_bytes_append (.inr hd), callbacksOf, hd.callbackArray?_eq hne hle]
  simp only [walk_of_storedCallbacks h]

/-- A directory whose addresses have 32 bits, with functions that are stored where it says, is
decoded to the same from its narrow form with an array of narrow numbers and from its wide form with
an array of wide numbers: to the directory and these functions. Any directory in a form that it fits
is decoded to itself without functions, when the address of the array is zero, below the image base,
or 2^32 or more above it. -/
theorem decode_eq_of_storedCallbacks :
    (∀ (d : Directory) (imageBase : UInt64) (callbacks : List UInt32)
      (narrowMemory wideMemory : Memory) (rest rest' : Bytes),
      d.IsNarrow → d.callbacks ≠ 0 → imageBase ≤ d.callbacks →
      StoredCallbacks narrowMemory false (d.callbacks.toNat - imageBase.toNat) callbacks →
      StoredCallbacks wideMemory true (d.callbacks.toNat - imageBase.toNat) callbacks →
      decode narrowMemory false imageBase (d.bytes false ++ rest) =
        some ⟨d, callbacks.map UInt32.toUInt64⟩ ∧
      decode wideMemory true imageBase (d.bytes true ++ rest') =
        decode narrowMemory false imageBase (d.bytes false ++ rest)) ∧
    ∀ (memory : Memory) (wide : Bool) (imageBase : UInt64) (d : Directory) (rest : Bytes),
      d.Fits wide →
      d.callbacks = 0 ∨ d.callbacks < imageBase ∨
        imageBase.toNat + 2 ^ 32 ≤ d.callbacks.toNat →
      decode memory wide imageBase (d.bytes wide ++ rest) = some ⟨d, []⟩ := by
  constructor
  · intro d imageBase callbacks narrowMemory wideMemory rest rest' hd hne hle hnarrow hwide
    have hdecode := decode_of_stored_callbacks hd hne hle hnarrow rest
    exact ⟨hdecode, by rw [hdecode, decode_of_stored_callbacks hd hne hle hwide]⟩
  · intro memory wide imageBase d rest hd hlacks
    rw [decode_bytes_append hd, callbacksOf, Directory.callbackArray?_eq_none hlacks]

/-- A directory whose array of functions lies four bytes above the image base. -/
def sampleDirectory : Directory :=
  ⟨0x402000, 0x402010, 0x403000, 0x400004, 32, 0⟩

/-- A file with two functions, narrow ones at the end of the file or wide ones with a zero
behind. -/
def sampleImage (wide : Bool) : Image :=
  .ofList ([1, 2, 3, 4] ++ Memory.pointerBytes wide 0x401000 ++ Memory.pointerBytes wide 0x401100
    ++ if wide then Memory.pointerBytes wide 0 ++ [5, 6] else [])

/-- The sample image holds an array of two functions. -/
lemma storedCallbacks_sample (wide : Bool) :
    StoredCallbacks (.flat (sampleImage wide) false) wide 4 [0x401000, 0x401100] := by
  refine .cons (by decide) (by decide) ?_ (.cons ?_ (by decide) ?_ ?_)
  · cases wide <;> decide +kernel
  · cases wide <;> decide
  · cases wide <;> decide +kernel
  · cases wide with
    | true => exact .zero (by decide +kernel)
    | false => exact .unreadable (by decide +kernel)

/-- The functions of the sample are decoded in both widths. They are not looked for with an image
base that lies just above them or too far below them. -/
theorem decode_eq_of_storedCallbacks_sample :
    (decode (.flat (sampleImage false) false) false 0x400000 (sampleDirectory.bytes false) =
      some ⟨sampleDirectory, [0x401000, 0x401100]⟩ ∧
    decode (.flat (sampleImage true) false) true 0x400000 (sampleDirectory.bytes true ++ [7]) =
      some ⟨sampleDirectory, [0x401000, 0x401100]⟩) ∧
    decode (.flat (sampleImage false) true) false 0x400005 (sampleDirectory.bytes false) =
      some ⟨sampleDirectory, []⟩ ∧
    decode (.flat (sampleImage true) true) true 0x400000
        ({ sampleDirectory with callbacks := 0x100400000 }.bytes true) =
      some ⟨{ sampleDirectory with callbacks := 0x100400000 }, []⟩ := by
  obtain ⟨hstored, hlacks⟩ := decode_eq_of_storedCallbacks
  have hd : sampleDirectory.IsNarrow := ⟨by decide, by decide, by decide, by decide⟩
  obtain ⟨hnarrow, hwide⟩ := hstored sampleDirectory 0x400000 [0x401000, 0x401100] _ _ [] [7] hd
    (by decide) (by decide) (storedCallbacks_sample false) (storedCallbacks_sample true)
  rw [List.append_nil] at hnarrow hwide
  have hbelow := hlacks (.flat (sampleImage false) true) false 0x400005 sampleDirectory [] (.inr hd)
    (.inr (.inl (by decide)))
  have habove := hlacks (.flat (sampleImage true) true) true 0x400000
    { sampleDirectory with callbacks := 0x100400000 } [] (.inl rfl) (.inr (.inr (by decide)))
  rw [List.append_nil] at hbelow habove
  exact ⟨⟨hnarrow, hwide.trans hnarrow⟩, hbelow, habove⟩

end Info

end ThreadStorage

end PeCoff
