import Mathlib
import PeCoff.Image

/-!
# Steps of a machine

A decoder that runs on a machine works on numbers of fixed width and on tables of fixed length. An
access past the end of a table, a sum or product that does not fit, a difference below zero and a
shift by the whole width are faults, and so is a loop that goes on for more turns than a word can
count. The main statements are `loop_eq`, by which a loop ends without a fault when an invariant
holds at each turn and a measure goes down, and `iterate_settles`, by which it ends within any
number of turns above the measure even when a turn may stop at an access past the end of a table.
-/

namespace PeCoff.Machine

/-- Why a machine stops. -/
inductive Fault where
  /-- An access past the end of a table. -/
  | index
  /-- A range that starts after its end or ends after the table. -/
  | range
  /-- A number that does not fit. -/
  | overflow
  /-- A shift by the width of a number or more. -/
  | shift
  /-- Rows of no bytes. -/
  | stride
  /-- A copy between ranges of different lengths. -/
  | copy
  /-- A loop without an end. -/
  | endless
  /-- A report that is given up. -/
  | abandoned (error : DecodeError)
  deriving DecidableEq, Repr

/-- What a machine computes, unless it stops. -/
abbrev Step := Except Fault

section Bind

variable {α β γ : Type}

/-- A value is a step that does not stop. -/
@[simp] lemma pure_eq (a : α) : (pure a : Step α) = .ok a := rfl

/-- A step that does not stop hands on its value. -/
@[simp] lemma ok_bind (a : α) (f : α → Step β) : ((.ok a : Step α) >>= f) = f a := rfl

/-- A function is applied to the value of a step. -/
@[simp] lemma map_ok (a : α) (f : α → β) : (f <$> (.ok a : Step α)) = .ok (f a) := rfl

/-- A pass over a list has no fault when it has none at any element. -/
lemma mapM_eq {f : α → Step β} {g : α → β} {xs : List α} (h : ∀ x ∈ xs, f x = .ok (g x)) :
    xs.mapM f = .ok (xs.map g) := by
  induction xs with
  | nil => rfl
  | cons x xs ih =>
    rw [List.mapM_cons, h x List.mem_cons_self, ih fun y hy => h y (List.mem_cons_of_mem x hy)]
    rfl

/-- What a step gives for what is there. -/
def andThen (x : Option α) (f : α → Step (Option β)) : Step (Option β) :=
  match x with
  | none => .ok none
  | some a => f a

/-- What comes for what is there has no fault when it has none for each such thing. -/
lemma andThen_eq {x : Option α} {f : α → Step (Option β)} {g : α → Option β}
    (h : ∀ a, x = some a → f a = .ok (g a)) : andThen x f = .ok (x.bind g) := by
  cases x with
  | none => rfl
  | some a => exact h a rfl

end Bind

/-! ## Steps that may stop -/

section Settles

variable {α β : Type} {short short' : Prop} {x : Step α} {a : α} {b : β}

/-- A step gives a value, unless a table is too short and it stops at an access past its end. -/
inductive Settles (short : Prop) : Step α → α → Prop
  | ok (a : α) : Settles short (.ok a) a
  | stop (hshort : short) (a : α) : Settles short (.error .index) a

/-- A step without a fault gives its value. -/
lemma Settles.of_eq (h : x = .ok a) : Settles short x a := by
  rw [h]
  exact .ok a

/-- When all tables are long enough a value is given. -/
lemma Settles.eq_ok (h : Settles short x a) (hlong : ¬ short) : x = .ok a := by
  cases h with
  | ok => rfl
  | stop hshort => exact absurd hshort hlong

/-- Two steps one after the other give what the second one gives, unless one of them stops. -/
lemma Settles.bind {f : α → Step β} (hx : Settles short x a) (hf : Settles short (f a) b) :
    Settles short (x >>= f) b := by
  cases hx with
  | ok => exact hf
  | stop hshort => exact .stop hshort b

/-- What comes for what is there gives its value when it does so for each such thing. -/
lemma andThen_settles {o : Option α} {f : α → Step (Option β)} {g : α → Option β}
    (h : ∀ a, o = some a → Settles short (f a) (g a)) : Settles short (andThen o f) (o.bind g) := by
  cases o with
  | none => exact .ok none
  | some a => exact h a rfl

end Settles

/-! ## Numbers -/

/-- A sum of numbers of a width. -/
def add (width a b : Nat) : Step Nat :=
  if a + b < 2 ^ width then .ok (a + b) else .error .overflow

/-- A difference. -/
def sub (a b : Nat) : Step Nat :=
  if b ≤ a then .ok (a - b) else .error .overflow

/-- A product of numbers of a width. -/
def mul (width a b : Nat) : Step Nat :=
  if a * b < 2 ^ width then .ok (a * b) else .error .overflow

/-- A number of a width, shifted to the left. -/
def shiftLeft (width a places : Nat) : Step Nat :=
  if places < width then .ok (a * 2 ^ places % 2 ^ width) else .error .shift

/-- A sum of numbers of a width, when it fits. -/
def checkedAdd (width a b : Nat) : Option Nat :=
  if a + b < 2 ^ width then some (a + b) else none

/-- A difference, when there is one. -/
def checkedSub (a b : Nat) : Option Nat :=
  if b ≤ a then some (a - b) else none

/-- A sum of words, or the greatest word when it does not fit. -/
def saturatingAdd (a b : Nat) : Nat :=
  min (a + b) (2 ^ 64 - 1)

/-- A product of numbers of a width, when it fits. -/
def checkedMul (width a b : Nat) : Option Nat :=
  if a * b < 2 ^ width then some (a * b) else none

variable {width a b : Nat}

/-- A sum that fits is no fault. -/
lemma add_eq (h : a + b < 2 ^ width) : add width a b = .ok (a + b) := if_pos h

/-- A difference that there is is no fault. -/
lemma sub_eq (h : b ≤ a) : sub a b = .ok (a - b) := if_pos h

/-- A product that fits is no fault. -/
lemma mul_eq (h : a * b < 2 ^ width) : mul width a b = .ok (a * b) := if_pos h

/-- A shift by less than the width is no fault. -/
lemma shiftLeft_eq (h : b < width) : shiftLeft width a b = .ok (a * 2 ^ b % 2 ^ width) := if_pos h

/-- A sum that fits is found. -/
lemma checkedAdd_eq (h : a + b < 2 ^ width) : checkedAdd width a b = some (a + b) := if_pos h

/-- A sum that does not fit is noticed. -/
lemma checkedAdd_eq_none (h : 2 ^ width ≤ a + b) : checkedAdd width a b = none :=
  if_neg (Nat.not_lt.mpr h)

/-- A difference that there is is found. -/
lemma checkedSub_eq (h : b ≤ a) : checkedSub a b = some (a - b) := if_pos h

/-- A difference below zero is noticed. -/
lemma checkedSub_eq_none (h : ¬ b ≤ a) : checkedSub a b = none := if_neg h

/-- A product that fits is found. -/
lemma checkedMul_eq (h : a * b < 2 ^ width) : checkedMul width a b = some (a * b) := if_pos h

/-- A product that does not fit is noticed. -/
lemma checkedMul_eq_none (h : 2 ^ width ≤ a * b) : checkedMul width a b = none :=
  if_neg (Nat.not_lt.mpr h)

/-! ## Tables -/

section Tables

variable {α : Type}

/-- The element of a table at a place. -/
def index (xs : List α) (i : Nat) : Step α :=
  match xs[i]? with
  | some x => .ok x
  | none => .error .index

/-- The elements of a table from a place up to another one. -/
def slice (xs : List α) (start stop : Nat) : Step (List α) :=
  if start ≤ stop ∧ stop ≤ xs.length then .ok ((xs.take stop).drop start) else .error .range

/-- The elements of a table from a place up to another one, when they are there. -/
def slice? (xs : List α) (start stop : Nat) : Option (List α) :=
  if start ≤ stop ∧ stop ≤ xs.length then some ((xs.take stop).drop start) else none

variable {xs : List α} {start stop i : Nat}

/-- An access within a table is no fault. -/
lemma index_eq (h : i < xs.length) : index xs i = .ok xs[i] := by
  rw [index, List.getElem?_eq_getElem h]

/-- A range within a table is no fault. -/
lemma slice_eq (h₁ : start ≤ stop) (h₂ : stop ≤ xs.length) :
    slice xs start stop = .ok ((xs.take stop).drop start) := if_pos ⟨h₁, h₂⟩

/-- A range within a table is found. -/
lemma slice?_eq (h₁ : start ≤ stop) (h₂ : stop ≤ xs.length) :
    slice? xs start stop = some ((xs.take stop).drop start) := if_pos ⟨h₁, h₂⟩

/-- A range up to the end of a table is there when its start is. -/
lemma slice?_length_eq (xs : List α) (start : Nat) :
    slice? xs start xs.length = if start ≤ xs.length then some (xs.drop start) else none := by
  by_cases h : start ≤ xs.length
  · rw [slice?_eq h (Nat.le_refl _), if_pos h, List.take_length]
  · rw [if_neg h]
    exact if_neg fun hrange => h hrange.1

end Tables

/-! ## Loops -/

section Loops

variable {σ β : Type}

/-- Up to a number of turns, each of which goes on with another state or ends the loop. -/
def iterate (turn : σ → Step (σ ⊕ β)) : (turns : Nat) → σ → Step β
  | 0, _ => .error .endless
  | turns + 1, s => do
    match ← turn s with
    | .inl next => iterate turn turns next
    | .inr result => return result

/-- A loop of no more turns than a word can count. -/
def loop (turn : σ → Step (σ ⊕ β)) (s : σ) : Step β :=
  iterate turn (2 ^ 64) s

variable {turn : σ → Step (σ ⊕ β)} {s : σ}

/-- A loop ends with what each of its states promises, within any number of turns above the measure
of its first state, when a turn from a state within the invariant either ends with it or leads to
such a state of smaller measure with the same promise. -/
theorem iterate_settles {short : Prop} (Invariant : σ → Prop) (measure : σ → Nat) (result : σ → β)
    (hturn : ∀ s, Invariant s → Settles short (turn s) (.inr (result s)) ∨
      ∃ next, Settles short (turn s) (.inl next) ∧ Invariant next ∧ measure next < measure s ∧
        result next = result s)
    (hs : Invariant s) {turns : Nat} (hmeasure : measure s < turns) :
    Settles short (iterate turn turns s) (result s) := by
  induction turns generalizing s with
  | zero => exact absurd hmeasure (Nat.not_lt_zero _)
  | succ turns ih =>
    rw [iterate]
    obtain hend | ⟨next, hnext, hinvariant, hless, hresult⟩ := hturn s hs
    · exact hend.bind (.ok (result s))
    · rw [← hresult]
      exact hnext.bind (ih hinvariant (Nat.lt_of_lt_of_le hless (Nat.le_of_lt_succ hmeasure)))

/-- A loop whose turns do not stop ends without a fault. -/
lemma iterate_eq (Invariant : σ → Prop) (measure : σ → Nat) (result : σ → β)
    (hturn : ∀ s, Invariant s → turn s = .ok (.inr (result s)) ∨
      ∃ next, turn s = .ok (.inl next) ∧ Invariant next ∧ measure next < measure s ∧
        result next = result s)
    (hs : Invariant s) {turns : Nat} (hmeasure : measure s < turns) :
    iterate turn turns s = .ok (result s) := by
  have hsettles : Settles False (iterate turn turns s) (result s) := by
    refine iterate_settles Invariant measure result (fun s hs => ?_) hs hmeasure
    obtain hend | ⟨next, hnext, hrest⟩ := hturn s hs
    · exact .inl (.of_eq hend)
    · exact .inr ⟨next, .of_eq hnext, hrest⟩
  exact hsettles.eq_ok id

/-- A loop ends without a fault when its measure fits into a word. -/
theorem loop_eq (Invariant : σ → Prop) (measure : σ → Nat) (result : σ → β)
    (hturn : ∀ s, Invariant s → turn s = .ok (.inr (result s)) ∨
      ∃ next, turn s = .ok (.inl next) ∧ Invariant next ∧ measure next < measure s ∧
        result next = result s)
    (hs : Invariant s) (hmeasure : measure s < 2 ^ 64) : loop turn s = .ok (result s) :=
  iterate_eq Invariant measure result hturn hs hmeasure

end Loops

end PeCoff.Machine
