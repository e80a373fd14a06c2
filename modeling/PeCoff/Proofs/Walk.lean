import Mathlib
import PeCoff.Memory

/-!
# Walks

A walk follows a table without a declared length element by element. The main statement is
`map_walk_eq`: two walks find the same elements when they agree at each address that the first of
them reaches. How far a walk can go in any memory is `finds_walk`.
-/

namespace PeCoff

variable {α β γ : Type} {stride start place : Nat} {present : Nat → Prop}
  {element : Nat → Option α} {element' : Nat → Option β}

/-- A walk ends where there is no element. -/
lemma walk_of_eq_none (h : element start = none) : walk stride element start = [] := by
  rw [walk]
  split
  · rw [h]
  · rfl

/-- A walk ends past the last address. -/
lemma walk_of_addressLimit_le (h : addressLimit ≤ start) : walk stride element start = [] := by
  rw [walk, dif_neg (by omega)]

/-- A walk goes on behind an element. -/
lemma walk_of_eq_some {a : α} (hstride : 0 < stride) (hstart : start < addressLimit)
    (h : element start = some a) :
    walk stride element start = a :: walk stride element (start + stride) := by
  rw [walk, dif_pos ⟨hstride, hstart⟩, h]

/-! ## The end of a walk -/

/-- How many elements have their starts below the address limit. -/
def room (stride start : Nat) : Nat :=
  (addressLimit - start) ⌈/⌉ stride

/-- There is room for an element whose start is below the address limit. -/
lemma lt_room_iff (hstride : 0 < stride) {i : Nat} :
    i < room stride start ↔ start + i * stride < addressLimit := by
  rw [room, ← Nat.not_le, ceilDiv_le_iff_le_mul hstride, Nat.not_le, Nat.mul_comm]
  omega

/-- The elements of a walk were found one stride after the other, each at an address, and the walk
goes on as long as there are addresses and elements. -/
structure Finds (stride : Nat) (element : Nat → Option α) (start : Nat) (found : List α) :
    Prop where
  found_at : ∀ i a, found[i]? = some a →
    start + i * stride < addressLimit ∧ element (start + i * stride) = some a
  ends : start + found.length * stride < addressLimit →
    element (start + found.length * stride) = none
  length_le : found.length ≤ room stride start

/-- A walk ends for every memory. -/
lemma finds_walk (hstride : 0 < stride) (element : Nat → Option α) (start : Nat) :
    Finds stride element start (walk stride element start) where
  found_at i a h := (getElem?_walk stride element start i a h).symm
  ends := by
    fun_induction walk stride element start with
    | case1 start hs hnone => simp [hnone]
    | case2 start hs a hsome ih =>
      rw [List.length_cons, Nat.succ_mul, Nat.add_comm (_ * _), ← Nat.add_assoc]
      exact ih
    | case3 start hs => exact fun hlt => absurd ⟨hstride, by simpa using hlt⟩ hs
  length_le := by
    by_contra hlt
    obtain ⟨a, ha⟩ : ∃ a, (walk stride element start)[room stride start]? = some a :=
      ⟨_, List.getElem?_eq_getElem (Nat.lt_of_not_le hlt)⟩
    have haddress := (getElem?_walk stride element start _ a ha).2
    exact Nat.lt_irrefl _ ((lt_room_iff hstride).mpr haddress)

/-- Where elements never end only the addresses do. -/
lemma Finds.length_eq {found : List α} (hstride : 0 < stride)
    (h : Finds stride element start found) (hsome : ∀ p, element p ≠ none) :
    found.length = room stride start := by
  refine Nat.le_antisymm h.length_le (Nat.le_of_not_lt fun hlt => ?_)
  exact hsome _ (h.ends ((lt_room_iff hstride).mp hlt))

/-- A walk comes from an address to another one, since an element is present at each address before
that. -/
inductive Reaches (stride : Nat) (present : Nat → Prop) : (start place : Nat) → Prop
  | here {start : Nat} (hstart : start < addressLimit) : Reaches stride present start start
  | later {start place : Nat} (hstart : start < addressLimit) (hpresent : present start)
      (h : Reaches stride present (start + stride) place) : Reaches stride present start place

/-- Walks that agree, as far as one can tell them apart, at each address that the first one reaches
find elements that cannot be told apart. -/
theorem map_walk_eq (f : α → γ) (g : β → γ) (hpresent : ∀ p, (element p).isSome → present p)
    (h : ∀ p, Reaches stride present start p → (element p).map f = (element' p).map g) :
    (walk stride element start).map f = (walk stride element' start).map g := by
  -- The first walk is followed. Where it ends the second one finds nothing either.
  fun_induction walk stride element start with
  | case1 start hs hnone =>
    have hnone' := h start (.here hs.2)
    rw [hnone, Option.map_none, eq_comm, Option.map_eq_none_iff] at hnone'
    rw [walk_of_eq_none hnone']
    rfl
  | case2 start hs a hsome ih =>
    have hsome' := h start (.here hs.2)
    rw [hsome, Option.map_some, eq_comm, Option.map_eq_some_iff] at hsome'
    obtain ⟨b, hsome', hsame⟩ := hsome'
    rw [walk_of_eq_some hs.1 hs.2 hsome', List.map_cons, List.map_cons, hsame]
    refine congrArg (f a :: ·) (ih fun p hp => h p ?_)
    exact .later hs.2 (hpresent start (by rw [hsome]; rfl)) hp
  | case3 start hs =>
    rw [walk, dif_neg hs]
    rfl

/-- A walk never comes back. -/
lemma Reaches.start_le (h : Reaches stride present start place) : start ≤ place := by
  induction h with
  | here => exact Nat.le_refl _
  | later _ _ _ ih => exact Nat.le_of_add_right_le ih

/-- The elements of a table with their addresses, up to the first one that ends it. -/
def elements (stride : Nat) (element : Nat → Option α) (isLast : α → Bool) :
    (count : Nat) → (start : Nat) → List (Nat × α)
  | 0, _ => []
  | count + 1, start =>
    match element start with
    | none => []
    | some a =>
      (start, a) :: if isLast a then [] else elements stride element isLast count (start + stride)

/-- The elements of a table are what a walk reaches, if they are counted far enough. -/
lemma mem_elements_iff {isLast : α → Bool} {limit count : Nat} {a : α} (hstride : 0 < stride)
    (helement : ∀ p, (element p).isSome → p < limit) (hlimit : limit ≤ addressLimit)
    (hcount : limit ≤ start + count) :
    (place, a) ∈ elements stride element isLast count start ↔
      Reaches stride (fun p => ∃ b, element p = some b ∧ ¬ isLast b) start place ∧
        element place = some a := by
  -- The bound `hcount` carries the induction: once the count is used up, the walk has come past
  -- `limit`, where there is no element.
  induction count generalizing start with
  | zero =>
    refine iff_of_false List.not_mem_nil fun ⟨hreaches, hplace⟩ => ?_
    have hle := hreaches.start_le
    have hlt := helement place (by rw [hplace]; rfl)
    omega
  | succ count ih =>
    rw [elements]
    cases hstart : element start with
    | none =>
      refine iff_of_false List.not_mem_nil fun ⟨hreaches, hplace⟩ => ?_
      cases hreaches with
      | here => rw [hstart] at hplace; cases hplace
      | later _ hpresent =>
        obtain ⟨b, hb, -⟩ := hpresent
        rw [hstart] at hb
        cases hb
    | some b =>
      have hlt := helement start (by rw [hstart]; rfl)
      have ih := @ih (start + stride) (by omega)
      simp only [List.mem_cons, Prod.mk.injEq]
      constructor
      · rintro (⟨rfl, rfl⟩ | hrest)
        · exact ⟨.here (by omega), hstart⟩
        · by_cases hlast : isLast b
          · rw [if_pos hlast] at hrest
            cases hrest
          · rw [if_neg hlast, ih] at hrest
            exact ⟨.later (by omega) ⟨b, hstart, hlast⟩ hrest.1, hrest.2⟩
      · rintro ⟨hreaches, hplace⟩
        cases hreaches with
        | here =>
          rw [hstart] at hplace
          exact .inl ⟨rfl, (Option.some.inj hplace).symm⟩
        | later _ hpresent hrest =>
          obtain ⟨c, hc, hlast⟩ := hpresent
          obtain rfl := Option.some.inj (hstart.symm.trans hc)
          rw [if_neg hlast, ih]
          exact .inr ⟨hrest, hplace⟩

end PeCoff
