import Mathlib
import PeCoff.Proofs.Build
import PeCoff.Proofs.Export.Symbols

/-!
# The order of the symbols

The symbols of a directory are those of the name table and then those that fill in for missing
names, brought into the order of their ordinals. The main statement is `yields_sorted_of_readable`:
a cursor hands out all of them, symbols of one ordinal stay in the order in which they were found,
and the names that are made up differ from each other.
-/

namespace PeCoff.Text.UpperCase

/-- A decimal digit has no other case. -/
lemma ofChar_of_isDigit {c : Char} (h : c.isDigit) : ofChar c = [c] := by
  have hdigits : ∀ n, 48 ≤ n → n ≤ 57 → ofChar (Char.ofNat n) = [Char.ofNat n] := by
    decide +kernel
  simp only [Char.isDigit, Bool.and_eq_true, decide_eq_true_eq, ge_iff_le, UInt32.le_iff_toNat_le]
    at h
  have hc := hdigits c.toNat h.1 h.2
  rwa [Char.ofNat_toNat] at hc

/-- A decimal number has no other case. -/
lemma flatMap_ofChar_repr (n : Nat) : n.repr.toList.flatMap ofChar = n.repr.toList := by
  have hdigits : ∀ c ∈ n.repr.toList, ofChar c = [c] := by
    intro c hc
    rw [Nat.toList_repr] at hc
    exact ofChar_of_isDigit (Nat.isDigit_of_mem_toDigits (by decide) (by decide) hc)
  rw [List.flatMap_congr hdigits, List.flatMap_singleton']

end PeCoff.Text.UpperCase

namespace PeCoff.Export

/-- In an exact memory the name table has as many entries as are declared. -/
lemma Tables.length_pairs {memory : Memory} (hm : memory.Exact) {d : Directory}
    (h : (Tables.read memory d).Readable) :
    (Tables.read memory d).pairs.length = d.numberOfNames.toNat := by
  obtain ⟨names, hn⟩ := Option.isSome_iff_exists.mp h.names
  obtain ⟨ordinals, ho⟩ := Option.isSome_iff_exists.mp h.ordinals
  rw [pairs, hn, ho, List.length_zip, List.length_map, length_column hm (by decide) hn,
    length_column hm (by decide) ho, Nat.min_self]

namespace Symbols

variable {memory : Memory} {d : Directory}

/-! ## The cursor -/

/-- A cursor hands out a list when it hands out one symbol of it after the other, and then no
more. -/
inductive Yields : Symbols → List Symbol → Prop
  | done {s : Symbols} (h : s.next? = none) : Yields s []
  | next {s rest : Symbols} {x : Symbol} {xs : List Symbol} (h : s.next? = some (x, rest))
      (hrest : Yields rest xs) : Yields s (x :: xs)

/-- Handing out a symbol takes it off the front of those that are left. -/
lemma pending_of_next? {s rest : Symbols} {x : Symbol} (h : s.next? = some (x, rest)) :
    s.pending = x :: rest.pending := by
  obtain ⟨_ | ⟨y, ys⟩, named, total, base⟩ := s
  · cases h
  · cases h
    rfl

/-- A cursor hands out the symbols that are left, in their order, and nothing else. -/
lemma yields_iff {s : Symbols} {xs : List Symbol} : s.Yields xs ↔ xs = s.pending := by
  constructor
  · intro h
    induction h with
    | @done s h =>
      obtain ⟨_ | _, named, total, base⟩ := s
      · rfl
      · cases h
    | next h _ ih => rw [pending_of_next? h, ih]
  · rintro rfl
    obtain ⟨pending, named, total, base⟩ := s
    induction pending with
    | nil => exact .done rfl
    | cons x xs ih => exact .next rfl ih

/-! ## Names that are made up -/

/-- Different ordinals have different made-up names. -/
lemma synthetic_injective (tag : String) : Function.Injective (synthetic tag) := by
  intro a b h
  have hlist : (synthetic tag a).toList = (synthetic tag b).toList := congrArg String.toList h
  simp only [synthetic, Text.UpperCase.ofString, String.toList_ofList, String.toList_append,
    List.flatMap_append] at hlist
  have hdigits : (a.toNat.repr.toList.flatMap Text.UpperCase.ofChar) =
      b.toNat.repr.toList.flatMap Text.UpperCase.ofChar := List.append_cancel_left hlist
  rw [Text.UpperCase.flatMap_ofChar_repr, Text.UpperCase.flatMap_ofChar_repr,
    String.toList_inj] at hdigits
  exact UInt32.toNat_inj.mp (Nat.repr_injective hdigits)

/-- The unnamed indices have different ordinals, and so they get different names. -/
lemma nodup_synthetic (hm : memory.Exact) (d : Directory) (tag : String) :
    ((Tables.read memory d).unnamed.map fun i => synthetic tag (d.ordinal i)).Nodup := by
  refine List.Nodup.map_on ?_ (List.nodup_range.filter _)
  intro i hi j hj h
  have hlt {i : Nat} (hi : i ∈ (Tables.read memory d).unnamed) : i < addressLimit := by
    have hunnamed : (Tables.read memory d).Unnamed i := by simpa using (List.mem_filter.mp hi).2
    exact hunnamed.1.lt_addressLimit hm
  exact (d.ordinal_inj (hlt hi) (hlt hj)).mp (synthetic_injective tag h)

/-! ## Sorting -/

/-- The order of symbols by ordinal is transitive. -/
lemma ordinal_trans (a b c : Symbol) (hab : decide (a.ordinal ≤ b.ordinal))
    (hbc : decide (b.ordinal ≤ c.ordinal)) : decide (a.ordinal ≤ c.ordinal) := by
  simp only [decide_eq_true_eq] at *
  exact UInt32.le_trans hab hbc

/-- Any two symbols are ordered by ordinal. -/
lemma ordinal_total (a b : Symbol) :
    decide (a.ordinal ≤ b.ordinal) || decide (b.ordinal ≤ a.ordinal) := by
  simpa using UInt32.le_total a.ordinal b.ordinal

/-- Sorting by ordinal keeps the order of symbols of one ordinal. -/
lemma filter_mergeSort (xs : List Symbol) (o : UInt32) :
    (xs.mergeSort fun a b => a.ordinal ≤ b.ordinal).filter (fun x => x.ordinal = o) =
      xs.filter fun x => x.ordinal = o := by
  set same := xs.filter fun x => x.ordinal = o with hsame
  have hpairwise : same.Pairwise fun a b => decide (a.ordinal ≤ b.ordinal) := by
    refine List.pairwise_of_forall_mem_list fun a ha b hb => ?_
    simp only [hsame, List.mem_filter, decide_eq_true_eq] at ha hb
    simp [ha.2, hb.2]
  have hsub := List.sublist_mergeSort ordinal_trans ordinal_total hpairwise List.filter_sublist
  have hsub := hsub.filter fun x => x.ordinal = o
  rw [hsame, List.filter_filter] at hsub
  simp only [Bool.and_self] at hsub
  exact (hsub.eq_of_length ((List.mergeSort_perm xs _).filter _).length_eq.symm).symm

/-- The symbols of a directory whose tables can be read come in the order of their ordinals. They
are those of the name table and one for each exported index without a name, those of one ordinal in
this order. In an exact memory there are as many of the first as are declared, and the names of the
others, which are made up, differ. -/
theorem yields_sorted_of_readable (h : (Tables.read memory d).Readable) (tag : String) :
    ∃ s xs named filled, ofDirectory memory d tag = .ok s ∧ (∀ ys, s.Yields ys ↔ ys = xs) ∧
      named = (Tables.read memory d).pairs.map (fun p =>
        (⟨d.ordinal p.1, (memory.text p.2.toNat).getD "cant_get_function"⟩ : Symbol)) ∧
      filled = (Tables.read memory d).unnamed.map (fun i =>
        (⟨d.ordinal i, synthetic tag (d.ordinal i)⟩ : Symbol)) ∧
      xs.Pairwise (fun a b => a.ordinal ≤ b.ordinal) ∧
      xs.Perm (named ++ filled) ∧
      (∀ o, xs.filter (fun x => x.ordinal = o) =
        (named ++ filled).filter fun x => x.ordinal = o) ∧
      (memory.Exact →
        xs.length = d.numberOfNames.toNat + (Tables.read memory d).unnamed.length ∧
        filled.Pairwise fun a b => a.name ≠ b.name) := by
  have hperm := List.mergeSort_perm (unordered memory d tag) fun a b => a.ordinal ≤ b.ordinal
  refine ⟨_, _, _, _, ofDirectory_eq tag h, fun ys => yields_iff, rfl, rfl, ?_, hperm,
    filter_mergeSort _, fun hm => ⟨?_, ?_⟩⟩
  · have hsorted := List.pairwise_mergeSort ordinal_trans ordinal_total (unordered memory d tag)
    exact hsorted.imp fun hle => of_decide_eq_true hle
  · rw [hperm.length_eq, unordered, List.length_append, namedSymbols, List.length_map,
      List.length_map, Tables.length_pairs hm h]
  · have hnames := nodup_synthetic hm d tag
    rw [List.pairwise_map]
    exact List.pairwise_map.mp hnames

/-- A directory of 34 functions of which the last has two names, and with a third name for an index
that is not there. Its first ordinal is the last one but three, so that the ordinals wrap. -/
def wrappingDirectory : Directory :=
  { Build.exportDirectory 0 (List.replicate 34 0x1000) (List.replicate 3 0x9000) with
    base := 0xFFFFFFFC }

/-- The memory of this directory; no name can be read. -/
def wrappingMemory : Memory :=
  .flat (.ofList (Build.exportBytes 0 (List.replicate 34 0x1000) (List.replicate 3 0x9000)
    [33, 33, 40])) true

/-- Of 36 symbols three are from the name table, and 33 have names that are made up. -/
theorem yields_sorted_of_readable_wrapping :
    (Tables.read wrappingMemory wrappingDirectory).Readable ∧
      ∃ s xs, ofDirectory wrappingMemory wrappingDirectory "lib" = .ok s ∧ s.Yields xs ∧
        xs.Pairwise (fun a b => a.ordinal ≤ b.ordinal) ∧ xs.length = 36 := by
  have hm : wrappingMemory.Exact := Memory.flat_exact _ _
  have hr : (Tables.read wrappingMemory wrappingDirectory).Readable := by decide +kernel
  have hcount : (Tables.read wrappingMemory wrappingDirectory).unnamed.length = 33 := by
    decide +kernel
  obtain ⟨s, xs, named, filled, hs, hyields, -, -, hsorted, -, -, hexact⟩ :=
    yields_sorted_of_readable hr "lib"
  obtain ⟨hlength, -⟩ := hexact hm
  refine ⟨hr, s, xs, hs, (hyields xs).mpr rfl, hsorted, ?_⟩
  rw [hlength, hcount]
  rfl

end Symbols

end PeCoff.Export
