import Mathlib
import PeCoff.Proofs.Build
import PeCoff.Proofs.Resource.Route

/-!
# The paths of a tree

The walk over a tree is exact in every memory, also over directories that contain themselves. Each
resource is put next to its path (`located`); the paths are those that lead to a resource, in order
of their indices (`located_spec`). The main statement is `entries_follow_paths`.
-/

namespace PeCoff.Resource

/-- The lexicographic order of the indices. -/
def Path.Before (p q : Path) : Prop :=
  p.type < q.type ∨ p.type = q.type ∧
    (p.name < q.name ∨ p.name = q.name ∧ p.language < q.language)

/-! ## Lists with indices -/

section

variable {α β γ : Type}

/-- What is made from a list with indices is in order if what is made from each element is, and if
it comes before what is made from a larger index. -/
lemma pairwise_flatMap_zipIdx {l : List α} {f : α × Nat → List β} {R : β → β → Prop}
    (hwithin : ∀ a i, (f (a, i)).Pairwise R)
    (hacross : ∀ {a b i j}, i < j → ∀ x ∈ f (a, i), ∀ y ∈ f (b, j), R x y) :
    (l.zipIdx.flatMap f).Pairwise R := by
  have hindices : l.zipIdx.Pairwise fun x y => x.2 < y.2 := by
    rw [← List.pairwise_map, List.zipIdx_map_snd]
    exact List.pairwise_lt_range'
  exact List.pairwise_flatMap.mpr ⟨fun x _ => hwithin x.1 x.2, hindices.imp hacross⟩

/-- What is done with each index may be left out again. -/
lemma map_flatMap_zipIdx {l : List α} {f : α × Nat → List β} {g : β → γ} {h : α → List γ}
    (hf : ∀ a i, (f (a, i)).map g = h a) : (l.zipIdx.flatMap f).map g = l.flatMap h := by
  have hpair (x : α × Nat) : (f x).map g = h x.1 := hf x.1 x.2
  rw [List.map_flatMap, funext hpair, ← List.flatMap_map, List.zipIdx_map_fst]

end

namespace Tree

section

variable (memory : Memory) (root : UInt32)

/-- The resources below the entries of the root, each with its path. -/
def located (types : List DirectoryEntry) : List (Path × Entry) :=
  types.zipIdx.flatMap fun (type, t) =>
    (subdirectory memory root type).zipIdx.flatMap fun (name, n) =>
      (subdirectory memory root name).zipIdx.flatMap fun (language, l) =>
        (entryOf? memory root (idOf memory root type) (idOf memory root name)
          language).toList.map (⟨t, n, l⟩, ·)

end

variable {memory memory' : Memory} {root : UInt32} {types : List DirectoryEntry}

/-- The resources with their paths are the decoded ones. -/
lemma map_snd_located :
    (located memory root types).map Prod.snd = types.flatMap (namesOf memory root) := by
  refine map_flatMap_zipIdx fun type t => map_flatMap_zipIdx fun name n => ?_
  rw [languagesOf, List.filterMap_eq_flatMap_toList]
  refine map_flatMap_zipIdx fun language l => ?_
  rw [List.map_map]
  exact List.map_id _

/-- A resource is listed with a path exactly when the path leads to it. -/
lemma mem_located_iff (htypes : directoryAt memory root 0 = some types) {p : Path} {r : Entry} :
    (p, r) ∈ located memory root types ↔ ∃ route, Leads memory root p route r := by
  rw [exists_leads_iff htypes]
  simp only [located, List.mem_flatMap, List.mem_map, Option.mem_toList, Prod.exists,
    List.mk_mem_zipIdx_iff_getElem?, Prod.mk.injEq]
  constructor
  · rintro ⟨type, t, htype, name, n, hname, language, l, hlanguage, r, hr, rfl, rfl⟩
    exact ⟨type, name, language, htype, hname, hlanguage, hr⟩
  · rintro ⟨type, name, language, htype, hname, hlanguage, hr⟩
    exact ⟨type, p.type, htype, name, p.name, hname, language, p.language, hlanguage, r, hr, rfl,
      rfl⟩

/-- The order of the paths is that of the levels, from the outermost to the innermost. -/
lemma pairwise_located : (located memory root types).Pairwise fun x y => x.1.Before y.1 := by
  refine pairwise_flatMap_zipIdx (fun type t => ?_) fun {a b i j} hlt x hx y hy => ?_
  · refine pairwise_flatMap_zipIdx (fun name n => ?_) fun {a b i j} hlt x hx y hy => ?_
    · refine pairwise_flatMap_zipIdx (fun language l => ?_) fun {a b i j} hlt x hx y hy => ?_
      · dsimp only
        cases entryOf? memory root (idOf memory root type) (idOf memory root name) language with
        | none => exact .nil
        | some r => exact List.pairwise_singleton _ _
      · obtain ⟨_, -, rfl⟩ := List.mem_map.mp hx
        obtain ⟨_, -, rfl⟩ := List.mem_map.mp hy
        exact .inr ⟨rfl, .inr ⟨rfl, hlt⟩⟩
    · simp only [List.mem_flatMap, List.mem_map] at hx hy
      obtain ⟨_, -, _, -, rfl⟩ := hx
      obtain ⟨_, -, _, -, rfl⟩ := hy
      exact .inr ⟨rfl, .inl hlt⟩
  · simp only [List.mem_flatMap, List.mem_map] at hx hy
    obtain ⟨_, -, _, -, _, -, rfl⟩ := hx
    obtain ⟨_, -, _, -, _, -, rfl⟩ := hy
    exact .inl hlt

/-- There is no tree exactly when the header of its root cannot be read. -/
lemma decode_eq_none_iff :
    decode memory root = none ↔ ∀ h, ¬ RecordAt memory root DirectoryHeader.layout 0 h := by
  rw [decode, directoryAt, Option.map_eq_none_iff, Option.map_eq_none_iff,
    Option.eq_none_iff_forall_ne_some]
  exact forall_congr' fun h => not_congr recordAt_iff

/-- There is a tree exactly when the header of its root can be read. Its resources are those to
which paths lead, in the order of the paths. What cannot be read adds no path, and it takes no path
with it that does not ask for it. -/
theorem entries_follow_paths (memory : Memory) (root : UInt32) :
    (decode memory root = none ↔ ∀ h, ¬ RecordAt memory root DirectoryHeader.layout 0 h) ∧
    (∀ tree, decode memory root = some tree → ∃ located : List (Path × Entry),
      located.map Prod.snd = tree.entries ∧ (located.Pairwise fun x y => x.1.Before y.1) ∧
        ∀ p r, (p, r) ∈ located ↔ ∃ route, Leads memory root p route r) ∧
    ∀ memory' : Memory,
      ((∀ a n bs, memory' a n = some bs → memory a n = some bs) →
        ∀ p route r', Leads memory' root p route r' → ∃ r, Leads memory root p route r) ∧
      ∀ p route r, Leads memory root p route r →
        (∀ a n, Asks memory root p route r a n → memory' a n = memory a n) →
          Leads memory' root p route r := by
  refine ⟨decode_eq_none_iff, fun tree htree => ?_, fun memory' =>
    ⟨fun hle p route r hr => hr.exists_of_le hle, fun p route r hr h => hr.congr h⟩⟩
  obtain ⟨types, htypes, rfl⟩ := Option.map_eq_some_iff.mp htree
  exact ⟨located memory root types, map_snd_located, pairwise_located,
    fun p r => mem_located_iff htypes⟩

/-- A tree whose root is also the directory of its first type and of the first name. Its second
entry leads to data, and its third entry to a directory behind the data. -/
def cyclicTree : Bytes :=
  let header := DirectoryHeader.layout.read fun _ => 0
  DirectoryHeader.layout.write { header with numberOfNamedEntries := 1, numberOfIdEntries := 2 }
    ++ DirectoryEntry.layout.write ⟨0x80000038, 0x80000000⟩
    ++ DirectoryEntry.layout.write ⟨1033, 40⟩ ++ DirectoryEntry.layout.write ⟨7, 0x8000003C⟩
    ++ DataEntry.layout.write ⟨72, 4, 0, 0⟩ ++ [1, 0, 65, 0]
    ++ DirectoryHeader.layout.write { header with numberOfIdEntries := 1 }
    ++ DirectoryEntry.layout.write ⟨1, 40⟩

/-- The tree at address 16. -/
def cyclicMemory : Memory :=
  .flat (.ofList (List.replicate 16 0 ++ cyclicTree)) true

/-- The tree without the directory behind the data. -/
def cutMemory : Memory := fun address length =>
  if address + length ≤ 76 then cyclicMemory address length else none

def cyclicRoute : Route :=
  ⟨⟨0x80000038, 0x80000000⟩, ⟨0x80000038, 0x80000000⟩, ⟨1033, 40⟩⟩

def cyclicEntry : Entry :=
  ⟨.name [65], .name [65], 1033, ⟨72, 4, 0, 0⟩, .bytes [1, 0, 65, 0]⟩

/-- In the sample tree a directory leads back to the root and on to the resource. -/
lemma leads_cyclicEntry : Leads cyclicMemory 16 ⟨0, 0, 1⟩ cyclicRoute cyclicEntry where
  type := getElem?_directoryAt.mp (by decide +kernel)
  type_isDirectory := rfl
  name := getElem?_directoryAt.mp (by decide +kernel)
  name_isDirectory := rfl
  language := getElem?_directoryAt.mp (by decide +kernel)
  language_isData := by decide
  data := recordAt_iff.mp (by decide +kernel)
  type_called := called_iff.mpr (by decide +kernel)
  name_called := called_iff.mpr (by decide +kernel)
  language_called := rfl
  payload := carries_iff.mpr (by decide +kernel)

/-- The path does not ask for the directory behind the data. -/
lemma cutMemory_eq_of_asks {a n : Nat}
    (h : Asks cyclicMemory 16 ⟨0, 0, 1⟩ cyclicRoute cyclicEntry a n) :
    cutMemory a n = cyclicMemory a n := by
  have hentry {index a n : Nat} (hindex : index ≤ 1) (h : AsksEntry 16 0 index a n) :
      a + n ≤ 76 := by
    have hroot : (16 : UInt32).toNat = 16 := rfl
    cases h with
    | header => omega
    | entry hi => omega
  have htext {a n : Nat} (h : AsksText cyclicMemory 16 cyclicRoute.type a n) : a + n ≤ 76 := by
    cases h with
    | length => decide
    | units _ hlength =>
      have hone : cyclicMemory.record? .u16 (16 + 56) = some 1 := by decide +kernel
      obtain rfl := Option.some.inj (hone.symm.trans hlength.2)
      decide
  refine if_pos ?_
  cases h with
  | type h => exact hentry (by decide) h
  | name h => exact hentry (by decide) h
  | language h => exact hentry (by decide) h
  | typeText h => exact htext h
  | nameText h => exact htext h
  | data => decide
  | payload => decide

/-- The first path stays when the directory behind the data is cut off, while the second one
goes. -/
theorem entries_follow_paths_cyclic :
    decode cyclicMemory 0x1000 = none ∧
    (∃ tree, decode cyclicMemory 16 = some tree ∧ tree.entries.length = 2 ∧
      ∃ located : List (Path × Entry), located.map Prod.snd = tree.entries ∧
        (located.Pairwise fun x y => x.1.Before y.1) ∧ (⟨0, 0, 1⟩, cyclicEntry) ∈ located) ∧
    Leads cutMemory 16 ⟨0, 0, 1⟩ cyclicRoute cyclicEntry ∧
    (∃ r, Leads cyclicMemory 16 ⟨0, 0, 1⟩ cyclicRoute r) ∧
    (decode cutMemory 16).map entries = some [cyclicEntry] := by
  obtain ⟨hnone, -⟩ := entries_follow_paths cyclicMemory 0x1000
  obtain ⟨-, hsome, hmemory⟩ := entries_follow_paths cyclicMemory 16
  obtain ⟨hmore, hkept⟩ := hmemory cutMemory
  have hcut := hkept _ _ _ leads_cyclicEntry fun a n => cutMemory_eq_of_asks
  refine ⟨hnone.mpr fun h hrecord => ?_, ?_, hcut, hmore (fun a n bs h => ?_) _ _ _ hcut,
    by decide +kernel⟩
  · have hunread : cyclicMemory.record? DirectoryHeader.layout 0x1000 = none := by decide +kernel
    cases hunread.symm.trans hrecord.2
  · have hlength : (decode cyclicMemory 16).map (·.entries.length) = some 2 := by decide +kernel
    obtain ⟨tree, htree, hlength⟩ := Option.map_eq_some_iff.mp hlength
    obtain ⟨located, hentries, horder, hpaths⟩ := hsome tree htree
    exact ⟨tree, htree, hlength, located, hentries, horder,
      (hpaths _ _).mpr ⟨cyclicRoute, leads_cyclicEntry⟩⟩
  · exact (Option.ite_none_right_eq_some.mp h).2

end Tree

end PeCoff.Resource
