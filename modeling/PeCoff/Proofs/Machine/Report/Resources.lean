import Mathlib
import PeCoff.Proofs.Machine.Resources
import PeCoff.Proofs.Machine.Text
import PeCoff.Report.Directories

/-!
# Resources in a report of a machine

The texts of resources are escaped and their data is dumped. Every text of a resource tree is cut
from bytes that were read from the image, so it fits into a memory. The main statements are
`entryFits_of_mem` and `printResources_eq`.
-/

namespace PeCoff.Machine

open Report Text
open Resource hiding Id Payload Entry

variable {e : Executable}

/-! ## Sizes -/

/-- The text of an identifier fits into a memory. -/
def IdFits : Resource.Id → Prop
  | .number _ => True
  | .name units => units.length < 2 ^ 64

/-- The text of a message fits into a memory. -/
def MessageFits (m : Message) : Prop :=
  match m.text with
  | .narrow bytes => bytes.length < 2 ^ 64
  | .wide units => units.length < 2 ^ 64

/-- The data of a resource and all its texts fit into a memory. -/
def ResourceFits : Resource.Payload → Prop
  | .strings strings => ∀ s ∈ strings, s.units.length < 2 ^ 64
  | .messages messages => ∀ m ∈ messages, MessageFits m
  | .bytes bytes => bytes.length < 2 ^ 64
  | .unavailable => True

/-- A resource fits into a memory with all its texts. -/
structure EntryFits (r : Resource.Entry) : Prop where
  type : IdFits r.type
  name : IdFits r.name
  payload : ResourceFits r.payload

/-- A string of a block is no longer than the block. -/
lemma length_units_of_mem {places : Nat} {id : UInt32} {units : List UInt16} {s : TableString}
    (h : s ∈ StringTable.ofUnits places id units) : s.units.length ≤ units.length := by
  fun_induction StringTable.ofUnits places id units with
  | case1 => cases h
  | case2 => cases h
  | case3 places id length rest found others hempty ih =>
    have hle := ih h
    rw [List.length_drop] at hle
    rw [List.length_cons]
    omega
  | case4 places id length rest found others hfound ih =>
    rw [List.length_cons]
    rcases List.mem_cons.mp h with rfl | hmem
    · simp only [found, List.length_take]
      omega
    · have hle := ih hmem
      rw [List.length_drop] at hle
      omega

/-- The text of a short entry is short. -/
lemma messageFits_textOf (id : Nat) (flags : UInt16) {body : Bytes} (h : body.length < 2 ^ 64) :
    MessageFits ⟨id, MessageTable.textOf flags body⟩ := by
  have hunits := length_units_le body
  have hwide := (List.takeWhile_sublist (l := Utf16.units body) (· != 0)).length_le
  have hnarrow : (Bytes.untilZero body).length ≤ body.length :=
    (List.takeWhile_sublist _).length_le
  rw [MessageTable.textOf]
  split
  · exact Nat.lt_of_le_of_lt (Nat.le_trans hwide hunits) h
  · exact Nat.lt_of_le_of_lt hnarrow h

/-- The messages of a table are short, since their lengths have 16 bits. -/
lemma messageFits_of_mem {table : Image} {count id offset : Nat} {m : Message}
    (h : m ∈ MessageTable.entries table count id offset) : MessageFits m := by
  induction count generalizing id offset with
  | zero => cases h
  | succ count ih =>
    rw [MessageTable.entries] at h
    split at h
    · cases h
    · next length flags _ =>
      -- An entry of length zero ends the block.
      split at h
      · cases h
      · rcases List.mem_cons.mp h with rfl | hmem
        · apply messageFits_textOf
          have hlength := length.toNat_lt
          rw [List.length_drop, Image.clipped_eq, List.length_take]
          omega
        · exact ih hmem

section Tree

variable {memory : Memory} {root : UInt32}

/-- The name of a resource is short, since its length has 16 bits. -/
lemma idFits_idOf (hm : memory.Exact) (entry : DirectoryEntry) :
    IdFits (Tree.idOf memory root entry) := by
  rw [Tree.idOf]
  split
  · cases hname : Tree.nameAt memory root entry.nameOffset with
    | none => exact Nat.two_pow_pos 64
    | some units =>
      simp only [Tree.nameAt, Option.bind_eq_bind, Option.bind_eq_some_iff] at hname
      obtain ⟨length, _, bytes, hbytes, hunits⟩ := hname
      cases hunits
      have hle := length_units_le bytes
      rw [length_bytesAt hm hbytes] at hle
      have hlt := length.toNat_lt
      simp only [Option.getD_some, IdFits]
      omega
  · trivial

/-- The payload of a resource is short, since its length has 32 bits. -/
lemma resourceFits_payloadOf (hm : memory.Exact) (type name : Resource.Id) (data : DataEntry) :
    ResourceFits (Tree.payloadOf memory type name data) := by
  rw [Tree.payloadOf]
  cases hbytes : memory data.offsetToData.toNat data.size.toNat with
  | none => trivial
  | some bytes =>
    have hlength : bytes.length < 2 ^ 64 := by
      rw [hm _ _ _ hbytes]
      exact Nat.lt_trans data.size.toNat_lt (by decide)
    simp only
    split
    · intro m hmem
      obtain ⟨block, _, hentries⟩ := List.mem_flatMap.mp hmem
      exact messageFits_of_mem hentries
    · split
      · split
        · intro s hs
          have hunits := length_units_of_mem hs
          have hle := length_units_le bytes
          omega
        · exact hlength
      · exact hlength

/-- All resources of a tree are short. -/
lemma entryFits_of_mem {tree : Tree} (hm : memory.Exact) (htree : Tree.decode memory root = some tree)
    {r : Resource.Entry} (h : r ∈ tree.entries) : EntryFits r := by
  obtain ⟨types, _, rfl⟩ := Option.map_eq_some_iff.mp htree
  obtain ⟨type, _, hnames⟩ := List.mem_flatMap.mp h
  obtain ⟨name, _, hlanguages⟩ := List.mem_flatMap.mp hnames
  obtain ⟨language, _, hentry⟩ := List.mem_filterMap.mp hlanguages
  simp only [Tree.entryOf?, Option.bind_eq_bind, Option.bind_eq_some_iff] at hentry
  obtain ⟨_, _, data, _, hr⟩ := hentry
  cases hr
  exact ⟨idFits_idOf hm type, idFits_idOf hm name, resourceFits_payloadOf hm _ _ data⟩

end Tree

/-! ## Texts -/

/-- UTF-16 text as a wide string literal. -/
def wideLiteral (units : List UInt16) : Step (List Char) := do
  return 'L' :: Escape.quoted (← wide units)

/-- An identifier as text. -/
def idLabel : Resource.Id → Step String
  | .number n => return hexOf 4 n.toNat
  | .name units => return String.ofList (← wideLiteral units)

/-- The identifier of a type as text. -/
def typeLabel : Resource.Id → Step String
  | .number n => return (typeName? n).getD (hexOf 4 n.toNat)
  | .name units => return String.ofList (← wideLiteral units)

/-- The line of a message. -/
def printMessage (m : Message) : Step String := do
  let literal ←
    match m.text with
    | .wide units => wideLiteral units
    | .narrow bytes => pure (Escape.quoted (← narrow bytes))
  return textLine 8 m.id literal

/-- The line of a string. -/
def printTableString (s : TableString) : Step String := do
  return textLine 4 s.id.toNat (Escape.quoted (← wide s.units))

/-- The data of a resource. -/
def printResourcePayload : Resource.Payload → Step String
  | .strings strings => return lines (← strings.mapM printTableString)
  | .messages messages => return lines (← messages.mapM printMessage)
  | .bytes bytes => hexDump "    " (some bytes)
  | .unavailable => hexDump "    " none

/-- A resource, after a line break. -/
def printResource (r : Resource.Entry) : Step String := do
  let type ← typeLabel r.type
  let name ← idLabel r.name
  return resourceOf type name r.language (← printResourcePayload r.payload)

/-- The resources. -/
def printResources (e : Executable) : Step String := do
  match ← resources e with
  | none => return ""
  | some tree => return resourceList (← tree.entries.mapM printResource)

/-- A short text of units is quoted without a fault. -/
lemma wideLiteral_eq {units : List UInt16} (h : units.length < 2 ^ 64) :
    wideLiteral units = .ok (Escape.wideLiteral units) := by
  rw [wideLiteral, wide_eq h]
  rfl

/-- The label of a resource is made without a fault. -/
lemma idLabel_eq {id : Resource.Id} (h : IdFits id) : idLabel id = .ok id.label := by
  cases id with
  | number n => rfl
  | name units =>
    rw [idLabel, wideLiteral_eq h]
    rfl

/-- The label of a resource type is made without a fault. -/
lemma typeLabel_eq {id : Resource.Id} (h : IdFits id) : typeLabel id = .ok id.typeLabel := by
  cases id with
  | number n => rfl
  | name units =>
    rw [typeLabel, wideLiteral_eq h]
    rfl

/-- A message is printed without a fault. -/
lemma printMessage_eq {m : Message} (h : MessageFits m) :
    printMessage m = .ok (messageLine m) := by
  obtain ⟨id, text⟩ := m
  cases text with
  | wide units =>
    simp only [printMessage, wideLiteral_eq h]
    rfl
  | narrow bytes =>
    simp only [printMessage, narrow_eq h]
    rfl

/-- The payload of a resource is printed without a fault. -/
lemma printResourcePayload_eq {payload : Resource.Payload} (h : ResourceFits payload) :
    printResourcePayload payload = .ok (resourcePayload payload) := by
  cases payload with
  | strings strings =>
    have hline : ∀ s ∈ strings, printTableString s = .ok (tableStringLine s) := by
      intro s hs
      rw [printTableString, wide_eq (h s hs)]
      rfl
    rw [printResourcePayload, mapM_eq hline]
    rfl
  | messages messages =>
    rw [printResourcePayload, mapM_eq fun m hm => printMessage_eq (h m hm)]
    rfl
  | bytes bytes =>
    have hbytes : ∀ bs, some bytes = some bs → bs.length < 2 ^ 64 := by
      intro bs hbs
      cases hbs
      exact h
    exact hexDump_eq _ hbytes
  | unavailable => rfl

/-- A resource is printed without a fault. -/
lemma printResource_eq {r : Resource.Entry} (h : EntryFits r) :
    printResource r = .ok (Report.resource r) := by
  rw [printResource, typeLabel_eq h.type, idLabel_eq h.name, printResourcePayload_eq h.payload]
  rfl

/-- The resources are printed without a fault. -/
lemma printResources_eq (h : Fits e.image) :
    printResources e = .ok (Report.resources e) := by
  rw [printResources, resources_eq h, Report.resources]
  simp only [ok_bind]
  cases htree : e.resources with
  | none => rfl
  | some tree =>
    have hresource : ∀ r ∈ tree.entries, printResource r = .ok (Report.resource r) := by
      intro r hr
      simp only [Executable.resources, Option.bind_eq_bind, Option.bind_eq_some_iff] at htree
      obtain ⟨⟨range, _⟩, _, hdecode⟩ := htree
      exact printResource_eq (entryFits_of_mem e.memory_exact hdecode hr)
    simp only [mapM_eq hresource]
    rfl

end PeCoff.Machine
