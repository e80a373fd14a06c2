import PeCoff.Text.Number

/-!
# Decoding errors

The reasons for which an image, a record or a table cannot be decoded, and their wording.
-/

namespace PeCoff

/-- The three tables of an export directory. -/
inductive ExportTablePart where
  | name
  | ordinal
  | address
  deriving DecidableEq, Repr

/-- The word for a table in a message. -/
def ExportTablePart.title : ExportTablePart → String
  | name => "name"
  | ordinal => "ordinal"
  | address => "address"

/-- Why something cannot be decoded. -/
inductive DecodeError where
  /-- The file does not start with `MZ`. -/
  | dosSignature
  /-- The new header does not start with `PE` and two zeros. -/
  | peSignature
  /-- The split debug file does not start with `DI`. -/
  | debugSignature
  /-- There are fewer bytes than the record has. -/
  | tooShort (expected actual : Nat)
  /-- A range of the file starts or ends past its end. -/
  | outOfBounds (offset size : Nat)
  /-- No section holds the bytes at an address. -/
  | unmapped (address : UInt32)
  /-- A table of the export directory cannot be read. -/
  | missingTable (part : ExportTablePart)
  deriving DecidableEq, Repr

/-- What is said about an error. -/
def DecodeError.message : DecodeError → String
  | dosSignature => "Invalid DOS signature (expected 'MZ')"
  | peSignature => "Invalid PE signature (expected 'PE\\0\\0')"
  | debugSignature => "Invalid debug file signature (expected 'DI')"
  | tooShort expected actual => s!"Buffer too small: expected {expected} bytes, got {actual}"
  | outOfBounds offset size => s!"Offset 0x{Text.hex offset} out of bounds (size: {size})"
  | unmapped address => s!"Invalid RVA: 0x{Text.hex address.toNat}"
  | missingTable part => s!"Can't grab functions' {part.title} table"

end PeCoff
