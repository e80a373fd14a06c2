import PeCoff.Executable
import PeCoff.Report.Headers
import PeCoff.Report.Options
import PeCoff.Report.Payload

/-!
# Directories in a report

Each directory of an image as text. A directory that is absent gives no text; what it declares but
does not hold gives a line that says so. No directory has influence on the text of another one.
-/

namespace PeCoff.Report

open Text

/-! ## Imports -/

/-- The line of an imported function. -/
def thunkLine : Import.Thunk → String
  | .ordinal ordinal => s!"  {alignRight 4 (toString ordinal.toNat)}  <by ordinal>"
  | .named hint name data => s!"  {alignRight 4 (toString hint.toNat)}  {name} {hex data.toNat}"
  | .unresolved _ => "Can't grab import by name info, skipping to next ordinal"

/-- The imported functions of a library. -/
def thunks : Option (List Import.Thunk) → List String
  | none => ["Can't grab thunk data, going to next imported DLL"]
  | some thunks => thunks.map thunkLine ++ [""]

/-- The file offset of a descriptor; zero for one that no section holds. -/
def descriptorOffset (e : Executable) (address : Nat) : Nat :=
  (e.fileOffset address 1).getD 0

/-- The lines of an imported library whose descriptor lies at a file offset. -/
def libraryLines (offset : Nat) (l : Import.Library) : List String :=
  let d := l.descriptor
  let name := l.name.getD "???"
  [s!"  offset {hexOf 8 offset} {name}",
    s!"  Hint/Name Table: {upperHexOf 8 d.lookupTable.toNat}",
    s!"  TimeDateStamp:   {stampText d.timeDateStamp}",
    s!"  ForwarderChain:  {upperHexOf 8 d.forwarderChain.toNat}",
    s!"  First thunk RVA: {upperHexOf 8 d.addressTable.toNat}",
    "  Ordn  Name"]
    ++ thunks l.thunks

/-- An import table of a size with the lines of its libraries. -/
def importTable (size : UInt32) (libraries : List (List String)) : String :=
  lines <| s!"Import Table size: {hexOf 8 size.toNat}" :: libraries.flatten ++ [""]

/-- The imported libraries. -/
def imports (e : Executable) : String :=
  match e.imports with
  | none => ""
  | some table =>
    importTable table.size
      (table.libraries.map fun l => libraryLines (descriptorOffset e l.address) l)

/-- The lines of a library that is loaded on first use and whose descriptor lies at a file
offset. -/
def delayedLibraryLines (offset : Nat) (l : Import.DelayedLibrary) : List String :=
  let d := l.descriptor
  let name := l.name.getD "???"
  [s!"  grAttrs {hexOf 8 d.attributes.toNat} offset {hexOf 8 offset} {name}",
    s!"  Hint/Name Table: {hexOf 8 d.nameTable.toNat}",
    s!"  TimeDateStamp:   {stampText d.timeDateStamp}",
    "  Ordn  Name"]
    ++ thunks l.thunks

/-- A delay-load table of a size with the lines of its libraries. -/
def delayedTable (size : UInt32) (libraries : List (List String)) : String :=
  lines <| s!"Delay Import Table size: {hexOf 8 size.toNat}" :: libraries.flatten ++ [""]

/-- The libraries that are loaded on first use. -/
def delayedImports (e : Executable) : String :=
  match e.delayedImports with
  | none => ""
  | some table =>
    delayedTable table.size
      (table.libraries.map fun l => delayedLibraryLines (descriptorOffset e l.address) l)

/-! ## Exports -/

/-- The line of an exported function. -/
def functionLine (f : Export.Function) : String :=
  let ordinal := alignRight 5 (toString f.ordinal.toNat)
  let name :=
    match f.name with
    | .named name => name
    | .ordinal => "<by ordinal>"
    | .unresolved _ => Export.Symbols.unreadableName
  let target :=
    match f.target with
    | .forwarder function => s!" (-> {function})"
    | .address _ => ""
  s!"  {upperHexOf 8 f.address.toNat} {ordinal} {name}{target}"

/-- The header of the export directory of a library. -/
def exportHeaderLines (libraryName : Option String) (d : Export.Directory) : List String :=
  let name := libraryName.getD "???"
  let stamp := s!"{upperHexOf 8 d.timeDateStamp.toNat} {timestamp d.timeDateStamp}"
  ["Exports table:",
    "",
    s!"  Name:            {name}",
    s!"  Characteristics: {hexOf 8 d.characteristics.toNat}",
    s!"  TimeDateStamp:   {stamp}",
    s!"  Version:         {versionNumber d.majorVersion.toNat d.minorVersion.toNat}",
    s!"  Ordinal base:    {d.base.toNat}",
    s!"  # of functions:  {d.numberOfFunctions.toNat}",
    s!"  # of Names:      {d.numberOfNames.toNat}",
    s!"Addresses of functions: {upperHexOf 8 d.addressOfFunctions.toNat}",
    s!"Addresses of name ordinals: {upperHexOf 8 d.addressOfNameOrdinals.toNat}",
    s!"Addresses of names: {upperHexOf 8 d.addressOfNames.toNat}",
    "",
    "  Entry Pt  Ordn  Name"]

/-- An export directory of a library and its functions, or the reason why there are none. -/
def exportTable (libraryName : Option String) (directory : Export.Directory)
    (table : Except DecodeError (Option Export.Table)) : String :=
  lines <| exportHeaderLines libraryName directory ++
    match table with
    | .ok none => []
    | .ok (some table) => table.functions.map functionLine ++ [""]
    | .error error => [error.message]

/-- The exported functions. -/
def exports (e : Executable) : String :=
  match e.exportDirectory with
  | none => ""
  | some directory =>
    exportTable (e.memory.text directory.libraryName.toNat) directory e.exports

/-! ## Debug information -/

/-- The header of a piece of debug information; pieces are counted from one. -/
def debugHeaderLines (number : Nat) (d : DebugInfo.Directory) : List String :=
  let stamp := s!"{upperHexOf 8 d.timeDateStamp.toNat} {timestamp d.timeDateStamp}"
  [s!"Directory {decimalOf 2 number}",
    s!"  Characteristics:   {upperHexOf 8 d.characteristics.toNat}",
    s!"  TimeDateStamp:     {stamp}",
    s!"  Version            {versionNumber d.majorVersion.toNat d.minorVersion.toNat}",
    s!"  Type:              {d.debugType.toNat} ({DebugInfo.typeName d.debugType})",
    s!"  SizeOfData:        {d.sizeOfData.toNat}",
    s!"  AddressOfRawData:  {upperHexOf 8 d.addressOfRawData.toNat}",
    s!"  PointerToRawData:  {upperHexOf 8 d.pointerToRawData.toNat}"]

/-- A text attached to an image. -/
def miscLines (m : DebugInfo.Misc) : List String :=
  let unicode := if m.unicode then "Yes" else "No"
  [s!"    DataType:          {m.dataType.toNat} ({m.dataTypeName})",
    s!"    Length:            {m.length.toNat}",
    s!"    Unicode:           {unicode}",
    s!"    Data:              {m.text}"]

/-- A piece of debug information by its header and its contents; pieces are counted from one. -/
def debugEntryOf (number : Nat) (d : DebugInfo.Directory) (payload : String) : String :=
  lines (debugHeaderLines number d) ++ payload ++ line ""

/-- A piece of debug information. -/
def debugEntry (format : PayloadFormat) (sections : List SectionHeader) (index : Nat)
    (entry : DebugInfo.Entry) : String :=
  debugEntryOf (index + 1) entry.directory <|
    match entry.payload with
    | .misc misc => lines (miscLines misc)
    | .miscUnavailable => line "Can't get misc debug information"
    | .coff data => format.coffDebug data sections
    | .codeView data => format.codeView data
    | .framePointers data => format.framePointers data
    | .none => ""

/-- Some pieces of debug information. -/
def debugList (entries : List String) : String :=
  line s!"Debug Table ({entries.length} directories)" ++ String.join entries

/-- All pieces of debug information. -/
def debugTable (format : PayloadFormat) (sections : List SectionHeader)
    (entries : List DebugInfo.Entry) : String :=
  debugList (entries.zipIdx.map fun (entry, index) => debugEntry format sections index entry)

/-- The debug information of an image. -/
def debug (format : PayloadFormat) (e : Executable) : String :=
  match e.debugEntries with
  | none | some [] => ""
  | some entries => debugTable format e.sections entries ++ line ""

/-! ## Resources -/

/-- The line of a numbered text. -/
def textLine (width id : Nat) (text : List Char) : String :=
  s!"    {hexOf width id} {String.ofList text}"

/-- The line of a message. -/
def messageLine (m : Resource.Message) : String :=
  textLine 8 m.id <|
    match m.text with
    | .wide units => Escape.wideLiteral units
    | .narrow bytes => Escape.narrowLiteral bytes

/-- The line of a string. -/
def tableStringLine (s : Resource.TableString) : String :=
  textLine 4 s.id.toNat (Escape.quoted (Escape.wide s.units))

/-- The data of a resource. -/
def resourcePayload : Resource.Payload → String
  | .strings strings => lines (strings.map tableStringLine)
  | .messages messages => lines (messages.map messageLine)
  | .bytes bytes => HexDump.render "    " (some bytes)
  | .unavailable => HexDump.render "    " none

/-- A resource of a type and a name with its data, after a line break. -/
def resourceOf (type name : String) (language : UInt16) (payload : String) : String :=
  s!"\n  {type} Name={name} Language={hexOf 4 language.toNat}:\n" ++ payload

/-- A resource. -/
def resource (r : Resource.Entry) : String :=
  resourceOf r.type.typeLabel r.name.label r.language (resourcePayload r.payload)

/-- Some resources. -/
def resourceList (entries : List String) : String :=
  "Resources:" ++ String.join entries ++ "\n\n"

/-- The resources. -/
def resources (e : Executable) : String :=
  match e.resources with
  | none => ""
  | some tree => resourceList (tree.entries.map resource)

/-! ## Other directories -/

/-- The thread-local storage that a directory describes. -/
def threadInfo (info : ThreadStorage.Info) : String :=
  let d := info.directory
  let sizes := s!"(data size {hex d.dataSize.toNat} zero fill size {hex d.sizeOfZeroFill.toNat})"
  let callbacks := String.join (info.callbacks.map fun c => s!" {hexOf 8 c.toNat}")
  lines [
    "Thread Local Storage",
    s!"  Raw data        {hexOf 8 d.start.toNat}-{hexOf 8 d.stop.toNat} {sizes}",
    s!"  Index address   {hexOf 8 d.index.toNat}",
    s!"  Characteristics {hexOf 8 d.characteristics.toNat}",
    s!"  Callbacks       {hexOf 8 d.callbacks.toNat} -> \x7b{callbacks} \x7d",
    ""]

/-- The thread-local storage. -/
def threadStorage (e : Executable) : String :=
  (e.threadStorage.map threadInfo).getD ""

/-- A header of the common language runtime. -/
def runtimeHeader (r : CommonRuntime) : String :=
  lines <| ["CLR Header",
    doubleWord "Header Size" r.size,
    version "Required runtime version" r.majorVersion.toNat r.minorVersion.toNat,
    titled "Flags" s!"0x{upperHex r.flags.toNat}"]
    ++ labelLines r.labels
    ++ [doubleWord "EntryPointToken" r.entryPoint, "", "CLR Data Directory"]
    ++ r.directories.map (fun (title, d) => directoryLine 23 title d.address d.size)
    ++ [""]

/-- The header of the common language runtime. -/
def commonRuntime (e : Executable) : String :=
  (e.commonRuntime.map runtimeHeader).getD ""

/-- The lines of a relocation block. -/
def blockLines (b : Relocation.Block) : List String :=
  s!"  Page {hex b.page.toNat}" :: b.fixups.map fun f =>
    s!"    off {hexOf 4 f.offset.val} type {Relocation.Fixup.kindName f.kind.val}"

/-- A relocation table. -/
def relocationTable (table : Relocation.Table) : String :=
  let malformed (m : Relocation.Malformed) :=
    s!"  *** block at offset {hex m.offset} declares size {m.size.toNat}, "
      ++ "smaller than its header"
  lines <| "Relocations" :: table.blocks.flatMap blockLines
    ++ table.malformed.toList.map malformed ++ [""]

/-- The base relocations. -/
def relocations (e : Executable) : String :=
  (e.relocations.map relocationTable).getD ""

/-! ## Exceptions -/

/-- The addresses of a function. -/
def functionRange (f : Unwind.RuntimeFunction) : String :=
  s!"{hexOf 8 f.start.toNat}-{hexOf 8 f.stop.toNat}"

/-- What an unwind code undoes. The frame register and its distance come from the header. -/
def operationText (i : Unwind.Info) : Unwind.Operation → String
  | .push register => s!"push %{Unwind.registerName register.val}"
  | .allocate size => s!"sub $0x{hex size.toNat},%rsp"
  | .setFrameRegister =>
    let register := Unwind.registerName i.frameRegister.toNat
    s!"lea 0x{hex (i.frameOffset.toNat * 16)}(%rsp),{register}"
  | .save register offset =>
    s!"mov %{Unwind.registerName register.val},0x{hex offset.toNat}(%rsp)"
  | .saveVector register offset => s!"movaps %xmm{register.val},0x{hex offset.toNat}(%rsp)"
  | .pushMachineFrame info => s!"PUSH_MACHFRAME {info.val}"
  | .unknown code => s!"*** unknown code {code.val}"

/-- The names of the flags of unwind information. -/
def unwindFlags (flags : UInt8) : String :=
  String.join <|
    [(Unwind.Info.exceptionFlag, " EHANDLER"), (Unwind.Info.terminationFlag, " UHANDLER"),
      (Unwind.Info.chainFlag, " CHAININFO")].map fun (flag, label) =>
        if Unwind.Info.hasFlag flags flag then label else ""

/-- The lines of what follows the unwind codes. -/
def trailerLines : Unwind.Trailer → List String
  | .chain function => [s!"    -> function {functionRange function}"]
  | .handler handler data =>
    [s!"    handler {hexOf 8 handler.toNat} data at {hexOf 8 data.toNat}"]
  | .unavailable => ["    Can't grab unwind handler data"]
  | .none => []

/-- The line of a frame register and its distance. -/
def frameRegisterLine (register : String) (distance : Nat) : String :=
  s!"    frame register {register} offset 0x{hex distance}(%rsp)"

/-- The line of an unwind code. -/
def codeLine (offset : UInt8) (text : String) : String :=
  s!"      0x{hexOf 2 offset.toNat}: {text}"

/-- The lines of unwind information with those of its frame register and its codes. -/
def unwindLinesOf (i : Unwind.Info) (frame codes : List String) : List String :=
  [s!"    flags {hex i.flags.toNat}{unwindFlags i.flags}",
    s!"    prolog 0x{hex i.sizeOfProlog.toNat} bytes"]
    ++ frame
    ++ codes
    ++ (if i.truncated then ["      *** unwind codes run past the code count"] else [])
    ++ trailerLines i.trailer

/-- The lines of unwind information. -/
def unwindLines (i : Unwind.Info) : List String :=
  let register := Unwind.registerName i.frameRegister.toNat
  let frame :=
    if i.frameRegister ≠ 0 then [frameRegisterLine register (i.frameOffset.toNat * 16)] else []
  unwindLinesOf i frame (i.codes.map fun c => codeLine c.offset (operationText i c.operation))

/-- The place of the unwind information of a function. -/
def unwindPlace (f : Unwind.RuntimeFunction) : String :=
  s!"  unwind info at {hexOf 8 f.unwindInfo.toNat}"

/-- The lines on what the unwind address of a function leads to. -/
def detailLines (f : Unwind.RuntimeFunction) : Unwind.Detail → List String
  | .chained (some next) => [s!"  -> function {functionRange next}"]
  | .chained none => [s!"  Can't grab chained function at {hexOf 8 f.chainAddress.toNat}"]
  | .unavailable => [unwindPlace f, "    Can't grab unwind info"]
  | .unknownVersion version => [unwindPlace f, s!"    *** unknown version {version.toNat}"]
  | .info info => unwindPlace f :: unwindLines info

/-- The lines of a function with those of what its unwind address leads to. -/
def exceptionLinesOf (f : Unwind.RuntimeFunction) (detail : List String) : List String :=
  ["", s!"Function {functionRange f}:"] ++ detail

/-- The lines of a function and what its unwind address leads to. -/
def exceptionLines (entry : Unwind.Entry) : List String :=
  exceptionLinesOf entry.function (detailLines entry.function entry.detail)

/-- An exception table of a number of functions with their lines. -/
def exceptionTable (count : Nat) (functions : List (List String)) : String :=
  lines <| s!"Exception info ({count} functions):" :: functions.flatten

/-- The line on an exception table of another machine. -/
def exceptionsUnsupported (machine : UInt16) : String :=
  line s!"Exception information not supported for {machineName machine} binaries"

/-- The exception table, which is understood for one machine only. -/
def exceptions (e : Executable) : String :=
  match e.exceptions with
  | none => ""
  | some entries =>
    if e.coffHeader.machine = machineAmd64 then
      exceptionTable entries.length (entries.map exceptionLines)
    else
      exceptionsUnsupported e.coffHeader.machine

/-- The directory of a part. -/
def part (format : PayloadFormat) (e : Executable) : Part → String
  | .imports => imports e ++ delayedImports e
  | .exports => exports e
  | .debug => debug format e
  | .resources => resources e
  | .threadStorage => threadStorage e
  | .commonRuntime => commonRuntime e
  | .relocations => relocations e
  | .exceptions => exceptions e

end PeCoff.Report
