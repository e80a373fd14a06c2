import PeCoff.Header.DataDirectory
import PeCoff.Header.Flags

/-!
# The header of the common language runtime

An image with code for the common language runtime has a header of its own, which places the
metadata and other tables of the runtime. Only the header is decoded.
-/

namespace PeCoff

/-- The header of the common language runtime. -/
structure CommonRuntime where
  /-- The declared size of the header. -/
  size : UInt32
  majorVersion : UInt16
  minorVersion : UInt16
  metadata : DataDirectory
  flags : UInt32
  entryPoint : UInt32
  resources : DataDirectory
  strongName : DataDirectory
  codeManager : DataDirectory
  tableFixups : DataDirectory
  exportJumps : DataDirectory
  nativeHeader : DataDirectory
  deriving DecidableEq, Repr

namespace CommonRuntime

/-- The places of the fields. -/
def layout : Layout CommonRuntime :=
  open Layout in
  let dir := DataDirectory.layout
  (u32.pair <| u16.pair <| u16.pair <| dir.pair <| u32.pair <| u32.pair <| dir.pair <| dir.pair <|
    dir.pair <| dir.pair <| dir.pair dir).equiv
    (fun (a, b, c, d, e, f, g, h, i, j, k, l) => ⟨a, b, c, d, e, f, g, h, i, j, k, l⟩)
    (fun r => (r.size, r.majorVersion, r.minorVersion, r.metadata, r.flags, r.entryPoint,
      r.resources, r.strongName, r.codeManager, r.tableFixups, r.exportJumps, r.nativeHeader))
    (fun _ => rfl) (fun _ => rfl)

/-- The flags that are reported. -/
def flagLabels : List (UInt32 × String) := [
  (0x00000001, "ILONLY"),
  (0x00000002, "32BITREQUIRED"),
  (0x00000004, "IL_LIBRARY"),
  (0x00000008, "STRONGNAMESIGNED"),
  (0x00010000, "TRACKDEBUGDATA")]

/-- The labels of the flags that are set. -/
def labels (r : CommonRuntime) : List String :=
  setLabels flagLabels r.flags

/-- Whether the image holds code for the runtime alone. -/
def isPure (r : CommonRuntime) : Bool :=
  r.flags &&& 1 != 0

/-- The tables of the runtime and their titles, in the order of the header. -/
def directories (r : CommonRuntime) : List (String × DataDirectory) := [
  ("MetaData", r.metadata),
  ("Resources", r.resources),
  ("StrongNameSignature", r.strongName),
  ("CodeManagerTable", r.codeManager),
  ("VTableFixups", r.tableFixups),
  ("ExportAddressTableJumps", r.exportJumps),
  ("ManagedNativeHeader", r.nativeHeader)]

end CommonRuntime

end PeCoff
