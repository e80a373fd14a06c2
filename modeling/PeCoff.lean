import PeCoff.Main
import PeCoff.Report.Summary
import PeCoff.Proofs.Export.Coverage
import PeCoff.Proofs.Export.Empty
import PeCoff.Proofs.Export.Lookup
import PeCoff.Proofs.Resource.Paths
import PeCoff.Proofs.Resource.StringTable
import PeCoff.Proofs.Resource.WrittenMessages
import PeCoff.Proofs.Machine.Faultless
import PeCoff.Proofs.Strings
import PeCoff.Proofs.Resolution
import PeCoff.Proofs.Placement
import PeCoff.Proofs.Utf8
import PeCoff.Proofs.Flat
import PeCoff.Proofs.FileStrings
import PeCoff.Proofs.Layout
import PeCoff.Proofs.Import.Stored
import PeCoff.Proofs.Import.RoundTrip
import PeCoff.Proofs.Patch
import PeCoff.Proofs.Import.Rebased
import PeCoff.Proofs.Detection
import PeCoff.Proofs.Relocation
import PeCoff.Proofs.Unwind.Codes
import PeCoff.Proofs.Unwind.Table
import PeCoff.Proofs.Unwind.Addresses
import PeCoff.Proofs.OptionalHeader
import PeCoff.Proofs.Headers
import PeCoff.Proofs.Truncation
import PeCoff.Proofs.Container
import PeCoff.Proofs.Records
import PeCoff.Proofs.SplitDebug
import PeCoff.Proofs.Escape
import PeCoff.Proofs.Literals
import PeCoff.Proofs.HexDump
import PeCoff.Proofs.LongNames
import PeCoff.Proofs.Composition
import PeCoff.Proofs.CommandLine
import PeCoff.Proofs.ThreadStorage
import PeCoff.Proofs.SymbolListing
import PeCoff.Proofs.StabNames
import PeCoff.Proofs.SymbolTable
import PeCoff.Proofs.Machine.Endings
