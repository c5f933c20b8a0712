import Phrasebook.Main
import Phrasebook.Proofs.Argument.Declared
import Phrasebook.Proofs.Argument.Fields
import Phrasebook.Proofs.Compilation.Accounting
import Phrasebook.Proofs.Compilation.Complete
import Phrasebook.Proofs.Compilation.Contract
import Phrasebook.Proofs.Compilation.FallbackCount
import Phrasebook.Proofs.Compilation.FirstFailure
import Phrasebook.Proofs.Compilation.Isolation
import Phrasebook.Proofs.Compilation.Places
import Phrasebook.Proofs.Compilation.WrittenBack
import Phrasebook.Proofs.Config.Nearest
import Phrasebook.Proofs.Diagnostic.Sorted
import Phrasebook.Proofs.Dictionary.Stored
import Phrasebook.Proofs.Literal.RoundTrip
import Phrasebook.Proofs.LocaleFile.ByteSearch
import Phrasebook.Proofs.LocaleFile.Kept
import Phrasebook.Proofs.LocaleFile.Lines
import Phrasebook.Proofs.LocaleFile.Walk
import Phrasebook.Proofs.LocaleFolder.Report
import Phrasebook.Proofs.LocaleFolder.Scan
import Phrasebook.Proofs.Module.BranchRecords
import Phrasebook.Proofs.Module.Constant
import Phrasebook.Proofs.Module.EntryKeys
import Phrasebook.Proofs.Module.Import
import Phrasebook.Proofs.Module.LineStructure
import Phrasebook.Proofs.Module.Schemas
import Phrasebook.Proofs.Placeholder
import Phrasebook.Proofs.Plural.Faults
import Phrasebook.Proofs.Plural.Layout
import Phrasebook.Proofs.Session.ConfiguredPaths
import Phrasebook.Proofs.Session.Frame
import Phrasebook.Proofs.Session.Repeat
import Phrasebook.Proofs.Session.Transparent
import Phrasebook.Proofs.Session.Verbose
