import FirmwareSymbols.Analysis
import FirmwareSymbols.Config.Text
import FirmwareSymbols.Demangling
import FirmwareSymbols.Host
import FirmwareSymbols.Main
import FirmwareSymbols.Mangled
import FirmwareSymbols.Report.Text
import FirmwareSymbols.Proofs.Exhaustion
import FirmwareSymbols.Proofs.FirstTable
import FirmwareSymbols.Proofs.NullFreeRun
import FirmwareSymbols.Proofs.RunList
import FirmwareSymbols.Proofs.NeighbouringRuns
import FirmwareSymbols.Proofs.LongestBlock
import FirmwareSymbols.Proofs.SymbolOrder
import FirmwareSymbols.Proofs.LocatedNames
import FirmwareSymbols.Proofs.Alignment
import FirmwareSymbols.Proofs.FirstPair
import FirmwareSymbols.Proofs.Linked
import FirmwareSymbols.Proofs.StoredNames
import FirmwareSymbols.Proofs.Linked.Symbols
import FirmwareSymbols.Proofs.Linked.Names
import FirmwareSymbols.Proofs.Recovery
import FirmwareSymbols.Proofs.DetectedOrder
import FirmwareSymbols.Proofs.NameGaps
import FirmwareSymbols.Proofs.DecodedTable
import FirmwareSymbols.Proofs.SlotSymbols
import FirmwareSymbols.Proofs.TrueAlignment
import FirmwareSymbols.Proofs.HostReplay
import FirmwareSymbols.Proofs.WellFormed
import FirmwareSymbols.Proofs.Strategies
import FirmwareSymbols.Proofs.OppositeOrder
import FirmwareSymbols.Proofs.Checked
import FirmwareSymbols.Proofs.Checked.Scan
import FirmwareSymbols.Proofs.Checked.Decode
import FirmwareSymbols.Proofs.Checked.Extent
import FirmwareSymbols.Proofs.Checked.Names
import FirmwareSymbols.Proofs.CountedPairs
import FirmwareSymbols.Proofs.Checked.Correlate
import FirmwareSymbols.Proofs.Checked.Apply
import FirmwareSymbols.Proofs.Checked.Demangle
import FirmwareSymbols.Proofs.Checked.Run
import FirmwareSymbols.Proofs.Checked.CrowdedImage
import FirmwareSymbols.Proofs.FrontRecord
import FirmwareSymbols.Proofs.WrittenTokens
import FirmwareSymbols.Proofs.WrittenValues
import FirmwareSymbols.Proofs.WrittenRecords
import FirmwareSymbols.Proofs.WrittenSettings
import FirmwareSymbols.Proofs.WrittenReports
import FirmwareSymbols.Proofs.ExitStatus
import FirmwareSymbols.Proofs.TiledNames
import FirmwareSymbols.Proofs.Nesting
import FirmwareSymbols.Proofs.PrintedSignature
import FirmwareSymbols.Proofs.OperatorNames
import FirmwareSymbols.Proofs.DelimitedNames
import FirmwareSymbols.Proofs.MergedAddresses
import FirmwareSymbols.Proofs.ExpiredBudget
import FirmwareSymbols.Proofs.ExpiredBudget.Pairs
import FirmwareSymbols.Proofs.PartialSettings
import FirmwareSymbols.Proofs.ClassCounts
