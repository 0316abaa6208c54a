import StreamQuery.Json.Printer
import StreamQuery.Proofs.ConvertedParts
import StreamQuery.Proofs.FilledAtOnce
import StreamQuery.Proofs.FoldedPartition
import StreamQuery.Proofs.ForeignScopes
import StreamQuery.Proofs.HoppingColumns
import StreamQuery.Proofs.HubRollUp
import StreamQuery.Proofs.JoinGrammar
import StreamQuery.Proofs.KeyValues
import StreamQuery.Proofs.LiteralValues
import StreamQuery.Proofs.NearestName
import StreamQuery.Proofs.NegatedColumns
import StreamQuery.Proofs.NewNames
import StreamQuery.Proofs.NullTests
import StreamQuery.Proofs.OutputColumns
import StreamQuery.Proofs.PlanNames
import StreamQuery.Proofs.SourceNames
import StreamQuery.Proofs.UnmixedColumns
import StreamQuery.Proofs.WindowBehindCalls
import StreamQuery.Proofs.WindowSizes
import StreamQuery.Settings.Document
