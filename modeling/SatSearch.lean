import SatSearch.Cnf.Json
import SatSearch.Main
import SatSearch.Proofs.Command.Planted
import SatSearch.Proofs.Search.Budgets
import SatSearch.Proofs.Search.Observers
import SatSearch.Proofs.Cnf.DimacsLines
import SatSearch.Proofs.Cnf.DimacsText
import SatSearch.Proofs.Text.Encoding
import SatSearch.Proofs.Cnf.DimacsBytes
import SatSearch.Proofs.Cnf.DimacsGrammar
import SatSearch.Proofs.Cnf.DimacsSizes
import SatSearch.Proofs.Run.Safety
import SatSearch.Proofs.Search.FiniteSets
import SatSearch.Proofs.Search.DriftFlips
import SatSearch.Proofs.Run.Batches
import SatSearch.Proofs.Search.OccurrenceCounts
import SatSearch.Proofs.Cnf.ShortAssignments
import SatSearch.Proofs.Settings.Overrides
import SatSearch.Proofs.Settings.Layers
import SatSearch.Proofs.Settings.Resolution
import SatSearch.Proofs.Json.Grammar
import SatSearch.Proofs.Json.Printed
import SatSearch.Proofs.Cnf.Serialized
import SatSearch.Proofs.Run.SweepPlans
import SatSearch.Proofs.Run.ProgressStreams
import SatSearch.Proofs.Command.Listings
import SatSearch.Proofs.Run.Summaries
import SatSearch.Proofs.Run.Rankings
import SatSearch.Proofs.Csv.Rows
import SatSearch.Proofs.Csv.Tables
import SatSearch.Proofs.Run.ResultTables
import SatSearch.Proofs.Command.Trees
import SatSearch.Proofs.Command.Jobs
import SatSearch.Proofs.Command.Analyses
import SatSearch.Proofs.Command.Failures
import SatSearch.Proofs.Search.AppliedFlips
import SatSearch.Proofs.Search.RepeatedRefreshes
import SatSearch.Proofs.Cnf.FlipParity
