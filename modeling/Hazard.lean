import Hazard.Analysis.Archive
import Hazard.Analysis.Report
import Hazard.Analysis.Script
import Hazard.Analysis.Search
import Hazard.Counterexample.Replay
import Hazard.Decimal.Reader
import Hazard.Generate
import Hazard.Graph.Checker
import Hazard.Json.Settings
import Hazard.Markov.ChainChecker
import Hazard.Markov.ProcessChecker
import Hazard.Model.Gallery
import Hazard.Model.Rules
import Hazard.Proofs.AnalysisRun
import Hazard.Proofs.Criticality
import Hazard.Proofs.CtlEvaluation
import Hazard.Proofs.Except
import Hazard.Proofs.FaultSetCollection
import Hazard.Proofs.Findings
import Hazard.Proofs.MinimalCriticalSets
import Hazard.Proofs.NormalForm
import Hazard.Proofs.PowerSetLevel
import Hazard.Proofs.Absorption
import Hazard.Proofs.ExtremeStates
import Hazard.Proofs.Storage
import Hazard.Proofs.Expansion
import Hazard.Proofs.Exploration
import Hazard.Proofs.Discovery
import Hazard.Proofs.Predicate
import Hazard.Proofs.Runs
import Hazard.Proofs.InvariantSearch
import Hazard.Proofs.ValueIteration
import Hazard.Proofs.ChainIteration
import Hazard.Proofs.LabelSequences
import Hazard.Proofs.SeparateChoices
import Hazard.Proofs.NumberedVectors
import Hazard.Proofs.SingleChoice
import Hazard.Proofs.ReportedSets
import Hazard.Proofs.GraphBuilding
import Hazard.Proofs.StateLabels
import Hazard.Proofs.Observers
import Hazard.Proofs.StateFormulas
import Hazard.Proofs.GeneratedGraph
import Hazard.Proofs.InvariantAgreement
import Hazard.Proofs.ReplayedRuns
import Hazard.Proofs.TimedSchedulers
import Hazard.Proofs.KeptFindings
import Hazard.Proofs.RecordedCounterexamples
import Hazard.Proofs.EarlyTermination
import Hazard.Proofs.EdgeLabels
import Hazard.Proofs.UnknownAtoms
import Hazard.Proofs.GeneratedChain
import Hazard.Proofs.TerminatedGraphs
import Hazard.Proofs.TerminatedChains
import Hazard.Proofs.ValidStructures
import Hazard.Proofs.ProbabilityRanges
import Hazard.Proofs.FailedExplorations
import Hazard.Proofs.Verdicts
import Hazard.Proofs.FaultMonotonicity
import Hazard.Proofs.ActivationBehaviours
import Hazard.Proofs.ConsistentResults
import Hazard.Proofs.ExpansionOrder
import Hazard.Proofs.StripeRoom
import Hazard.Proofs.JsonRoundTrip
import Hazard.Proofs.SavedCounterexamples
import Hazard.Proofs.LevelEnumeration
import Hazard.Proofs.CompletedCycleSearch
import Hazard.Proofs.CompiledFormulas
import Hazard.Proofs.OfferedTransitions
import Hazard.Proofs.AcceptedBatches
import Hazard.Proofs.CheckTallies
import Hazard.Proofs.HeuristicRuns
import Hazard.Proofs.UsefulSuggestions
import Hazard.Proofs.ReplayedPaths
import Hazard.Proofs.ChainProbabilities
import Hazard.Proofs.ArchivedCounterexamples
import Hazard.Proofs.CanonicalSets
import Hazard.Proofs.DigestSeparation
