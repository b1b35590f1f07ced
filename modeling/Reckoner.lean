import Reckoner.Handles
import Reckoner.Json.Reader
import Reckoner.Main
import Reckoner.Proofs.Remembering
import Reckoner.Proofs.WholeLanguage
import Reckoner.Proofs.Workers
import Reckoner.Proofs.Flattening
import Reckoner.Proofs.Lockstep
import Reckoner.Proofs.Nesting
import Reckoner.Proofs.StackMarkers
import Reckoner.Proofs.Juxtaposition
import Reckoner.Proofs.Brackets
import Reckoner.Proofs.Rules
import Reckoner.Proofs.Placement
import Reckoner.Proofs.Acceptance
import Reckoner.Proofs.Confinement
import Reckoner.Proofs.Conservation
import Reckoner.Proofs.OutputNames
import Reckoner.Proofs.Locations
import Reckoner.Proofs.Writes
import Reckoner.Proofs.OneDirectory
import Reckoner.Proofs.Rounds
import Reckoner.Proofs.DisjointWrites
import Reckoner.Proofs.Clashes
import Reckoner.Proofs.ParallelBatch
import Reckoner.Proofs.Interference
import Reckoner.Proofs.OperandCount
import Reckoner.Proofs.CachePolicy
import Reckoner.Proofs.Sessions
import Reckoner.Proofs.Drawings
import Reckoner.Proofs.OutcomeTexts
import Reckoner.Proofs.JsonQuoting
import Reckoner.Proofs.TreeWalks
import Reckoner.Proofs.JsonTrees
import Reckoner.Proofs.FileRuns
import Reckoner.Proofs.LineIsolation
import Reckoner.Proofs.Spans
import Reckoner.Proofs.Respacing
import Reckoner.Proofs.Tiling
import Reckoner.Proofs.Culprits
import Reckoner.Proofs.NumberTexts
import Reckoner.Proofs.JsonOutcomes
import Reckoner.Proofs.DrawnNodes
