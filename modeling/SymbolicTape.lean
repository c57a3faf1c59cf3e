import SymbolicTape.Constraint.Outline
import SymbolicTape.Constraint.Shared
import SymbolicTape.Explorer
import SymbolicTape.JsonValue.Parser
import SymbolicTape.Machine
import SymbolicTape.Proofs.Agreement
import SymbolicTape.Proofs.Pruning
import SymbolicTape.Report.Json
import SymbolicTape.Tape.Family
import SymbolicTape.Proofs.Turns
import SymbolicTape.Proofs.Termination
import SymbolicTape.Proofs.DepthFirst
import SymbolicTape.Proofs.StateLimits
import SymbolicTape.Proofs.ReadFree
import SymbolicTape.Proofs.LoopStack
import SymbolicTape.Proofs.MatchingModes
import SymbolicTape.Proofs.Canonical
import SymbolicTape.Proofs.Freshness
import SymbolicTape.Proofs.SharedTapes
import SymbolicTape.Proofs.ForkTree
import SymbolicTape.Proofs.SliceBound
import SymbolicTape.Proofs.TruthfulStops
import SymbolicTape.Proofs.Balance
import SymbolicTape.Proofs.BranchOrder
import SymbolicTape.Proofs.Backtracking
import SymbolicTape.Proofs.Levels
import SymbolicTape.Proofs.Comments
import SymbolicTape.Proofs.Faults
import SymbolicTape.Proofs.TapeBounds
import SymbolicTape.Proofs.SmtScripts
import SymbolicTape.Proofs.SharedConstraints
import SymbolicTape.Proofs.Budgets
import SymbolicTape.Proofs.EqualPaths
import SymbolicTape.Proofs.Texts
import SymbolicTape.Proofs.ErrorOrder
