import BranchBound.Proofs.Alternation.Percentage
import BranchBound.Proofs.CellStore.History
import BranchBound.Proofs.Frontier.Contraction
import BranchBound.Proofs.Frontier.FusedUpdate
import BranchBound.Proofs.Frontier.Layout
import BranchBound.Proofs.Frontier.Listed
import BranchBound.Proofs.Frontier.OneRanking
import BranchBound.Proofs.Frontier.Turns
import BranchBound.Proofs.Guarded
import BranchBound.Proofs.Heap.FiniteMap
import BranchBound.Proofs.Incumbent
import BranchBound.Proofs.Interval.Arithmetic
import BranchBound.Proofs.Interval.Lattice
import BranchBound.Proofs.Interval.Midpoint
import BranchBound.Proofs.Monitor.Watching
import BranchBound.Proofs.Ranking
import BranchBound.Proofs.Region.Volume
import BranchBound.Proofs.Region.Widest
