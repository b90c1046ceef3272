import LoadOrder.Main
import LoadOrder.Proofs.Dump.Roundtrip
import LoadOrder.Proofs.Graph.Agreement
import LoadOrder.Proofs.Graph.Cycles
import LoadOrder.Proofs.Graph.Foresight
import LoadOrder.Proofs.InputOrder
import LoadOrder.Proofs.Insertions
import LoadOrder.Proofs.Newcomer
import LoadOrder.Proofs.Scan.Nesting
import LoadOrder.Proofs.Scan.Spines
import LoadOrder.Proofs.Settings
import LoadOrder.Proofs.Shadowing
import LoadOrder.Proofs.TreeLookup
import LoadOrder.Proofs.Definition.PathSets
import LoadOrder.Proofs.Definition.Preorder
import LoadOrder.Proofs.Dump.Extent
import LoadOrder.Proofs.Graph.Additions
import LoadOrder.Proofs.Files.Discovery
