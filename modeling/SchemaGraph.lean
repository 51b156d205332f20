import SchemaGraph.Builder.Command
import SchemaGraph.Combine
import SchemaGraph.Graph.Printer
import SchemaGraph.Graph.Reader
import SchemaGraph.Graph.Recursion
import SchemaGraph.Draft.Program
import SchemaGraph.Proofs.Draft.Success
import SchemaGraph.Proofs.Graph.Walk
import SchemaGraph.Settings.Reader
import SchemaGraph.Proofs.Merge.Contributors
import SchemaGraph.Proofs.Draft.Trace
import SchemaGraph.Proofs.Draft.Stage
import SchemaGraph.Proofs.Draft.Steps
import SchemaGraph.Proofs.Draft.Advances
import SchemaGraph.Proofs.Draft.Copy
import SchemaGraph.Proofs.Merge.Constituents
import SchemaGraph.Proofs.Merge.Unify
import SchemaGraph.Proofs.Draft.Kinds
import SchemaGraph.Proofs.Draft.Replacement
import SchemaGraph.Proofs.Similarity.Search
import SchemaGraph.Proofs.Documents.Basic
import SchemaGraph.Proofs.Documents.Replace
import SchemaGraph.Proofs.Combine.Rounds
import SchemaGraph.Proofs.Combine.Documents
import SchemaGraph.Proofs.Combine.Unions
import SchemaGraph.Proofs.Graph.Matching
import SchemaGraph.Proofs.Similarity.Separation
import SchemaGraph.Proofs.Combine.Count
import SchemaGraph.Proofs.Graph.Bisimilarity
import SchemaGraph.Proofs.Combine.Blends
import SchemaGraph.Proofs.Merge.Groups
import SchemaGraph.Proofs.Similarity.Overlap
import SchemaGraph.Proofs.Graph.Relocation
import SchemaGraph.Proofs.Combine.Copies
import SchemaGraph.Proofs.Combine.Idempotent
import SchemaGraph.Proofs.Combine.Provenance
import SchemaGraph.Proofs.Draft.Homomorphism
import SchemaGraph.Proofs.Combine.Termination
import SchemaGraph.Proofs.Draft.Ensures
import SchemaGraph.Proofs.Draft.Scripted
import SchemaGraph.Proofs.Graph.Renumbering
import SchemaGraph.Proofs.Similarity.Renumbering
import SchemaGraph.Proofs.Draft.Agreement
import SchemaGraph.Proofs.Draft.Renumbering
import SchemaGraph.Proofs.Merge.Renumbering
import SchemaGraph.Proofs.Combine.Renumbering
import SchemaGraph.Proofs.Similarity.Partition
import SchemaGraph.Proofs.Similarity.Leftover
import SchemaGraph.Proofs.Similarity.Anchors
import SchemaGraph.Proofs.Graph.Traversal
import SchemaGraph.Proofs.Draft.Numbering
import SchemaGraph.Proofs.Draft.NormalForm
import SchemaGraph.Proofs.Combine.Names
import SchemaGraph.Proofs.Merge.Order
import SchemaGraph.Proofs.Builder.Runs
import SchemaGraph.Proofs.Json.RoundTrip
import SchemaGraph.Proofs.Graph.RoundTrip
import SchemaGraph.Proofs.Graph.Permutation
import SchemaGraph.Proofs.Graph.Conflation
import SchemaGraph.Proofs.Similarity.Pairing
import SchemaGraph.Proofs.Similarity.Samples
import SchemaGraph.Proofs.Merge.Unions
import SchemaGraph.Proofs.Attribute.Stages
import SchemaGraph.Proofs.Graph.Preorder
import SchemaGraph.Proofs.Graph.Recursion
import SchemaGraph.Proofs.Builder.Atomic
import SchemaGraph.Proofs.Combine.Target
import SchemaGraph.Proofs.Merge.Partition
import SchemaGraph.Proofs.Draft.Ending
import SchemaGraph.Proofs.Merge.Ending
