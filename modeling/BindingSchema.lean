import BindingSchema.Interface.Decode
import BindingSchema.Main
import BindingSchema.Proofs.ReferenceGraph.Circuits
import BindingSchema.Proofs.Annotation.Branch
import BindingSchema.Proofs.Annotation.Steps
import BindingSchema.Proofs.Interface.Nodes
import BindingSchema.Proofs.Annotation.Search
import BindingSchema.Proofs.Annotation.Progress
import BindingSchema.Proofs.Annotation.Meaning
import BindingSchema.Proofs.Annotation.Sites
import BindingSchema.Proofs.Normalization.Derivation
import BindingSchema.Proofs.Normalization.Types
import BindingSchema.Proofs.Normalization.Placeholders
import BindingSchema.Proofs.Document.Places
import BindingSchema.Proofs.Structure.Legality
import BindingSchema.Proofs.Annotation.Reach
import BindingSchema.Proofs.Structure.Grammar
import BindingSchema.Proofs.Normalization.References
import BindingSchema.Proofs.Annotation.Problems
import BindingSchema.Proofs.Normalization.Acceptance
import BindingSchema.Proofs.Structure.Regular
import BindingSchema.Proofs.Normalization.Agreement
import BindingSchema.Proofs.Annotation.Renumbering
import BindingSchema.Proofs.Document.Order
import BindingSchema.Proofs.Normalization.Order
import BindingSchema.Proofs.Annotation.Frame
import BindingSchema.Proofs.Normalization.Lowered
import BindingSchema.Proofs.Normalization.Written
import BindingSchema.Proofs.Interface.Fields
import BindingSchema.Proofs.Interface.RoundTrip
import BindingSchema.Proofs.Annotation.Depth
import BindingSchema.Proofs.Annotation.Reports
import BindingSchema.Proofs.Normalization.Reports
import BindingSchema.Proofs.Document.Names
import BindingSchema.Proofs.Normalization.Symbols
import BindingSchema.Proofs.Document.Texts
import BindingSchema.Proofs.Normalization.Outcomes
import BindingSchema.Proofs.Normalization.Warnings
import BindingSchema.Proofs.Document.Trimming
import BindingSchema.Proofs.Document.Nulls
import BindingSchema.Proofs.Normalization.Nulls
import BindingSchema.Proofs.Normalization.Required
import BindingSchema.Proofs.Reference.Parts
import BindingSchema.Proofs.ReferenceGraph.Edges
import BindingSchema.Proofs.Normalization.Kinds
import BindingSchema.Proofs.Normalization.Forwarding
import BindingSchema.Proofs.Structure.Decoding
