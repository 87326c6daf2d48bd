import BoxScript.Main
import BoxScript.Proofs.Code
import BoxScript.Proofs.Contract
import BoxScript.Proofs.Values
import BoxScript.Proofs.Stages
import BoxScript.Proofs.Tracking
import BoxScript.Proofs.Evaluation
import BoxScript.Proofs.Course
import BoxScript.Proofs.Restoration
import BoxScript.Proofs.Store
import BoxScript.Proofs.Instances
import BoxScript.Proofs.Lifetime
import BoxScript.Proofs.Grammar
import BoxScript.Proofs.Tables
import BoxScript.Proofs.Flow
import BoxScript.Proofs.Signals
import BoxScript.Proofs.Discipline
import BoxScript.Proofs.ForClause
import BoxScript.Proofs.Registry
import BoxScript.Proofs.Resolution
import BoxScript.Proofs.Fields
import BoxScript.Proofs.Activations
import BoxScript.Proofs.Pins
import BoxScript.Proofs.Sight
import BoxScript.Proofs.Imports
import BoxScript.Proofs.Isolation
import BoxScript.Proofs.Shadowing
import BoxScript.Proofs.Lineage
import BoxScript.Proofs.Recovery
import BoxScript.Proofs.Seeding
import BoxScript.Proofs.Relocation
import BoxScript.Proofs.Likeness
import BoxScript.Proofs.Lockstep
import BoxScript.Proofs.Renewal
import BoxScript.Proofs.Passing
import BoxScript.Proofs.Creation
import BoxScript.Proofs.Derivation
import BoxScript.Proofs.Reading
import BoxScript.Proofs.Exactness
import BoxScript.Proofs.Parsing
import BoxScript.Proofs.Printing
import BoxScript.Proofs.Rereading
import BoxScript.Proofs.Joining
import BoxScript.Proofs.Partition
import BoxScript.Proofs.Canonical
import BoxScript.Proofs.Related
import BoxScript.Proofs.Recoding
import BoxScript.Proofs.Redoing
import BoxScript.Proofs.Folding
import BoxScript.Proofs.Literals
import BoxScript.Proofs.Arithmetic
import BoxScript.Proofs.Pieces
import BoxScript.Proofs.Precedence
import BoxScript.Proofs.Arity
import BoxScript.Proofs.Failures
import BoxScript.Proofs.Rows
import BoxScript.Proofs.Occurrences
import BoxScript.Proofs.Chunks
import BoxScript.Proofs.Rendering
import BoxScript.Proofs.Histories
import BoxScript.Proofs.Merging
import BoxScript.Proofs.Copies
import BoxScript.Proofs.Introspection
import BoxScript.Proofs.Paths
import BoxScript.Proofs.Escapes
import BoxScript.Proofs.Integers
import BoxScript.Proofs.Collecting
import BoxScript.Proofs.Progress
import BoxScript.Proofs.Capacity
