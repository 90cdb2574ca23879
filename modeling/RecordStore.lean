import RecordStore.Value.Equality
import RecordStore.Value.Display
import RecordStore.Codec.Encoding
import RecordStore.Codec.Decoding
import RecordStore.Schema.Blueprint
import RecordStore.Schema.Experiment
import RecordStore.Schema.Table
import RecordStore.Storage.Address
import RecordStore.Storage.Basic
import RecordStore.Model.Basic
import RecordStore.Model.Compile
import RecordStore.Record
import RecordStore.Registry
import RecordStore.Scope.Basic
import RecordStore.Tracked
import RecordStore.Scope.Constraint
import RecordStore.Scope.Flush
import RecordStore.Scope.Lookup
import RecordStore.Scope.Relation
import RecordStore.Database
import RecordStore.CommandLine.Arguments
import RecordStore.CommandLine.Console
import RecordStore.Main
import RecordStore.Proofs.Codec.RoundTrip
import RecordStore.Proofs.Registry.Calls
import RecordStore.Proofs.Scope.Commit
import RecordStore.Proofs.Persistence.Refinement
import RecordStore.Proofs.Scope.Reaching
import RecordStore.Proofs.Integrity.Courses
import RecordStore.Proofs.Integrity.ForeignKeys
import RecordStore.Proofs.Integrity.RowImages
import RecordStore.Proofs.Integrity.UniqueValues
import RecordStore.Proofs.Integrity.FreshKeys
import RecordStore.Proofs.Schema.Chains
import RecordStore.Proofs.Storage.Isolation
import RecordStore.Proofs.Integrity.ShownRows
import RecordStore.Proofs.Integrity.CommittedChanges
import RecordStore.Proofs.Integrity.IdentityMap
import RecordStore.Proofs.Scope.Imaging
import RecordStore.Proofs.Integrity.AgreeingLookUps
import RecordStore.Proofs.Integrity.FailedFlushes
import RecordStore.Proofs.Integrity.KeptReferences
import RecordStore.Proofs.Codec.Skipping
import RecordStore.Proofs.Integrity.CheckedImages
import RecordStore.Proofs.Integrity.GoneTargets
import RecordStore.Proofs.Integrity.LastReferences
import RecordStore.Proofs.Codec.Delimiting
import RecordStore.Proofs.Codec.Normalizing
import RecordStore.Proofs.Model.WriteBoundary
import RecordStore.Proofs.Registry.FailedCalls
import RecordStore.Proofs.Integrity.Collections
import RecordStore.Proofs.Integrity.InverseReferences
import RecordStore.Proofs.Integrity.Deletions
import RecordStore.Proofs.Integrity.Additions
import RecordStore.Proofs.Integrity.RepeatedFlushes
import RecordStore.Proofs.Records.Marks
import RecordStore.Proofs.Schema.Stages
import RecordStore.Proofs.Model.Correspondence
import RecordStore.Proofs.Storage.RowOrder
import RecordStore.Proofs.Integrity.PrimaryKeys
import RecordStore.Proofs.Storage.Batches
import RecordStore.Proofs.Storage.Masking
import RecordStore.Proofs.CommandLine.LikeRuns
import RecordStore.Proofs.CommandLine.Opening
import RecordStore.Proofs.CommandLine.Passwords
import RecordStore.Proofs.CommandLine.Resetting
import RecordStore.Proofs.CommandLine.Confirming
import RecordStore.Proofs.ShortCodes
