import Prototypal.Configuration.Document
import Prototypal.Machine
import Prototypal.Proofs.FixedAccessor
import Prototypal.Proofs.Definition
import Prototypal.Proofs.NotExtensible
import Prototypal.Proofs.Deferred.Theorems
import Prototypal.Proofs.Shadowing.Concealment
import Prototypal.Proofs.Blindness.Reserved
import Prototypal.Proofs.Hierarchy.Dispatch
import Prototypal.Proofs.Creation.BackReference
import Prototypal.Proofs.Creation.Failure
import Prototypal.Proofs.Deferred.Cancellation
import Prototypal.Proofs.Deferred.Schedules
import Prototypal.Proofs.Deferred.WriteOnce
import Prototypal.Proofs.Arrays.Writes
import Prototypal.Proofs.Listing
import Prototypal.Proofs.Chains
import Prototypal.Proofs.Assignment
import Prototypal.Proofs.StoreLaws
import Prototypal.Proofs.Blindness.Names
import Prototypal.Proofs.FixedData
import Prototypal.Proofs.Accessors
import Prototypal.Proofs.Arrays.Reports
import Prototypal.Proofs.Moves
import Prototypal.Proofs.Reflection
import Prototypal.Proofs.Iteration.Spreading
import Prototypal.Proofs.Hierarchy.SuperLookup
import Prototypal.Proofs.StorageKey
import Prototypal.Proofs.Interception
import Prototypal.Proofs.Naming
import Prototypal.Proofs.Marking
import Prototypal.Proofs.ElementKeys
