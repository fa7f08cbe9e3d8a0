import ScriptCore.Main
import ScriptCore.Json.Export
import ScriptCore.Json.Import
import ScriptCore.Summary
import ScriptCore.Proofs.Evaluation.Iterations
import ScriptCore.Proofs.Evaluation.Sessions
import ScriptCore.Proofs.Evaluation.Sums
import ScriptCore.Proofs.Evaluation.Trampoline
import ScriptCore.Proofs.HashTable.Listing
import ScriptCore.Proofs.Json.Entries
import ScriptCore.Proofs.Json.RoundTrip
import ScriptCore.Proofs.Heap.Equality
import ScriptCore.Proofs.Evaluation.TailPosition
import ScriptCore.Proofs.ResizableArray.Sequence
import ScriptCore.Proofs.Scope.Resolution
import ScriptCore.Proofs.Scope.Sharing
import ScriptCore.Proofs.ValueKey
import ScriptCore.Proofs.Parameters.Convention
import ScriptCore.Proofs.Json.Exportable
import ScriptCore.Proofs.Rendering
import ScriptCore.Proofs.Machine.Occurring
import ScriptCore.Proofs.Machine.Handler
import ScriptCore.Proofs.Evaluation.Handling
import ScriptCore.Proofs.HashTable.Consistency
import ScriptCore.Proofs.Evaluation.Refusals
import ScriptCore.Proofs.Heap.Shape
import ScriptCore.Proofs.Evaluation.Locks
import ScriptCore.Proofs.ResizableArray.Capacity
import ScriptCore.Proofs.HashTable.Growth
import ScriptCore.Proofs.Heap.Arithmetic
import ScriptCore.Proofs.Heap.Comparison
import ScriptCore.Proofs.Scope.Capture
import ScriptCore.Proofs.Flags
import ScriptCore.Proofs.Evaluation.Methods
