import LayeredStore.Main
import LayeredStore.Proofs.Answers
import LayeredStore.Proofs.Grammar
import LayeredStore.Proofs.Lookup
import LayeredStore.Proofs.Iteration
import LayeredStore.Proofs.Merging
import LayeredStore.Proofs.Yielding
import LayeredStore.Proofs.Layers
import LayeredStore.Proofs.Precedence
import LayeredStore.Proofs.Filling
import LayeredStore.Proofs.Folders
import LayeredStore.Proofs.Catalogue
import LayeredStore.Proofs.Writing
import LayeredStore.Proofs.Mapping
import LayeredStore.Proofs.Outcomes
import LayeredStore.Proofs.Atomicity
import LayeredStore.Proofs.Rescanning
import LayeredStore.Proofs.Shelf
import LayeredStore.Proofs.Changes
import LayeredStore.Proofs.Runs
import LayeredStore.Proofs.Room
import LayeredStore.Proofs.Compaction
import LayeredStore.Proofs.Recovery
import LayeredStore.Proofs.Buffering
import LayeredStore.Proofs.Reading
import LayeredStore.Proofs.EngineOutcomes
import LayeredStore.Proofs.Refinement
import LayeredStore.Proofs.Safekeeping
import LayeredStore.Proofs.Reserve
import LayeredStore.Proofs.Leftovers
import LayeredStore.Proofs.Faults
import LayeredStore.Proofs.Reloading
import LayeredStore.Proofs.RoundTrip
import LayeredStore.Proofs.Robustness
import LayeredStore.Proofs.Refusal
import LayeredStore.Proofs.Numbering
import LayeredStore.Proofs.Containment
import LayeredStore.Proofs.Flushing
import LayeredStore.Proofs.Canonical
import LayeredStore.Proofs.Persistence
import LayeredStore.Proofs.Searching
import LayeredStore.Proofs.Draining
import LayeredStore.Proofs.Spelling
import LayeredStore.Proofs.Extending
import LayeredStore.Proofs.Tallying
import LayeredStore.Proofs.Discovery
import LayeredStore.Proofs.Purging
import LayeredStore.Proofs.Thresholds
import LayeredStore.Proofs.Placement
import LayeredStore.Proofs.Transparency
