import SealedStore.Benchmark.Script
import SealedStore.Cipher.Cbc
import SealedStore.Client.Either
import SealedStore.Decimal.Shortest
import SealedStore.Entropy
import SealedStore.Main
import SealedStore.Proofs.RoundTrip
import SealedStore.Proofs.Runs
import SealedStore.Proofs.Atomicity
import SealedStore.Proofs.Footprint
import SealedStore.Proofs.Displacement
import SealedStore.Proofs.Failures
import SealedStore.Proofs.Interference
import SealedStore.Proofs.Stacking
import SealedStore.Proofs.Transparency
import SealedStore.Proofs.Retrying
import SealedStore.Proofs.PlainObjects
import SealedStore.Proofs.Resuming
import SealedStore.Proofs.Phases
import SealedStore.Proofs.Interleaving
import SealedStore.Proofs.Publication
import SealedStore.Proofs.Checksums
import SealedStore.Proofs.Restoring
import SealedStore.Proofs.Assembly
import SealedStore.Proofs.Ranges
import SealedStore.Proofs.Membership
import SealedStore.Proofs.SealedKeys
import SealedStore.Proofs.Splicing
import SealedStore.Proofs.Links
import SealedStore.Proofs.Spelling
import SealedStore.Proofs.Loading
import SealedStore.Storage.Monitored
