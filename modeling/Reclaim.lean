import Reclaim.Bytes
import Reclaim.Text.Hex
import Reclaim.Text.Quoted
import Reclaim.Text.Lossy
import Reclaim.Key
import Reclaim.Hash.Blake2b
import Reclaim.Hash.Blake3
import Reclaim.Merkle.Tree
import Reclaim.Merkle.Frontier
import Reclaim.Cipher.XChaCha
import Reclaim.Cipher.Kind
import Reclaim.Cipher.MasterKey
import Reclaim.Cipher.Cursor
import Reclaim.Erasure.Field
import Reclaim.Erasure.Interpolation
import Reclaim.Erasure.Sink
import Reclaim.Erasure.Coder
import Reclaim.Erasure.Batches
import Reclaim.Text.Base64
import Reclaim.Json.Value
import Reclaim.Json.Parser
import Reclaim.Json.Record
import Reclaim.Json.Printer
import Reclaim.Descriptor.Basic
import Reclaim.Descriptor.Topology
import Reclaim.Descriptor.Header
import Reclaim.Descriptor.HostTable
import Reclaim.Descriptor.ChunkRecord
import Reclaim.Descriptor.Image
import Reclaim.Host.Session
import Reclaim.Host.Amount
import Reclaim.Host.Network
import Reclaim.Pool
import Reclaim.Host.Exchange
import Reclaim.Recovery.Cache
import Reclaim.Recovery.Progress
import Reclaim.Recovery.Run
import Reclaim.Recovery.Recover
import Reclaim.Health
import Reclaim.Host.Memory
import Reclaim.Host.Script
import Reclaim.Upload
import Reclaim.Disk.Path
import Reclaim.Disk.Basic
import Reclaim.Contract.Document
import Reclaim.Contract.Store
import Reclaim.Host.Folder
import Reclaim.Command.Words
import Reclaim.Command.Basic
import Reclaim.Command.Run
import Reclaim.Main
import Reclaim.Proofs.Erasure.FieldLaws
import Reclaim.Proofs.Erasure.Lagrange
import Reclaim.Proofs.Erasure.Codeword
import Reclaim.Proofs.Erasure.Split
import Reclaim.Proofs.Erasure.AnyPieces
import Reclaim.Proofs.Erasure.Lengths
import Reclaim.Proofs.Erasure.Matrix
import Reclaim.Proofs.Erasure.Sources
import Reclaim.Proofs.Erasure.Batches
import Reclaim.Proofs.Erasure.Acceptable
import Reclaim.Proofs.Erasure.Refusals
import Reclaim.Proofs.Erasure.Stripes
import Reclaim.Proofs.Erasure.Decoded
import Reclaim.Proofs.Pool.Rules
import Reclaim.Proofs.Host.Wire
import Reclaim.Proofs.Host.Amount
import Reclaim.Proofs.Host.Exchange
import Reclaim.Proofs.Recovery.Fetch
import Reclaim.Proofs.Recovery.Collect
import Reclaim.Proofs.Cipher.Stream
import Reclaim.Proofs.Cipher.Cursor
import Reclaim.Proofs.Recovery.Chunks
import Reclaim.Proofs.Descriptor.Validate
import Reclaim.Proofs.Upload
import Reclaim.Proofs.Recovery.Integrity
import Reclaim.Proofs.Recovery.Survival
import Reclaim.Proofs.Json.Scalars
import Reclaim.Proofs.Json.Numeral
import Reclaim.Proofs.Json.Spelling
import Reclaim.Proofs.Text.Base64
import Reclaim.Proofs.Json.Members
import Reclaim.Proofs.Json.Record
import Reclaim.Proofs.Descriptor.Header
import Reclaim.Proofs.Descriptor.Tables
import Reclaim.Proofs.Descriptor.Image
import Reclaim.Proofs.Merkle.Frontier
import Reclaim.Proofs.Merkle.Collision
import Reclaim.Proofs.Descriptor.Entries
import Reclaim.Proofs.Descriptor.Layout
import Reclaim.Proofs.Descriptor.Canonical
import Reclaim.Proofs.Host.Sessions
import Reclaim.Proofs.Recovery.Moments
import Reclaim.Proofs.Recovery.Turns
import Reclaim.Proofs.Recovery.InOrder
import Reclaim.Proofs.Recovery.Output
import Reclaim.Proofs.Pool.Ledger
import Reclaim.Proofs.Pool.Life
import Reclaim.Proofs.Host.Static
import Reclaim.Proofs.Host.Presence
import Reclaim.Proofs.Host.Memory
import Reclaim.Proofs.Health.Survey
import Reclaim.Proofs.Recovery.Static
import Reclaim.Proofs.Recovery.Abreast
import Reclaim.Proofs.Recovery.Agreement
import Reclaim.Proofs.Recovery.Available
import Reclaim.Proofs.Recovery.Retry
import Reclaim.Proofs.Health.Recoverable
import Reclaim.Proofs.Json.Keys
import Reclaim.Proofs.Text.Lossy
import Reclaim.Proofs.KeyTexts
import Reclaim.Proofs.Json.Pretty
import Reclaim.Proofs.Descriptor.Renderings
import Reclaim.Proofs.Descriptor.Topology
import Reclaim.Proofs.Command.Extract
import Reclaim.Proofs.Contract.Document
import Reclaim.Proofs.Contract.Sorted
import Reclaim.Proofs.Contract.Store
import Reclaim.Proofs.Disk.Luck
import Reclaim.Proofs.Host.Dutiful
import Reclaim.Proofs.Recovery.Episodes
import Reclaim.Proofs.Recovery.Dropped
import Reclaim.Proofs.Disk.Failures
import Reclaim.Proofs.Contract.Files
import Reclaim.Proofs.Contract.Unsaved
import Reclaim.Proofs.Host.Folder
import Reclaim.Proofs.Recovery.Lockstep
import Reclaim.Proofs.Recovery.Interchange
import Reclaim.Proofs.Host.Offered
import Reclaim.Proofs.Disk.Endings
import Reclaim.Proofs.Command.Recover
import Reclaim.Proofs.Descriptor.Partition
import Reclaim.Proofs.Descriptor.Placement
import Reclaim.Proofs.Descriptor.Spellings
import Reclaim.Proofs.Recovery.Stages
import Reclaim.Proofs.Recovery.Decoding
import Reclaim.Proofs.Recovery.InPlace
