import DocMesh.Document.Record
import DocMesh.Main
import DocMesh.Sync.Reception
import DocMesh.Sync.Session
import DocMesh.Proofs.Clock.History
import DocMesh.Proofs.Discovery.Lifecycle
import DocMesh.Proofs.Resolver.Idempotence
import DocMesh.Proofs.Resolver.KeyedArrays
import DocMesh.Proofs.Resolver.Paths
import DocMesh.Proofs.Resolver.Symmetry
import DocMesh.Proofs.Store.Merging
import DocMesh.Proofs.Store.Redelivery
import DocMesh.Proofs.Store.History
import DocMesh.Proofs.Database.Dominance
import DocMesh.Proofs.Sync.Completeness
import DocMesh.Proofs.Sync.FirstPull
import DocMesh.Proofs.Sync.Overtaking
import DocMesh.Proofs.Sync.Resumption
import DocMesh.Proofs.Sync.Transfer
import DocMesh.Proofs.Sync.Cluster
import DocMesh.Proofs.Sync.Identity
import DocMesh.Proofs.Sync.Admission
import DocMesh.Proofs.Sync.Atomicity
import DocMesh.Proofs.Channel.Authenticity
import DocMesh.Proofs.Channel.Bound
import DocMesh.Proofs.Channel.Stream
import DocMesh.Proofs.Message.Exactness
import DocMesh.Proofs.Channel.Reserve
import DocMesh.Proofs.Sync.Pulling
import DocMesh.Proofs.Cbor.Size
import DocMesh.Proofs.Node.Peers
import DocMesh.Proofs.Election
import DocMesh.Proofs.Cli.Input
import DocMesh.Proofs.Peer.Grammar
import DocMesh.Proofs.Cli.Seed
import DocMesh.Proofs.Store.Enumeration
import DocMesh.Proofs.Store.Feed
import DocMesh.Proofs.Sync.Accounting
