import Warp.Crdt.Causality
import Warp.Store.CounterReplication
import Warp.Store.RegisterReplication
import Warp.Format.MerkleBinding
import Warp.Format.VerifierAgreement
import Warp.Format.Extraction
import Warp.Io.SimdAgreement
import Warp.Chonkers.MinimumSize
import Warp.Chonkers.VersionRetention
import Warp.Net.ControlStream
import Warp.Net.Handshake
import Warp.Crypto.StreamCipher
import Warp.Ec.Recovery
import Warp.Block.Snapshot
import Warp.Block.NbdConfinement
import Warp.Noise.Rekeying
import Warp.Portal.Peer
import Warp.Gateway.LockExclusion
import Warp.Gateway.Delegation
import Warp.Gateway.LeaseConflict
import Warp.Iam.Policy
import Warp.Store.ObjectLock
import Warp.Store.RaftStore
import Warp.Store.SnapshotManager
import Warp.Store.BlockMapper
import Warp.Store.SetReplication
import Warp.Store.ObjectIndependence
import Warp.Store.ObjectListing
import Warp.Store.LogStore
import Warp.Kms.StreamingEnvelope
import Warp.Store.QuotaEnforcement
import Warp.Store.WitnessNode
import Warp.Crdt.MVRegister
import Warp.Crdt.Merge
import Warp.Core.Session
import Warp.Block.IoQueue
import Warp.Chonkers.GarbageCollector
import Warp.Store.CowManager
import Warp.Store.VersionList
