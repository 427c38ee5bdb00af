import Aegis.Node.ExitSink
import Aegis.Crypto.Unlinkability
import Aegis.Crypto.ReplayStructure
import Aegis.Relay.HandshakeAgreement
import Aegis.Crypto.Fragment
import Aegis.Relay.RateLimit
import Aegis.Relay.LinkIntegrity
import Aegis.Relay.IngressDrops
import Aegis.Relay.PoolFraming
import Aegis.Relay.NoiseFreshness
import Aegis.Relay.QuorumTorn
import Aegis.Topology.RosterLoad
import Aegis.Relay.MixNode
import Aegis.Relay.ControlCells
import Aegis.Client.IdleCover
import Aegis.Relay.FairAccounting
import Aegis.Trust.SingleSpend
import Aegis.Topology.SeedSharing
import Aegis.Relay.QuorumRestart
import Aegis.Topology.Probation
import Aegis.Crypto.FragmentStream
import Aegis.Crypto.FragmentCanonical
import Aegis.Crypto.ProcessAtomic
import Aegis.Client.Padding
import Aegis.Relay.IngressBound
import Aegis.Crypto.FragmentErrors
import Aegis.Relay.QuorumRecords
import Aegis.Relay.MedianMerge
import Aegis.Relay.CheckedMerge
import Aegis.Relay.GossipReplay
import Aegis.Trust.Demotion
import Aegis.Relay.RoundAccounting
import Aegis.Relay.IngressRefusals
import Aegis.Relay.CoverOnion
import Aegis.Trust.Anomaly
import Aegis.Trust.FlaggedWindow
import Aegis.Trust.LedgerFile
import Aegis.Trust.RegistryJoin
import Aegis.Trust.QuoteEnvelope
import Aegis.Lib.Utf8
import Aegis.Topology.ShareHex
import Aegis.Client.EnqueueAtomic
import Aegis.Lib.TwoClassQueue
import Aegis.Client.EmitterRun
import Aegis.Lib.Sampling
import Aegis.Topology.Layers
import Aegis.Topology.Guards
import Aegis.Topology.Path
import Aegis.Topology.Partition
import Aegis.Topology.Beacon
import Aegis.Topology.Rotation
import Aegis.Topology.Mitigation
import Aegis.Relay.MixnetDelivery
import Aegis.Topology.CeremonyQuorum
import Aegis.Topology.RosterLifecycle
import Aegis.Client.HopsResolve
import Aegis.Client.Entry
import Aegis.Node.KemSeeds
import Aegis.Node.KemProtect
import Aegis.Lib.HashChain
import Aegis.Crypto.NoiseLegacy
