import Decentagram.AdvancedRlp.Canonicality
import Decentagram.DecentEnclave.AsyncReports
import Decentagram.DecentEnclave.AuthenticatedHandshake
import Decentagram.DecentEnclave.BufferBounds
import Decentagram.DecentEnclave.ChannelAuthenticity
import Decentagram.DecentEnclave.DamageAbsorbing
import Decentagram.DecentEnclave.FalseDamage
import Decentagram.DecentEnclave.HeartbeatEmitterMgr
import Decentagram.DecentEnclave.KeyBinding
import Decentagram.DecentEnclave.Keyring
import Decentagram.DecentEnclave.PackageRoundTrip
import Decentagram.DecentEnclave.Registration
import Decentagram.DecentEnclave.ReportAcceptance
import Decentagram.DecentEnclave.SignatureSearch
import Decentagram.DecentEnclave.SizedFraming
import Decentagram.DecentEnclave.StreamOrder
import Decentagram.EclipseMonitor.AbiDecoding
import Decentagram.EclipseMonitor.AbiSoundness
import Decentagram.EclipseMonitor.CheckpointWindows
import Decentagram.EclipseMonitor.DescendantCounts
import Decentagram.EclipseMonitor.DifficultyFormula
import Decentagram.EclipseMonitor.ExpiryEstimate
import Decentagram.EclipseMonitor.ExpirySweep
import Decentagram.EclipseMonitor.HistoryHeaders
import Decentagram.EclipseMonitor.ListenerOwnership
import Decentagram.EclipseMonitor.LookUpMaps
import Decentagram.EclipseMonitor.ReceiptsRoot
import Decentagram.EclipseMonitor.Timestamps
import Decentagram.EclipseMonitor.TrieTotality
import Decentagram.Ethereum.BootstrapPlan
import Decentagram.Ethereum.Heartbeat
import Decentagram.Ethereum.NoEventLost
import Decentagram.Ethereum.PastEvents
import Decentagram.Ethereum.PhaseChanges
import Decentagram.Ethereum.SyncSoundness
import Decentagram.Lib.FallibleSort
import Decentagram.PubSubOnchain.Isolation
import Decentagram.PubSubOnchain.Solvency
import Decentagram.RaOnchain.LibSecp256k1Sha256
import Decentagram.RaOnchain.NodeContainment
import Decentagram.RaOnchain.ReportJson
import Decentagram.RaOnchain.ServerKeys
import Decentagram.RevokerOnChain.TracedEnclaves
import Decentagram.RevokerOnChain.VoteThreshold
import Decentagram.SimpleJson.Acceptance
import Decentagram.SimpleJson.RoundTrip
import Decentagram.SimpleObjects.Base64
import Decentagram.SimpleObjects.Object
import Decentagram.SimpleRlp.Canonicality
import Decentagram.SimpleUtf.Utf
