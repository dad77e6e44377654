import EirnKcp.CheckedCode
import EirnKcp.ByteCodec
import EirnKcp.Params
import EirnKcp.Primitives
import EirnKcp.LatticeZk
import EirnKcp.Kem
import EirnKcp.Zk
import EirnKcp.Prekey
import EirnKcp.Handshake
import EirnKcp.KdfEncoding
import EirnKcp.KeyLaws
import EirnKcp.ProofCodec
import EirnKcp.LiteProof
import EirnKcp.IdealSuite
import EirnKcp.LiteBinding
import EirnKcp.LinearIdentification
import EirnKcp.StrictProof
import EirnKcp.StrictPairs
import EirnKcp.StrictPredicate
import EirnKcp.HandshakeSteps
import EirnKcp.WireFormat
import EirnKcp.ParserTotality
import EirnKcp.KemTotality
import EirnKcp.CallRuns
import EirnKcp.Stuttering
import EirnKcp.ReceiverState
import EirnKcp.HonestHandshake
import EirnKcp.ReceiverSafety
import EirnKcp.Replay
import EirnKcp.SessionBinding
import EirnKcp.ModeBinding
import EirnKcp.Interleaving
import EirnKcp.SenderAuthentication
import EirnKcp.OpenNetwork
import EirnKcp.WireTampering
import EirnKcp.StrictTranscripts
import EirnKcp.SenderVerdict
import EirnKcp.Dispenser
import EirnKcp.ReceiverDispenser
import EirnKcp.HashUses
import EirnKcp.NetworkKeys
import EirnKcp.MessageKeys
import EirnKcp.ProofReuse
import EirnKcp.SplicedSessions
import EirnKcp.ForgottenPrekeys
import EirnKcp.WireEndpoint
import EirnKcp.WireNetwork
import EirnKcp.Tape
import EirnKcp.OsRandom
import EirnKcp.SharedGenerator
import EirnKcp.FreshSessions
import EirnKcp.EndToEnd
