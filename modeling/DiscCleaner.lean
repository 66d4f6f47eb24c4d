import DiscCleaner.Lib.Bytes
import DiscCleaner.Lib.ChainLog
import DiscCleaner.Lib.Json
import DiscCleaner.Lib.Checks
import DiscCleaner.Core.Plan
import DiscCleaner.Core.Record
import DiscCleaner.Core.RecordJson
import DiscCleaner.Core.Journal
import DiscCleaner.Core.JournalRecovery
import DiscCleaner.Core.JournalTorn
import DiscCleaner.Core.JournalBinding
import DiscCleaner.Core.JournalEpochs
import DiscCleaner.Core.Audit
import DiscCleaner.Core.AuditCrash
import DiscCleaner.Cert.DualAuth
import DiscCleaner.Cert.HardwareCustody
import DiscCleaner.Verify.StreamVerifier
import DiscCleaner.Cert.Certificate
import DiscCleaner.Cert.CertFile
import DiscCleaner.Io.Engine
import DiscCleaner.Io.SyncEngine
import DiscCleaner.Io.DrainPoint
import DiscCleaner.Core.Fsm
import DiscCleaner.Cli.Session
import DiscCleaner.Cli.Execute
import DiscCleaner.Cli.Resume
import DiscCleaner.Cli.Reconstruct
import DiscCleaner.Cli.Phase
import DiscCleaner.Cli.SessionRules
import DiscCleaner.Cli.CommandRules
import DiscCleaner.Cli.Epochs
import DiscCleaner.Cli.ResumePlan
import DiscCleaner.Cli.FailedMedia
import DiscCleaner.Io.PassContent
import DiscCleaner.Io.ReadBack
import DiscCleaner.Cert.Keyring
import DiscCleaner.Io.CompletionTracker
import DiscCleaner.Io.ZeroFastPath
import DiscCleaner.Lib.Peeling
import DiscCleaner.Photon.Lt
import DiscCleaner.Photon.Ripple
import DiscCleaner.Photon.Fountain
import DiscCleaner.Photon.Frame
import DiscCleaner.Photon.Qr
import DiscCleaner.Photon.QrLayout
import DiscCleaner.Photon.QrReader
import DiscCleaner.Scsi.Completion
import DiscCleaner.Cli.Purge
import DiscCleaner.Lib.Dialogue
import DiscCleaner.Ata.Codec
import DiscCleaner.Ata.Geometry
import DiscCleaner.Ata.HiddenCapacity
import DiscCleaner.Ata.Purge
import DiscCleaner.Ata.Lifeline
import DiscCleaner.Lib.Ladder
import DiscCleaner.Nvme.Purge
import DiscCleaner.Nvme.Evidence
import DiscCleaner.Ata.Evidence
import DiscCleaner.Lib.Transition
import DiscCleaner.Mesh.Gossip
import DiscCleaner.Mesh.Consensus
import DiscCleaner.Mesh.Decision
import DiscCleaner.Mesh.Agreement
import DiscCleaner.Mesh.RogueOrder
import DiscCleaner.Lib.CoeffPoly
import DiscCleaner.Mesh.Threshold
import DiscCleaner.Mesh.Signing
import DiscCleaner.Mesh.SwarmCert
import DiscCleaner.Mesh.Discovery
import DiscCleaner.Mesh.Node
import DiscCleaner.Mesh.Lifecycle
import DiscCleaner.Mesh.Amid
import DiscCleaner.Mesh.Witness
import DiscCleaner.Mesh.Members
import DiscCleaner.Mesh.Frame
import DiscCleaner.Lib.Redc
import DiscCleaner.Mesh.Inbox
import DiscCleaner.Vdf.BigUint
import DiscCleaner.Vdf.Montgomery
import DiscCleaner.Vdf.Wesolowski
import DiscCleaner.Vdf.Weave
import DiscCleaner.Vdf.Timeline
import DiscCleaner.Vdf.Woven
import DiscCleaner.Core.FsmRuns
import DiscCleaner.Fhe.Poly
import DiscCleaner.Fhe.Rlwe
import DiscCleaner.Fhe.Zkp
import DiscCleaner.Lib.BitPack
import DiscCleaner.Lib.Negacyclic
import DiscCleaner.Pq.Ring
import DiscCleaner.Pq.Encoding
import DiscCleaner.Pq.Sampling
import DiscCleaner.Pq.Sign
import DiscCleaner.Pq.Hostile
import DiscCleaner.Lib.Primality
import DiscCleaner.Zk.Field
import DiscCleaner.Zk.R1cs
import DiscCleaner.Zk.Poly
import DiscCleaner.Zk.Groth16
import DiscCleaner.Zk.Completeness
import DiscCleaner.Zk.Soundness
import DiscCleaner.Zk.Synth
import DiscCleaner.Zk.Poseidon
import DiscCleaner.Zk.Bits
import DiscCleaner.Zk.Circuit
import DiscCleaner.Zk.Receipt
import DiscCleaner.Lib.Checked
import DiscCleaner.Fhe.Fits
import DiscCleaner.Fhe.Replay
import DiscCleaner.Fhe.Certificate
import DiscCleaner.Cxl.Mailbox
import DiscCleaner.Cxl.Sanitize
import DiscCleaner.Iscsi.Bhs
import DiscCleaner.Iscsi.Exchange
import DiscCleaner.Iscsi.Login
import DiscCleaner.Iscsi.InStep
import DiscCleaner.Baremetal.ChaCha
import DiscCleaner.Lib.Slices
import DiscCleaner.Baremetal.Ahci
import DiscCleaner.Baremetal.WipeSata
import DiscCleaner.Fpga.Board
import DiscCleaner.Fpga.Machine
import DiscCleaner.Fpga.Boots
import DiscCleaner.Fpga.Completion
import DiscCleaner.Lib.ByteReader
import DiscCleaner.Tpm.Wire
import DiscCleaner.Tpm.Seal
import DiscCleaner.Tpm.SealHandles
import DiscCleaner.Pq.Transform
import DiscCleaner.Core.Identity
import DiscCleaner.Fhe.Product
import DiscCleaner.Nvme.Fabrics
import DiscCleaner.Nvme.Target
import DiscCleaner.Fhe.Validated
import DiscCleaner.Io.EngineBuffer
import DiscCleaner.Tpm.Attest
import DiscCleaner.Tpm.Framing
import DiscCleaner.Fhe.Classes
import DiscCleaner.Fhe.Verifiers
import DiscCleaner.Fhe.Prover
import DiscCleaner.Fhe.Agreement
import DiscCleaner.Fhe.Forget
import DiscCleaner.Vdf.Primality
import DiscCleaner.Lib.WordRows
import DiscCleaner.Vdf.Cios
import DiscCleaner.Vdf.Ceremony
import DiscCleaner.Lib.Sponge
import DiscCleaner.Pq.Keccak
import DiscCleaner.Cxl.Dvsec
import DiscCleaner.Cxl.MediaSample
import DiscCleaner.Ata.ColdBus
import DiscCleaner.Mesh.Accusations
import DiscCleaner.Mesh.Roots
import DiscCleaner.Mesh.Base64
import DiscCleaner.Resurrect.Mailbox
import DiscCleaner.Resurrect.Download
import DiscCleaner.Resurrect.RoundTrip
import DiscCleaner.Cert.Apdu
import DiscCleaner.Cert.EcdsaDer
import DiscCleaner.Photon.FrameCodec
import DiscCleaner.Photon.SplitMix
import DiscCleaner.Probe.BlockGraph
import DiscCleaner.Fleet.Reconstruct
import DiscCleaner.Mesh.Membership
import DiscCleaner.Photon.QrParity
import DiscCleaner.Cert.StrictScan
import DiscCleaner.Tpm.Synth
import DiscCleaner.Tpm.SynthSeal
import DiscCleaner.Tpm.SynthRuns
import DiscCleaner.Tpm.Capture
import DiscCleaner.Tpm.Attestor
