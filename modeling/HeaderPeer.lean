import HeaderPeer.Main
import HeaderPeer.Word256.Json
import HeaderPeer.Proofs.Frame.Parse
import HeaderPeer.Proofs.Merkle.RepeatedTail
import HeaderPeer.Proofs.Frame.Chunks
import HeaderPeer.Proofs.HeaderTree.Ancestor
import HeaderPeer.Proofs.Admission.Checkpoints
import HeaderPeer.Proofs.Wire.Put
import HeaderPeer.Proofs.Wire.RoundTrip
import HeaderPeer.Proofs.Message.Representable
import HeaderPeer.Proofs.Tx.RoundTrip
import HeaderPeer.Proofs.Message.RoundTrip
import HeaderPeer.Proofs.Admission.Outcome
import HeaderPeer.Proofs.Frame.Conservation
import HeaderPeer.Proofs.Frame.Progress
import HeaderPeer.Proofs.Message.Size
import HeaderPeer.Proofs.Text.Ascii
import HeaderPeer.Proofs.Frame.Resync
import HeaderPeer.Proofs.Admission.Survival
import HeaderPeer.Proofs.Admission.Best
import HeaderPeer.Proofs.Frame.Follow
import HeaderPeer.Proofs.Connection.Answer
import HeaderPeer.Proofs.Node.Conversation
import HeaderPeer.Proofs.Connection.Handshake
import HeaderPeer.Proofs.Admission.Sequence
import HeaderPeer.Proofs.Handler.Handshake
import HeaderPeer.Proofs.HeaderTree.Entry
import HeaderPeer.Proofs.Admission.AnyOrder
import HeaderPeer.Proofs.Admission.IntakeOrder
import HeaderPeer.Proofs.Admission.Boundaries
import HeaderPeer.Proofs.Admission.Resubmission
import HeaderPeer.Proofs.Admission.Shift
import HeaderPeer.Proofs.Node.Capture
import HeaderPeer.Proofs.Node.Replay
import HeaderPeer.Proofs.Rule.Checks
import HeaderPeer.Proofs.Rule.Tx
import HeaderPeer.Proofs.Rule.Outputs
import HeaderPeer.Proofs.Rule.TxFaults
import HeaderPeer.Proofs.Rule.Access
import HeaderPeer.Proofs.Rule.Block
import HeaderPeer.Proofs.Merkle.Levels
import HeaderPeer.Proofs.Merkle.Binding
import HeaderPeer.Proofs.Wire.SelfDelimiting
import HeaderPeer.Proofs.Tx.Marker
import HeaderPeer.Proofs.Message.Announcement
import HeaderPeer.Proofs.Message.WireType
import HeaderPeer.Proofs.Message.Truncation
import HeaderPeer.Proofs.Word256.Compact
import HeaderPeer.Proofs.Word256.Limbs
import HeaderPeer.Proofs.Rule.Work
import HeaderPeer.Proofs.HeaderTree.Locator
import HeaderPeer.Proofs.Rule.Witness
import HeaderPeer.Proofs.Wire.Length
import HeaderPeer.Proofs.Block.Size
import HeaderPeer.Proofs.Block.Preimage
import HeaderPeer.Proofs.Wire.Consumes
import HeaderPeer.Proofs.Message.Load
import HeaderPeer.Proofs.Merkle.Walk
import HeaderPeer.Proofs.HeaderTree.ByHeight
import HeaderPeer.Proofs.Text.Hex
import HeaderPeer.Proofs.Word256.Text
import HeaderPeer.Proofs.Settings.File
import HeaderPeer.Proofs.Wire.VarInt
import HeaderPeer.Proofs.Message.Appends
