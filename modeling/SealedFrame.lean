import SealedFrame.Aes.Standard
import SealedFrame.Derivation
import SealedFrame.Hmac.Standard
import SealedFrame.Proofs.Envelope.Canonicity
import SealedFrame.Proofs.Envelope.RoundTrip
import SealedFrame.Proofs.Sha256.History
import SealedFrame.Proofs.Envelope.Decision
import SealedFrame.Proofs.Hmac.History
import SealedFrame.Proofs.Aes.Cipher
import SealedFrame.Proofs.Sha256.Collision
import SealedFrame.Proofs.Ccm.Separation
import SealedFrame.Proofs.Ccm.Unambiguity
import SealedFrame.Proofs.Envelope.Separation
import SealedFrame.Proofs.Hex
import SealedFrame.Proofs.BufferFrame
import SealedFrame.Proofs.Aes.Inverse
import SealedFrame.Proofs.Ccm.Sensitivity
import SealedFrame.Proofs.Envelope.Owned
import SealedFrame.Proofs.Envelope.Reporting
import SealedFrame.Proofs.Envelope.Masking
import SealedFrame.Proofs.Ccm.Decision
import SealedFrame.Proofs.Envelope.Atomicity
import SealedFrame.Proofs.Hex.Grammar
import SealedFrame.Proofs.Derivation
import SealedFrame.Proofs.Hex.Inverse
import SealedFrame.Proofs.Envelope.OwnedReports
import SealedFrame.Proofs.Envelope.Routing
import SealedFrame.Aes.Strict
import SealedFrame.Proofs.Aes.KeySchedule
import SealedFrame.BlockStream.Strict
import SealedFrame.Ccm.Strict
import SealedFrame.Envelope.Strict
import SealedFrame.Hmac.Strict
import SealedFrame.Proofs.Aes.Strictness
import SealedFrame.Proofs.BlockStream.Strictness
import SealedFrame.Proofs.Ccm.Strictness
import SealedFrame.Proofs.Envelope.Strictness
import SealedFrame.Proofs.Hmac.Strictness
import SealedFrame.Proofs.Strictness
