import Ipxe.Model.Cms

/-!
# When a CMS message signs an image

Signers are looked at one after another.  A chain validates, or not, in the state that the chains of
the signers before it have left.
-/

namespace Ipxe.Interface

open Model

section

variable (world : X509World) (socket : SocketEnv) (data : Bytes) (time : ℤ)
  (store : List CertId) (root : Option RootId)

/-- The signers that count: all, or those whose certificate has the required name. -/
def consideredSigners (name : Option CString) (sig : CmsSignature) : List CmsSignerInfo :=
  sig.info.filter fun info =>
    name.all fun name => decide (x509CheckName socket (world.cert info.first) name = .ok ())

/-- What is left behind when the chains of some signers have been validated, each with so
many links to complete it. -/
def validatedChains (links : ℕ → ℕ) (state : X509State) : List CmsSignerInfo → X509State
  | [] => state
  | info :: infos =>
    let validated := x509ValidateChain world state info.chain time store root (links 0)
    validatedChains (fun n => links (n + 1)) validated.1.2 infos

/-- One signer has signed the data, and may do so. -/
structure SignerVerified (state : X509State) (links : ℕ) (info : CmsSignerInfo) : Prop where
  chain : (x509ValidateChain world state info.chain time store root links).1.1 = .ok ()
  signs : (world.cert info.first).extensions.usage.bits &&& x509DigitalSignature ≠ 0
  signsCode : (world.cert info.first).extensions.extUsage &&& x509CodeSigning ≠ 0
  signature : world.crypto.verify info.pubkey (world.cert info.first).subject.publicKey.raw
    info.digest ((world.crypto.digest info.digest).hash data) info.signature = .ok ()

end

end Ipxe.Interface
