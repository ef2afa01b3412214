import Ipxe.Model.X509Validate

/-!
# Cryptographic Message Syntax

`crypto/cms.c`.  Verification of CMS signatures.  Left out: how a message is parsed.
-/

namespace Ipxe.Model

/-- CMS signer information: the chain starts with the signer's certificate.
[include/ipxe/cms.h:21-37] -/
structure CmsSignerInfo where
  chain : List CertId
  chain_ne : chain ≠ []
  digest : DigestAlgorithm
  pubkey : PubkeyAlgorithm
  signature : Bytes

def CmsSignerInfo.first (info : CmsSignerInfo) : CertId := info.chain.head info.chain_ne

/-- See include/ipxe/cms.h:39-47 -/
structure CmsSignature where
  certificates : List CertId
  info : List CmsSignerInfo

/-! ## Verification -/

/-- The loop that feeds data to a digest one block at a time, for at most so many
blocks. -/
def cmsDigestUpTo (ops : DigestOps) : ℕ → ops.Ctx → Bytes → ops.Ctx
  | 0, ctx, _ => ctx
  | turns + 1, ctx, data =>
    if data = [] then ctx
    else
      cmsDigestUpTo ops turns (ops.update ctx (data.take ops.blocksize)) (data.drop ops.blocksize)

/-- Calculate digest of CMS-signed data.  Every turn of the loop takes at least one byte.
[542-567] -/
def cmsDigest (ops : DigestOps) (data : Bytes) : Bytes :=
  ops.final (cmsDigestUpTo ops data.length ops.init data)

/-- Verify digest of CMS-signed data.
[579-615] -/
def cmsVerifyDigest (crypto : Crypto) (info : CmsSignerInfo) (cert : X509Certificate)
    (data : Bytes) : Except Errno Unit :=
  crypto.verify info.pubkey cert.subject.publicKey.raw info.digest
    (cmsDigest (crypto.digest info.digest) data) info.signature

section

variable (world : X509World) (socket : SocketEnv) (data : Bytes) (time : ℤ)
  (store : List CertId) (root : Option RootId)

/-- Verify CMS signature signer information; `links` is what can be allocated to complete
the chain, which is returned as it is left behind.
[628-667] -/
def cmsVerifySignerInfo (state : X509State) (info : CmsSignerInfo) (links : ℕ) :
    (Except Errno Unit × X509State) × CmsSignerInfo :=
  let validated := x509ValidateChain world state info.chain time store root links
  let info := { info with
    chain := validated.2
    chain_ne := (x509ValidateChain_extends world state info.chain time store root links).ne_nil
      info.chain_ne }
  match validated.1 with
  | (.error rc, state) => ((.error rc, state), info)
  | (.ok (), state) =>
    let cert := world.cert info.first
    if cert.extensions.usage.bits &&& x509DigitalSignature = 0 then
      ((.error .eaccesNonSigning, state), info)
    else if cert.extensions.extUsage &&& x509CodeSigning = 0 then
      ((.error .eaccesNonCodeSigning, state), info)
    else ((cmsVerifyDigest world.crypto info cert data, state), info)

/-- Whether a signer counts, if a name is required. -/
def cmsConsidered (name : Option CString) (info : CmsSignerInfo) : Bool :=
  match name with
  | none => true
  | some name => x509CheckName socket (world.cert info.first) name = .ok ()

/-- The loop of `cms_verify`: `count` signers have been verified so far; `links` is what
can be allocated for each. -/
def cmsVerifyLoop (name : Option CString) (links : ℕ → ℕ) :
    ℕ → X509State → List CmsSignerInfo → (Except Errno ℕ × X509State) × List CmsSignerInfo
  | count, state, [] => ((.ok count, state), [])
  | count, state, info :: infos =>
    if !cmsConsidered world socket name info then
      let rest := cmsVerifyLoop name links count state infos
      (rest.1, info :: rest.2)
    else
      match cmsVerifySignerInfo world data time store root state info (links count) with
      | ((.error rc, state), info) => ((.error rc, state), info :: infos)
      | ((.ok (), state), info) =>
        let rest := cmsVerifyLoop name links (count + 1) state infos
        (rest.1, info :: rest.2)

/-- Verify CMS signature.
[681-713] -/
def cmsVerify (sig : CmsSignature) (name : Option CString) (state : X509State) (links : ℕ → ℕ) :
    (Except Errno Unit × X509State) × CmsSignature :=
  match cmsVerifyLoop world socket data time store root name links 0 state sig.info with
  | ((.error rc, state), info) => ((.error rc, state), { sig with info })
  | ((.ok count, state), info) =>
    if count = 0 then
      ((.error (if name.isSome then .eaccesSignerName else .eaccesNoSignatures), state),
        { sig with info })
    else ((.ok (), state), { sig with info })

end

end Ipxe.Model
