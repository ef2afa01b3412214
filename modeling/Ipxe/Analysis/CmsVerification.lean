import Ipxe.Interface.CodeSignature
import Ipxe.Library.Schedules

/-!
# CMS signatures

`cms_verify` succeeds exactly when some signer counts and every signer that counts has
been verified (`cmsVerify_ok_iff`).
-/

namespace Ipxe.Analysis

open Library Model Interface List

theorem cmsDigestUpTo_eq (ops : DigestOps) {turns : ℕ} {data : Bytes}
    (hlen : data.length ≤ turns) (ctx : ops.Ctx) :
    cmsDigestUpTo ops turns ctx data = ops.update ctx data := by
  induction turns generalizing data ctx with
  | zero =>
    have hnil : data = [] := length_eq_zero_iff.1 (Nat.le_zero.1 hlen)
    rw [hnil, cmsDigestUpTo, ops.update_nil]
  | succ turns ih =>
    rw [cmsDigestUpTo]
    split_ifs with hnil
    · rw [hnil, ops.update_nil]
    · have hpos := ops.blocksize_pos
      rw [ih (by rw [length_drop]; omega), ops.update_append, take_append_drop]

theorem cmsDigest_eq (ops : DigestOps) (data : Bytes) : cmsDigest ops data = ops.hash data := by
  rw [cmsDigest, DigestOps.hash, cmsDigestUpTo_eq ops le_rfl]

variable {world : X509World} {socket : SocketEnv} {data : Bytes} {time : ℤ}
  {store : List CertId} {root : Option RootId}

/-- **One signer.**  Completing the chain does not change its first certificate. -/
theorem cmsVerifySignerInfo_eq (state : X509State) (info : CmsSignerInfo) (links : ℕ) :
    (cmsVerifySignerInfo world data time store root state info links).1.2 =
        (x509ValidateChain world state info.chain time store root links).1.2 ∧
      ((cmsVerifySignerInfo world data time store root state info links).1.1 = .ok () ↔
        SignerVerified world data time store root state links info) := by
  have hfirst : info.first = (x509ValidateChain world state info.chain time store root links).2.head
      _ := (x509ValidateChain_extends world state info.chain time store root links).head info.chain_ne
  simp only [cmsVerifySignerInfo, CmsSignerInfo.first, ← hfirst]
  split
  · next rc state' hvalidated =>
      refine ⟨by rw [hvalidated], nofun, fun hverified => ?_⟩
      have hchain := hverified.chain
      rw [hvalidated] at hchain
      cases hchain
  · next state' hvalidated =>
      have hchain : (x509ValidateChain world state info.chain time store root links).1.1 = .ok () := by
        rw [hvalidated]
      rw [hvalidated]
      split_ifs with hsigns hcode
      · exact ⟨rfl, nofun, fun hverified => absurd hsigns hverified.signs⟩
      · exact ⟨rfl, nofun, fun hverified => absurd hcode hverified.signsCode⟩
      · refine ⟨rfl, fun hsignature => ⟨hchain, hsigns, hcode, ?_⟩, fun hverified => ?_⟩
        · rw [← cmsDigest_eq]
          exact hsignature
        · have hsignature := hverified.signature
          rw [← cmsDigest_eq] at hsignature
          exact hsignature

theorem cmsVerifyLoop_ok_iff (name : Option CString) (links : ℕ → ℕ) (infos : List CmsSignerInfo)
    (count total : ℕ) (state : X509State) :
    (cmsVerifyLoop world socket data time store root name links count state infos).1.1 = .ok total ↔
      total = count + (infos.filter (cmsConsidered world socket name)).length ∧
        ∀ before info after,
          infos.filter (cmsConsidered world socket name) = before ++ info :: after →
          SignerVerified world data time store root
            (validatedChains world time store root (fun n => links (count + n)) state before)
            (links (count + before.length)) info := by
  induction infos generalizing count state with
  | nil => simp [cmsVerifyLoop, eq_comm]
  | cons info infos ih =>
    by_cases hconsidered : cmsConsidered world socket name info = true
    · have hsigner := @cmsVerifySignerInfo_eq world data time store root state info (links count)
      rw [filter_cons_of_pos hconsidered, forall_splits_cons, cmsVerifyLoop,
        if_neg (by simp [hconsidered])]
      match hresult : cmsVerifySignerInfo world data time store root state info (links count) with
      | ((.error rc, state'), info') =>
        rw [hresult] at hsigner
        have hnot := mt hsigner.2.2 nofun
        exact ⟨nofun, fun h => absurd h.2.1 hnot⟩
      | ((.ok (), state'), info') =>
        rw [hresult] at hsigner
        obtain ⟨hstate, hverified⟩ := hsigner
        simp only [ih (count + 1) state', validatedChains, length_cons, length_nil,
          add_zero, hverified.1 rfl, true_and, ← hstate, add_assoc, add_comm 1]
    · rw [filter_cons_of_neg hconsidered, ← ih count state, cmsVerifyLoop,
        if_pos (by simp [hconsidered])]

theorem consideredSigners_eq (name : Option CString) (sig : CmsSignature) :
    consideredSigners world socket name sig = sig.info.filter (cmsConsidered world socket name) := by
  cases name <;> rfl

/-- **A message is accepted exactly when some signer counts and every signer
that counts has been verified**, each in the state that those before it have left.
[crypto/cms.c:579-713] -/
theorem cmsVerify_ok_iff (world : X509World) (socket : SocketEnv) (data : Bytes) (time : ℤ)
    (store : List CertId) (root : Option RootId) (sig : CmsSignature) (name : Option CString)
    (state : X509State) (links : ℕ → ℕ) :
    (cmsVerify world socket data time store root sig name state links).1.1 = .ok () ↔
      consideredSigners world socket name sig ≠ [] ∧
        ∀ before info after,
          consideredSigners world socket name sig = before ++ info :: after →
          SignerVerified world data time store root
            (validatedChains world time store root links state before) (links before.length)
            info := by
  have hloop := fun total => @cmsVerifyLoop_ok_iff world socket data time store root name links
    sig.info 0 total state
  simp only [← consideredSigners_eq, zero_add] at hloop
  unfold cmsVerify
  split
  · next rc state' info hresult =>
      refine ⟨nofun, fun h => ?_⟩
      have hok := (hloop _).2 ⟨rfl, h.2⟩
      rw [hresult] at hok
      cases hok
  · next count state' info hresult =>
      obtain ⟨rfl, hverified⟩ := (hloop count).1 (by rw [hresult])
      split_ifs with hnone
      · exact ⟨nofun, fun h => absurd (length_eq_zero_iff.1 hnone) h.1⟩
      · exact ⟨fun _ => ⟨fun hnil => hnone (by rw [hnil]; rfl), hverified⟩, fun _ => rfl⟩

end Ipxe.Analysis
