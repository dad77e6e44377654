import EirnKcp.ProofCodec

/-!
# KCP-Lite on generated keys

The verifier recognises the profile from the key's length and returns on every
input. The prover's commitment, signature and anchor pass each of its checks
when the signature scheme is correct and neither digests nor signatures vanish.
-/

set_option autoImplicit false

namespace EirnKcp.LiteProof
open EirnKcp.CheckedCode EirnKcp.ByteCodec EirnKcp.Params EirnKcp.Primitives
open EirnKcp.LatticeZk EirnKcp.Kem EirnKcp.KeyLaws EirnKcp.Zk EirnKcp.ProofCodec

def sigPart (params : EirnParams) (pk : Bytes) : Bytes :=
  (pk.drop params.kemPkBytes).take params.sigPkBytes

section Verifier
variable (L : Suite) (params : EirnParams) (pk ctx : Bytes)

theorem paramsFromLen_some (len : ℕ) (h : paramsFromPublicKeyLen len = some params) :
    IsSupportedParams params ∧ len = params.pkBytes := by
  unfold paramsFromPublicKeyLen at h
  split_ifs at h with h768 h1024
  · cases h
    exact ⟨supported768, h768⟩
  · cases h
    exact ⟨supported1024, h1024⟩

theorem paramsFromLen_eq (hs : IsSupportedParams params) :
    paramsFromPublicKeyLen params.pkBytes = some params := by
  rcases hs with rfl | rfl
  · rfl
  · rfl

theorem verifyingKeyBytes_eq (hs : IsSupportedParams params) (hl : pk.length = params.pkBytes) :
    verifyingKeyBytes pk params = .ok (sigPart params pk) := by
  have hc := (supported_consistent params hs).pkBytes
  rw [verifyingKeyBytes, if_neg (not_not_intro hl), keys_usize hs, ok_bind,
    slice_ok _ _ _ (by omega) (by omega), Nat.add_sub_cancel_left]
  rfl

theorem liteVerify_eq (hs : IsSupportedParams params) (hl : pk.length = params.pkBytes)
    (proof : KcpLiteProof) :
    kcpLiteVerify L pk ctx proof =
      .ok (liteChecks L params (sigPart params pk) pk ctx proof) := by
  simp only [kcpLiteVerify, hl, paramsFromLen_eq params hs, verifyingKeyBytes_eq params pk hs hl]

theorem liteVerify_ok (proof : KcpLiteProof) :
    ∃ accepted, kcpLiteVerify L pk ctx proof = .ok accepted := by
  cases h : paramsFromPublicKeyLen pk.length with
  | none => exact ⟨false, by simp only [kcpLiteVerify, h]⟩
  | some params =>
    obtain ⟨hs, hl⟩ := paramsFromLen_some params _ h
    exact ⟨_, liteVerify_eq L params pk ctx hs hl proof⟩

end Verifier

section HonestProver
variable {L : Suite} {params : EirnParams} {pk : PublicKey} {sk : SecretKey}

def liteProofOf (L : Suite) (arms : Arms L params) (sk : SecretKey) (ctx : Bytes) :
    KcpLiteProof :=
  let commitment := L.sha3_256 (sigPart params sk.pkData)
  let response := (arms.dsa.sign sk.sigSeed (proofMessage commitment sk.pkData ctx)).1
  ⟨commitment, response, proofAnchor L commitment response ctx⟩

theorem liteProve_eq (g : Generated L params pk sk) (arms : Arms L params) (ctx : Bytes) :
    kcpLiteProveForKey L sk pk ctx = .ok (liteProofOf L arms sk ctx) := by
  have hself : ctEq sk.pkData pk.data = true := (ctEq_iff _ _).mpr g.secretData
  rw [kcpLiteProveForKey, if_neg (not_not_intro g.matches_own), kcpLiteProve,
    if_neg (not_not_intro hself), g.secretParams, liteProofOf, g.secretData]
  simp only [verifyingKeyBytes_eq params pk.data g.supported g.length,
    arms.sign_eq sk _ g.secretParams, ok_bind, pure_ok]

theorem liteProofOf_valid (arms : Arms L params) (sk : SecretKey) (ctx : Bytes)
    (hp : L.SignaturesParse) :
    signatureParses L params (liteProofOf L arms sk ctx).response = true := by
  have hl := (arms.dsa.sign sk.sigSeed
    (proofMessage (L.sha3_256 (sigPart params sk.pkData)) sk.pkData ctx)).2
  rw [arms.signatureParses_eq, parsesOn, liteProofOf, dif_pos hl]
  exact arms.signaturesParse hp _ _

theorem verifySignature_signed {vkSize sigSize : ℕ} (D : MlDsa vkSize sigSize)
    (hp : D.SignaturesParse) (hd : D.Correct) (seed : FixedBytes 32) (message : Bytes)
    (commitment anchor : FixedBytes 32) (params : EirnParams) :
    verifySignatureWith D (D.verifyingKey seed).1 message
      ⟨commitment, (D.sign seed message).1, anchor⟩ params = true := by
  rw [verifySignatureWith, parseVerifyingKeyWith, dif_pos (D.verifyingKey seed).2,
    parseSignatureWith, dif_pos (D.sign seed message).2, if_pos (hp seed message)]
  exact hd seed message

theorem liteProofOf_accepted (g : Generated L params pk sk) (arms : Arms L params) (ctx : Bytes)
    (hp : L.SignaturesParse) (hd : L.DsaCorrect) (hn : L.SignaturesNonZero)
    (hcommitment : (liteProofOf L arms sk ctx).commitment ≠ zeros 32)
    (hanchor : (liteProofOf L arms sk ctx).anchor ≠ zeros 32) :
    kcpLiteVerify L pk.data ctx (liteProofOf L arms sk ctx) = .ok true := by
  have hvk : sigPart params pk.data = (arms.dsa.verifyingKey sk.sigSeed).1 := by
    rw [← arms.vkBytes_eq]
    exact g.sigPart
  rw [liteProofOf, g.secretData, hvk] at hcommitment hanchor
  rw [liteVerify_eq L params _ _ g.supported g.length, liteChecks, arms.verifySignature_eq, hvk,
    liteProofOf, g.secretData, hvk]
  dsimp only at hcommitment hanchor ⊢
  rw [verifySignature_signed arms.dsa (arms.signaturesParse hp) (arms.dsaCorrect hd),
    arms.nonZero hn]
  simp [hcommitment, hanchor, (arms.dsa.sign _ _).2]

end HonestProver

end EirnKcp.LiteProof
