import EirnKcp.IdealSuite
import EirnKcp.LiteProof

/-!
# What a KCP-Lite proof binds

The signed message concatenates a key and a context without lengths. The
commitment fixes the verifying key and with it the profile, so the key's length
is known and no byte moves between the two. For one key and context the checks
leave a single proof value.
-/

set_option autoImplicit false

namespace EirnKcp.LiteBinding
open EirnKcp.CheckedCode EirnKcp.ByteCodec EirnKcp.Params EirnKcp.Primitives
open EirnKcp.Kem EirnKcp.KeyLaws EirnKcp.Zk EirnKcp.LiteProof EirnKcp.IdealSuite

theorem supported_eq_of_sigPkBytes (p r : EirnParams) (hp : IsSupportedParams p)
    (hr : IsSupportedParams r) (h : p.sigPkBytes = r.sigPkBytes) : p = r := by
  rcases hp with rfl | rfl <;> rcases hr with rfl | rfl <;>
    first | rfl | simp [params768, params1024] at h

theorem sigPart_length (params : EirnParams) (hs : IsSupportedParams params) (pk : Bytes)
    (hl : pk.length = params.pkBytes) : (sigPart params pk).length = params.sigPkBytes := by
  have hc := (supported_consistent params hs).pkBytes
  rw [sigPart, List.length_take, List.length_drop]
  omega

theorem liteChecks_iff (L : Suite) (params : EirnParams) (vk pk ctx : Bytes)
    (proof : KcpLiteProof) :
    liteChecks L params vk pk ctx proof = true ↔
      proof.commitment = L.sha3_256 vk ∧ proof.response.length = params.sigBytes ∧
        verifySignature L vk (proofMessage proof.commitment pk ctx) proof params = true ∧
        proof.anchor = proofAnchor L proof.commitment proof.response ctx ∧
        proof.commitment ≠ zeros 32 ∧ proof.anchor ≠ zeros 32 ∧
        proof.response.any (fun b => b != 0) = true := by
  simp only [liteChecks, Bool.and_eq_true, ctEq_iff, decide_eq_true_iff, Subtype.val_inj,
    and_assoc]

theorem liteVerify_true_iff (L : Suite) (pk ctx : Bytes) (proof : KcpLiteProof) :
    kcpLiteVerify L pk ctx proof = .ok true ↔
      ∃ params, IsSupportedParams params ∧ pk.length = params.pkBytes ∧
        liteChecks L params (sigPart params pk) pk ctx proof = true := by
  constructor
  · intro h
    cases hp : paramsFromPublicKeyLen pk.length with
    | none =>
      rw [kcpLiteVerify, hp] at h
      cases h
    | some params =>
      obtain ⟨hs, hl⟩ := paramsFromLen_some params _ hp
      rw [liteVerify_eq L params pk ctx hs hl proof] at h
      exact ⟨params, hs, hl, Except.ok.inj h⟩
  · rintro ⟨params, hs, hl, h⟩
    rw [liteVerify_eq L params pk ctx hs hl proof, h]

theorem verifySignatureWith_iff {vkSize sigSize : ℕ} (D : MlDsa vkSize sigSize)
    (hp : D.SignaturesParse) (he : D.Exact) (seed : FixedBytes 32) (message : Bytes)
    (proof : KcpLiteProof) (params : EirnParams) :
    verifySignatureWith D (D.verifyingKey seed).1 message proof params = true ↔
      (D.sign seed message).1 = proof.response := by
  rw [verifySignatureWith, parseVerifyingKeyWith, dif_pos (D.verifyingKey seed).2,
    parseSignatureWith]
  by_cases hl : proof.response.length = sigSize
  · rw [dif_pos hl]
    by_cases hparse : D.parses ⟨proof.response, hl⟩ = true
    · rw [if_pos hparse]
      dsimp only
      rw [he seed message, Subtype.ext_iff]
      exact eq_comm
    · rw [if_neg hparse]
      constructor
      · intro h
        cases h
      · intro h
        rw [← show D.sign seed message = ⟨proof.response, hl⟩ from Subtype.ext h] at hparse
        exact absurd (hp seed message) hparse
  · rw [dif_neg hl]
    constructor
    · intro h
      cases h
    · intro h
      rw [← h] at hl
      exact absurd (D.sign seed message).2 hl

section Signatures
variable {L : Suite} {params : EirnParams} {pk : PublicKey} {sk : SecretKey}

theorem verifySignature_iff (g : Generated L params pk sk) (hp : L.SignaturesParse)
    (he : L.DsaExact) (message : Bytes) (proof : KcpLiteProof) :
    verifySignature L (sigPart params pk.data) message proof params = true ↔
      sk.signProofMessage L message = .ok proof.response := by
  have hvk : sigPart params pk.data = vkBytes L params sk.sigSeed := g.sigPart
  rw [hvk, vkBytes, verifySignature, SecretKey.signProofMessage, g.secretParams]
  rcases g.supported with rfl | rfl
  · rw [dispatch768, dispatch768, dispatch768, Except.ok.injEq]
    exact verifySignatureWith_iff _ hp.mlDsa65 he.mlDsa65 _ _ _ _
  · rw [dispatch1024, dispatch1024, dispatch1024, Except.ok.injEq]
    exact verifySignatureWith_iff _ hp.mlDsa87 he.mlDsa87 _ _ _ _

theorem sign_injOn (g : Generated L params pk sk) (he : L.DsaExact) (messages : Set Bytes)
    (ho : L.OneMessage messages) : Set.InjOn (sk.signProofMessage L) messages := by
  intro m hm m' hm' h
  simp only [SecretKey.signProofMessage, g.secretParams] at h
  rcases g.supported with rfl | rfl
  · rw [dispatch768, dispatch768, Except.ok.injEq, Subtype.val_inj] at h
    exact ho.mlDsa65 _ _ ⟨hm, (he.mlDsa65 _ _ _).mpr rfl⟩ ⟨hm', (he.mlDsa65 _ _ _).mpr h⟩
  · rw [dispatch1024, dispatch1024, Except.ok.injEq, Subtype.val_inj] at h
    exact ho.mlDsa87 _ _ ⟨hm, (he.mlDsa87 _ _ _).mpr rfl⟩ ⟨hm', (he.mlDsa87 _ _ _).mpr h⟩

theorem sign_nonZero (g : Generated L params pk sk) (hz : L.SignaturesNonZero)
    (message response : Bytes) (h : sk.signProofMessage L message = .ok response) :
    response.length = params.sigBytes ∧ response.any (fun b => b != 0) = true := by
  simp only [SecretKey.signProofMessage, g.secretParams] at h
  rcases g.supported with rfl | rfl
  · rw [dispatch768] at h
    cases h
    exact ⟨(L.mlDsa65.sign sk.sigSeed message).2, hz.mlDsa65 _ _⟩
  · rw [dispatch1024] at h
    cases h
    exact ⟨(L.mlDsa87.sign sk.sigSeed message).2, hz.mlDsa87 _ _⟩

structure HonestFields (L : Suite) (params : EirnParams) (sk : SecretKey) (pk ctx : Bytes)
    (proof : KcpLiteProof) : Prop where
  commitment : proof.commitment = L.sha3_256 (sigPart params pk)
  response : sk.signProofMessage L (proofMessage proof.commitment pk ctx) = .ok proof.response
  anchor : proof.anchor = proofAnchor L proof.commitment proof.response ctx

theorem honestFields_unique (ctx : Bytes) (p r : KcpLiteProof)
    (hp : HonestFields L params sk pk.data ctx p) (hr : HonestFields L params sk pk.data ctx r) :
    p = r := by
  have hc := hp.commitment.trans hr.commitment.symm
  have hs := hp.response
  rw [hc, hr.response] at hs
  have hresponse := Except.ok.inj hs
  have ha := hp.anchor
  rw [hc, ← hresponse, ← hr.anchor] at ha
  cases p
  cases r
  simp only [KcpLiteProof.mk.injEq]
  exact ⟨hc, hresponse.symm, ha⟩

theorem liteProve_honest (g : Generated L params pk sk) (ctx : Bytes) :
    ∃ p, kcpLiteProve L sk pk.data ctx = .ok p ∧ HonestFields L params sk pk.data ctx p := by
  obtain ⟨arms⟩ := supported_arms L params g.supported
  have hprove := liteProve_eq g arms ctx
  rw [kcpLiteProveForKey, if_neg (not_not_intro g.matches_own)] at hprove
  refine ⟨_, hprove, ?_, ?_, ?_⟩
  · rw [liteProofOf, g.secretData]
  · rw [arms.sign_eq sk _ g.secretParams, liteProofOf, g.secretData]
  · rw [liteProofOf]

theorem own_accepted_iff (g : Generated L params pk sk) (hp : L.SignaturesParse)
    (he : L.DsaExact) (hn : L.SignaturesNonZero) (ctx : Bytes) (proof : KcpLiteProof) :
    kcpLiteVerify L pk.data ctx proof = .ok true ↔
      HonestFields L params sk pk.data ctx proof ∧
        proof.commitment ≠ zeros 32 ∧ proof.anchor ≠ zeros 32 := by
  rw [liteVerify_eq L params _ _ g.supported g.length, Except.ok.injEq, liteChecks_iff,
    verifySignature_iff g hp he]
  constructor
  · rintro ⟨hc, _, hs, ha, hc0, ha0, _⟩
    exact ⟨⟨hc, hs, ha⟩, hc0, ha0⟩
  · rintro ⟨h, hc0, ha0⟩
    obtain ⟨hl, hany⟩ := sign_nonZero g hn _ _ h.response
    exact ⟨h.commitment, hl, h.response, h.anchor, hc0, ha0, hany⟩

end Signatures

def hashedKeys (pk : Bytes) : Set Bytes :=
  {x | ∃ params, paramsFromPublicKeyLen pk.length = some params ∧
    verifyingKeyBytes pk params = .ok x}

/-- What SHA3-256 hashes when a proof is made or checked. -/
def digestInputs (proof : KcpLiteProof) (pk ctx : Bytes) : Set Bytes :=
  hashedKeys pk ∪ {proofAnchorInput proof.commitment proof.response ctx}

theorem sigPart_hashed (params : EirnParams) (hs : IsSupportedParams params) (pk : Bytes)
    (hl : pk.length = params.pkBytes) : sigPart params pk ∈ hashedKeys pk :=
  ⟨params, by rw [hl, paramsFromLen_eq params hs], verifyingKeyBytes_eq params pk hs hl⟩

theorem hashedKeys_subsingleton (pk : Bytes) : (hashedKeys pk).Subsingleton := by
  rintro x ⟨params, hp, hx⟩ y ⟨params', hp', hy⟩
  rw [hp] at hp'
  cases hp'
  rw [hx] at hy
  exact Except.ok.inj hy

section Binding
variable {L : Suite} {params : EirnParams} {pk : PublicKey} {sk : SecretKey}

theorem accepted_elsewhere (g : Generated L params pk sk) (hp : L.SignaturesParse)
    (he : L.DsaExact) (ctx : Bytes) (p : KcpLiteProof)
    (h : HonestFields L params sk pk.data ctx p) (pk' ctx' : Bytes)
    (hsha : Set.InjOn L.sha3_256 (hashedKeys pk.data ∪ hashedKeys pk'))
    (hone : L.OneMessage {proofMessage p.commitment pk.data ctx,
      proofMessage p.commitment pk' ctx'})
    (haccept : kcpLiteVerify L pk' ctx' p = .ok true) : pk' = pk.data ∧ ctx' = ctx := by
  obtain ⟨params', hs', hl', hchecks⟩ := (liteVerify_true_iff L pk' ctx' p).mp haccept
  obtain ⟨hc', _, hsig', _⟩ := (liteChecks_iff L params' _ pk' ctx' p).mp hchecks
  have hvk : sigPart params' pk' = sigPart params pk.data :=
    hsha (Or.inr (sigPart_hashed params' hs' pk' hl'))
      (Or.inl (sigPart_hashed params g.supported pk.data g.length))
      (hc'.symm.trans h.commitment)
  have hparams : params' = params := by
    apply supported_eq_of_sigPkBytes params' params hs' g.supported
    rw [← sigPart_length params' hs' pk' hl', hvk,
      sigPart_length params g.supported pk.data g.length]
  subst hparams
  rw [hvk, verifySignature_iff g hp he] at hsig'
  have hmessage := sign_injOn g he _ hone (Or.inr rfl) (Or.inl rfl)
    (hsig'.trans h.response.symm)
  have hrest := List.append_cancel_left (List.append_cancel_left hmessage)
  exact List.append_inj hrest (by rw [hl', g.length])

end Binding

/-- A proof of a generated key is accepted for this key and context only, and
is the only proof accepted for them. -/
theorem lite_proof_binds (L : Suite) (hp : L.SignaturesParse) (he : L.DsaExact)
    (hn : L.SignaturesNonZero) (params : EirnParams) (seed : FixedBytes 96) (pk : PublicKey)
    (sk : SecretKey) (hk : keygenFromSeed L seed params = .ok (pk, sk)) (ctx : Bytes) :
    ∃ p, kcpLiteProve L sk pk.data ctx = .ok p ∧
      ((∀ x ∈ digestInputs p pk.data ctx, L.sha3_256 x ≠ zeros 32) →
        (∀ pk' ctx', Set.InjOn L.sha3_256 (hashedKeys pk.data ∪ hashedKeys pk') →
          L.OneMessage {proofMessage p.commitment pk.data ctx,
            proofMessage p.commitment pk' ctx'} →
          (kcpLiteVerify L pk' ctx' p = .ok true ↔ pk' = pk.data ∧ ctx' = ctx)) ∧
        ∀ p', kcpLiteVerify L pk.data ctx p' = .ok true ↔ p' = p) := by
  have g := generated_of_keygen L seed params pk sk hk
  obtain ⟨p, hprove, h⟩ := liteProve_honest g ctx
  refine ⟨p, hprove, fun hz => ?_⟩
  have hc0 : p.commitment ≠ zeros 32 := by
    rw [h.commitment]
    exact hz _ (Or.inl (sigPart_hashed params g.supported pk.data g.length))
  have ha0 : p.anchor ≠ zeros 32 := by
    rw [h.anchor]
    exact hz _ (Or.inr rfl)
  have hown : kcpLiteVerify L pk.data ctx p = .ok true :=
    (own_accepted_iff g hp he hn ctx p).mpr ⟨h, hc0, ha0⟩
  constructor
  · intro pk' ctx' hsha hone
    constructor
    · exact accepted_elsewhere g hp he ctx p h pk' ctx' hsha hone
    · rintro ⟨rfl, rfl⟩
      exact hown
  · intro p'
    constructor
    · intro hv
      exact honestFields_unique ctx p' p ((own_accepted_iff g hp he hn ctx p').mp hv).1 h
    · rintro rfl
      exact hown

theorem lite_proof_binds_768 :
    ∃ pk sk p, keygenFromSeed idealSuite (zeros 96) params768 = .ok (pk, sk) ∧
      kcpLiteProve idealSuite sk pk.data [] = .ok p ∧
      ¬ kcpLiteVerify idealSuite pk.data [1] p = .ok true ∧
      ∀ p', kcpLiteVerify idealSuite pk.data [] p' = .ok true ↔ p' = p := by
  obtain ⟨pk, sk, hk, g, _⟩ := keygen_generated idealSuite (zeros 96) params768 supported768
  obtain ⟨p, hprove, h⟩ := lite_proof_binds idealSuite idealSuite_lawful.signaturesParse
    idealSuite_exact ⟨fun _ _ => rfl, fun _ _ => rfl⟩ params768 (zeros 96) pk sk hk []
  obtain ⟨hbind, hunique⟩ := h (fun x _ => idealSuite_digest x)
  refine ⟨pk, sk, p, hk, hprove, fun hv => ?_, hunique⟩
  have hctx := ((hbind pk.data [1] ?_ ?_).mp hv).2
  · cases hctx
  · rw [Set.union_self]
    exact (hashedKeys_subsingleton pk.data).injOn _
  · have hl : (proofMessage p.commitment pk.data []).length = 3255 := by
      simp only [proofMessage, List.length_append, p.commitment.2, g.length, List.length_nil]
      rfl
    have hsnoc : proofMessage p.commitment pk.data [1] =
        proofMessage p.commitment pk.data [] ++ [1] := by
      simp [proofMessage]
    rw [hsnoc]
    exact idealSuite_oneMessage _ (by omega)

end EirnKcp.LiteBinding
