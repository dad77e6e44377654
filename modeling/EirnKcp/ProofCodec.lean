import EirnKcp.KeyLaws

/-!
# The two proof encodings

Every byte string of the right length is the encoding of exactly one value of
the proof type; the decoder adds the checks of the nested fields. So decoding
succeeds exactly on the encodings of proofs whose fields pass their checks.
-/

set_option autoImplicit false

namespace EirnKcp.ProofCodec
open EirnKcp.CheckedCode EirnKcp.ByteCodec EirnKcp.Params EirnKcp.Primitives
open EirnKcp.LatticeZk EirnKcp.Kem EirnKcp.KeyLaws EirnKcp.Zk

theorem slices_of_three (a b c : Bytes) (m n : ℕ) (ha : a.length = m) (hb : b.length = n) :
    slice (a ++ (b ++ c)) 0 m = (.ok a : Result Bytes) ∧
      slice (a ++ (b ++ c)) m (m+n) = (.ok b : Result Bytes) ∧
      slice (a ++ (b ++ c)) (m+n) (a ++ (b ++ c)).length = (.ok c : Result Bytes) := by
  subst ha hb
  refine ⟨slice_middle [] a (b ++ c) 0 _ rfl (by simp),
    slice_middle a b c _ _ rfl rfl, ?_⟩
  have h := slice_middle (ε := EirnError) (a ++ b) c [] (a.length+b.length)
    (a ++ (b ++ c)).length (by simp) (by simp [Nat.add_assoc])
  simpa [List.append_assoc] using h

theorem split_three (data : Bytes) (m n k : ℕ) (h : data.length = m+n+k) :
    ∃ a b c : Bytes, data = a ++ (b ++ c) ∧ a.length = m ∧ b.length = n ∧ c.length = k := by
  refine ⟨data.take m, (data.drop m).take n, (data.drop m).drop n, ?_, ?_, ?_, ?_⟩
  · rw [List.take_append_drop, List.take_append_drop]
  · rw [List.length_take]
    omega
  · rw [List.length_take, List.length_drop]
    omega
  · rw [List.length_drop, List.length_drop]
    omega

/-- The checks that `KcpStrictProof::from_bytes` makes on the fields. -/
def StrictProofValid (proof : KcpStrictProof) : Prop :=
  (∃ u, decodeStatement proof.commitment.1 = some u) ∧
    ∃ z, decodeResponse proof.response.1 = some z

theorem exists_strictProof (data : Bytes) (h : data.length = strictProofBytes) :
    ∃ proof : KcpStrictProof, data = proof.toBytes.1 := by
  obtain ⟨a, b, c, rfl, ha, hb, hc⟩ := split_three data commitmentBytes responseBytes 32 h
  exact ⟨⟨⟨a, ha⟩, ⟨b, hb⟩, ⟨c, hc⟩⟩, rfl⟩

theorem strictProof_toBytes_injective (p r : KcpStrictProof) (h : p.toBytes.1 = r.toBytes.1) :
    p = r := by
  obtain ⟨hc, hrest⟩ := List.append_inj h (by rw [p.commitment.2, r.commitment.2])
  obtain ⟨hr, ha⟩ := List.append_inj hrest (by rw [p.response.2, r.response.2])
  cases p
  cases r
  simp only [KcpStrictProof.mk.injEq]
  exact ⟨Subtype.ext hc, Subtype.ext hr, Subtype.ext ha⟩

theorem strictProof_fromBytes_toBytes (proof : KcpStrictProof) :
    (StrictProofValid proof → KcpStrictProof.fromBytes proof.toBytes.1 = .ok proof) ∧
      (¬ StrictProofValid proof →
        KcpStrictProof.fromBytes proof.toBytes.1 = err .authenticationFailed) := by
  obtain ⟨h0, h1, h2⟩ := slices_of_three proof.commitment.1 proof.response.1 proof.anchor.1
    commitmentBytes responseBytes proof.commitment.2 proof.response.2
  have hrun : KcpStrictProof.fromBytes proof.toBytes.1 =
      if (decodeStatement proof.commitment.1).isSome ∧ (decodeResponse proof.response.1).isSome
      then .ok proof else err .authenticationFailed := by
    rw [KcpStrictProof.fromBytes, if_neg (not_not_intro proof.toBytes.2)]
    simp only [KcpStrictProof.toBytes, h0, h1, h2, ok_bind,
      copy_ok _ _ proof.commitment.2, copy_ok _ _ proof.response.2, copy_ok _ _ proof.anchor.2]
    cases decodeStatement proof.commitment.1 with
    | none => rfl
    | some u =>
      cases decodeResponse proof.response.1 with
      | none => rfl
      | some z => rfl
  rw [hrun, StrictProofValid, ← Option.isSome_iff_exists, ← Option.isSome_iff_exists]
  exact ⟨fun h => if_pos h, fun h => if_neg h⟩

theorem strictProof_fromBytes_ok_iff (data : Bytes) (proof : KcpStrictProof) :
    KcpStrictProof.fromBytes data = .ok proof ↔
      data = proof.toBytes.1 ∧ StrictProofValid proof := by
  constructor
  · intro h
    by_cases hl : data.length = strictProofBytes
    · obtain ⟨p, rfl⟩ := exists_strictProof data hl
      obtain ⟨hok, herr⟩ := strictProof_fromBytes_toBytes p
      by_cases hp : StrictProofValid p
      · rw [hok hp] at h
        cases h
        exact ⟨rfl, hp⟩
      · rw [herr hp] at h
        cases h
    · rw [KcpStrictProof.fromBytes, if_pos hl] at h
      cases h
  · rintro ⟨rfl, hp⟩
    exact (strictProof_fromBytes_toBytes proof).1 hp

theorem decodeResponse_isSome (bytes : Bytes) (hl : bytes.length = responseBytes) :
    (∃ z, decodeResponse bytes = some z) ↔
      ∀ i < witnessDim, (wordAt bytes i).toInt16.toInt.natAbs ≤ responseBound := by
  constructor
  · rintro ⟨z, hz⟩ i hi
    obtain ⟨rfl, hb⟩ := (decodeResponse_iff _ _).mp hz
    have hw := wordAt_encodeWords (fun i => (z i).toUInt16) ⟨i, hi⟩
    rw [encodeResponse]
    dsimp only at hw ⊢
    rw [hw, Int16.toInt16_toUInt16]
    exact hb ⟨i, hi⟩
  · intro h
    refine ⟨fun i => (wordAt bytes i).toInt16,
      (decodeResponse_iff _ _).mpr ⟨?_, fun i => h i i.isLt⟩⟩
    simp only [encodeResponse, UInt16.toUInt16_toInt16]
    exact (encodeWords_wordAt witnessDim bytes (by rw [hl]; rfl)).symm

theorem strictProof_decodes_iff (data : Bytes) (hl : data.length = strictProofBytes) :
    (∃ proof, KcpStrictProof.fromBytes data = .ok proof) ↔
      (∀ i < statementDim, (wordAt (data.take commitmentBytes) i).toNat < q) ∧
        ∀ i < witnessDim,
          (wordAt ((data.drop commitmentBytes).take responseBytes) i).toInt16.toInt.natAbs ≤
            responseBound := by
  obtain ⟨proof, rfl⟩ := exists_strictProof data hl
  have hc : proof.toBytes.1.take commitmentBytes = proof.commitment.1 :=
    List.take_left' proof.commitment.2
  have hr : (proof.toBytes.1.drop commitmentBytes).take responseBytes = proof.response.1 := by
    have hd : proof.toBytes.1.drop commitmentBytes = proof.response.1 ++ proof.anchor.1 :=
      List.drop_left' proof.commitment.2
    rw [hd, List.take_left' proof.response.2]
  rw [hc, hr, ← decodeStatement_isSome _ proof.commitment.2,
    ← decodeResponse_isSome _ proof.response.2]
  constructor
  · rintro ⟨other, h⟩
    obtain ⟨heq, hv⟩ := (strictProof_fromBytes_ok_iff _ _).mp h
    rwa [strictProof_toBytes_injective proof other heq]
  · intro hv
    exact ⟨proof, (strictProof_fromBytes_ok_iff _ _).mpr ⟨rfl, hv⟩⟩

theorem parseSignature_ok_iff (L : Suite) (params : EirnParams) (response : Bytes)
    (hs : IsSupportedParams params) :
    parseSignature L response params = .ok () ↔ signatureParses L params response = true := by
  obtain ⟨arms⟩ := supported_arms L params hs
  rw [arms.parseSignature_eq, arms.signatureParses_eq, parseSignatureWith, parsesOn]
  split_ifs with hl hp
  · simp [hp]
  · simp [hp, err]
  · simp [err]

theorem signatureParses_length (L : Suite) (params : EirnParams) (response : Bytes)
    (hs : IsSupportedParams params) (h : signatureParses L params response = true) :
    response.length = params.sigBytes := by
  obtain ⟨arms⟩ := supported_arms L params hs
  rw [arms.signatureParses_eq, parsesOn] at h
  by_contra hl
  rw [dif_neg hl] at h
  cases h

section LiteProof
variable (L : Suite) (params : EirnParams)

theorem liteProof_toBytes_length (proof : KcpLiteProof) :
    proof.toBytes.length = 32+proof.response.length+32 := by
  rw [KcpLiteProof.toBytes, List.length_append, List.length_append, proof.commitment.2,
    proof.anchor.2, Nat.add_assoc]

theorem liteProof_toBytes_injective (p r : KcpLiteProof) (h : p.toBytes = r.toBytes) : p = r := by
  have hl := congrArg List.length h
  rw [liteProof_toBytes_length, liteProof_toBytes_length] at hl
  obtain ⟨hc, hrest⟩ := List.append_inj h (by rw [p.commitment.2, r.commitment.2])
  obtain ⟨hr, ha⟩ := List.append_inj hrest (by omega)
  cases p
  cases r
  simp only [KcpLiteProof.mk.injEq]
  exact ⟨Subtype.ext hc, hr, Subtype.ext ha⟩

theorem liteProof_fromBytes_toBytes (hs : IsSupportedParams params) (proof : KcpLiteProof)
    (hr : proof.response.length = params.sigBytes) :
    KcpLiteProof.fromBytesWithParams L proof.toBytes params =
      (do
        parseSignature L proof.response params
        pure proof) := by
  have hc := supported_consistent params hs
  have hp := hc.proofBytes
  have hb := hc.bounded
  obtain ⟨h0, h1, h2⟩ := slices_of_three proof.commitment.1 proof.response proof.anchor.1
    32 params.sigBytes proof.commitment.2 hr
  rw [KcpLiteProof.fromBytesWithParams, if_neg (by rw [liteProof_toBytes_length]; omega)]
  simp only [KcpLiteProof.toBytes, h0, h1, h2, ok_bind, usize_ok (32+params.sigBytes) (by omega),
    copy_ok _ _ proof.commitment.2, copy_ok _ _ proof.anchor.2]

theorem liteProof_fromBytes_ok_iff (hs : IsSupportedParams params) (data : Bytes)
    (proof : KcpLiteProof) :
    KcpLiteProof.fromBytesWithParams L data params = .ok proof ↔
      data = proof.toBytes ∧ signatureParses L params proof.response = true := by
  have hp := (supported_consistent params hs).proofBytes
  constructor
  · intro h
    by_cases hl : data.length = params.proofBytes
    · obtain ⟨a, b, c, rfl, ha, hb, hc⟩ := split_three data 32 params.sigBytes 32 (by omega)
      have hrun := liteProof_fromBytes_toBytes L params hs ⟨⟨a, ha⟩, b, ⟨c, hc⟩⟩ hb
      simp only [KcpLiteProof.toBytes] at hrun
      rw [hrun, bind_ok_iff] at h
      obtain ⟨_, hv, hpure⟩ := h
      cases hpure
      exact ⟨rfl, (parseSignature_ok_iff L params b hs).mp hv⟩
    · rw [KcpLiteProof.fromBytesWithParams, if_pos hl] at h
      cases h
  · rintro ⟨rfl, hv⟩
    rw [liteProof_fromBytes_toBytes L params hs proof
      (signatureParses_length L params proof.response hs hv),
      (parseSignature_ok_iff L params _ hs).mpr hv]
    rfl

theorem liteProof_decodes_iff (hs : IsSupportedParams params) (data : Bytes)
    (hl : data.length = params.proofBytes) :
    (∃ proof, KcpLiteProof.fromBytesWithParams L data params = .ok proof) ↔
      signatureParses L params ((data.drop 32).take params.sigBytes) = true := by
  have hp := (supported_consistent params hs).proofBytes
  obtain ⟨a, b, c, rfl, ha, hb, hc⟩ := split_three data 32 params.sigBytes 32 (by omega)
  rw [List.drop_left' ha, List.take_left' hb]
  constructor
  · rintro ⟨proof, h⟩
    obtain ⟨heq, hv⟩ := (liteProof_fromBytes_ok_iff L params hs _ proof).mp h
    have hproof := liteProof_toBytes_injective ⟨⟨a, ha⟩, b, ⟨c, hc⟩⟩ proof heq
    rwa [← hproof] at hv
  · intro hv
    exact ⟨⟨⟨a, ha⟩, b, ⟨c, hc⟩⟩, (liteProof_fromBytes_ok_iff L params hs _ _).mpr ⟨rfl, hv⟩⟩

end LiteProof

end EirnKcp.ProofCodec
