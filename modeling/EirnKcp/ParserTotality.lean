import EirnKcp.WireFormat

/-!
# Where the parsers can panic

Profiles have public fields, so a parser meets sizes that no profile of the
crate has. Keys and ciphertexts check the profile first. Proofs and messages
compute with its sizes before they reject it.
-/

set_option autoImplicit false

namespace EirnKcp.ParserTotality
open EirnKcp.CheckedCode EirnKcp.ByteCodec EirnKcp.Params EirnKcp.Primitives
open EirnKcp.LatticeZk EirnKcp.Kem EirnKcp.KeyLaws EirnKcp.Zk EirnKcp.ProofCodec
open EirnKcp.Prekey EirnKcp.Handshake EirnKcp.WireFormat EirnKcp.IdealSuite

section NestedParsers
variable {ekSize ctSize vkSize sigSize : ℕ}

theorem parseKeyWith_returns (K : MlKem ekSize ctSize) (data : Bytes) (params : EirnParams) :
    ¬ Panics (parseEncapsulationKeyWith K data params) := by
  unfold parseEncapsulationKeyWith
  dsimp only
  split_ifs
  · exact ok_not_panics _
  · exact err_not_panics _
  · exact err_not_panics _
  · exact err_not_panics _

theorem parseCiphertextWith_returns (K : MlKem ekSize ctSize) (data : Bytes)
    (params : EirnParams) : ¬ Panics (parseCiphertextWith K data params) := by
  unfold parseCiphertextWith
  split_ifs
  · exact ok_not_panics _
  · exact err_not_panics _

theorem parseSignatureWith_returns (D : MlDsa vkSize sigSize) (data : Bytes)
    (params : EirnParams) : ¬ Panics (parseSignatureWith D data params) := by
  unfold parseSignatureWith
  split_ifs
  · exact ok_not_panics _
  · exact err_not_panics _
  · exact err_not_panics _

end NestedParsers

section Parsers
variable (L : Suite) (data : Bytes) (params : EirnParams)

theorem discard_returns {α : Type} (r : Result α) (h : ¬ Panics r) :
    ¬ Panics (do let _ ← r : Result Unit) :=
  bind_not_panics r _ h (fun _ _ => ok_not_panics _)

theorem parseSignature_returns : ¬ Panics (parseSignature L data params) := by
  unfold parseSignature dispatch
  split_ifs
  · exact discard_returns _ (parseSignatureWith_returns _ _ _)
  · exact discard_returns _ (parseSignatureWith_returns _ _ _)
  · exact err_not_panics _

theorem statement_returns {params : EirnParams} (hs : IsSupportedParams params) {data : Bytes}
    (hl : data.length = params.pkBytes) : ¬ Panics (parseLatticeStatement data params) := by
  rw [parseStatement_eq hs hl]
  cases decodeStatement (data.drop (params.kemPkBytes+params.sigPkBytes)) with
  | none => exact err_not_panics _
  | some t => exact ok_not_panics _

theorem publicKey_returns : ¬ Panics (PublicKey.fromBytes L data params) := by
  by_cases hs : IsSupportedParams params
  · obtain ⟨arms⟩ := supported_arms L params hs
    by_cases hl : data.length = params.pkBytes
    · rw [arms.fromBytes_eq hs hl]
      apply bind_not_panics _ _ (parseKeyWith_returns _ _ _)
      intro _ _
      apply bind_not_panics _ _ (statement_returns hs hl)
      intro _ _
      exact ok_not_panics _
    · rw [PublicKey.fromBytes, ensureSupportedParams, if_pos hs, ok_bind, if_pos hl]
      exact err_not_panics _
  · rw [PublicKey.fromBytes, ensureSupportedParams, if_neg hs]
    exact err_not_panics _

theorem ciphertext_returns : ¬ Panics (Ciphertext.fromBytes L data params) := by
  unfold Ciphertext.fromBytes ensureSupportedParams
  by_cases hs : IsSupportedParams params
  · obtain ⟨arms⟩ := supported_arms L params hs
    rw [if_pos hs, ok_bind]
    by_cases hl : data.length = params.ctBytes
    · rw [if_neg (not_not_intro hl), arms.parseCiphertext_eq]
      apply bind_not_panics _ _ (discard_returns _ (parseCiphertextWith_returns _ _ _))
      intro _ _
      exact ok_not_panics _
    · rw [if_pos hl]
      exact err_not_panics _
  · rw [if_neg hs]
    exact err_not_panics _

/-- The sizes of a proof fit together and the end of its signature fits a word. -/
def ProofSizes (params : EirnParams) : Prop :=
  params.proofBytes = 32+params.sigBytes+32 ∧ 32+params.sigBytes < 2^64

theorem supported_proofSizes (hs : IsSupportedParams params) : ProofSizes params := by
  have hc := supported_consistent params hs
  have hb := hc.bounded
  have hp := hc.proofBytes
  exact ⟨hp, by omega⟩

/-- The slices of a proof are cut before the profile is looked at. -/
theorem liteProof_panics_iff :
    Panics (KcpLiteProof.fromBytesWithParams L data params) ↔
      data.length = params.proofBytes ∧ ¬ ProofSizes params := by
  have hrest : ∀ (commitment anchor : FixedBytes 32) (response : Bytes),
      ¬ Panics (do
        parseSignature L response params
        pure ⟨commitment, response, anchor⟩ : Result KcpLiteProof) :=
    fun _ _ response =>
      bind_not_panics _ _ (parseSignature_returns L response params) (fun _ _ => ok_not_panics _)
  unfold KcpLiteProof.fromBytesWithParams ProofSizes
  by_cases hl : data.length = params.proofBytes
  · rw [if_neg (not_not_intro hl)]
    simp only [slice_bind_panics_iff, copy_bind_panics_iff, usize_bind_panics_iff, hrest,
      exists_false, or_false, exists_prop, List.length_take, List.length_drop]
    omega
  · rw [if_pos hl]
    simp [hl, err_not_panics]

theorem strictProof_returns : ¬ Panics (KcpStrictProof.fromBytes data) := by
  by_cases hl : data.length = strictProofBytes
  · obtain ⟨proof, rfl⟩ := exists_strictProof data hl
    obtain ⟨hok, herr⟩ := strictProof_fromBytes_toBytes proof
    by_cases hv : StrictProofValid proof
    · rw [hok hv]
      exact ok_not_panics _
    · rw [herr hv]
      exact err_not_panics _
  · rw [KcpStrictProof.fromBytes, if_pos hl]
    exact err_not_panics _

theorem parseFields_returns (mode : KcpMode) (fields : WireFields) :
    ¬ Panics (parseFields L params mode fields) := by
  unfold parseFields
  apply bind_not_panics _ _ (publicKey_returns L _ params)
  intro pkA hA
  have hs := ((fromBytes_ok_iff _ _ _ _).mp hA).1.supported
  apply bind_not_panics _ _ (publicKey_returns L _ params)
  intro ekA _
  apply bind_not_panics _ _ (ciphertext_returns L _ params)
  intro ct1 _
  apply bind_not_panics _ _ (ciphertext_returns L _ params)
  intro ct2 _
  apply bind_not_panics _ _ (ciphertext_returns L _ params)
  intro ct3 _
  apply bind_not_panics _ _ (ciphertext_returns L _ params)
  intro ct4 _
  cases mode with
  | lite =>
    apply bind_not_panics
    · rw [liteProof_panics_iff]
      rintro ⟨_, h⟩
      exact h (supported_proofSizes params hs)
    · intro _ _
      exact ok_not_panics _
  | strict =>
    apply bind_not_panics _ _ (strictProof_returns _)
    intro _ _
    exact ok_not_panics _

theorem msg0Size_panics_iff (mode : KcpMode) :
    Panics (msg0Size params mode) ↔ ¬ wireSize params mode < 2^64 := by
  unfold msg0Size wireSize
  simp only [usize_bind_panics_iff, usize_panics_iff]
  cases mode with
  | lite =>
    simp only [proofSize]
    omega
  | strict =>
    simp only [proofSize]
    omega

theorem readMode_returns : ¬ Panics (Msg0Prime.readMode data) := by
  unfold Msg0Prime.readMode
  cases data.head? with
  | none => exact err_not_panics _
  | some byte =>
    dsimp only
    split_ifs
    · exact ok_not_panics _
    · exact ok_not_panics _
    · exact err_not_panics _

theorem msg0_panics_iff :
    Panics (Msg0Prime.fromBytesWithParams L data params) ↔
      ∃ mode : KcpMode, data.head? = some mode.byte ∧ ¬ wireSize params mode < 2^64 := by
  constructor
  · intro h
    have hread := h
    unfold Msg0Prime.fromBytesWithParams at hread
    rw [bind_panics_iff] at hread
    rcases hread with hp | ⟨mode, hm, hp⟩
    · exact absurd hp (readMode_returns data)
    · rw [readMode_ok_iff] at hm
      refine ⟨mode, hm, fun hw => ?_⟩
      rw [msg0Size_of_lt params mode hw, ok_bind] at hp
      by_cases hl : data.length = wireSize params mode
      · rw [parse_of_lt L params mode hw data hm hl] at h
        exact parseFields_returns L params mode _ h
      · rw [if_pos hl] at hp
        exact err_not_panics _ hp
  · rintro ⟨mode, hm, hw⟩
    unfold Msg0Prime.fromBytesWithParams
    rw [(readMode_ok_iff data mode).mpr hm, ok_bind, bind_panics_iff, msg0Size_panics_iff]
    exact Or.inl hw

theorem liteProof_ok_supported (proof : KcpLiteProof)
    (h : KcpLiteProof.fromBytesWithParams L data params = .ok proof) :
    IsSupportedParams params := by
  by_cases hl : data.length = params.proofBytes
  · rw [KcpLiteProof.fromBytesWithParams, if_neg (not_not_intro hl)] at h
    simp only [bind_ok_iff] at h
    obtain ⟨_, _, _, _, _, _, _, _, _, _, _, _, _, hsig, _⟩ := h
    by_contra hs
    rw [parseSignature, dispatch, if_neg (fun h => hs (Or.inl h)),
      if_neg (fun h => hs (Or.inr h))] at hsig
    cases hsig
  · rw [KcpLiteProof.fromBytesWithParams, if_pos hl] at h
    cases h

theorem msg0_ok_supported (msg : Msg0Prime)
    (h : Msg0Prime.fromBytesWithParams L data params = .ok msg) : IsSupportedParams params := by
  simp only [Msg0Prime.fromBytesWithParams, bind_ok_iff] at h
  obtain ⟨mode, _, size, _, h⟩ := h
  by_cases hl : data.length = size
  · rw [if_neg (not_not_intro hl)] at h
    simp only [bind_ok_iff, fromBytes_ok_iff] at h
    obtain ⟨_, _, _, ⟨hvalid, _⟩, _⟩ := h
    exact hvalid.supported
  · rw [if_pos hl] at h
    cases h

def Answers {α : Type} (params : EirnParams) (r : Result α) : Prop :=
  IsErr r ∨ IsSupportedParams params ∧ ∃ value, r = .ok value

theorem answers_iff {α : Type} (r : Result α)
    (hs : ∀ value, r = .ok value → IsSupportedParams params) :
    Answers params r ↔ ¬ Panics r := by
  cases r with
  | ok value => exact iff_of_true (Or.inr ⟨hs value rfl, value, rfl⟩) (ok_not_panics value)
  | error failure =>
    cases failure with
    | err e => exact iff_of_true (Or.inl ⟨e, rfl⟩) (err_not_panics e)
    | panic cause =>
      refine iff_of_false ?_ (not_not_intro (panic_panics cause))
      rintro (⟨e, h⟩ | ⟨_, value, h⟩)
      · cases h
      · cases h

structure ParsersAnswer : Prop where
  publicKey : Answers params (PublicKey.fromBytes L data params)
  ciphertext : Answers params (Ciphertext.fromBytes L data params)
  liteProof : Answers params (KcpLiteProof.fromBytesWithParams L data params)
  message : Answers params (Msg0Prime.fromBytesWithParams L data params)

end Parsers

/-- All parsers answer exactly when the proof's sizes fit together if its length
is right, and the message's size fits a word if its first byte is a mode. -/
theorem parsers_answer_iff (L : Suite) (data : Bytes) (params : EirnParams) :
    ParsersAnswer L data params ↔
      (data.length = params.proofBytes → ProofSizes params) ∧
        ∀ mode : KcpMode, data.head? = some mode.byte → wireSize params mode < 2^64 := by
  have hlite : Answers params (KcpLiteProof.fromBytesWithParams L data params) ↔
      (data.length = params.proofBytes → ProofSizes params) := by
    rw [answers_iff params _ (liteProof_ok_supported L data params), liteProof_panics_iff,
      not_and, not_not]
  have hmessage : Answers params (Msg0Prime.fromBytesWithParams L data params) ↔
      ∀ mode : KcpMode, data.head? = some mode.byte → wireSize params mode < 2^64 := by
    rw [answers_iff params _ (msg0_ok_supported L data params), msg0_panics_iff]
    simp only [not_exists, not_and, not_not]
  constructor
  · intro h
    exact ⟨hlite.mp h.liteProof, hmessage.mp h.message⟩
  · rintro ⟨hproof, hsize⟩
    refine ⟨?_, ?_, hlite.mpr hproof, hmessage.mpr hsize⟩
    · rw [answers_iff]
      · exact publicKey_returns L data params
      · intro pk h
        exact ((fromBytes_ok_iff _ _ _ _).mp h).1.supported
    · rw [answers_iff]
      · exact ciphertext_returns L data params
      · intro ct h
        exact ((ciphertext_fromBytes_ok_iff _ _ _ _).mp h).1

def emptyProofParams : EirnParams := { params768 with proofBytes := 0 }

def hugeKeyParams : EirnParams := { params768 with pkBytes := 2^63 }

theorem unsupported_sizes_panic :
    KcpLiteProof.fromBytesWithParams idealSuite [] emptyProofParams = panic .slice ∧
      Msg0Prime.fromBytesWithParams idealSuite [0] hugeKeyParams = panic .overflow ∧
      ¬ ParsersAnswer idealSuite [] emptyProofParams ∧
      ¬ ParsersAnswer idealSuite [0] hugeKeyParams := by
  have hproof : KcpLiteProof.fromBytesWithParams idealSuite [] emptyProofParams =
      panic .slice := rfl
  have hmessage : Msg0Prime.fromBytesWithParams idealSuite [0] hugeKeyParams =
      panic .overflow := rfl
  refine ⟨hproof, hmessage, fun h => ?_, fun h => ?_⟩
  · have ha := h.liteProof
    rw [hproof] at ha
    rcases ha with ⟨e, he⟩ | ⟨_, value, he⟩
    · cases he
    · cases he
  · have ha := h.message
    rw [hmessage] at ha
    rcases ha with ⟨e, he⟩ | ⟨_, value, he⟩
    · cases he
    · cases he

end EirnKcp.ParserTotality
