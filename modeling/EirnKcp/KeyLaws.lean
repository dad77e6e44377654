import EirnKcp.Zk

/-!
# What keys and ciphertexts satisfy

Under a supported profile every dispatch takes the arm of one ML-KEM and one
ML-DSA set whose sizes are those of the profile. Facts about keys are proved
once for such a pair of sets. Constructors give values of the profile's sizes;
the checks of parsing are stated as a predicate on bytes.
-/

set_option autoImplicit false

namespace EirnKcp.KeyLaws
open EirnKcp.CheckedCode EirnKcp.ByteCodec EirnKcp.Params EirnKcp.Primitives
open EirnKcp.LatticeZk EirnKcp.Kem EirnKcp.Zk

def newKeyOn {ekSize ctSize : ℕ} (K : MlKem ekSize ctSize) (bytes : Bytes) : Bool :=
  if h : bytes.length = ekSize then K.newKey ⟨bytes, h⟩ else false

def kemPartValid (L : Suite) (params : EirnParams) (bytes : Bytes) : Bool :=
  dispatch params (newKeyOn L.mlKem768 bytes) (newKeyOn L.mlKem1024 bytes) false

def parsesOn {vkSize sigSize : ℕ} (D : MlDsa vkSize sigSize) (bytes : Bytes) : Bool :=
  if h : bytes.length = sigSize then D.parses ⟨bytes, h⟩ else false

def signatureParses (L : Suite) (params : EirnParams) (bytes : Bytes) : Bool :=
  dispatch params (parsesOn L.mlDsa65 bytes) (parsesOn L.mlDsa87 bytes) false

def ekBytes (L : Suite) (params : EirnParams) (kemSeed : FixedBytes 64) : Bytes :=
  dispatch params (L.mlKem768.encapsulationKey kemSeed).1
    (L.mlKem1024.encapsulationKey kemSeed).1 []

def vkBytes (L : Suite) (params : EirnParams) (sigSeed : FixedBytes 32) : Bytes :=
  dispatch params (L.mlDsa65.verifyingKey sigSeed).1 (L.mlDsa87.verifyingKey sigSeed).1 []

/-- The arms that the dispatches take under `params`. -/
structure Arms (L : Suite) (params : EirnParams) where
  kem : MlKem params.kemPkBytes params.ctBytes
  dsa : MlDsa params.sigPkBytes params.sigBytes
  ekBytes_eq : ∀ kemSeed, ekBytes L params kemSeed = (kem.encapsulationKey kemSeed).1
  vkBytes_eq : ∀ sigSeed, vkBytes L params sigSeed = (dsa.verifyingKey sigSeed).1
  encodedKeys_eq : ∀ kemSeed sigSeed, encodedKeys L kemSeed sigSeed params =
    .ok ((kem.encapsulationKey kemSeed).1, (dsa.verifyingKey sigSeed).1)
  kemPartValid_eq : ∀ bytes, kemPartValid L params bytes = newKeyOn kem bytes
  parseKey_eq : ∀ data, parseEncapsulationKey L data params =
    (do let _ ← parseEncapsulationKeyWith kem data params)
  parseCiphertext_eq : ∀ data, parseCiphertext L data params =
    (do let _ ← parseCiphertextWith kem data params)
  parseVerifyingKey_eq : ∀ data, parseVerifyingKey data params =
    if data.length = params.sigPkBytes then .ok ()
    else err (.invalidKeyLength params.sigPkBytes data.length)
  encaps_eq : ∀ pk coins, pk.params = params →
    encapsDeterministic L pk coins = encapsWith kem pk coins
  decaps_eq : ∀ sk ct, sk.params = params → decaps L sk ct = decapsWith kem sk ct
  sign_eq : ∀ sk message, sk.params = params →
    SecretKey.signProofMessage L sk message = .ok (dsa.sign sk.sigSeed message).1
  signatureParses_eq : ∀ bytes, signatureParses L params bytes = parsesOn dsa bytes
  parseSignature_eq : ∀ data, parseSignature L data params =
    (do let _ ← parseSignatureWith dsa data params)
  verifySignature_eq : ∀ vk message proof,
    verifySignature L vk message proof params = verifySignatureWith dsa vk message proof params
  keysValid : L.KeysValid → kem.KeysValid
  kemCorrect : L.KemCorrect → kem.Correct
  rejecting : L.Rejecting → kem.Rejecting
  signaturesParse : L.SignaturesParse → dsa.SignaturesParse
  dsaCorrect : L.DsaCorrect → dsa.Correct
  nonZero : L.SignaturesNonZero → dsa.NonZero

theorem supported_arms (L : Suite) (params : EirnParams) (h : IsSupportedParams params) :
    Nonempty (Arms L params) := by
  rcases h with rfl | rfl
  · exact ⟨{
      kem := L.mlKem768
      dsa := L.mlDsa65
      ekBytes_eq := fun _ => dispatch768 _ _ _
      vkBytes_eq := fun _ => dispatch768 _ _ _
      encodedKeys_eq := fun _ _ => dispatch768 _ _ _
      kemPartValid_eq := fun _ => dispatch768 _ _ _
      parseKey_eq := fun _ => dispatch768 _ _ _
      parseCiphertext_eq := fun _ => dispatch768 _ _ _
      parseVerifyingKey_eq := fun _ => dispatch768 _ _ _
      encaps_eq := fun _ _ hpk => by rw [encapsDeterministic, hpk, dispatch768]; rfl
      decaps_eq := fun _ _ hsk => by rw [decaps, hsk, dispatch768]; rfl
      sign_eq := fun _ _ hsk => by rw [SecretKey.signProofMessage, hsk, dispatch768]
      signatureParses_eq := fun _ => dispatch768 _ _ _
      parseSignature_eq := fun _ => dispatch768 _ _ _
      verifySignature_eq := fun _ _ _ => dispatch768 _ _ _
      keysValid := fun h => h.mlKem768
      kemCorrect := fun h => h.mlKem768
      rejecting := fun h => h.mlKem768
      signaturesParse := fun h => h.mlDsa65
      dsaCorrect := fun h => h.mlDsa65
      nonZero := fun h => h.mlDsa65 }⟩
  · exact ⟨{
      kem := L.mlKem1024
      dsa := L.mlDsa87
      ekBytes_eq := fun _ => dispatch1024 _ _ _
      vkBytes_eq := fun _ => dispatch1024 _ _ _
      encodedKeys_eq := fun _ _ => dispatch1024 _ _ _
      kemPartValid_eq := fun _ => dispatch1024 _ _ _
      parseKey_eq := fun _ => dispatch1024 _ _ _
      parseCiphertext_eq := fun _ => dispatch1024 _ _ _
      parseVerifyingKey_eq := fun _ => dispatch1024 _ _ _
      encaps_eq := fun _ _ hpk => by rw [encapsDeterministic, hpk, dispatch1024]; rfl
      decaps_eq := fun _ _ hsk => by rw [decaps, hsk, dispatch1024]; rfl
      sign_eq := fun _ _ hsk => by rw [SecretKey.signProofMessage, hsk, dispatch1024]
      signatureParses_eq := fun _ => dispatch1024 _ _ _
      parseSignature_eq := fun _ => dispatch1024 _ _ _
      verifySignature_eq := fun _ _ _ => dispatch1024 _ _ _
      keysValid := fun h => h.mlKem1024
      kemCorrect := fun h => h.mlKem1024
      rejecting := fun h => h.mlKem1024
      signaturesParse := fun h => h.mlDsa87
      dsaCorrect := fun h => h.mlDsa87
      nonZero := fun h => h.mlDsa87 }⟩

section Slices
variable {params : EirnParams}

theorem keys_usize (h : IsSupportedParams params) :
    usize (params.kemPkBytes+params.sigPkBytes) =
      (.ok (params.kemPkBytes+params.sigPkBytes) : Result ℕ) := by
  have hc := supported_consistent params h
  exact usize_ok _ (by have := hc.pkBytes; have := hc.bounded; omega)

theorem publicSeed_eq (h : IsSupportedParams params) (pk : Bytes)
    (hl : pk.length = params.pkBytes) :
    publicSeedFromKey pk params.kemPkBytes params.sigPkBytes =
      .ok (pk.take (params.kemPkBytes+params.sigPkBytes)) := by
  have hc := (supported_consistent params h).pkBytes
  rw [publicSeedFromKey, keys_usize h, ok_bind, slice_ok _ _ _ (by omega) (by omega)]
  rfl

theorem statementBytes_eq (h : IsSupportedParams params) (pk : Bytes)
    (hl : pk.length = params.pkBytes) :
    statementBytesFromKey pk params.kemPkBytes params.sigPkBytes =
      .ok (pk.drop (params.kemPkBytes+params.sigPkBytes)) := by
  have hc := supported_consistent params h
  have hpk := hc.pkBytes
  have hb := hc.bounded
  rw [statementBytesFromKey, keys_usize h, ok_bind,
    usize_ok _ (by change _+64 < _; omega), ok_bind,
    slice_ok _ _ _ (by omega) (by change _+64 ≤ _; omega), List.take_of_length_le]
  rw [List.length_drop]
  change _ ≤ _+64-_
  omega

end Slices

structure ValidKeyBytes (L : Suite) (params : EirnParams) (data : Bytes) : Prop where
  supported : IsSupportedParams params
  length : data.length = params.pkBytes
  kemPart : kemPartValid L params (data.take params.kemPkBytes) = true
  statement : ∀ i < statementDim,
    (wordAt (data.drop (params.kemPkBytes+params.sigPkBytes)) i).toNat < q

theorem decodeStatement_isSome (bytes : Bytes) (hl : bytes.length = statementBytes) :
    (∃ t, decodeStatement bytes = some t) ↔ ∀ i < statementDim, (wordAt bytes i).toNat < q := by
  constructor
  · rintro ⟨t, ht⟩ i hi
    obtain ⟨rfl, hq⟩ := (decodeStatement_iff _ _).mp ht
    have hw := wordAt_encodeWords t ⟨i, hi⟩
    rw [encodeStatement]
    dsimp only at hw ⊢
    rw [hw]
    exact hq ⟨i, hi⟩
  · intro h
    refine ⟨fun i => wordAt bytes i, (decodeStatement_iff _ _).mpr ⟨?_, fun i => h i i.isLt⟩⟩
    exact (encodeWords_wordAt statementDim bytes (by rw [hl]; rfl)).symm

theorem parseKeyWith_ok_iff {ekSize ctSize : ℕ} (K : MlKem ekSize ctSize) (data : Bytes)
    (params : EirnParams) (hsize : params.kemPkBytes = ekSize) (ek : FixedBytes ekSize) :
    parseEncapsulationKeyWith K data params = .ok ek ↔
      ek.1 = data.take params.kemPkBytes ∧ newKeyOn K (data.take params.kemPkBytes) = true := by
  unfold parseEncapsulationKeyWith newKeyOn
  by_cases hd : params.kemPkBytes ≤ data.length
  · have hl : (data.take params.kemPkBytes).length = ekSize := by
      rw [List.length_take, Nat.min_eq_left hd, hsize]
    rw [if_pos hd, dif_pos hl, dif_pos hl]
    split_ifs with hv
    · simp [hv, Subtype.ext_iff, eq_comm]
    · simp [hv, err]
  · have hl : (data.take params.kemPkBytes).length ≠ ekSize := by
      rw [List.length_take]
      omega
    rw [if_neg hd, dif_neg hl]
    simp [err]

theorem statementBytes_length {params : EirnParams} (h : IsSupportedParams params) {data : Bytes}
    (hl : data.length = params.pkBytes) :
    (data.drop (params.kemPkBytes+params.sigPkBytes)).length = statementBytes := by
  rw [List.length_drop, hl, (supported_consistent _ h).pkBytes]
  exact Nat.add_sub_cancel_left _ _

theorem parseStatement_eq {params : EirnParams} (h : IsSupportedParams params) {data : Bytes}
    (hl : data.length = params.pkBytes) :
    parseLatticeStatement data params =
      match decodeStatement (data.drop (params.kemPkBytes+params.sigPkBytes)) with
      | none => err .authenticationFailed
      | some _ => .ok () := by
  have hc := supported_consistent params h
  have hpk := hc.pkBytes
  have hz := hc.statement
  have hb := hc.bounded
  rw [parseLatticeStatement, keys_usize h, ok_bind, usize_ok _ (by omega), ok_bind,
    if_neg (by omega), statementBytes_eq h _ hl, ok_bind]
  rfl

theorem parseStatement_ok_iff (params : EirnParams) (h : IsSupportedParams params) (data : Bytes)
    (hl : data.length = params.pkBytes) :
    parseLatticeStatement data params = .ok () ↔ ∀ i < statementDim,
      (wordAt (data.drop (params.kemPkBytes+params.sigPkBytes)) i).toNat < q := by
  rw [← decodeStatement_isSome _ (statementBytes_length h hl), parseStatement_eq h hl]
  cases decodeStatement (data.drop (params.kemPkBytes+params.sigPkBytes)) with
  | none => simp [err]
  | some t => simp

theorem Arms.fromBytes_eq {L : Suite} {params : EirnParams} {data : Bytes}
    (arms : Arms L params) (hs : IsSupportedParams params) (hl : data.length = params.pkBytes) :
    PublicKey.fromBytes L data params = (do
      let _ ← parseEncapsulationKeyWith arms.kem data params
      parseLatticeStatement data params
      pure ⟨data, params⟩) := by
  have hpk := (supported_consistent params hs).pkBytes
  have hvk : ((data.drop params.kemPkBytes).take
      (params.kemPkBytes+params.sigPkBytes-params.kemPkBytes)).length = params.sigPkBytes := by
    rw [List.length_take, List.length_drop]
    omega
  rw [PublicKey.fromBytes, ensureSupportedParams, if_pos hs, ok_bind,
    if_neg (not_not_intro hl), arms.parseKey_eq]
  cases parseEncapsulationKeyWith arms.kem data params with
  | error e => rfl
  | ok ek =>
    simp only [ok_bind, keys_usize hs]
    rw [slice_ok _ _ _ (by omega) (by omega), ok_bind, arms.parseVerifyingKey_eq, if_pos hvk]
    rfl

theorem Arms.parse_valid {L : Suite} {params : EirnParams} {data : Bytes}
    (arms : Arms L params) (h : ValidKeyBytes L params data) :
    ∃ ek, parseEncapsulationKeyWith arms.kem data params = .ok ek ∧
      ek.1 = data.take params.kemPkBytes := by
  have hc := (supported_consistent _ h.supported).pkBytes
  have hlen : (data.take params.kemPkBytes).length = params.kemPkBytes := by
    rw [List.length_take, h.length]
    omega
  refine ⟨⟨data.take params.kemPkBytes, hlen⟩, ?_, rfl⟩
  rw [parseKeyWith_ok_iff _ _ _ rfl, ← arms.kemPartValid_eq]
  exact ⟨rfl, h.kemPart⟩

theorem fromBytes_ok_iff (L : Suite) (data : Bytes) (params : EirnParams) (pk : PublicKey) :
    PublicKey.fromBytes L data params = .ok pk ↔
      ValidKeyBytes L params data ∧ pk = ⟨data, params⟩ := by
  by_cases hs : IsSupportedParams params
  · obtain ⟨arms⟩ := supported_arms L params hs
    by_cases hl : data.length = params.pkBytes
    · rw [arms.fromBytes_eq hs hl]
      simp only [bind_ok_iff, pure_ok, Except.ok.injEq, parseKeyWith_ok_iff _ _ _ rfl,
        parseStatement_ok_iff params hs data hl]
      constructor
      · rintro ⟨ek, ⟨_, hv⟩, _, ht, rfl⟩
        exact ⟨⟨hs, hl, by rw [arms.kemPartValid_eq, hv], ht⟩, rfl⟩
      · rintro ⟨hvalid, rfl⟩
        obtain ⟨ek, hparse, _⟩ := arms.parse_valid hvalid
        exact ⟨ek, (parseKeyWith_ok_iff _ _ _ rfl _).mp hparse, (), hvalid.statement, rfl⟩
    · rw [PublicKey.fromBytes, ensureSupportedParams, if_pos hs, ok_bind, if_pos hl]
      constructor
      · intro h
        cases h
      · rintro ⟨hvalid, _⟩
        exact absurd hvalid.length hl
  · rw [PublicKey.fromBytes, ensureSupportedParams, if_neg hs]
    constructor
    · intro h
      cases h
    · rintro ⟨hvalid, _⟩
      exact absurd hvalid.supported hs

theorem ciphertext_fromBytes_ok_iff (L : Suite) (data : Bytes) (params : EirnParams)
    (ct : Ciphertext) :
    Ciphertext.fromBytes L data params = .ok ct ↔
      IsSupportedParams params ∧ data.length = params.ctBytes ∧ ct = ⟨data, params⟩ := by
  unfold Ciphertext.fromBytes ensureSupportedParams
  by_cases hs : IsSupportedParams params
  · obtain ⟨arms⟩ := supported_arms L params hs
    rw [if_pos hs, ok_bind]
    by_cases hl : data.length = params.ctBytes
    · rw [if_neg (by simpa using hl), arms.parseCiphertext_eq, parseCiphertextWith, dif_pos hl]
      simp only [ok_bind, pure_ok, Except.ok.injEq]
      constructor
      · rintro rfl
        exact ⟨hs, hl, rfl⟩
      · rintro ⟨_, _, rfl⟩
        rfl
    · rw [if_pos (by simpa using hl)]
      constructor
      · intro h
        cases h
      · rintro ⟨_, h, _⟩
        exact absurd h hl
  · rw [if_neg hs]
    constructor
    · intro h
      cases h
    · rintro ⟨h, _⟩
      exact absurd h hs

theorem matchesPublicKey_iff (sk : SecretKey) (pk : PublicKey) :
    sk.matchesPublicKey pk = true ↔ sk.params = pk.params ∧ sk.pkData = pk.data := by
  rw [SecretKey.matchesPublicKey, Bool.and_eq_true, decide_eq_true_iff, ctEq_iff]

/-- What key generation gives under `params`. -/
structure Generated (L : Suite) (params : EirnParams) (pk : PublicKey) (sk : SecretKey) : Prop
    where
  supported : IsSupportedParams params
  secretParams : sk.params = params
  secretData : sk.pkData = pk.data
  encoded : ∃ t,
    matrixMul L (ekBytes L params sk.kemSeed ++ vkBytes L params sk.sigSeed)
      (sk.strictWitness L) = .ok t ∧
    pk = ⟨ekBytes L params sk.kemSeed ++ vkBytes L params sk.sigSeed ++
      (encodeStatement t).1, params⟩

theorem keygen_generated (L : Suite) (seed : FixedBytes 96) (params : EirnParams)
    (hs : IsSupportedParams params) :
    ∃ pk sk, keygenFromSeed L seed params = .ok (pk, sk) ∧ Generated L params pk sk ∧
      sk.kemSeed = kemSeedOf seed ∧ sk.sigSeed = sigSeedOf seed := by
  obtain ⟨arms⟩ := supported_arms L params hs
  generalize hk : kemSeedOf seed = kemSeed
  generalize hg : sigSeedOf seed = sigSeed
  obtain ⟨t, ht⟩ : ∃ t, matrixMul L (ekBytes L params kemSeed ++ vkBytes L params sigSeed)
      (deriveWitness L kemSeed sigSeed) = .ok t := ⟨_, matrixMul_eq _ _ _⟩
  generalize hd : ekBytes L params kemSeed ++ vkBytes L params sigSeed ++
    (encodeStatement t).1 = data
  refine ⟨⟨data, params⟩, ⟨kemSeed, sigSeed, data, params⟩, ?_,
    ⟨hs, rfl, rfl, t, ht, by rw [← hd]⟩, rfl, rfl⟩
  rw [arms.ekBytes_eq, arms.vkBytes_eq] at ht hd
  rw [keygenFromSeed, if_neg (not_not_intro hs), hk, hg]
  simp only [arms.encodedKeys_eq, statementFromWitness, ht, ok_bind, pure_ok, hd]

theorem generated_of_keygen (L : Suite) (seed : FixedBytes 96) (params : EirnParams)
    (pk : PublicKey) (sk : SecretKey) (h : keygenFromSeed L seed params = .ok (pk, sk)) :
    Generated L params pk sk := by
  by_cases hs : IsSupportedParams params
  · obtain ⟨pk', sk', hk, hg, _⟩ := keygen_generated L seed params hs
    rw [hk] at h
    cases h
    exact hg
  · rw [keygenFromSeed, if_pos hs] at h
    cases h

section GeneratedKeys
variable {L : Suite} {params : EirnParams} {pk : PublicKey} {sk : SecretKey}

theorem Arms.ekBytes_length (arms : Arms L params) (kemSeed : FixedBytes 64) :
    (ekBytes L params kemSeed).length = params.kemPkBytes := by
  rw [arms.ekBytes_eq]
  exact (arms.kem.encapsulationKey kemSeed).2

theorem Arms.vkBytes_length (arms : Arms L params) (sigSeed : FixedBytes 32) :
    (vkBytes L params sigSeed).length = params.sigPkBytes := by
  rw [arms.vkBytes_eq]
  exact (arms.dsa.verifyingKey sigSeed).2

namespace Generated

theorem params_eq (g : Generated L params pk sk) : pk.params = params := by
  obtain ⟨t, _, rfl⟩ := g.encoded
  rfl

theorem length (g : Generated L params pk sk) : pk.data.length = params.pkBytes := by
  obtain ⟨arms⟩ := supported_arms L params g.supported
  have hc := (supported_consistent params g.supported).pkBytes
  obtain ⟨t, _, rfl⟩ := g.encoded
  rw [List.length_append, List.length_append, arms.ekBytes_length, arms.vkBytes_length,
    (encodeStatement t).2, hc]
  rfl

theorem wellFormed (g : Generated L params pk sk) : pk.WellFormed where
  supported := by
    rw [g.params_eq]
    exact g.supported
  length := by rw [g.params_eq, g.length]

theorem matches_own (g : Generated L params pk sk) : sk.matchesPublicKey pk = true := by
  rw [matchesPublicKey_iff, g.secretParams, g.params_eq, g.secretData]
  exact ⟨rfl, rfl⟩

theorem publicSeed (g : Generated L params pk sk) :
    pk.data.take (params.kemPkBytes+params.sigPkBytes) =
      ekBytes L params sk.kemSeed ++ vkBytes L params sk.sigSeed := by
  obtain ⟨arms⟩ := supported_arms L params g.supported
  obtain ⟨t, _, rfl⟩ := g.encoded
  apply List.take_left'
  rw [List.length_append, arms.ekBytes_length, arms.vkBytes_length]

theorem kemPart (g : Generated L params pk sk) :
    pk.data.take params.kemPkBytes = ekBytes L params sk.kemSeed := by
  obtain ⟨arms⟩ := supported_arms L params g.supported
  have h := congrArg (List.take params.kemPkBytes) g.publicSeed
  rw [List.take_take, Nat.min_eq_left (Nat.le_add_right _ _)] at h
  rw [h]
  exact List.take_left' (arms.ekBytes_length _)

theorem sigPart (g : Generated L params pk sk) :
    (pk.data.drop params.kemPkBytes).take params.sigPkBytes = vkBytes L params sk.sigSeed := by
  obtain ⟨arms⟩ := supported_arms L params g.supported
  have h := congrArg (List.drop params.kemPkBytes) g.publicSeed
  rw [List.drop_take, Nat.add_sub_cancel_left] at h
  rw [h]
  exact List.drop_left' (arms.ekBytes_length _)

theorem statement (g : Generated L params pk sk) : ∃ t,
    matrixMul L (pk.data.take (params.kemPkBytes+params.sigPkBytes)) (sk.strictWitness L) =
      .ok t ∧
    pk.data.drop (params.kemPkBytes+params.sigPkBytes) = (encodeStatement t).1 := by
  obtain ⟨arms⟩ := supported_arms L params g.supported
  obtain ⟨t, ht, hpk⟩ := g.encoded
  refine ⟨t, by rw [g.publicSeed, ht], ?_⟩
  rw [hpk]
  apply List.drop_left'
  rw [List.length_append, arms.ekBytes_length, arms.vkBytes_length]

theorem statement_decodes (g : Generated L params pk sk) : ∃ t,
    matrixMul L (pk.data.take (params.kemPkBytes+params.sigPkBytes)) (sk.strictWitness L) =
      .ok t ∧
    decodeStatement (pk.data.drop (params.kemPkBytes+params.sigPkBytes)) = some t := by
  obtain ⟨t, ht, hd⟩ := g.statement
  refine ⟨t, ht, (decodeStatement_iff _ _).mpr ⟨hd, ?_⟩⟩
  rw [matrixMul_eq] at ht
  cases ht
  exact fun i => modQ_lt _

theorem validBytes (g : Generated L params pk sk) (hv : L.KeysValid) :
    ValidKeyBytes L params pk.data := by
  obtain ⟨arms⟩ := supported_arms L params g.supported
  obtain ⟨t, _, hd⟩ := g.statement_decodes
  refine ⟨g.supported, g.length, ?_, ?_⟩
  · rw [arms.kemPartValid_eq, g.kemPart, arms.ekBytes_eq, newKeyOn,
      dif_pos (arms.kem.encapsulationKey sk.kemSeed).2]
    exact arms.keysValid hv sk.kemSeed
  · exact (decodeStatement_isSome _ (statementBytes_length g.supported g.length)).mp ⟨t, hd⟩

theorem encaps_eq (g : Generated L params pk sk) (hv : L.KeysValid) (arms : Arms L params)
    (drawn : FixedBytes 32) :
    encaps L drawn pk =
      .ok (⟨(arms.kem.encapsulateDeterministic (arms.kem.encapsulationKey sk.kemSeed) drawn).1.1,
        params⟩,
        (arms.kem.encapsulateDeterministic (arms.kem.encapsulationKey sk.kemSeed) drawn).2) := by
  obtain ⟨ek, hparse, hek⟩ := arms.parse_valid (g.validBytes hv)
  have hown : ek = arms.kem.encapsulationKey sk.kemSeed :=
    Subtype.ext (hek.trans (g.kemPart.trans (arms.ekBytes_eq _)))
  subst hown
  rw [encaps, arms.encaps_eq pk drawn g.params_eq, encapsWith, g.params_eq, hparse]
  rfl

end Generated

theorem decapsWith_eq {ekSize ctSize : ℕ} (K : MlKem ekSize ctSize) (sk : SecretKey)
    (ct : Ciphertext) (h : ct.data.length = ctSize) :
    decapsWith K sk ct = .ok (K.decapsulate sk.kemSeed ⟨ct.data, h⟩) := by
  rw [decapsWith, parseCiphertextWith, dif_pos h]
  rfl

theorem decaps_ok (L : Suite) (sk : SecretKey) (ct : Ciphertext) (hct : ct.WellFormed)
    (h : ct.params = sk.params) : ∃ ss, decaps L sk ct = .ok ss := by
  have hs : IsSupportedParams sk.params := h ▸ hct.supported
  obtain ⟨arms⟩ := supported_arms L sk.params hs
  rw [arms.decaps_eq sk ct rfl, decapsWith_eq arms.kem sk ct (by rw [hct.length, h])]
  exact ⟨_, rfl⟩

/-- A secret key whose encapsulation key is the one encapsulated to recovers
the secret. Under implicit rejection every other one gets another secret. -/
theorem decaps_encaps {pk' : PublicKey} {sk' : SecretKey} (hv : L.KeysValid)
    (g : Generated L params pk sk) (g' : Generated L params pk' sk') (drawn : FixedBytes 32) :
    ∃ ct ss ss', encaps L drawn pk = .ok (ct, ss) ∧ ct.WellFormed ∧ ct.params = params ∧
      decaps L sk' ct = .ok ss' ∧
      (L.KemCorrect → pk'.data.take params.kemPkBytes = pk.data.take params.kemPkBytes →
        ss' = ss) ∧
      (L.Rejecting → pk'.data.take params.kemPkBytes ≠ pk.data.take params.kemPkBytes →
        ss' ≠ ss) := by
  obtain ⟨arms⟩ := supported_arms L params g.supported
  have hlen := (arms.kem.encapsulateDeterministic (arms.kem.encapsulationKey sk.kemSeed) drawn).1.2
  refine ⟨_, _, arms.kem.decapsulate sk'.kemSeed
      (arms.kem.encapsulateDeterministic (arms.kem.encapsulationKey sk.kemSeed) drawn).1,
    g.encaps_eq hv arms drawn, ⟨g.supported, hlen⟩, rfl, ?_, ?_⟩
  · rw [arms.decaps_eq _ _ g'.secretParams, decapsWith_eq arms.kem _ _ hlen]
  · rw [g.kemPart, g'.kemPart, arms.ekBytes_eq, arms.ekBytes_eq]
    constructor
    · intro hc heq
      have hek := Subtype.ext heq
      rw [← hek]
      exact arms.kemCorrect hc _ _
    · intro hr hne
      exact arms.rejecting hr _ _ _ (fun heq => hne (congrArg _ heq))

end GeneratedKeys

def ObtainedKey (L : Suite) (pk : PublicKey) : Prop :=
  (∃ seed params sk, keygenFromSeed L seed params = .ok (pk, sk)) ∨
    ∃ data params, PublicKey.fromBytes L data params = .ok pk

theorem obtained_wellFormed {L : Suite} {pk : PublicKey} (h : ObtainedKey L pk) :
    pk.WellFormed := by
  rcases h with ⟨seed, params, sk, hk⟩ | ⟨data, params, hk⟩
  · exact (generated_of_keygen L seed params pk sk hk).wellFormed
  · obtain ⟨hvalid, rfl⟩ := (fromBytes_ok_iff L data params pk).mp hk
    exact ⟨hvalid.supported, hvalid.length⟩

theorem obtained_statement {L : Suite} {pk : PublicKey} (h : ObtainedKey L pk) :
    ∃ t, decodeStatement (pk.data.drop (pk.params.kemPkBytes+pk.params.sigPkBytes)) =
      some t := by
  have hw := obtained_wellFormed h
  rcases h with ⟨seed, params, sk, hk⟩ | ⟨data, params, hk⟩
  · have g := generated_of_keygen L seed params pk sk hk
    obtain ⟨t, _, ht⟩ := g.statement_decodes
    rw [g.params_eq]
    exact ⟨t, ht⟩
  · obtain ⟨hvalid, rfl⟩ := (fromBytes_ok_iff L data params pk).mp hk
    exact (decodeStatement_isSome _
      (statementBytes_length hvalid.supported hvalid.length)).mpr hvalid.statement

end EirnKcp.KeyLaws
