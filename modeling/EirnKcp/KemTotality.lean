import EirnKcp.LiteBinding
import EirnKcp.WireFormat

/-!
# Which failures of validated values can be reached

Keys and ciphertexts are checked against their own profile when they are made.
Encapsulation and the provers use one profile throughout. Decapsulation looks
at the secret key's profile only and meets ciphertexts of either.
-/

set_option autoImplicit false

namespace EirnKcp.KemTotality
open EirnKcp.CheckedCode EirnKcp.ByteCodec EirnKcp.Params EirnKcp.Primitives
open EirnKcp.LatticeZk EirnKcp.Kem EirnKcp.KeyLaws EirnKcp.Zk EirnKcp.StrictProof
open EirnKcp.Prekey EirnKcp.HandshakeSteps EirnKcp.LiteBinding EirnKcp.WireFormat
open EirnKcp.IdealSuite

def ObtainedSecretKey (L : Suite) (sk : SecretKey) : Prop :=
  ∃ seed params pk, keygenFromSeed L seed params = .ok (pk, sk)

def ObtainedCiphertext (L : Suite) (ct : Ciphertext) : Prop :=
  (∃ pk coins ss, ObtainedKey L pk ∧
    (encapsDeterministic L pk coins = .ok (ct, ss) ∨ encaps L coins pk = .ok (ct, ss))) ∨
    ∃ data params, Ciphertext.fromBytes L data params = .ok ct

section Values
variable {L : Suite}

theorem obtained_ciphertext_wellFormed {ct : Ciphertext} (h : ObtainedCiphertext L ct) :
    ct.WellFormed := by
  rcases h with ⟨pk, coins, ss, hpk, henc⟩ | ⟨data, params, hct⟩
  · have hs := (obtained_wellFormed hpk).supported
    rcases henc with henc | henc
    · exact (encaps_wellFormed L coins pk ct ss hs henc).1
    · exact (encaps_wellFormed L coins pk ct ss hs henc).1
  · obtain ⟨hs, hl, rfl⟩ := (ciphertext_fromBytes_ok_iff L data params ct).mp hct
    exact ⟨hs, hl⟩

theorem obtained_valid (hv : L.KeysValid) {pk : PublicKey} (h : ObtainedKey L pk) :
    ValidKeyBytes L pk.params pk.data := by
  rcases h with ⟨seed, params, sk, hk⟩ | ⟨data, params, hk⟩
  · have g := generated_of_keygen L seed params pk sk hk
    rw [g.params_eq]
    exact g.validBytes hv
  · obtain ⟨hvalid, rfl⟩ := (fromBytes_ok_iff L data params pk).mp hk
    exact hvalid

theorem encaps_returns (hv : L.KeysValid) {pk : PublicKey} (h : ObtainedKey L pk)
    (coins : FixedBytes 32) : ∃ ct ss, encapsDeterministic L pk coins = .ok (ct, ss) := by
  have hvalid := obtained_valid hv h
  obtain ⟨arms⟩ := supported_arms L pk.params hvalid.supported
  obtain ⟨ek, hparse, _⟩ := arms.parse_valid hvalid
  rw [arms.encaps_eq pk coins rfl, encapsWith, hparse]
  exact ⟨_, _, rfl⟩

theorem decaps_mixed {sk : SecretKey} {ct : Ciphertext} (hs : IsSupportedParams sk.params)
    (hct : ct.WellFormed) (hne : sk.params ≠ ct.params) :
    decaps L sk ct = panic (.expect "Ciphertext values are validated at construction") := by
  obtain ⟨arms⟩ := supported_arms L sk.params hs
  have hl : ct.data.length ≠ sk.params.ctBytes := by
    rw [hct.length]
    intro h
    exact hne (supported_eq_of_ctBytes _ _ hs hct.supported h.symm)
  rw [arms.decaps_eq sk ct rfl, decapsWith, parseCiphertextWith, dif_neg hl]
  rfl

theorem obtained_secret_supported {sk : SecretKey} (h : ObtainedSecretKey L sk) :
    IsSupportedParams sk.params := by
  obtain ⟨seed, params, pk, hk⟩ := h
  have g := generated_of_keygen L seed params pk sk hk
  rw [g.secretParams]
  exact g.supported

theorem decaps_returns_iff {sk : SecretKey} {ct : Ciphertext} (hsk : ObtainedSecretKey L sk)
    (hct : ct.WellFormed) : ¬ Panics (decaps L sk ct) ↔ sk.params = ct.params := by
  by_cases h : sk.params = ct.params
  · obtain ⟨ss, hss⟩ := decaps_ok L sk ct hct h.symm
    rw [hss]
    exact iff_of_true (ok_not_panics ss) h
  · rw [decaps_mixed (obtained_secret_supported hsk) hct h]
    exact iff_of_false (not_not_intro (panic_panics _)) h

theorem liteProve_returns {sk : SecretKey} (hsk : ObtainedSecretKey L sk) (pk ctx : Bytes) :
    ¬ Panics (kcpLiteProve L sk pk ctx) := by
  obtain ⟨seed, params, own, hk⟩ := hsk
  have g := generated_of_keygen L seed params own sk hk
  by_cases hown : ctEq sk.pkData pk = true
  · obtain rfl : own.data = pk := g.secretData.symm.trans ((ctEq_iff _ _).mp hown)
    obtain ⟨p, hp, _⟩ := liteProve_honest g ctx
    rw [hp]
    exact ok_not_panics p
  · rw [kcpLiteProve, if_pos hown]
    exact err_not_panics _

theorem strictProve_returns {sk : SecretKey} (hsk : ObtainedSecretKey L sk) (pk : PublicKey)
    (ctx : Bytes) : ¬ Panics (kcpStrictProve L sk pk ctx) := by
  obtain ⟨seed, params, own, hk⟩ := hsk
  have g := generated_of_keygen L seed params own sk hk
  by_cases hown : sk.matchesPublicKey pk = true
  · obtain rfl := matches_generated g pk hown
    obtain ⟨_, _, _, _, _, _, _, _, _, hp⟩ := strictProve_ok g ctx
    rw [hp]
    exact ok_not_panics _
  · rw [kcpStrictProve, if_pos hown]
    exact err_not_panics _

end Values

structure CallsReturn (L : Suite) (sk ephemeralSk : SecretKey) (pk : PublicKey) (ct : Ciphertext)
    (coins : FixedBytes 32) (pkBytes ctx : Bytes) : Prop where
  encapsDeterministic : ¬ Panics (encapsDeterministic L pk coins)
  decaps : ¬ Panics (decaps L sk ct)
  naxosEncaps : ¬ Panics (naxosEncaps L coins pk sk ephemeralSk ctx)
  naxosDecaps : ¬ Panics (naxosDecaps L sk ct pk ctx)
  kcpLiteProve : ¬ Panics (kcpLiteProve L sk pkBytes ctx)
  kcpStrictProve : ¬ Panics (kcpStrictProve L sk pk ctx)

/-- On values that their constructors returned, in any mix of profiles, all
calls return exactly when the ciphertext has the secret key's profile. -/
theorem kem_calls_return_iff (L : Suite) (hv : L.KeysValid) (sk ephemeralSk : SecretKey)
    (hsk : ObtainedSecretKey L sk) (pk : PublicKey) (hpk : ObtainedKey L pk) (ct : Ciphertext)
    (hct : ObtainedCiphertext L ct) (coins : FixedBytes 32) (pkBytes ctx : Bytes) :
    CallsReturn L sk ephemeralSk pk ct coins pkBytes ctx ↔ sk.params = ct.params := by
  have hdecaps := decaps_returns_iff hsk (obtained_ciphertext_wellFormed hct)
  obtain ⟨encapsulated, ss, henc⟩ := encaps_returns hv hpk coins
  constructor
  · intro h
    exact hdecaps.mp h.decaps
  · intro h
    refine ⟨?_, hdecaps.mpr h, ?_, ?_, liteProve_returns hsk pkBytes ctx,
      strictProve_returns hsk pk ctx⟩
    · rw [henc]
      exact ok_not_panics _
    · rw [naxosEncaps, encaps, henc]
      exact ok_not_panics _
    · exact bind_not_panics _ _ (hdecaps.mpr h) (fun _ _ => ok_not_panics _)

theorem kem_calls_return_iff_768 :
    ∃ pk sk, keygenFromSeed idealSuite (zeros 96) params768 = .ok (pk, sk) ∧
      (CallsReturn idealSuite sk sk pk ⟨(zeros 1088).1, params768⟩ (zeros 32) [] [] ↔
        sk.params = params768) := by
  obtain ⟨pk, sk, hk, _⟩ := keygen_generated idealSuite (zeros 96) params768 supported768
  have hct : Ciphertext.fromBytes idealSuite (zeros 1088).1 params768 =
      .ok ⟨(zeros 1088).1, params768⟩ :=
    (ciphertext_fromBytes_ok_iff _ _ _ _).mpr ⟨supported768, (zeros 1088).2, rfl⟩
  exact ⟨pk, sk, hk, kem_calls_return_iff idealSuite idealSuite_lawful.keysValid sk sk
    ⟨_, _, pk, hk⟩ pk (Or.inl ⟨_, _, sk, hk⟩) _ (Or.inr ⟨_, _, hct⟩) (zeros 32) [] []⟩

theorem mixed_profiles_panic :
    ∃ pk sk ct, keygenFromSeed idealSuite (zeros 96) params768 = .ok (pk, sk) ∧
      Ciphertext.fromBytes idealSuite (zeros 1568).1 params1024 = .ok ct ∧
      decaps idealSuite sk ct =
        panic (.expect "Ciphertext values are validated at construction") ∧
      naxosDecaps idealSuite sk ct pk [] =
        panic (.expect "Ciphertext values are validated at construction") ∧
      ¬ CallsReturn idealSuite sk sk pk ct (zeros 32) [] [] := by
  obtain ⟨pk, sk, hk, g, _⟩ := keygen_generated idealSuite (zeros 96) params768 supported768
  have hct : Ciphertext.fromBytes idealSuite (zeros 1568).1 params1024 =
      .ok ⟨(zeros 1568).1, params1024⟩ :=
    (ciphertext_fromBytes_ok_iff _ _ _ _).mpr ⟨supported1024, (zeros 1568).2, rfl⟩
  have hdecaps : decaps idealSuite sk ⟨(zeros 1568).1, params1024⟩ =
      panic (.expect "Ciphertext values are validated at construction") := by
    apply decaps_mixed (obtained_secret_supported ⟨_, _, pk, hk⟩)
      ⟨supported1024, (zeros 1568).2⟩
    rw [g.secretParams]
    exact params1024_ne_params768.symm
  refine ⟨pk, sk, _, hk, hct, hdecaps, ?_, fun h => h.decaps ⟨_, hdecaps⟩⟩
  rw [naxosDecaps, hdecaps]
  rfl

end EirnKcp.KemTotality
