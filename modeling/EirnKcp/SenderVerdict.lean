import EirnKcp.HonestHandshake
import EirnKcp.KemTotality

/-!
# How a sender call ends

A sender compares its pair and the profiles of the long-term keys, draws its
ephemeral key, and only then looks at the pool. On keys that constructors
returned there are three outcomes, and each has its exact condition.
-/

set_option autoImplicit false

namespace EirnKcp.SenderVerdict
open EirnKcp.CheckedCode EirnKcp.ByteCodec EirnKcp.Params EirnKcp.Primitives EirnKcp.Kem
open EirnKcp.KeyLaws EirnKcp.Zk EirnKcp.LiteProof EirnKcp.StrictProof EirnKcp.Prekey
open EirnKcp.Handshake EirnKcp.HandshakeSteps EirnKcp.WireFormat EirnKcp.ReceiverState
open EirnKcp.HonestHandshake EirnKcp.KemTotality EirnKcp.IdealSuite

/-- What the sender checks before it draws. -/
structure Compatible (skA : SecretKey) (pkA : PublicKey) (bundleB : PublicPrekeyBundle) :
    Prop where
  own : skA.matchesPublicKey pkA = true
  identity : pkA.params = bundleB.identityPk.params
  signedPrekey : bundleB.signedPrekeyPk.params = bundleB.identityPk.params

structure ObtainedBundle (L : Suite) (bundleB : PublicPrekeyBundle) : Prop where
  identity : ObtainedKey L bundleB.identityPk
  signedPrekey : ObtainedKey L bundleB.signedPrekeyPk
  oneTime : ∀ pk ∈ bundleB.oneTimePrekeys, ObtainedKey L pk

section Outcomes
variable {L : Suite} {skA : SecretKey} {pkA : PublicKey} {bundleB : PublicPrekeyBundle}
  (mode : KcpMode) (draws : SenderDraws)

theorem incompatible_refused (h : ¬ Compatible skA pkA bundleB) :
    senderCall L mode skA pkA bundleB draws = err .keyMismatch := by
  rw [senderCall_eq]
  unfold senderHandshakeWithMode
  by_cases hown : skA.matchesPublicKey pkA = true
  · rw [if_neg (not_not_intro hown), if_pos]
    by_contra hparams
    rw [not_or, not_not, not_not] at hparams
    exact h ⟨hown, hparams.1, hparams.2⟩
  · rw [if_pos hown]

theorem compatible_eq (h : Compatible skA pkA bundleB) (ekA : PublicKey) (eskA : SecretKey)
    (hek : keygenWithParams L draws.ephemeral bundleB.identityPk.params = .ok (ekA, eskA)) :
    (bundleB.oneTimePrekeys.head? = none →
      senderCall L mode skA pkA bundleB draws = err .noOneTimePrekeys) ∧
    ∀ opkB, bundleB.oneTimePrekeys.head? = some opkB →
      opkB.params ≠ bundleB.identityPk.params →
      senderCall L mode skA pkA bundleB draws = err .keyMismatch := by
  rw [senderCall_eq]
  unfold senderHandshakeWithMode
  rw [if_neg (not_not_intro h.own), if_neg (by rw [h.identity, h.signedPrekey]; simp), hek]
  constructor
  · intro hnone
    rw [hnone]
    rfl
  · intro opkB hsome hne
    rw [hsome]
    exact if_pos hne

theorem compatible_ok (hv : L.KeysValid) {params : EirnParams} {pk : PublicKey}
    (g : Generated L params pk skA) (hb : ObtainedBundle L bundleB)
    (h : Compatible skA pkA bundleB) (opkB : PublicKey)
    (hfirst : bundleB.oneTimePrekeys.head? = some opkB)
    (hopk : opkB.params = bundleB.identityPk.params) :
    ∃ msg k, senderCall L mode skA pkA bundleB draws = .ok (msg, k) := by
  rw [senderCall_eq]
  obtain rfl := matches_generated g pkA h.own
  have hparams : bundleB.identityPk.params = params := h.identity.symm.trans g.params_eq
  obtain ⟨ekA, eskA, hek, _⟩ := keygen_isOk L params g.supported draws.ephemeral
  obtain ⟨ct1, k1, h1⟩ := encaps_returns hv hb.identity draws.coins1
  obtain ⟨ct2, k2, h2⟩ := encaps_returns hv hb.signedPrekey draws.coins2
  obtain ⟨ct3, k3, h3⟩ := encaps_returns hv (hb.oneTime opkB (List.mem_of_mem_head? hfirst))
    draws.coins3
  obtain ⟨ct4, raw, h4⟩ := encaps_returns hv hb.signedPrekey draws.coins4
  have hproof : ∃ proof, senderProof L skA pkA params
      (buildContext pkA bundleB.identityPk ekA) mode = .ok proof := by
    cases mode with
    | lite =>
      obtain ⟨arms⟩ := supported_arms L params g.supported
      exact ⟨_, by rw [senderProof, liteProve_eq g arms]; rfl⟩
    | strict =>
      obtain ⟨strict, hprove, _⟩ := strictProof_honest g (buildContext pkA bundleB.identityPk ekA)
      exact ⟨_, by rw [senderProof, hprove]; rfl⟩
  obtain ⟨proof, hproof⟩ := hproof
  refine ⟨_, _, (senderHandshake_ok_iff L skA pkA bundleB mode draws _ _).mpr
    ⟨opkB, ekA, eskA, ⟨ct1, k1, ct2, k2, ct3, k3, ct4, L.sha3_256 (naxosInput raw skA.pkData
      bundleB.signedPrekeyPk.data (buildContext pkA bundleB.identityPk ekA))⟩, raw, proof,
    ⟨h.own, h.identity, h.signedPrekey, by rw [hparams]; exact hek, hfirst, hopk,
      ⟨h1, h2, h3, h4, rfl⟩, by rw [hparams]; exact hproof⟩, rfl, rfl⟩⟩

structure Verdict (L : Suite) (skA : SecretKey) (pkA : PublicKey) (bundleB : PublicPrekeyBundle)
    (mode : KcpMode) (draws : SenderDraws) : Prop where
  sent : (∃ msg k, senderCall L mode skA pkA bundleB draws = .ok (msg, k)) ↔
    Compatible skA pkA bundleB ∧ ∃ opkB, bundleB.oneTimePrekeys.head? = some opkB ∧
      opkB.params = bundleB.identityPk.params
  exhausted : senderCall L mode skA pkA bundleB draws = err .noOneTimePrekeys ↔
    Compatible skA pkA bundleB ∧ bundleB.oneTimePrekeys = []
  mismatch : senderCall L mode skA pkA bundleB draws = err .keyMismatch ↔
    ¬ Compatible skA pkA bundleB ∨ ∃ opkB, bundleB.oneTimePrekeys.head? = some opkB ∧
      opkB.params ≠ bundleB.identityPk.params

theorem sender_outcome (pkA : PublicKey) (mode : KcpMode) (draws : SenderDraws)
    (hv : L.KeysValid) (hsk : ObtainedSecretKey L skA) (hb : ObtainedBundle L bundleB) :
    Verdict L skA pkA bundleB mode draws := by
  obtain ⟨seed, params, pk, hk⟩ := hsk
  have g := generated_of_keygen L seed params pk skA hk
  by_cases h : Compatible skA pkA bundleB
  · obtain rfl := matches_generated g pkA h.own
    have hparams : bundleB.identityPk.params = params := h.identity.symm.trans g.params_eq
    obtain ⟨ekA, eskA, hek, _⟩ := keygen_isOk L params g.supported draws.ephemeral
    rw [← hparams] at hek
    obtain ⟨hnone, hother⟩ := compatible_eq mode draws h ekA eskA hek
    cases hfirst : bundleB.oneTimePrekeys.head? with
    | none =>
      have hempty : bundleB.oneTimePrekeys = [] := List.head?_eq_none_iff.mp hfirst
      have hcall := hnone hfirst
      constructor
      · simp [hcall, hempty, err]
      · simp [hcall, hempty, h]
      · simp [hcall, hempty, h, err]
    | some opkB =>
      have hne : bundleB.oneTimePrekeys ≠ [] := by
        intro hempty
        rw [hempty] at hfirst
        cases hfirst
      by_cases hopk : opkB.params = bundleB.identityPk.params
      · obtain ⟨msg, k, hcall⟩ := compatible_ok mode draws hv g hb h opkB
          hfirst hopk
        constructor
        · simp [hcall, hfirst, hopk, h]
        · simp [hcall, hne, err]
        · simp [hcall, hfirst, hopk, h, err]
      · have hcall := hother opkB hfirst hopk
        constructor
        · simp [hcall, hfirst, hopk, err]
        · simp [hcall, hne, err]
        · simp [hcall, hfirst, hopk]
  · have hcall : senderCall L mode skA pkA bundleB draws = err .keyMismatch :=
      incompatible_refused mode draws h
    constructor
    · simp [hcall, h, err]
    · simp [hcall, h, err]
    · simp [hcall, h]

end Outcomes

/-- For every pair of generation, every bundle of constructed keys and both
modes, a sender call returns a message, finds no one-time prekey or reports a
mismatch, each exactly under its condition, and ends in no other way. -/
theorem sender_verdict (L : Suite) (hv : L.KeysValid) (skA : SecretKey)
    (hsk : ObtainedSecretKey L skA) (pkA : PublicKey) (bundleB : PublicPrekeyBundle)
    (hb : ObtainedBundle L bundleB) (mode : KcpMode) (draws : SenderDraws) :
    Verdict L skA pkA bundleB mode draws ∧
      ((∃ msg k, senderCall L mode skA pkA bundleB draws = .ok (msg, k)) ∨
        senderCall L mode skA pkA bundleB draws = err .noOneTimePrekeys ∨
        senderCall L mode skA pkA bundleB draws = err .keyMismatch) := by
  have h := sender_outcome pkA mode draws hv hsk hb
  refine ⟨h, ?_⟩
  rw [h.sent, h.exhausted, h.mismatch]
  by_cases hc : Compatible skA pkA bundleB
  · cases hfirst : bundleB.oneTimePrekeys.head? with
    | none => exact Or.inr (Or.inl ⟨hc, List.head?_eq_none_iff.mp hfirst⟩)
    | some opkB =>
      by_cases hopk : opkB.params = bundleB.identityPk.params
      · exact Or.inl ⟨hc, opkB, rfl, hopk⟩
      · exact Or.inr (Or.inr (Or.inr ⟨opkB, rfl, hopk⟩))
  · exact Or.inr (Or.inr (Or.inl hc))

theorem sender_verdict_mixed :
    ∃ pkA skA bundle,
      keygenFromSeed idealSuite (zeros 96) params1024 = .ok (pkA, skA) ∧
      generatePrekeyBundleWithParams idealSuite (fun _ => zeros 96) 1 params768 = .ok bundle ∧
      senderCall idealSuite .lite skA pkA bundle.publicBundle zeroDraws = err .keyMismatch := by
  obtain ⟨pkA, skA, hA, g, _⟩ := keygen_generated idealSuite (zeros 96) params1024 supported1024
  obtain ⟨bundle, hgen, hinv, _⟩ := generate_ok idealSuite params768 supported768
    (fun _ => zeros 96) 1
  obtain ⟨seed, hid⟩ := hinv.identity
  obtain ⟨seed', hspk⟩ := hinv.signedPrekey
  have hb : ObtainedBundle idealSuite bundle.publicBundle := by
    refine ⟨Or.inl ⟨seed, _, _, hid⟩, Or.inl ⟨seed', _, _, hspk⟩, ?_⟩
    intro pk hpk
    obtain ⟨i, hi, rfl⟩ := List.mem_iff_getElem.mp hpk
    obtain ⟨s, hs⟩ := hinv.pool.get hi (hinv.pool.length_eq ▸ hi)
    exact Or.inl ⟨s, _, _, hs⟩
  refine ⟨pkA, skA, bundle, hA, hgen, ?_⟩
  rw [(sender_verdict idealSuite idealSuite_lawful.keysValid skA ⟨_, _, _, hA⟩ pkA
    bundle.publicBundle hb .lite zeroDraws).1.mismatch]
  refine Or.inl (fun h => params1024_ne_params768 ?_)
  rw [← g.params_eq, h.identity, PrekeyBundle.publicBundle,
    hinv.identity.generated.params_eq]

end EirnKcp.SenderVerdict
