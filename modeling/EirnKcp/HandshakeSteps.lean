import EirnKcp.Handshake
import EirnKcp.LiteProof
import EirnKcp.StrictProof

/-!
# What one handshake call does

A successful sender call is described by its keys, its four encapsulations and
its proof. A receiver call fails one of its checks, finds the pool empty, or
consumes the first pair and derives a key; only the last changes the state.
-/

set_option autoImplicit false

namespace EirnKcp.HandshakeSteps
open EirnKcp.CheckedCode EirnKcp.ByteCodec EirnKcp.Params EirnKcp.Primitives
open EirnKcp.LatticeZk EirnKcp.Kem EirnKcp.KeyLaws EirnKcp.Zk EirnKcp.ProofCodec
open EirnKcp.LiteProof EirnKcp.StrictProof EirnKcp.Prekey EirnKcp.Handshake

section Sender
variable (L : Suite)

structure LegsOf (skA : SecretKey) (bundleB : PublicPrekeyBundle) (opkB : PublicKey)
    (ctx : Bytes) (draws : SenderDraws) (legs : Legs) (raw : FixedBytes 32) : Prop where
  leg1 : encaps L draws.coins1 bundleB.identityPk = .ok (legs.ct1, legs.k1)
  leg2 : encaps L draws.coins2 bundleB.signedPrekeyPk = .ok (legs.ct2, legs.k2)
  leg3 : encaps L draws.coins3 opkB = .ok (legs.ct3, legs.k3)
  leg4 : encaps L draws.coins4 bundleB.signedPrekeyPk = .ok (legs.ct4, raw)
  naxos : legs.k4 = L.sha3_256 (naxosInput raw skA.pkData bundleB.signedPrekeyPk.data ctx)

theorem senderLegs_ok_iff (skA eskA : SecretKey) (bundleB : PublicPrekeyBundle)
    (opkB : PublicKey) (ctx : Bytes) (draws : SenderDraws) (legs : Legs) :
    senderLegs L skA eskA bundleB opkB ctx draws = .ok legs ↔
      ∃ raw, LegsOf L skA bundleB opkB ctx draws legs raw := by
  simp only [senderLegs, naxosEncaps, bind_ok_iff, Prod.exists, pure_ok, Except.ok.injEq,
    Prod.mk.injEq]
  constructor
  · rintro ⟨ct1, k1, h1, ct2, k2, h2, ct3, k3, h3, ct4, k4, ⟨_, raw, h4, rfl, rfl⟩, rfl⟩
    exact ⟨raw, h1, h2, h3, h4, rfl⟩
  · rintro ⟨raw, h1, h2, h3, h4, h5⟩
    refine ⟨_, _, h1, _, _, h2, _, _, h3, _, _, ⟨_, raw, h4, rfl, rfl⟩, ?_⟩
    rw [← h5]

/-- What a sender call used and produced when it returned. -/
structure SenderRun (skA : SecretKey) (pkA : PublicKey) (bundleB : PublicPrekeyBundle)
    (mode : KcpMode) (draws : SenderDraws) (opkB ekA : PublicKey) (eskA : SecretKey)
    (legs : Legs) (raw : FixedBytes 32) (proof : KcpLiteProof × Option KcpStrictProof) : Prop
    where
  own : skA.matchesPublicKey pkA = true
  params : pkA.params = bundleB.identityPk.params
  signedPrekey : bundleB.signedPrekeyPk.params = bundleB.identityPk.params
  ephemeral : keygenWithParams L draws.ephemeral bundleB.identityPk.params = .ok (ekA, eskA)
  first : bundleB.oneTimePrekeys.head? = some opkB
  oneTime : opkB.params = bundleB.identityPk.params
  legs : LegsOf L skA bundleB opkB (buildContext pkA bundleB.identityPk ekA) draws legs raw
  proof : senderProof L skA pkA bundleB.identityPk.params
    (buildContext pkA bundleB.identityPk ekA) mode = .ok proof

def sentMessage (pkA ekA : PublicKey) (legs : Legs) (mode : KcpMode)
    (proof : KcpLiteProof × Option KcpStrictProof) : Msg0Prime :=
  ⟨pkA, ekA, legs.ct1, legs.ct2, legs.ct3, legs.ct4, mode, proof.1, proof.2⟩

def sentKey (pkA pkB ekA : PublicKey) (legs : Legs) : FixedBytes 32 :=
  deriveSessionKey L legs.secrets pkA.data pkB.data ekA.data legs.ciphertexts none

theorem senderHandshake_ok_iff (skA : SecretKey) (pkA : PublicKey)
    (bundleB : PublicPrekeyBundle) (mode : KcpMode) (draws : SenderDraws) (msg : Msg0Prime)
    (k : FixedBytes 32) :
    senderHandshakeWithMode L skA pkA bundleB mode draws = .ok (msg, k) ↔
      ∃ opkB ekA eskA legs raw proof,
        SenderRun L skA pkA bundleB mode draws opkB ekA eskA legs raw proof ∧
          msg = sentMessage pkA ekA legs mode proof ∧
          k = sentKey L pkA bundleB.identityPk ekA legs := by
  unfold senderHandshakeWithMode
  by_cases hown : skA.matchesPublicKey pkA = true
  · rw [if_neg (not_not_intro hown)]
    by_cases hparams : pkA.params = bundleB.identityPk.params ∧
        bundleB.signedPrekeyPk.params = bundleB.identityPk.params
    · rw [if_neg (by rw [hparams.1, hparams.2]; simp)]
      simp only [bind_ok_iff, Prod.exists]
      constructor
      · rintro ⟨ekA, eskA, hk, h⟩
        cases hh : bundleB.oneTimePrekeys.head? with
        | none =>
          rw [hh] at h
          cases h
        | some opkB =>
          rw [hh] at h
          dsimp only at h
          by_cases hopk : opkB.params = bundleB.identityPk.params
          · rw [if_neg (not_not_intro hopk)] at h
            simp only [bind_ok_iff, senderLegs_ok_iff, Prod.exists, pure_ok, Except.ok.injEq,
              Prod.mk.injEq] at h
            obtain ⟨legs, ⟨raw, hlegs⟩, lite, strict, hproof, rfl, rfl⟩ := h
            exact ⟨opkB, ekA, eskA, legs, raw, lite, strict,
              ⟨hown, hparams.1, hparams.2, hk, hh, hopk, hlegs, hproof⟩, rfl, rfl⟩
          · rw [if_pos hopk] at h
            cases h
      · rintro ⟨opkB, ekA, eskA, legs, raw, lite, strict, run, rfl, rfl⟩
        refine ⟨ekA, eskA, run.ephemeral, ?_⟩
        rw [run.first]
        dsimp only
        rw [if_neg (not_not_intro run.oneTime)]
        simp only [bind_ok_iff, senderLegs_ok_iff, Prod.exists, pure_ok, Except.ok.injEq]
        exact ⟨legs, ⟨raw, run.legs⟩, lite, strict, run.proof, rfl⟩
    · rw [if_pos (by tauto)]
      constructor
      · intro h
        cases h
      · rintro ⟨opkB, ekA, eskA, legs, raw, proof, run, _, _⟩
        exact absurd ⟨run.params, run.signedPrekey⟩ hparams
  · rw [if_pos hown]
    constructor
    · intro h
      cases h
    · rintro ⟨opkB, ekA, eskA, legs, raw, proof, run, _, _⟩
      exact absurd run.own hown

theorem encaps_wellFormed (drawn : FixedBytes 32) (pk : PublicKey) (ct : Ciphertext)
    (ss : FixedBytes 32) (hs : IsSupportedParams pk.params)
    (h : encaps L drawn pk = .ok (ct, ss)) : ct.WellFormed ∧ ct.params = pk.params := by
  obtain ⟨arms⟩ := supported_arms L pk.params hs
  rw [encaps, arms.encaps_eq pk drawn rfl, encapsWith, bind_ok_iff] at h
  obtain ⟨ek, _, hct⟩ := h
  simp only [pure_ok, Except.ok.injEq, Prod.mk.injEq] at hct
  obtain ⟨rfl, _⟩ := hct
  exact ⟨⟨hs, (arms.kem.encapsulateDeterministic ek drawn).1.2⟩, rfl⟩

end Sender

section Receiver
variable (L : Suite) (bundleB : PrekeyBundle) (msg : Msg0Prime)

/-- Keys and ciphertexts come from constructors, which check their sizes. -/
structure Constructed (msg : Msg0Prime) : Prop where
  pkA : msg.pkA.WellFormed
  ekA : msg.ekA.WellFormed
  ct1 : msg.ct1.WellFormed
  ct2 : msg.ct2.WellFormed
  ct3 : msg.ct3.WellFormed
  ct4 : msg.ct4.WellFormed

structure OfProfile (params : EirnParams) (msg : Msg0Prime) : Prop where
  pkA : msg.pkA.params = params
  ekA : msg.ekA.params = params
  ct1 : msg.ct1.params = params
  ct2 : msg.ct2.params = params
  ct3 : msg.ct3.params = params
  ct4 : msg.ct4.params = params

def receiverContext (msg : Msg0Prime) : Bytes :=
  buildContext msg.pkA bundleB.identityPk msg.ekA

def ProofAcceptedIn (msg : Msg0Prime) (ctx : Bytes) : Prop :=
  match msg.kcpMode with
  | .lite => kcpLiteVerify L msg.pkA.data ctx msg.kcpLiteProof = .ok true
  | .strict => ∃ proof, msg.kcpStrictProof = some proof ∧
      kcpStrictVerify L msg.pkA ctx proof = .ok true

def ProofAccepted : Prop := ProofAcceptedIn L msg (receiverContext bundleB msg)

theorem ofProfile_iff (params : EirnParams) :
    (¬ (msg.pkA.params ≠ params ∨ msg.ekA.params ≠ params ∨ msg.ct1.params ≠ params ∨
      msg.ct2.params ≠ params ∨ msg.ct3.params ≠ params ∨ msg.ct4.params ≠ params)) ↔
      OfProfile params msg := by
  constructor
  · intro h
    simp only [not_or, not_not] at h
    exact ⟨h.1, h.2.1, h.2.2.1, h.2.2.2.1, h.2.2.2.2.1, h.2.2.2.2.2⟩
  · intro h
    simp [h.pkA, h.ekA, h.ct1, h.ct2, h.ct3, h.ct4]

def ShowsProofOf (msg msg' : Msg0Prime) : Prop :=
  msg'.kcpMode = msg.kcpMode ∧
    match msg.kcpMode with
    | .lite => msg'.kcpLiteProof = msg.kcpLiteProof
    | .strict => msg'.kcpStrictProof = msg.kcpStrictProof

theorem showsProofOf_of_fields (msg msg' : Msg0Prime) (hm : msg'.kcpMode = msg.kcpMode)
    (hl : msg'.kcpLiteProof = msg.kcpLiteProof) (hs : msg'.kcpStrictProof = msg.kcpStrictProof) :
    ShowsProofOf msg msg' := by
  refine ⟨hm, ?_⟩
  cases msg.kcpMode with
  | lite => exact hl
  | strict => exact hs

theorem shows_accepted (msg msg' : Msg0Prime) (ctx : Bytes) (hpk : msg'.pkA = msg.pkA)
    (hshow : ShowsProofOf msg msg') (h : ProofAcceptedIn L msg ctx) :
    ProofAcceptedIn L msg' ctx := by
  obtain ⟨hmode, hproof⟩ := hshow
  unfold ProofAcceptedIn at h ⊢
  rw [hmode, hpk]
  cases hm : msg.kcpMode with
  | lite =>
    simp only [hm] at h hproof ⊢
    rw [hproof]
    exact h
  | strict =>
    simp only [hm] at h hproof ⊢
    rw [hproof]
    exact h

theorem receiverChecks_cases (hc : Constructed msg) :
    (receiverChecks L bundleB msg = .ok () ∧
        OfProfile bundleB.identityPk.params msg ∧ ProofAccepted L bundleB msg) ∨
      ((receiverChecks L bundleB msg = err .keyMismatch ∨
          receiverChecks L bundleB msg = err .authenticationFailed) ∧
        ¬ (OfProfile bundleB.identityPk.params msg ∧ ProofAccepted L bundleB msg)) := by
  by_cases hp : OfProfile bundleB.identityPk.params msg
  · rw [receiverChecks, if_neg ((ofProfile_iff msg _).mpr hp), ProofAccepted, ProofAcceptedIn]
    cases msg.kcpMode with
    | lite =>
      obtain ⟨accepted, hv⟩ := liteVerify_ok L msg.pkA.data (receiverContext bundleB msg)
        msg.kcpLiteProof
      simp only [receiverContext] at hv ⊢
      rw [hv, ok_bind]
      cases accepted with
      | true => exact Or.inl ⟨rfl, hp, rfl⟩
      | false => exact Or.inr ⟨Or.inr rfl, fun h => by cases h.2⟩
    | strict =>
      cases msg.kcpStrictProof with
      | none => exact Or.inr ⟨Or.inr rfl, fun ⟨_, _, h, _⟩ => by cases h⟩
      | some proof =>
        obtain ⟨accepted, hv⟩ := strictVerify_ok L msg.pkA (receiverContext bundleB msg) hc.pkA
          proof
        simp only [receiverContext] at hv ⊢
        rw [hv, ok_bind]
        cases accepted with
        | true => exact Or.inl ⟨rfl, hp, proof, rfl, hv⟩
        | false =>
          refine Or.inr ⟨Or.inr rfl, ?_⟩
          rintro ⟨_, other, hsome, haccept⟩
          cases hsome
          rw [hv] at haccept
          cases haccept
  · refine Or.inr ⟨Or.inl ?_, fun h => hp h.1⟩
    rw [receiverChecks, if_pos]
    by_contra h
    exact hp ((ofProfile_iff msg _).mp h)

structure SecretsOf (opkSk : SecretKey) (k1 k2 k3 raw : FixedBytes 32) : Prop where
  leg1 : decaps L bundleB.identitySk msg.ct1 = .ok k1
  leg2 : decaps L bundleB.signedPrekeySk msg.ct2 = .ok k2
  leg3 : decaps L opkSk msg.ct3 = .ok k3
  leg4 : decaps L bundleB.signedPrekeySk msg.ct4 = .ok raw

def receiverNaxos (raw : FixedBytes 32) : FixedBytes 32 :=
  L.sha3_256 (naxosInput raw msg.pkA.data bundleB.signedPrekeySk.pkData
    (receiverContext bundleB msg))

def receivedKey (secrets : List (FixedBytes 32)) : FixedBytes 32 :=
  deriveSessionKey L secrets msg.pkA.data bundleB.identityPk.data msg.ekA.data
    msg.ciphertexts none

theorem receiverKey_ok_iff (opkSk : SecretKey) (k : FixedBytes 32) :
    receiverKey L bundleB opkSk msg = .ok k ↔
      ∃ k1 k2 k3 raw, SecretsOf L bundleB msg opkSk k1 k2 k3 raw ∧
        k = receivedKey L bundleB msg [k1, k2, k3, receiverNaxos L bundleB msg raw] := by
  simp only [receiverKey, receiverSecrets, naxosDecaps, bind_ok_iff, pure_ok, Except.ok.injEq]
  constructor
  · rintro ⟨_, ⟨k1, h1, k2, h2, k3, h3, _, ⟨raw, h4, rfl⟩, rfl⟩, rfl⟩
    exact ⟨k1, k2, k3, raw, ⟨h1, h2, h3, h4⟩, rfl⟩
  · rintro ⟨k1, k2, k3, raw, h, rfl⟩
    exact ⟨_, ⟨k1, h.leg1, k2, h.leg2, k3, h.leg3, _, ⟨raw, h.leg4, rfl⟩, rfl⟩, rfl⟩

theorem receiverKey_isOk (opkSk : SecretKey) (hc : Constructed msg)
    (hp : OfProfile bundleB.identityPk.params msg)
    (hid : bundleB.identitySk.params = bundleB.identityPk.params)
    (hspk : bundleB.signedPrekeySk.params = bundleB.identityPk.params)
    (hopk : opkSk.params = bundleB.identityPk.params) :
    ∃ k, receiverKey L bundleB opkSk msg = .ok k := by
  obtain ⟨k1, h1⟩ := decaps_ok L bundleB.identitySk msg.ct1 hc.ct1 (by rw [hp.ct1, hid])
  obtain ⟨k2, h2⟩ := decaps_ok L bundleB.signedPrekeySk msg.ct2 hc.ct2 (by rw [hp.ct2, hspk])
  obtain ⟨k3, h3⟩ := decaps_ok L opkSk msg.ct3 hc.ct3 (by rw [hp.ct3, hopk])
  obtain ⟨raw, h4⟩ := decaps_ok L bundleB.signedPrekeySk msg.ct4 hc.ct4 (by rw [hp.ct4, hspk])
  exact ⟨_, (receiverKey_ok_iff L bundleB msg opkSk _).mpr ⟨k1, k2, k3, raw, ⟨h1, h2, h3, h4⟩, rfl⟩⟩

end Receiver

end EirnKcp.HandshakeSteps
