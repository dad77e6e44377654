import EirnKcp.ReceiverState
import EirnKcp.WireFormat

/-!
# Honest handshakes

A sender holding a generated pair and a snapshot of a receiver's public bundle
gets a message whose proof that receiver accepts. Three of the four secrets are
those of the sender in every later state; the one-time secret is the sender's
exactly when the first remaining pair has the key encapsulated to.
-/

set_option autoImplicit false

namespace EirnKcp.HonestHandshake
open EirnKcp.CheckedCode EirnKcp.ByteCodec EirnKcp.Params EirnKcp.Primitives
open EirnKcp.Kem EirnKcp.KeyLaws EirnKcp.Zk EirnKcp.LiteProof EirnKcp.StrictProof
open EirnKcp.Prekey EirnKcp.Handshake EirnKcp.HandshakeSteps EirnKcp.WireFormat
open EirnKcp.ReceiverState EirnKcp.CallRuns EirnKcp.IdealSuite

section Legs
variable {L : Suite} {params : EirnParams} {pk pk' : PublicKey} {sk sk' : SecretKey}
  {drawn : FixedBytes 32} {ct : Ciphertext} {ss : FixedBytes 32}

theorem leg_secret (hv : L.KeysValid) (hc : L.KemCorrect) (g : Generated L params pk sk)
    (h : encaps L drawn pk = .ok (ct, ss)) : decaps L sk ct = .ok ss := by
  obtain ⟨ct', ss', own, henc, _, _, hdec, hown, _⟩ := decaps_encaps hv g g drawn
  rw [h] at henc
  cases henc
  rw [hdec, hown hc rfl]

theorem leg_other (hv : L.KeysValid) (g : Generated L params pk sk)
    (g' : Generated L params pk' sk') (h : encaps L drawn pk = .ok (ct, ss)) :
    ∃ ss', decaps L sk' ct = .ok ss' ∧
      (L.KemCorrect → pk'.data.take params.kemPkBytes = pk.data.take params.kemPkBytes →
        ss' = ss) ∧
      (L.Rejecting → pk'.data.take params.kemPkBytes ≠ pk.data.take params.kemPkBytes →
        ss' ≠ ss) := by
  obtain ⟨ct', ss', other, henc, _, _, hdec, hsame, hdiff⟩ := decaps_encaps hv g g' drawn
  rw [h] at henc
  cases henc
  exact ⟨other, hdec, hsame, hdiff⟩

end Legs

section Run
variable {L : Suite} {params : EirnParams} {skA eskA : SecretKey} {pkA opkB ekA : PublicKey}
  {snapshot : PublicPrekeyBundle} {mode : KcpMode} {draws : SenderDraws} {legs : Legs}
  {raw : FixedBytes 32} {proof : KcpLiteProof × Option KcpStrictProof} {b : PrekeyBundle}

/-- The parts of a snapshot that do not change while the receiver runs. -/
structure SnapshotOf (b : PrekeyBundle) (snapshot : PublicPrekeyBundle) : Prop where
  identityPk : snapshot.identityPk = b.identityPk
  signedPrekeyPk : snapshot.signedPrekeyPk = b.signedPrekeyPk

theorem receiverContext_sent (hsnap : SnapshotOf b snapshot) :
    receiverContext b (sentMessage pkA ekA legs mode proof) =
      buildContext pkA snapshot.identityPk ekA := by
  rw [receiverContext, hsnap.identityPk]
  rfl

/-- The secrets that the receiver gets from a sent message with the one-time
key `sk'`: the sender's, but for the third. -/
theorem secrets_sent {opkSk sk' : SecretKey} {pk' : PublicKey} (hv : L.KeysValid)
    (hc : L.KemCorrect) (hb : BundleInv L params b) (hsnap : SnapshotOf b snapshot)
    (run : SenderRun L skA pkA snapshot mode draws opkB ekA eskA legs raw proof)
    (hopk : KeyPair L params opkB opkSk) (hpair : KeyPair L params pk' sk') :
    ∃ k3, SecretsOf L b (sentMessage pkA ekA legs mode proof) sk' legs.k1 legs.k2 k3 raw ∧
      receiverNaxos L b (sentMessage pkA ekA legs mode proof) raw = legs.k4 ∧
      (pk'.data.take params.kemPkBytes = opkB.data.take params.kemPkBytes → k3 = legs.k3) ∧
      (L.Rejecting → pk'.data.take params.kemPkBytes ≠ opkB.data.take params.kemPkBytes →
        k3 ≠ legs.k3) := by
  have hid := hb.identity.generated
  have hspk := hb.signedPrekey.generated
  obtain ⟨h1, h2, h3, h4, h5⟩ := run.legs
  rw [hsnap.identityPk] at h1
  rw [hsnap.signedPrekeyPk] at h2 h4 h5
  obtain ⟨k3, hk3, hsame, hdiff⟩ := leg_other hv hopk.generated hpair.generated h3
  have hown : skA.pkData = pkA.data := (matchesPublicKey_iff skA pkA).mp run.own |>.2
  refine ⟨k3, ⟨leg_secret hv hc hid h1, leg_secret hv hc hspk h2, hk3,
    leg_secret hv hc hspk h4⟩, ?_, hsame hc, hdiff⟩
  rw [receiverNaxos, receiverContext_sent hsnap, hspk.secretData, h5, hown]
  rfl

theorem receiverKey_sent {opkSk sk' : SecretKey} {pk' : PublicKey} (hv : L.KeysValid)
    (hc : L.KemCorrect) (hb : BundleInv L params b) (hsnap : SnapshotOf b snapshot)
    (run : SenderRun L skA pkA snapshot mode draws opkB ekA eskA legs raw proof)
    (hopk : KeyPair L params opkB opkSk) (hpair : KeyPair L params pk' sk') :
    ∃ k3, receiverKey L b sk' (sentMessage pkA ekA legs mode proof) =
        .ok (deriveSessionKey L [legs.k1, legs.k2, k3, legs.k4] pkA.data
          snapshot.identityPk.data ekA.data legs.ciphertexts none) ∧
      (pk'.data.take params.kemPkBytes = opkB.data.take params.kemPkBytes → k3 = legs.k3) ∧
      (L.Rejecting → pk'.data.take params.kemPkBytes ≠ opkB.data.take params.kemPkBytes →
        k3 ≠ legs.k3) := by
  obtain ⟨k3, hsec, hnaxos, hsame, hdiff⟩ := secrets_sent hv hc hb hsnap run hopk hpair
  refine ⟨k3, ?_, hsame, hdiff⟩
  rw [receiverKey_ok_iff]
  refine ⟨legs.k1, legs.k2, k3, raw, hsec, ?_⟩
  rw [receivedKey, hnaxos, hsnap.identityPk]
  rfl

theorem receiverKey_own {opkSk : SecretKey} (hv : L.KeysValid) (hc : L.KemCorrect)
    (hb : BundleInv L params b) (hsnap : SnapshotOf b snapshot)
    (run : SenderRun L skA pkA snapshot mode draws opkB ekA eskA legs raw proof)
    (hopk : KeyPair L params opkB opkSk) :
    receiverKey L b opkSk (sentMessage pkA ekA legs mode proof) =
      .ok (sentKey L pkA snapshot.identityPk ekA legs) := by
  obtain ⟨k3, hk, hsame, _⟩ := receiverKey_sent hv hc hb hsnap run hopk hopk
  rw [hk, hsame rfl]
  rfl

end Run

section Sender
variable {L : Suite} {params : EirnParams} {skA : SecretKey} {pkA : PublicKey}
  {b : PrekeyBundle}

theorem senderProof_ok (g : Generated L params pkA skA) (mode : KcpMode) (ctx : Bytes) :
    ∃ proof, senderProof L skA pkA params ctx mode = .ok proof := by
  cases mode with
  | lite =>
    obtain ⟨arms⟩ := supported_arms L params g.supported
    refine ⟨(liteProofOf L arms skA ctx, none), ?_⟩
    rw [senderProof, liteProve_eq g arms ctx]
    rfl
  | strict =>
    obtain ⟨strict, hprove, _⟩ := strictProof_honest g ctx
    refine ⟨(emptyLiteProof params, some strict), ?_⟩
    rw [senderProof, hprove]
    rfl

theorem sender_ok (hv : L.KeysValid) (g : Generated L params pkA skA) (hb : BundleInv L params b)
    (snapshot : PublicPrekeyBundle) (hsnap : SnapshotOf b snapshot) (opkB : PublicKey)
    (opkSk : SecretKey) (hfirst : snapshot.oneTimePrekeys.head? = some opkB)
    (hopk : KeyPair L params opkB opkSk) (mode : KcpMode) (draws : SenderDraws) :
    ∃ ekA eskA legs raw proof,
      SenderRun L skA pkA snapshot mode draws opkB ekA eskA legs raw proof := by
  have hid := hb.identity.generated
  have hspk := hb.signedPrekey.generated
  have hparams : snapshot.identityPk.params = params := by rw [hsnap.identityPk, hid.params_eq]
  obtain ⟨ekA, eskA, hek, _⟩ := keygen_isOk L params g.supported draws.ephemeral
  obtain ⟨ct1, k1, _, h1, _⟩ := decaps_encaps hv hid hid draws.coins1
  obtain ⟨ct2, k2, _, h2, _⟩ := decaps_encaps hv hspk hspk draws.coins2
  obtain ⟨ct3, k3, _, h3, _⟩ := decaps_encaps hv hopk.generated hopk.generated draws.coins3
  obtain ⟨ct4, raw, _, h4, _⟩ := decaps_encaps hv hspk hspk draws.coins4
  obtain ⟨proof, hproof⟩ := senderProof_ok g mode (buildContext pkA snapshot.identityPk ekA)
  refine ⟨ekA, eskA, ⟨ct1, k1, ct2, k2, ct3, k3, ct4, L.sha3_256 (naxosInput raw skA.pkData
    snapshot.signedPrekeyPk.data (buildContext pkA snapshot.identityPk ekA))⟩, raw, proof,
    ⟨g.matches_own, by rw [g.params_eq, hparams], ?_, by rw [hparams]; exact hek, hfirst, ?_,
      ?_, by rw [hparams]; exact hproof⟩⟩
  · rw [hsnap.signedPrekeyPk, hspk.params_eq, hparams]
  · rw [hopk.generated.params_eq, hparams]
  · rw [← hsnap.identityPk] at h1
    rw [← hsnap.signedPrekeyPk] at h2 h4
    exact ⟨h1, h2, h3, h4, rfl⟩

end Sender

def senderCall (L : Suite) (mode : KcpMode) (skA : SecretKey) (pkA : PublicKey)
    (bundleB : PublicPrekeyBundle) (draws : SenderDraws) : Result (Msg0Prime × FixedBytes 32) :=
  match mode with
  | .lite => senderHandshake L skA pkA bundleB draws
  | .strict => senderHandshakeStrict L skA pkA bundleB draws

def zeroDraws : SenderDraws where
  ephemeral := zeros 96
  coins1 := zeros 32
  coins2 := zeros 32
  coins3 := zeros 32
  coins4 := zeros 32

theorem senderCall_eq (L : Suite) (mode : KcpMode) (skA : SecretKey) (pkA : PublicKey)
    (bundleB : PublicPrekeyBundle) (draws : SenderDraws) :
    senderCall L mode skA pkA bundleB draws =
      senderHandshakeWithMode L skA pkA bundleB mode draws := by
  cases mode with
  | lite => rfl
  | strict => rfl

section Delivery
variable {L : Suite} {params : EirnParams} {b : PrekeyBundle}

/-- A message of the receiver's profile with an accepted proof. -/
def Acceptable (L : Suite) (params : EirnParams) (b : PrekeyBundle) (msg : Msg0Prime) : Prop :=
  OfProfile params msg ∧ ProofAccepted L b msg

theorem receive_acceptable (hb : BundleInv L params b) (msg : Msg0Prime) (hc : Constructed msg)
    (ha : Acceptable L params b msg) :
    (b.oneTimePrekeys = [] ∧ receiverHandshake L b msg = (err .noOneTimePrekeys, b)) ∨
      ∃ pk pks sk sks k, b.oneTimePrekeys = pk::pks ∧ b.oneTimeSecretKeys = sk::sks ∧
        KeyPair L params pk sk ∧ receiverKey L b sk msg = .ok k ∧
        receiverHandshake L b msg = (.ok k, popped b) := by
  rcases receiverHandshake_cases hb msg hc with ⟨_, hn⟩ | ⟨_, ⟨hpk, _, hr⟩ | h⟩
  · exact absurd ha hn
  · exact Or.inl ⟨hpk, hr⟩
  · exact Or.inr h

theorem receive_ok_iff {b : PrekeyBundle} (hb : BundleInv L params b) (m : Msg0Prime)
    (hc : Constructed m) :
    (∃ k, (receiverHandshake L b m).1 = .ok k) ↔
      b.oneTimePrekeys ≠ [] ∧ Acceptable L params b m := by
  constructor
  · rintro ⟨k, hk⟩
    rcases receiverHandshake_cases hb m hc with
      ⟨⟨e, _, hr⟩, _⟩ | ⟨ha, ⟨_, _, hr⟩ | ⟨pk, pks, sk, sks, _, hpk, _, _, _, _⟩⟩
    · rw [hr] at hk
      cases hk
    · rw [hr] at hk
      cases hk
    · rw [hpk]
      exact ⟨List.cons_ne_nil _ _, ha⟩
  · rintro ⟨hne, ha⟩
    rcases receive_acceptable hb m hc ha with ⟨hempty, _⟩ | ⟨_, _, _, _, k, _, _, _, _, hr⟩
    · exact absurd hempty hne
    · exact ⟨k, by rw [hr]⟩

end Delivery

section HonestExchange
variable {L : Suite} {params : EirnParams} {skA : SecretKey} {pkA : PublicKey}
  {b : PrekeyBundle}

theorem sent_digests {paramsA : EirnParams} {opkB ekA : PublicKey} {eskA : SecretKey}
    {bundleB : PublicPrekeyBundle} {draws : SenderDraws} {legs : Legs} {raw : FixedBytes 32}
    (hA : KeyPair L paramsA pkA skA) (arms : Arms L paramsA)
    (run : SenderRun L skA pkA bundleB .lite draws opkB ekA eskA legs raw
      (liteProofOf L arms skA (buildContext pkA bundleB.identityPk ekA), none)) :
    let proof := liteProofOf L arms skA (buildContext pkA bundleB.identityPk ekA)
    sigPart paramsA pkA.data ∈ L.sentDigests ∧
      proofAnchorInput proof.commitment proof.response
        (buildContext pkA bundleB.identityPk ekA) ∈ L.sentDigests := by
  obtain ⟨seed, hkey⟩ := hA
  have g := generated_of_keygen L seed paramsA pkA skA hkey
  have hsend := (senderHandshake_ok_iff L skA pkA bundleB .lite draws _ _).mpr
    ⟨opkB, ekA, eskA, legs, raw, _, run, rfl, rfl⟩
  have hvk : verifyingKeyBytes pkA.data pkA.params = .ok (sigPart paramsA pkA.data) := by
    rw [g.params_eq, verifyingKeyBytes_eq paramsA pkA.data g.supported g.length]
  exact ⟨⟨seed, paramsA, pkA, skA, bundleB, draws, _, _, hkey, hsend, Or.inl hvk⟩,
    ⟨seed, paramsA, pkA, skA, bundleB, draws, _, _, hkey, hsend, Or.inr rfl⟩⟩

theorem sent_accepted {paramsA : EirnParams} {pk opkB ekA : PublicKey} {eskA : SecretKey}
    {bundleB : PublicPrekeyBundle} {mode : KcpMode} {draws : SenderDraws} {legs : Legs}
    {raw : FixedBytes 32} {proof : KcpLiteProof × Option KcpStrictProof} (hl : L.Lawful)
    (hA : KeyPair L paramsA pk skA)
    (run : SenderRun L skA pkA bundleB mode draws opkB ekA eskA legs raw proof) :
    ProofAcceptedIn L (sentMessage pkA ekA legs mode proof)
      (buildContext pkA bundleB.identityPk ekA) := by
  have g := hA.generated
  obtain rfl := matches_generated g pkA run.own
  have hproof := run.proof
  rw [← run.params, g.params_eq] at hproof
  cases mode with
  | lite =>
    obtain ⟨arms⟩ := supported_arms L paramsA g.supported
    rw [senderProof, liteProve_eq g arms] at hproof
    cases hproof
    obtain ⟨hcommitment, hanchor⟩ := sent_digests hA arms run
    refine liteProofOf_accepted g arms _ hl.signaturesParse hl.dsaCorrect hl.nonZero.signatures
      ?_ (hl.nonZero.digests _ hanchor)
    rw [liteProofOf, g.secretData]
    exact hl.nonZero.digests _ hcommitment
  | strict =>
    obtain ⟨strict, hprove, _, hverify⟩ := strictProof_honest g
      (buildContext pkA bundleB.identityPk ekA)
    rw [senderProof, hprove] at hproof
    cases hproof
    exact ⟨strict, rfl, hverify⟩

theorem sent_acceptable {paramsA : EirnParams} {pk opkB ekA : PublicKey} {eskA : SecretKey}
    {snapshot : PublicPrekeyBundle} {mode : KcpMode} {draws : SenderDraws} {legs : Legs}
    {raw : FixedBytes 32} {proof : KcpLiteProof × Option KcpStrictProof} (hl : L.Lawful)
    (hA : KeyPair L paramsA pk skA) (hb : BundleInv L params b) (hsnap : SnapshotOf b snapshot)
    (run : SenderRun L skA pkA snapshot mode draws opkB ekA eskA legs raw proof) :
    WellFormedMessage L params (sentMessage pkA ekA legs mode proof) ∧
      Acceptable L params b (sentMessage pkA ekA legs mode proof) := by
  have g := hA.generated
  have hid := hb.identity.generated
  obtain rfl := matches_generated g pkA run.own
  have hparams : paramsA = params := by
    rw [← g.params_eq, run.params, hsnap.identityPk, hid.params_eq]
  subst hparams
  have hsend := (senderHandshake_ok_iff L skA pkA snapshot mode draws _ _).mpr
    ⟨opkB, ekA, eskA, legs, raw, proof, run, rfl, rfl⟩
  have hw := (sent_wellFormed g hl.keysValid hl.signaturesParse pkA _ mode draws _ _ hsend).2
  refine ⟨hw, (hw.constructed L paramsA g.supported).2, ?_⟩
  rw [ProofAccepted, receiverContext_sent hsnap]
  exact sent_accepted hl hA run

theorem publicBundle_snapshot (b : PrekeyBundle) : SnapshotOf b b.publicBundle := ⟨rfl, rfl⟩

theorem exchange_ok (hl : L.Lawful) (hA : KeyPair L params pkA skA) (hb : BundleInv L params b)
    (hpool : b.oneTimePrekeys ≠ []) (mode : KcpMode) (draws : SenderDraws) :
    ∃ msg k, senderHandshakeWithMode L skA pkA b.publicBundle mode draws = .ok (msg, k) ∧
      WellFormedMessage L params msg ∧ Acceptable L params b msg ∧
      receiverHandshake L b msg = (.ok k, popped b) := by
  have g := hA.generated
  obtain ⟨pk, pks, hpks⟩ := List.exists_cons_of_ne_nil hpool
  obtain ⟨sk, sks, hpair, _, hsks⟩ := List.forall₂_cons_left_iff.mp (hpks ▸ hb.pool)
  have hsnap := publicBundle_snapshot b
  obtain ⟨ekA, eskA, legs, raw, proof, run⟩ := sender_ok hl.keysValid g hb b.publicBundle hsnap pk
    sk (by rw [PrekeyBundle.publicBundle, hpks]; rfl) hpair mode draws
  obtain ⟨hw, ha⟩ := sent_acceptable hl hA hb hsnap run
  refine ⟨_, _, (senderHandshake_ok_iff L skA pkA b.publicBundle mode draws _ _).mpr
    ⟨pk, ekA, eskA, legs, raw, proof, run, rfl, rfl⟩, hw, ha, ?_⟩
  have hkey := receiverKey_own hl.keysValid hl.kemCorrect hb hsnap run hpair
  rcases receive_acceptable hb _ (hw.constructed L params g.supported).1 ha with
    ⟨hempty, _⟩ | ⟨_, _, sk', sks', k, _, hsk, _, hk, hr⟩
  · exact absurd hempty hpool
  · rw [hsks] at hsk
    cases hsk
    rw [hkey] at hk
    cases hk
    exact hr

end HonestExchange

/-- From every reachable state with a one-time prekey left, the message goes
through the wire and both sides end with one key. -/
theorem handshake_completeness (L : Suite) (hl : L.Lawful) (params : EirnParams)
    (hs : IsSupportedParams params) (mode : KcpMode) (seedA : FixedBytes 96) (pkA : PublicKey)
    (skA : SecretKey) (hA : keygenFromSeed L seedA params = .ok (pkA, skA))
    (drawn : ℕ → FixedBytes 96) (numOpk : ℕ) (b₀ : PrekeyBundle)
    (hgen : generatePrekeyBundleWithParams L drawn numOpk params = .ok b₀)
    (calls : List ReceiverCall) (hc : ∀ call ∈ calls, Allowed call) (b : PrekeyBundle)
    (hb : b = after (receiverStep L) calls b₀) (hpool : b.oneTimePrekeys ≠ [])
    (draws : SenderDraws) :
    ∃ msg k data, senderCall L mode skA pkA b.publicBundle draws = .ok (msg, k) ∧
      msg.toBytes = .ok data ∧ msg.totalSize = .ok data.length ∧
      Msg0Prime.fromBytesWithParams L data params = .ok msg ∧
      (receiverHandshake L b msg).1 = .ok k := by
  have hinv := (run_invariant b₀ calls hc (generate_inv L params hs drawn numOpk b₀ hgen).1).bundle
  rw [← hb] at hinv
  obtain ⟨msg, k, hsend, hw, _, hr⟩ := exchange_ok hl ⟨seedA, hA⟩ hinv hpool mode draws
  obtain ⟨data, hbytes, ht, hparse⟩ := wellFormed_round_trip L params hs msg hw
  exact ⟨msg, k, data, by rw [senderCall_eq, hsend], hbytes, ht, hparse, by rw [hr]⟩

theorem handshake_completeness_strict_768 :
    ∃ pkA skA b msg k data,
      keygenFromSeed idealSuite (zeros 96) params768 = .ok (pkA, skA) ∧
      generatePrekeyBundleWithParams idealSuite (fun _ => zeros 96) 1 params768 = .ok b ∧
      senderCall idealSuite .strict skA pkA b.publicBundle zeroDraws = .ok (msg, k) ∧
      msg.toBytes = .ok data ∧ msg.totalSize = .ok data.length ∧
      Msg0Prime.fromBytesWithParams idealSuite data params768 = .ok msg ∧
      (receiverHandshake idealSuite b msg).1 = .ok k := by
  obtain ⟨pkA, skA, hA, _⟩ := keygen_generated idealSuite (zeros 96) params768 supported768
  obtain ⟨b, hb, _, hl⟩ := generate_ok idealSuite params768 supported768 (fun _ => zeros 96) 1
  obtain ⟨msg, k, data, h⟩ := handshake_completeness idealSuite idealSuite_lawful params768
    supported768 .strict (zeros 96) pkA skA hA (fun _ => zeros 96) 1 b hb [] (by simp) b rfl
    (List.ne_nil_of_length_eq_add_one hl) zeroDraws
  exact ⟨pkA, skA, b, msg, k, data, hA, hb, h⟩

end EirnKcp.HonestHandshake
