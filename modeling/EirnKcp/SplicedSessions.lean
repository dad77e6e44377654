import EirnKcp.ProofReuse

/-!
# Spliced messages

A proof covers the sender's keys and the receiver's identity key, none of the
ciphertexts. Whoever has seen a message can put encapsulations of its own in the
place of the four ciphertexts and derive the key that the receiver ends with,
from public data alone. The sender's own session is such a splice, with the coins
that its encapsulations drew: no secret key of the sender enters the session key.
-/

set_option autoImplicit false

namespace EirnKcp.SplicedSessions
open EirnKcp.CheckedCode EirnKcp.ByteCodec EirnKcp.Params EirnKcp.Primitives EirnKcp.Kem
open EirnKcp.KeyLaws EirnKcp.Zk EirnKcp.Prekey EirnKcp.Handshake EirnKcp.HandshakeSteps
open EirnKcp.ReceiverState EirnKcp.HonestHandshake EirnKcp.CallRuns EirnKcp.Interleaving
open EirnKcp.OpenNetwork EirnKcp.NetworkKeys EirnKcp.ProofReuse EirnKcp.IdealSuite

/-- The observed message with new ciphertexts, and its session key, computed
from the public bundle, the message and four draws. -/
def splice (L : Suite) (bundleB : PublicPrekeyBundle) (observed : Msg0Prime)
    (coins : Fin 4 → FixedBytes 32) : Result (Msg0Prime × FixedBytes 32) :=
  match bundleB.oneTimePrekeys.head? with
  | none => err .noOneTimePrekeys
  | some opkB => do
    let ctx := buildContext observed.pkA bundleB.identityPk observed.ekA
    let (ct1, k1) ← encaps L (coins 0) bundleB.identityPk
    let (ct2, k2) ← encaps L (coins 1) bundleB.signedPrekeyPk
    let (ct3, k3) ← encaps L (coins 2) opkB
    let (ct4, raw) ← encaps L (coins 3) bundleB.signedPrekeyPk
    -- The sender's `naxos_encaps` uses its secret key for the public key bytes only.
    let k4 := L.sha3_256 (naxosInput raw observed.pkA.data bundleB.signedPrekeyPk.data ctx)
    let msg : Msg0Prime := { observed with ct1 := ct1, ct2 := ct2, ct3 := ct3, ct4 := ct4 }
    pure (msg, deriveSessionKey L [k1, k2, k3, k4] observed.pkA.data bundleB.identityPk.data
      observed.ekA.data msg.ciphertexts none)

section OneReceiver
variable {L : Suite} {params : EirnParams} {b : PrekeyBundle} {observed : Msg0Prime}

theorem leg_ok (hv : L.KeysValid) (hkem : L.KemCorrect) {pk : PublicKey} {sk : SecretKey}
    (g : KeyPair L params pk sk) (drawn : FixedBytes 32) :
    ∃ ct ss, encaps L drawn pk = .ok (ct, ss) ∧ ct.WellFormed ∧ ct.params = params ∧
      decaps L sk ct = .ok ss := by
  obtain ⟨ct, ss, ss', henc, hw, hp, hdec, hsame, _⟩ := decaps_encaps hv g.generated g.generated
    drawn
  have hss : ss' = ss := hsame hkem rfl
  rw [hss] at hdec
  exact ⟨ct, ss, henc, hw, hp, hdec⟩

/-- What `splice` returns: only the ciphertexts differ from the observed message,
and the first one-time key of the receiver derives the same session key. -/
structure Spliced (L : Suite) (params : EirnParams) (b : PrekeyBundle) (opkSk : SecretKey)
    (observed msg : Msg0Prime) (k : FixedBytes 32) : Prop where
  pkA : msg.pkA = observed.pkA
  ekA : msg.ekA = observed.ekA
  shows : ShowsProofOf observed msg
  constructed : Constructed msg
  profile : OfProfile params msg
  key : receiverKey L b opkSk msg = .ok k

theorem splice_ok (hv : L.KeysValid) (hkem : L.KemCorrect) (hb : BundleInv L params b)
    (hc : Constructed observed) (hpk : observed.pkA.params = params)
    (hek : observed.ekA.params = params) (opkB : PublicKey) (opkSk : SecretKey)
    (hfirst : b.oneTimePrekeys.head? = some opkB) (hopk : KeyPair L params opkB opkSk)
    (coins : Fin 4 → FixedBytes 32) :
    ∃ msg k, splice L b.publicBundle observed coins = .ok (msg, k) ∧
      Spliced L params b opkSk observed msg k := by
  obtain ⟨ct1, k1, h1, hw1, hp1, hd1⟩ := leg_ok hv hkem hb.identity (coins 0)
  obtain ⟨ct2, k2, h2, hw2, hp2, hd2⟩ := leg_ok hv hkem hb.signedPrekey (coins 1)
  obtain ⟨ct3, k3, h3, hw3, hp3, hd3⟩ := leg_ok hv hkem hopk (coins 2)
  obtain ⟨ct4, raw, h4, hw4, hp4, hd4⟩ := leg_ok hv hkem hb.signedPrekey (coins 3)
  simp only [splice, PrekeyBundle.publicBundle, hfirst, h1, h2, h3, h4, ok_bind, pure_ok]
  refine ⟨_, _, rfl, rfl, rfl, showsProofOf_of_fields _ _ rfl rfl rfl,
    ⟨hc.pkA, hc.ekA, hw1, hw2, hw3, hw4⟩, ⟨hpk, hek, hp1, hp2, hp3, hp4⟩, ?_⟩
  rw [receiverKey_ok_iff]
  refine ⟨k1, k2, k3, raw, ⟨hd1, hd2, hd3, hd4⟩, ?_⟩
  rw [receivedKey, receiverNaxos, receiverContext, hb.signedPrekey.generated.secretData]

theorem showsProofOf_symm {m m' : Msg0Prime} (h : ShowsProofOf m m') : ShowsProofOf m' m := by
  obtain ⟨hmode, hproof⟩ := h
  refine ⟨hmode.symm, ?_⟩
  rw [hmode]
  cases hm : m.kcpMode with
  | lite =>
    simp only [hm] at hproof
    exact hproof.symm
  | strict =>
    simp only [hm] at hproof
    exact hproof.symm

theorem spliced_received (hb : BundleInv L params b) (opkSk : SecretKey)
    (hsecret : b.oneTimeSecretKeys.head? = some opkSk) (msg : Msg0Prime) (k : FixedBytes 32)
    (s : Spliced L params b opkSk observed msg k) :
    (receiverHandshake L b msg).1 = .ok k ↔ ProofAccepted L b observed := by
  have hshow := showsProofOf_symm s.shows
  constructor
  · intro hok
    obtain ⟨_, ha⟩ := (receive_ok_iff hb msg s.constructed).mp ⟨k, hok⟩
    exact accepted_again hshow s.pkA.symm rfl s.ekA.symm ha.2
  · intro hproof
    have ha : Acceptable L params b msg :=
      ⟨s.profile, accepted_again s.shows s.pkA rfl s.ekA hproof⟩
    rcases receive_acceptable hb msg s.constructed ha with
      ⟨hempty, _⟩ | ⟨_, _, sk, sks, k', _, hsks, _, hk, hr⟩
    · have hnone := List.forall₂_nil_left_iff.mp (hempty ▸ hb.pool)
      rw [hnone] at hsecret
      cases hsecret
    · rw [hsks] at hsecret
      cases hsecret
      rw [hr, ← hk, s.key]

end OneReceiver

section OwnSession
variable {L : Suite}

def coinsOf (draws : SenderDraws) : Fin 4 → FixedBytes 32 :=
  ![draws.coins1, draws.coins2, draws.coins3, draws.coins4]

theorem sender_spliced (skA : SecretKey) (pkA : PublicKey) (bundleB : PublicPrekeyBundle)
    (mode : KcpMode) (draws : SenderDraws) (msg : Msg0Prime) (k : FixedBytes 32)
    (h : senderCall L mode skA pkA bundleB draws = .ok (msg, k)) :
    splice L bundleB msg (coinsOf draws) = .ok (msg, k) := by
  rw [senderCall_eq, senderHandshake_ok_iff] at h
  obtain ⟨opkB, ekA, eskA, legs, raw, proof, run, rfl, rfl⟩ := h
  obtain ⟨h1, h2, h3, h4, hnaxos⟩ := run.legs
  have hown : skA.pkData = pkA.data := ((matchesPublicKey_iff skA pkA).mp run.own).2
  have c1 : encaps L (coinsOf draws 0) bundleB.identityPk = _ := h1
  have c2 : encaps L (coinsOf draws 1) bundleB.signedPrekeyPk = _ := h2
  have c3 : encaps L (coinsOf draws 2) opkB = _ := h3
  have c4 : encaps L (coinsOf draws 3) bundleB.signedPrekeyPk = _ := h4
  rw [hown] at hnaxos
  simp only [splice, run.first, sentMessage, c1, c2, c3, c4, ok_bind, pure_ok]
  rw [← hnaxos]
  rfl

def SentByCalls (L : Suite) (n : System) : Prop :=
  ∀ s ∈ n.sent, senderCall L s.mode s.skA s.pkA s.snapshot s.draws = .ok (s.msg, s.key)

theorem sentByCalls_step (call : OpenCall) (n : System) (h : SentByCalls L n) :
    SentByCalls L (openStep L call n).2 := by
  cases call with
  | receiver index call =>
    cases hb : n.receivers[index]? with
    | none =>
      simp only [openStep, hb]
      exact h
    | some b =>
      simp only [openStep, hb]
      exact h
  | send skA pkA mode draws index =>
    cases hsnap : n.published[index]? with
    | none =>
      simp only [openStep, hsnap]
      exact h
    | some snapshot =>
      cases hr : senderCall L mode skA pkA snapshot draws with
      | error e =>
        simp only [openStep, hsnap, hr]
        exact h
      | ok r =>
        simp only [openStep, hsnap, hr]
        intro s hs
        rcases List.mem_append.mp hs with hs | hs
        · exact h s hs
        · obtain rfl := List.mem_singleton.mp hs
          exact hr

end OwnSession

/-- In every run, each sender's message and session key are computed from the
bundle it was sent to, the keys and the proof it shows, and the four coins. -/
theorem coins_determine_session (L : Suite) (start : List PrekeyBundle) (calls : List OpenCall) :
    ∀ s ∈ (after (openStep L) calls (openStart start)).sent,
      splice L s.snapshot s.msg (coinsOf s.draws) = .ok (s.msg, s.key) := by
  intro s hs
  have hsent : SentByCalls L (after (openStep L) calls (openStart start)) :=
    after_invariant (openStep L) (fun _ => True) (SentByCalls L)
      (fun call n _ h => sentByCalls_step call n h) calls _ (by simp)
      (by simp [SentByCalls, openStart])
  exact sender_spliced s.skA s.pkA s.snapshot s.mode s.draws s.msg s.key (hsent s hs)

theorem coins_determine_session_replayed :
    ∃ b₀ c₀ pkA skA msg k,
      (after (openStep idealSuite) (replayed skA pkA zeroDraws msg) (openStart [b₀, c₀])).sent =
        [⟨skA, pkA, b₀.publicBundle, .lite, zeroDraws, msg, k⟩] ∧
      splice idealSuite b₀.publicBundle msg (coinsOf zeroDraws) = .ok (msg, k) := by
  obtain ⟨b₀, c₀, pk₁, pk₂, pkA, skA, msg, k, k', r⟩ := replayedRun_exists
  have hsent := r.sent_eq
  refine ⟨b₀, c₀, pkA, skA, msg, k, hsent, ?_⟩
  exact coins_determine_session idealSuite [b₀, c₀] (replayed skA pkA zeroDraws msg)
    ⟨skA, pkA, b₀.publicBundle, .lite, zeroDraws, msg, k⟩ (by rw [hsent]; simp)

/-- After every run of an open network, whoever has the public bundle of a
receiver and a message can compute another message under the same sender keys
together with the key that the receiver answers it with, if and only if the
receiver accepts the observed proof; a message accepted before has such a proof. -/
theorem spliced_key_known (L : Suite) (hv : L.KeysValid) (hkem : L.KemCorrect)
    (start : List PrekeyBundle) (hgen : Generates L start) (calls : List OpenCall)
    (hc : ∀ call ∈ calls, OpenAllowed L call) :
    let final := after (openStep L) calls (openStart start)
    ∀ index b, final.receivers[index]? = some b → b.oneTimePrekeys ≠ [] →
      ∀ observed, Constructed observed → observed.pkA.params = b.identityPk.params →
      observed.ekA.params = b.identityPk.params → ∀ coins,
      ∃ msg k, splice L b.publicBundle observed coins = .ok (msg, k) ∧
        msg.pkA = observed.pkA ∧ msg.ekA = observed.ekA ∧
        OpenAllowed L (.receiver index (.receive msg)) ∧
        (Accepts (event (openStep L) (.receiver index (.receive msg)) final) index b msg k ↔
          ProofAccepted L b observed) ∧
        ((∃ e ∈ trace (openStep L) calls (openStart start), ∃ b' k',
            Accepts e index b' observed k') →
          Accepts (event (openStep L) (.receiver index (.receive msg)) final) index b msg k) := by
  intro final index b hstate hpool observed hobserved hpk hek coins
  have hfinal : SystemInv L start final := final_inv hgen hc
  obtain ⟨params, hb⟩ := hfinal.receivers b (List.mem_of_getElem? hstate)
  rw [hb.identity.generated.params_eq] at hpk hek
  obtain ⟨opkB, pks, hpks⟩ := List.exists_cons_of_ne_nil hpool
  obtain ⟨opkSk, sks, hopk, _, hsks⟩ := List.forall₂_cons_left_iff.mp (hpks ▸ hb.pool)
  obtain ⟨msg, k, hsplice, s⟩ := splice_ok hv hkem hb hobserved hpk hek opkB opkSk
    (by rw [hpks]; rfl) hopk coins
  have hiff : Accepts (event (openStep L) (.receiver index (.receive msg)) final) index b msg k ↔
      ProofAccepted L b observed := by
    rw [accepts_iff _ final index b msg k ⟨rfl, hstate⟩]
    exact spliced_received hb opkSk (by rw [hsks]; rfl) msg k s
  refine ⟨msg, k, hsplice, s.pkA, s.ekA, s.constructed, hiff, ?_⟩
  rintro ⟨e, he, b', k', hacc⟩
  obtain ⟨hinv, _, _⟩ := event_inv hgen hc e he
  obtain ⟨_, _, _, hacceptable, _⟩ := event_acceptable hgen hc e he index b' observed k' hacc
  have hid := identity_fixed e.before final hinv hfinal index b' b hacc.state hstate
  exact hiff.mpr (accepted_again (showsProofOf_of_fields _ _ rfl rfl rfl) rfl hid rfl hacceptable.2)

theorem spliced_key_known_delivered :
    ∃ b₀ c₀ msg spliced k key,
      let final := after (openStep idealSuite) [.receiver 0 (.receive msg)] (openStart [b₀, c₀])
      (receiverHandshake idealSuite b₀ msg).1 = .ok k ∧
      splice idealSuite (popped b₀).publicBundle msg (fun _ => zeros 32) = .ok (spliced, key) ∧
      spliced.pkA = msg.pkA ∧ Accepts (event (openStep idealSuite)
        (.receiver 0 (.receive spliced)) final) 0 (popped b₀) spliced key := by
  obtain ⟨b₀, c₀, pk₁, pk₂, pkA, skA, msg, k, k', r⟩ := replayedRun_exists
  have hc : ∀ call ∈ [OpenCall.receiver 0 (.receive msg)], OpenAllowed idealSuite call := by
    simp only [List.mem_singleton, forall_eq]
    exact r.constructed
  have hid := r.bundle.identity.generated.params_eq
  obtain ⟨_, ha⟩ := (receive_ok_iff r.bundle msg r.constructed).mp ⟨k, by rw [r.first]⟩
  have hstep : (receiverStep idealSuite (.receive msg) b₀).2 = popped b₀ := by
    rw [receiverStep, r.first]
  have hstate : (after (openStep idealSuite) [.receiver 0 (.receive msg)]
      (openStart [b₀, c₀])).receivers[0]? = some (popped b₀) := by
    rw [← hstep]
    rfl
  have hpool : (popped b₀).oneTimePrekeys ≠ [] := by
    simp [popped, r.pool]
  obtain ⟨spliced, key, hsplice, hpk, _, _, _, hagain⟩ := spliced_key_known idealSuite
    idealSuite_lawful.keysValid idealSuite_lawful.kemCorrect [b₀, c₀] r.generates _ hc 0
    (popped b₀) hstate hpool msg r.constructed (ha.1.pkA.trans hid.symm)
    (ha.1.ekA.trans hid.symm) (fun _ => zeros 32)
  refine ⟨b₀, c₀, msg, spliced, k, key, by rw [r.first], hsplice, hpk, hagain ?_⟩
  refine ⟨_, List.mem_singleton_self _, b₀, k, rfl, rfl, ?_⟩
  show OpenReply.answered (.key (receiverHandshake idealSuite b₀ msg).1) = _
  rw [r.first]

end EirnKcp.SplicedSessions
