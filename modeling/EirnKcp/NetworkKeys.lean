import EirnKcp.ModeBinding
import EirnKcp.OpenNetwork

/-!
# The keys of an open network

Whatever is delivered in whatever order, no two acceptances of a run end with
one key. A delivery is answered with a sender's key exactly when it is of that
sender's session and carries an accepted proof.
-/

set_option autoImplicit false

namespace EirnKcp.NetworkKeys
open EirnKcp.CheckedCode EirnKcp.ByteCodec EirnKcp.Params EirnKcp.Primitives EirnKcp.Kem
open EirnKcp.KeyLaws EirnKcp.Zk EirnKcp.Prekey EirnKcp.Handshake EirnKcp.HandshakeSteps
open EirnKcp.ReceiverState EirnKcp.HonestHandshake EirnKcp.SessionBinding EirnKcp.ModeBinding
open EirnKcp.CallRuns EirnKcp.Interleaving EirnKcp.OpenNetwork EirnKcp.IdealSuite

section Generation
variable {L : Suite}

theorem seed_kemPart {seed : FixedBytes 96} {params : EirnParams} {pk : PublicKey}
    {sk : SecretKey} (h : keygenFromSeed L seed params = .ok (pk, sk)) :
    kemPart params pk = ekBytes L params (kemSeedOf seed) := by
  have hs := (generated_of_keygen L seed params pk sk h).supported
  obtain ⟨pk', sk', hkey, g, hseed, _⟩ := keygen_generated L seed params hs
  rw [h] at hkey
  cases hkey
  rw [kemPart, g.kemPart, hseed]

theorem oneTime_kemParts (drawn : ℕ → FixedBytes 96) (params : EirnParams) (first count : ℕ)
    (pks : List PublicKey) (sks : List SecretKey)
    (h : generateOneTime L drawn params first count = .ok (pks, sks)) :
    pks.map (kemPart params) =
      (List.range count).map (fun i => ekBytes L params (kemSeedOf (drawn (first+i)))) := by
  induction count generalizing first pks sks with
  | zero =>
    cases h
    rfl
  | succ count ih =>
    rw [generateOneTime, bind_ok_iff] at h
    obtain ⟨⟨pk, sk⟩, hkey, h⟩ := h
    dsimp only at h
    rw [bind_ok_iff] at h
    obtain ⟨⟨rest, restSk⟩, hrest, h⟩ := h
    cases h
    rw [List.map_cons, ih (first+1) rest restSk hrest, seed_kemPart hkey, List.range_succ_eq_map,
      List.map_cons, List.map_map, Nat.add_zero]
    congr 2
    funext i
    simp only [Function.comp_apply, Nat.succ_eq_add_one, Nat.add_comm i 1, Nat.add_assoc]

theorem generated_oneTime {drawn : ℕ → FixedBytes 96} {numOpk : ℕ} {params : EirnParams}
    {b : PrekeyBundle} (h : generatePrekeyBundleWithParams L drawn numOpk params = .ok b) :
    generateOneTime L drawn params 2 numOpk = .ok (b.oneTimePrekeys, b.oneTimeSecretKeys) := by
  simp only [generatePrekeyBundleWithParams, bind_ok_iff, Prod.exists] at h
  obtain ⟨pk, sk, _, spk, ssk, _, pks, sks, hpool, h⟩ := h
  cases h
  exact hpool

end Generation

section Acceptances
variable {L : Suite} {start : List PrekeyBundle}

theorem event_acceptable (hgen : Generates L start) {calls : List OpenCall}
    (hc : ∀ call ∈ calls, OpenAllowed L call) (e : OpenEvent)
    (he : e ∈ trace (openStep L) calls (openStart start)) (index : ℕ) (b : PrekeyBundle)
    (msg : Msg0Prime) (k : FixedBytes 32) (hacc : Accepts e index b msg k) :
    ∃ params, BundleInv L params b ∧ Constructed msg ∧ Acceptable L params b msg ∧
      (receiverHandshake L b msg).1 = .ok k := by
  obtain ⟨hinv, ha, heq⟩ := event_inv hgen hc e he
  rw [heq] at hacc
  obtain ⟨params, hb, hmsg, _, hk, _⟩ := accepts_step e.call e.before ha hinv index b msg k hacc
  obtain ⟨_, hacceptable⟩ := (receive_ok_iff hb msg hmsg).mp ⟨k, hk⟩
  exact ⟨params, hb, hmsg, hacceptable, hk⟩

def acceptedInputs (L : Suite) (events : List OpenEvent) : Set Bytes :=
  {x | ∃ e ∈ events, ∃ index b msg k secrets, Accepts e index b msg k ∧
    ReceiverSession L b msg secrets ∧ x = (receiverFields L b msg secrets).input}

theorem acceptedInputs_subset (events : List OpenEvent) (sent : List Sent) :
    acceptedInputs L events ⊆ runInputs L events sent :=
  fun _ hx => Or.inr hx

/-- The ciphertexts that the one-time secret keys of a run decapsulate. -/
def oneTimeCiphertexts (events : List OpenEvent) : Set Ciphertext :=
  {ct | ∃ e ∈ events, ∃ index b msg k, Accepts e index b msg k ∧ ct = msg.ct3}

/-- One-time keys of one receiver that have different ML-KEM keys get different
secrets from the ciphertexts. -/
def SecretsDiffer (L : Suite) (start : List PrekeyBundle) (cts : Set Ciphertext) : Prop :=
  ∀ b ∈ start, ∀ params pk sk pk' sk', pk ∈ b.oneTimePrekeys → pk' ∈ b.oneTimePrekeys →
    KeyPair L params pk sk → KeyPair L params pk' sk' →
    kemPart params pk ≠ kemPart params pk' → ∀ ct ∈ cts, decaps L sk ct ≠ decaps L sk' ct

structure AcceptedSession (L : Suite) (params : EirnParams) (b : PrekeyBundle) (msg : Msg0Prime)
    (k : FixedBytes 32) (pk : PublicKey) (sk : SecretKey) (secrets : Secrets) : Prop where
  bundle : BundleInv L params b
  constructed : Constructed msg
  first : b.oneTimePrekeys.head? = some pk
  pair : KeyPair L params pk sk
  third : decaps L sk msg.ct3 = .ok secrets.k3
  session : ReceiverSession L b msg secrets
  key : k = L.shake256 (receiverFields L b msg secrets).input 32

theorem accepted_session (call : OpenCall) (n : System) (ha : OpenAllowed L call)
    (h : SystemInv L start n) (index : ℕ) (b : PrekeyBundle) (msg : Msg0Prime) (k : FixedBytes 32)
    (hacc : Accepts (event (openStep L) call n) index b msg k) :
    ∃ params pk sk secrets, AcceptedSession L params b msg k pk sk secrets := by
  obtain ⟨params, hinv, hc, _, hrecv, _⟩ := accepts_step call n ha h index b msg k hacc
  obtain ⟨secrets, hsession, hk⟩ := receiver_session hinv msg hc k hrecv
  have ⟨sk, hsk, hsec⟩ := hsession
  obtain ⟨sks, hsks⟩ := List.head?_eq_some_iff.mp hsk
  obtain ⟨pk, pks, hpair, _, hpks⟩ := List.forall₂_cons_right_iff.mp (hsks ▸ hinv.pool)
  exact ⟨params, pk, sk, secrets, hinv, hc, by rw [hpks]; rfl, hpair, hsec.leg3, hsession, hk⟩

theorem accepted_fields {params params' : EirnParams} {b b' : PrekeyBundle} {msg msg' : Msg0Prime}
    {k k' : FixedBytes 32} {pk pk' : PublicKey} {sk sk' : SecretKey} {secrets secrets' : Secrets}
    (s : AcceptedSession L params b msg k pk sk secrets)
    (s' : AcceptedSession L params' b' msg' k' pk' sk' secrets')
    (h : (receiverFields L b msg secrets).input = (receiverFields L b' msg' secrets').input) :
    b.identityPk = b'.identityPk ∧ msg.ct3 = msg'.ct3 ∧ secrets.k3 = secrets'.k3 := by
  have hid := s.bundle.identity.generated.wellFormed
  have hid' := s'.bundle.identity.generated.wellFormed
  have hfields := input_injective _ _ (receiverFields_sized hid s.constructed secrets)
    (receiverFields_sized hid' s'.constructed secrets') h
  simp only [receiverFields, Fields.mk.injEq, Secrets.list, Msg0Prime.ciphertexts,
    List.cons.injEq] at hfields
  obtain ⟨⟨_, _, hk3, _⟩, _, hpk, _, _, _, hct3, _⟩ := hfields
  exact ⟨publicKey_ext _ _ hid hid' hpk,
    ciphertext_ext _ _ s.constructed.ct3 s'.constructed.ct3 hct3, hk3⟩

theorem first_prekeys_differ (hdistinct : DistinctKeys start) (n : System)
    (h : LaterSystem (openStart start) n) (i : ℕ) (b b' : PrekeyBundle)
    (hb : n.receivers[i]? = some b) (hlater : Later (popped b) b') (pk pk' : PublicKey)
    (hpk : b.oneTimePrekeys.head? = some pk) (hpk' : b'.oneTimePrekeys.head? = some pk') :
    ∃ b₀ ∈ start, pk ∈ b₀.oneTimePrekeys ∧ pk' ∈ b₀.oneTimePrekeys ∧
      kemPart b.identityPk.params pk ≠ kemPart b.identityPk.params pk' := by
  obtain ⟨b₀, hb₀, hb₀later⟩ := h i b hb
  have hmem := List.mem_of_getElem? hb₀
  have hne : b.oneTimePrekeys ≠ [] := List.ne_nil_of_mem (List.mem_of_mem_head? hpk)
  have hne' : b'.oneTimePrekeys ≠ [] := List.ne_nil_of_mem (List.mem_of_mem_head? hpk')
  have hnodup : (b.oneTimePrekeys.map (kemPart b.identityPk.params)).Nodup := by
    rw [hb₀later.keys.identityPk]
    exact (hdistinct.prekeys b₀ hmem).sublist (hb₀later.pool.sublist.map _)
  have hfirst := firstKemKey_after_first b.identityPk.params b.oneTimePrekeys b'.oneTimePrekeys
    hnodup hne hne' hlater.pool
  rw [firstKemKey, firstKemKey, hpk, hpk'] at hfirst
  refine ⟨b₀, hmem, hb₀later.pool.subset (List.mem_of_mem_head? hpk), ?_,
    fun hkem => hfirst (congrArg some hkem)⟩
  exact hb₀later.pool.subset
    (List.drop_subset 1 _ (hlater.pool.subset (List.mem_of_mem_head? hpk')))

theorem accepted_keys_ne (hgen : Generates L start) (hdistinct : DistinctKeys start)
    {calls : List OpenCall} (hc : ∀ call ∈ calls, OpenAllowed L call)
    (hinj : Set.InjOn (fun x => L.shake256 x 32)
      (acceptedInputs L (trace (openStep L) calls (openStart start))))
    (hdiff : SecretsDiffer L start
      (oneTimeCiphertexts (trace (openStep L) calls (openStart start)))) (e e' : OpenEvent)
    (he : e ∈ trace (openStep L) calls (openStart start))
    (he' : e' ∈ trace (openStep L) calls (openStart start))
    (hlater : LaterSystem e.after e'.before) (i j : ℕ) (b b' : PrekeyBundle)
    (msg msg' : Msg0Prime) (k k' : FixedBytes 32) (hacc : Accepts e i b msg k)
    (hacc' : Accepts e' j b' msg' k') : k ≠ k' := by
  intro hkk
  obtain ⟨hinv, ha, heq⟩ := event_inv hgen hc e he
  obtain ⟨hinv', ha', heq'⟩ := event_inv hgen hc e' he'
  obtain ⟨params, pk, sk, secrets, s⟩ :=
    accepted_session e.call e.before ha hinv i b msg k (heq ▸ hacc)
  obtain ⟨params', pk', sk', secrets', s'⟩ :=
    accepted_session e'.call e'.before ha' hinv' j b' msg' k' (heq' ▸ hacc')
  -- one key is one input, hence one receiver and one third secret
  have hinput := hinj ⟨e, he, i, b, msg, k, secrets, hacc, s.session, rfl⟩
    ⟨e', he', j, b', msg', k', secrets', hacc', s'.session, rfl⟩
    (s.key.symm.trans (hkk.trans s'.key))
  obtain ⟨hid, hct3, hk3⟩ := accepted_fields s s' hinput
  obtain rfl := receiver_index_unique hdistinct e.before e'.before hinv.later hinv'.later i j b b'
    hacc.state hacc'.state hid
  obtain ⟨_, _, _, _, _, hpopped⟩ :=
    accepts_step e.call e.before ha hinv i b msg k (heq ▸ hacc)
  obtain ⟨p, hp, hpool⟩ := hlater i b' hacc'.state
  rw [heq] at hp
  obtain rfl := Option.some.inj (hpopped.symm.trans hp)
  obtain ⟨b₀, hb₀, hin, hin', hkem⟩ := first_prekeys_differ hdistinct e.before hinv.later i b b'
    hacc.state hpool pk pk' s.first s'.first
  have hparams : params' = params := by
    rw [← s.bundle.identity.generated.params_eq, hid, s'.bundle.identity.generated.params_eq]
  subst hparams
  rw [s.bundle.identity.generated.params_eq] at hkem
  apply hdiff b₀ hb₀ params' pk sk pk' sk' hin hin' s.pair s'.pair hkem msg.ct3
    ⟨e, he, i, b, msg, k, hacc, rfl⟩
  rw [s.third, hct3, s'.third, hk3]

end Acceptances

section Exactness
variable {L : Suite} {start : List PrekeyBundle}

structure Delivers (e : OpenEvent) (index : ℕ) (b : PrekeyBundle) (msg : Msg0Prime) : Prop where
  call : e.call = .receiver index (.receive msg)
  state : e.before.receivers[index]? = some b

theorem accepts_iff (call : OpenCall) (n : System) (index : ℕ) (b : PrekeyBundle)
    (msg : Msg0Prime) (k : FixedBytes 32)
    (h : Delivers (event (openStep L) call n) index b msg) :
    Accepts (event (openStep L) call n) index b msg k ↔ (receiverHandshake L b msg).1 = .ok k := by
  have hreply : (event (openStep L) call n).reply =
      .answered (.key (receiverHandshake L b msg).1) := by
    have hcall : call = _ := h.call
    have hstate : n.receivers[index]? = _ := h.state
    simp only [hcall, event, openStep, hstate, receiverStep]
  constructor
  · intro hacc
    have heq := hreply.symm.trans hacc.reply
    simpa only [OpenReply.answered.injEq, ReceiverReply.key.injEq] using heq
  · intro hk
    exact ⟨h.call, h.state, by rw [hreply, hk]⟩

theorem matching_sameSession {s : Sent} {b : PrekeyBundle} {msg : Msg0Prime}
    (h : MatchingSession s b msg) : SameSession s.msg msg :=
  ⟨h.pkA, h.ekA, h.cts.1, h.cts.2.1, h.cts.2.2.1, h.cts.2.2.2⟩

theorem sameSession_ofProfile {params : EirnParams} {msg msg' : Msg0Prime}
    (h : SameSession msg msg') (ho : OfProfile params msg) : OfProfile params msg' := by
  constructor
  · rw [h.pkA, ho.pkA]
  · rw [h.ekA, ho.ekA]
  · rw [h.ct1, ho.ct1]
  · rw [h.ct2, ho.ct2]
  · rw [h.ct3, ho.ct3]
  · rw [h.ct4, ho.ct4]

theorem sender_receiver (hdistinct : DistinctKeys start) (n : System) (h : SystemInv L start n)
    (i : ℕ) (b b₀ : PrekeyBundle) (hb : n.receivers[i]? = some b) (hb₀ : b₀ ∈ start)
    (hid : b.identityPk = b₀.identityPk) : Later b₀ b := by
  obtain ⟨j, hj⟩ := List.mem_iff_getElem?.mp hb₀
  obtain rfl := receiver_index_unique hdistinct n (openStart start) h.later (laterSystem_refl _)
    i j b b₀ hb hj hid
  obtain ⟨c, hc, hlater⟩ := h.later i b hb
  obtain rfl := Option.some.inj (hj.symm.trans hc)
  exact hlater

theorem matching_accepted (hl : L.Lawful) {params : EirnParams} {b₀ b : PrekeyBundle} {s : Sent}
    {msg : Msg0Prime} (hs : GoodSent L params b₀ s) (hb : RunInv L params b₀ b)
    (hc : Constructed msg) (hmatch : MatchingSession s b msg) (hproof : ProofAccepted L b msg) :
    (receiverHandshake L b msg).1 = .ok s.key := by
  obtain ⟨_, hacceptable⟩ := hs.acceptable hl hb
  have hsame := matching_sameSession hmatch
  rcases deliver_cases hl hs hb with ⟨hempty, _⟩ | ⟨pk, opkB, ekA, legs, raw, k3, k₀, d⟩
  · obtain ⟨opkB, _, _, _, _, _, _, hfirst, _⟩ := hs.run
    have hprekey := hmatch.prekey
    simp [firstKemKey, hempty, hfirst] at hprekey
  · have hkem : kemPart params pk = kemPart params opkB := by
      have hprekey := hmatch.prekey
      rw [firstKemKey, firstKemKey, d.first, d.sentFirst,
        hb.bundle.identity.generated.params_eq] at hprekey
      exact Option.some.inj hprekey
    have hne : b.oneTimePrekeys ≠ [] := List.ne_nil_of_mem (List.mem_of_mem_head? d.first)
    obtain ⟨k, hk⟩ := (receive_ok_iff hb.bundle msg hc).mpr
      ⟨hne, sameSession_ofProfile hsame hacceptable.1, hproof⟩
    obtain ⟨_, _, _, hkk⟩ := sameSession_key hb.bundle (sameSession_constructed
      ⟨hsame.pkA.symm, hsame.ekA.symm, hsame.ct1.symm, hsame.ct2.symm, hsame.ct3.symm,
        hsame.ct4.symm⟩ hc) hsame d.accepted hk
    rw [hk, ← hkk, d.agrees hkem]

theorem run_matching_accepted (hl : L.Lawful) (hdistinct : DistinctKeys start) (n final : System)
    (h : SystemInv L start n) (hfinal : SystemInv L start final) (index : ℕ) (b : PrekeyBundle)
    (msg : Msg0Prime) (hc : Constructed msg) (hb : n.receivers[index]? = some b) (s : Sent)
    (hs : s ∈ final.sent) (hmatch : MatchingSession s b msg) (hproof : ProofAccepted L b msg) :
    (receiverHandshake L b msg).1 = .ok s.key := by
  obtain ⟨params, hinv⟩ := h.receivers b (List.mem_of_getElem? hb)
  obtain ⟨b₀, hb₀, params₀, hinv₀, hgood⟩ := hfinal.sent s hs
  have hid : b.identityPk = b₀.identityPk := by
    rw [hmatch.identity, hgood.snapshot.keys.identityPk]
  have hlater := sender_receiver hdistinct n h index b b₀ hb hb₀ hid
  have hparams : params = params₀ := by
    rw [← hinv.identity.generated.params_eq, hid, hinv₀.identity.generated.params_eq]
  subst hparams
  exact matching_accepted hl hgood ⟨hinv, hlater.keys⟩ hc hmatch hproof

theorem accepted_key_iff (hl : L.Lawful) (hrej : L.Rejecting) (hgen : Generates L start)
    (hdistinct : DistinctKeys start) {calls : List OpenCall}
    (hc : ∀ call ∈ calls, OpenAllowed L call)
    (hinj : Set.InjOn (fun x => L.shake256 x 32)
      (runInputs L (trace (openStep L) calls (openStart start))
        (after (openStep L) calls (openStart start)).sent)) (e : OpenEvent)
    (he : e ∈ trace (openStep L) calls (openStart start)) (index : ℕ) (b : PrekeyBundle)
    (msg : Msg0Prime) (k : FixedBytes 32) (hacc : Accepts e index b msg k) (s : Sent)
    (hs : s ∈ (after (openStep L) calls (openStart start)).sent) :
    s.key = k ↔ MatchingSession s b msg := by
  constructor
  · rintro rfl
    exact event_matching hl.keysValid hrej hgen hc hinj e he index b msg s hs hacc
  · intro hmatch
    obtain ⟨hinv, _, _⟩ := event_inv hgen hc e he
    obtain ⟨_, _, hmsg, hacceptable, hk⟩ := event_acceptable hgen hc e he index b msg k hacc
    have hkey := run_matching_accepted hl hdistinct e.before _ hinv (final_inv hgen hc) index b
      msg hmsg hacc.state s hs hmatch hacceptable.2
    exact Except.ok.inj (hkey.symm.trans hk)

theorem delivered_key_iff (hl : L.Lawful) (hrej : L.Rejecting) (hgen : Generates L start)
    (hdistinct : DistinctKeys start) {calls : List OpenCall}
    (hc : ∀ call ∈ calls, OpenAllowed L call)
    (hinj : Set.InjOn (fun x => L.shake256 x 32)
      (runInputs L (trace (openStep L) calls (openStart start))
        (after (openStep L) calls (openStart start)).sent)) (e : OpenEvent)
    (he : e ∈ trace (openStep L) calls (openStart start)) (index : ℕ) (b : PrekeyBundle)
    (msg : Msg0Prime) (hdel : Delivers e index b msg) (s : Sent)
    (hs : s ∈ (after (openStep L) calls (openStart start)).sent) :
    Accepts e index b msg s.key ↔ MatchingSession s b msg ∧ ProofAccepted L b msg := by
  obtain ⟨hinv, ha, heq⟩ := event_inv hgen hc e he
  have hfinal := final_inv hgen hc
  rw [heq] at hdel he ⊢
  have hmsg : Constructed msg := by
    have hcall : e.call = _ := hdel.call
    rw [hcall] at ha
    exact ha
  constructor
  · intro hacc
    have hmatch := (accepted_key_iff hl hrej hgen hdistinct hc hinj _ he index b msg s.key hacc s
      hs).mp rfl
    obtain ⟨_, _, _, hacceptable, _⟩ := event_acceptable hgen hc _ he index b msg s.key hacc
    exact ⟨hmatch, hacceptable.2⟩
  · rintro ⟨hmatch, hproof⟩
    exact (accepts_iff e.call e.before index b msg s.key hdel).mpr
      (run_matching_accepted hl hdistinct e.before _ hinv hfinal index b msg hmsg hdel.state s hs
        hmatch hproof)

end Exactness

theorem own_and_other_secret {L : Suite} {params : EirnParams} {pk pk' opkB : PublicKey}
    {sk sk' opkSk : SecretKey} {drawn : FixedBytes 32} {ct : Ciphertext} {ss : FixedBytes 32}
    (hv : L.KeysValid) (hkem : L.KemCorrect) (hrej : L.Rejecting)
    (h : encaps L drawn opkB = .ok (ct, ss)) (g : KeyPair L params opkB opkSk)
    (own : KeyPair L params pk sk) (other : KeyPair L params pk' sk')
    (hown : kemPart params pk = kemPart params opkB)
    (hother : kemPart params pk' ≠ kemPart params opkB) :
    decaps L sk ct ≠ decaps L sk' ct := by
  obtain ⟨ss₁, hdec₁, hsame, _⟩ := leg_other hv g.generated own.generated h
  obtain ⟨ss₂, hdec₂, _, hdiff⟩ := leg_other hv g.generated other.generated h
  rw [hdec₁, hdec₂, hsame hkem hown]
  intro heq
  exact hdiff hrej hother (Except.ok.inj heq).symm

theorem replayed_secretsDiffer {b₀ c₀ : PrekeyBundle} {pk₁ pk₂ pkA : PublicKey}
    {skA : SecretKey} {msg : Msg0Prime} {k k' : FixedBytes 32}
    (r : ReplayedRun b₀ c₀ pk₁ pk₂ pkA skA msg k k') :
    SecretsDiffer idealSuite [b₀, c₀] (oneTimeCiphertexts
      (trace (openStep idealSuite) (replayed skA pkA zeroDraws msg) (openStart [b₀, c₀]))) := by
  have hsend := r.sends
  rw [senderCall_eq, senderHandshake_ok_iff] at hsend
  obtain ⟨opkB, ekA, eskA, legs, raw, proof, run, hmsg, _⟩ := hsend
  have hfirst : opkB = pk₁ := by
    have h := run.first
    rw [PrekeyBundle.publicBundle, r.pool] at h
    exact (Option.some.inj h).symm
  subst hfirst
  obtain ⟨opkSk, _, hpair, _⟩ := List.forall₂_cons_left_iff.mp (r.pool ▸ r.bundle.pool)
  have hleg := run.legs.leg3
  intro b hb params pk sk pk' sk' hmem hmem' g g' hne ct hdelivered
  obtain ⟨e, he, i, b', m, key, hacc, hct⟩ := hdelivered
  have hct3 : ct = legs.ct3 := by
    rw [hct, (r.accepted_message e he i b' m key hacc).1, hmsg]
    rfl
  subst hct3
  have hb₀ : b = b₀ := by
    rcases List.mem_pair.mp hb with h | h
    · exact h
    · rw [h, r.otherPool] at hmem
      cases hmem
  subst hb₀
  have hparams : params = params768 := by
    obtain ⟨_, hpk⟩ := (goodSnapshot_publicBundle (runInv_start r.bundle)).pool pk hmem
    rw [← g.generated.params_eq, hpk.generated.params_eq]
  subst hparams
  rw [r.pool] at hmem hmem'
  rcases List.mem_pair.mp hmem with h | h <;> rcases List.mem_pair.mp hmem' with h' | h'
  · exact absurd (by rw [h, h']) hne
  · subst h h'
    exact own_and_other_secret idealSuite_lawful.keysValid idealSuite_lawful.kemCorrect
      idealSuite_rejecting hleg hpair g g' rfl r.prekeys
  · subst h h'
    exact (own_and_other_secret idealSuite_lawful.keysValid idealSuite_lawful.kemCorrect
      idealSuite_rejecting hleg hpair g' g rfl r.prekeys).symm
  · exact absurd (by rw [h, h']) hne

/-- The keys that the receivers of a run accept are all different, also for
replayed messages and for those that no sender made. -/
theorem accepted_keys_distinct (L : Suite) (start : List PrekeyBundle)
    (hgen : Generates L start) (hdistinct : DistinctKeys start) (calls : List OpenCall)
    (hc : ∀ call ∈ calls, OpenAllowed L call)
    (hinj : Set.InjOn (fun x => L.shake256 x 32)
      (acceptedInputs L (trace (openStep L) calls (openStart start))))
    (hdiff : SecretsDiffer L start
      (oneTimeCiphertexts (trace (openStep L) calls (openStart start)))) :
    (trace (openStep L) calls (openStart start)).Pairwise (fun e e' =>
      ∀ i j b b' msg msg' k k', Accepts e i b msg k → Accepts e' j b' msg' k' → k ≠ k') := by
  refine (events_later hgen hc).imp_of_mem ?_
  intro e e' he he' hlater i j b b' msg msg' k k' hacc hacc'
  exact accepted_keys_ne hgen hdistinct hc hinj hdiff e e' he he' hlater i j b b' msg msg' k k'
    hacc hacc'

theorem accepted_keys_distinct_replayed :
    ∃ b₀ c₀ pkA skA msg k k', ∃ calls : List OpenCall,
      calls = [.receiver 0 .publicBundle, .send skA pkA .lite zeroDraws 0,
        .receiver 0 (.receive msg), .receiver 0 (.receive msg)] ∧
      (∃ e ∈ trace (openStep idealSuite) calls (openStart [b₀, c₀]), Accepts e 0 b₀ msg k) ∧
      (∃ e ∈ trace (openStep idealSuite) calls (openStart [b₀, c₀]),
        Accepts e 0 (popped b₀) msg k') ∧
      (trace (openStep idealSuite) calls (openStart [b₀, c₀])).Pairwise (fun e e' =>
        ∀ i j b b' msg msg' k k', Accepts e i b msg k → Accepts e' j b' msg' k' → k ≠ k') := by
  obtain ⟨b₀, c₀, pk₁, pk₂, pkA, skA, msg, k, k', r⟩ := replayedRun_exists
  refine ⟨b₀, c₀, pkA, skA, msg, k, k', replayed skA pkA zeroDraws msg, rfl, r.accepts_first,
    r.accepts_second, ?_⟩
  apply accepted_keys_distinct idealSuite [b₀, c₀] r.generates r.distinct _ r.allowed
  · exact r.inputs_injOn.mono (acceptedInputs_subset _ _)
  · exact replayed_secretsDiffer r

/-- A delivery of a run is answered with a sender's key exactly when the message
is of that sender's session and carries an accepted proof. -/
theorem open_network_exact (L : Suite) (hl : L.Lawful) (hrej : L.Rejecting)
    (start : List PrekeyBundle) (hgen : Generates L start) (hdistinct : DistinctKeys start)
    (calls : List OpenCall) (hc : ∀ call ∈ calls, OpenAllowed L call)
    (hinj : Set.InjOn (fun x => L.shake256 x 32)
      (runInputs L (trace (openStep L) calls (openStart start))
        (after (openStep L) calls (openStart start)).sent)) :
    ∀ e ∈ trace (openStep L) calls (openStart start), ∀ index b msg, Delivers e index b msg →
      ∀ s ∈ (after (openStep L) calls (openStart start)).sent,
        (Accepts e index b msg s.key ↔ MatchingSession s b msg ∧ ProofAccepted L b msg) := by
  intro e he index b msg hdel s hs
  exact delivered_key_iff hl hrej hgen hdistinct hc hinj e he index b msg hdel s hs

theorem open_network_exact_replayed :
    ∃ b₀ c₀ pkA skA msg k, ∃ calls : List OpenCall,
      calls = [.receiver 0 .publicBundle, .send skA pkA .lite zeroDraws 0,
        .receiver 0 (.receive msg), .receiver 0 (.receive msg)] ∧
      (∃ e ∈ trace (openStep idealSuite) calls (openStart [b₀, c₀]), Accepts e 0 b₀ msg k) ∧
      (∃ e ∈ trace (openStep idealSuite) calls (openStart [b₀, c₀]),
        Delivers e 0 (popped b₀) msg) ∧
      ∀ e ∈ trace (openStep idealSuite) calls (openStart [b₀, c₀]), ∀ index b msg,
        Delivers e index b msg →
        ∀ s ∈ (after (openStep idealSuite) calls (openStart [b₀, c₀])).sent,
          (Accepts e index b msg s.key ↔
            MatchingSession s b msg ∧ ProofAccepted idealSuite b msg) := by
  obtain ⟨b₀, c₀, pk₁, pk₂, pkA, skA, msg, k, k', r⟩ := replayedRun_exists
  refine ⟨b₀, c₀, pkA, skA, msg, k, replayed skA pkA zeroDraws msg, rfl, r.accepts_first, ?_,
    open_network_exact idealSuite idealSuite_lawful idealSuite_rejecting [b₀, c₀] r.generates
      r.distinct _ r.allowed r.inputs_injOn⟩
  obtain ⟨e, he, hacc⟩ := r.accepts_second
  exact ⟨e, he, hacc.call, hacc.state⟩

end EirnKcp.NetworkKeys
