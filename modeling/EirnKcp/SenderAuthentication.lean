import EirnKcp.SessionBinding

/-!
# What an accepted proof says about its sender

The proofs of both modes cover the two identity keys and the ephemeral key. An
adversary that has only the sender's own proofs gets just those keys accepted
that the sender once put together. The ciphertexts stand outside the proof:
exchanging them changes the session key, not the answer.
-/

set_option autoImplicit false

namespace EirnKcp.SenderAuthentication
open EirnKcp.CheckedCode EirnKcp.ByteCodec EirnKcp.Params EirnKcp.Primitives
open EirnKcp.LatticeZk EirnKcp.Kem EirnKcp.KeyLaws EirnKcp.Zk EirnKcp.LiteProof
open EirnKcp.StrictProof EirnKcp.Prekey EirnKcp.Handshake EirnKcp.HandshakeSteps
open EirnKcp.WireFormat EirnKcp.ReceiverState EirnKcp.HonestHandshake EirnKcp.SessionBinding
open EirnKcp.CallRuns EirnKcp.IdealSuite

def AnchorInput (msg : Msg0Prime) (ctx x : Bytes) : Prop :=
  match msg.kcpMode with
  | .lite => x = proofAnchorInput msg.kcpLiteProof.commitment msg.kcpLiteProof.response ctx
  | .strict => ∃ proof t, msg.kcpStrictProof = some proof ∧
      decodeStatement (statementPart msg.pkA) = some t ∧
      x = strictAnchorInput msg.pkA.data ctx t proof.commitment.1 proof.response.1

section Anchors
variable {L : Suite}

theorem lite_anchor (pk ctx : Bytes) (proof : KcpLiteProof)
    (h : kcpLiteVerify L pk ctx proof = .ok true) :
    proof.anchor = proofAnchor L proof.commitment proof.response ctx := by
  cases hp : paramsFromPublicKeyLen pk.length with
  | none => simp [kcpLiteVerify, hp] at h
  | some params =>
    obtain ⟨hs, hl⟩ := paramsFromLen_some params _ hp
    rw [liteVerify_eq L params pk ctx hs hl] at h
    have hchecks := Except.ok.inj h
    simp only [liteChecks, Bool.and_eq_true, ctEq_iff] at hchecks
    exact Subtype.ext hchecks.1.2

theorem strict_anchor (pk : PublicKey) (hw : pk.WellFormed) (ctx : Bytes) (proof : KcpStrictProof)
    (h : kcpStrictVerify L pk ctx proof = .ok true) :
    ∃ t, decodeStatement (statementPart pk) = some t ∧
      proof.anchor = strictAnchor L pk.data ctx t proof.commitment.1 proof.response.1 := by
  obtain ⟨t, _, _, ht, _, _, _, hanchor⟩ := (strictVerify_true_iff L pk ctx hw proof).mp h
  exact ⟨t, ht, hanchor⟩

theorem accepted_context (msg msg' : Msg0Prime) (ctx ctx' : Bytes) (hw : msg.pkA.WellFormed)
    (hpk : msg'.pkA = msg.pkA) (hshow : ShowsProofOf msg msg') (h : ProofAcceptedIn L msg ctx)
    (h' : ProofAcceptedIn L msg' ctx') (hlen : ctx.length = ctx'.length)
    (hinj : Set.InjOn L.sha3_256 {x | AnchorInput msg ctx x ∨ AnchorInput msg' ctx' x}) :
    ctx = ctx' := by
  obtain ⟨hmode, hproof⟩ := hshow
  unfold ProofAcceptedIn at h h'
  unfold AnchorInput at hinj
  rw [hmode, hpk] at h' hinj
  cases hm : msg.kcpMode with
  | lite =>
    simp only [hm] at h h' hproof hinj
    rw [hproof] at h' hinj
    have hsame := (lite_anchor _ _ _ h).symm.trans (lite_anchor _ _ _ h')
    have hinput := hinj (Or.inl rfl) (Or.inr rfl) hsame
    exact List.append_cancel_left (List.append_cancel_left (List.append_cancel_left hinput))
  | strict =>
    simp only [hm] at h h' hproof hinj
    rw [hproof] at h' hinj
    obtain ⟨proof, hsome, haccept⟩ := h
    obtain ⟨proof', hsome', haccept'⟩ := h'
    obtain rfl := Option.some.inj (hsome.symm.trans hsome')
    obtain ⟨t, ht, hanchor⟩ := strict_anchor _ hw _ _ haccept
    obtain ⟨t', ht', hanchor'⟩ := strict_anchor _ hw _ _ haccept'
    have hinput := hinj (Or.inl ⟨proof, t, hsome, ht, rfl⟩) (Or.inr ⟨proof, t', hsome, ht', rfl⟩)
      (hanchor.symm.trans hanchor')
    have hrest := List.append_cancel_left (List.append_cancel_left hinput)
    exact (List.append_inj hrest hlen).1

theorem buildContext_injective (pkA pkB pkB' ekA ekA' : PublicKey) (hB : pkB.WellFormed)
    (hB' : pkB'.WellFormed) (hE : ekA.WellFormed) (hE' : ekA'.WellFormed)
    (hp : pkB'.params = pkB.params)
    (h : buildContext pkA pkB ekA = buildContext pkA pkB' ekA') : pkB = pkB' ∧ ekA = ekA' := by
  have hrest := List.append_cancel_left h
  obtain ⟨hpk, hek⟩ := List.append_inj hrest (by rw [hB.length, hB'.length, hp])
  exact ⟨publicKey_ext _ _ hB hB' hpk, publicKey_ext _ _ hE hE' hek⟩

theorem buildContext_length (pkA pkB ekA : PublicKey) (params : EirnParams)
    (hA : pkA.WellFormed) (hB : pkB.WellFormed) (hE : ekA.WellFormed) (pA : pkA.params = params)
    (pB : pkB.params = params) (pE : ekA.params = params) :
    (buildContext pkA pkB ekA).length = 3*params.pkBytes := by
  simp only [buildContext, List.length_append, hA.length, hB.length, hE.length, pA, pB, pE]
  omega

end Anchors

structure Issued where
  mode : KcpMode
  bundleB : PublicPrekeyBundle
  draws : SenderDraws
  msg : Msg0Prime
  key : FixedBytes 32

structure Arena where
  receiver : PrekeyBundle
  runs : List Issued

/-- The adversary has the sender run on any bundle and delivers any message. -/
inductive ArenaCall where
  | send (mode : KcpMode) (bundleB : PublicPrekeyBundle) (draws : SenderDraws)
  | deliver (msg : Msg0Prime)
  | consume

inductive ArenaReply where
  | idle
  | answered (result : Result (FixedBytes 32))

def arenaStep (L : Suite) (skA : SecretKey) (pkA : PublicKey) :
    ArenaCall → Arena → ArenaReply × Arena
  | .send mode bundleB draws, a =>
    match senderCall L mode skA pkA bundleB draws with
    | .ok (msg, key) => (.idle, { a with runs := a.runs ++ [⟨mode, bundleB, draws, msg, key⟩] })
    | .error _ => (.idle, a)
  | .deliver msg, a =>
    (.answered (receiverHandshake L a.receiver msg).1,
      { a with receiver := (receiverHandshake L a.receiver msg).2 })
  | .consume, a => (.idle, { a with receiver := a.receiver.consumeOpk.2 })

abbrev ArenaEvent := Event Arena ArenaCall ArenaReply

def WellTyped : ArenaCall → Prop
  | .send _ bundleB _ => bundleB.identityPk.WellFormed
  | .deliver msg => Constructed msg
  | .consume => True

/-- Under the sender's key only proofs of its own runs are delivered. -/
def ShowsOwnProofs (pkA : PublicKey) (e : ArenaEvent) : Prop :=
  ∀ msg, e.call = .deliver msg → msg.pkA = pkA →
    ∃ run ∈ e.before.runs, ShowsProofOf run.msg msg

def SameCiphertexts (msg msg' : Msg0Prime) : Prop :=
  msg'.ct1 = msg.ct1 ∧ msg'.ct2 = msg.ct2 ∧ msg'.ct3 = msg.ct3 ∧ msg'.ct4 = msg.ct4

/-- An accepted message under the sender's key has the keys of one of its runs
with this receiver, and the ciphertexts of every run that ends with its key. -/
def SenderAuthenticated (pkA : PublicKey) (e : ArenaEvent) : Prop :=
  ∀ msg k, e.call = .deliver msg → e.reply = .answered (.ok k) → msg.pkA = pkA →
    (∃ run ∈ e.before.runs, ShowsProofOf run.msg msg ∧
      run.bundleB.identityPk = e.before.receiver.identityPk ∧ run.msg.ekA = msg.ekA) ∧
    ∀ run ∈ e.before.runs, run.key = k → SameCiphertexts run.msg msg

structure Recombined (msg msg' : Msg0Prime) : Prop where
  pkA : msg'.pkA = msg.pkA
  ekA : msg'.ekA = msg.ekA
  proof : ShowsProofOf msg msg'
  ct1 : msg'.ct1.params = msg.ct1.params
  ct2 : msg'.ct2.params = msg.ct2.params
  ct3 : msg'.ct3.params = msg.ct3.params
  ct4 : msg'.ct4.params = msg.ct4.params

/-- A message for this receiver with other ciphertexts is answered with another
key as long as there are one-time prekeys. -/
def ReplacementShows (e : ArenaEvent) : Prop :=
  ∀ msg, e.call = .deliver msg → ∀ run ∈ e.before.runs,
    run.bundleB.identityPk = e.before.receiver.identityPk → Recombined run.msg msg →
      (e.before.receiver.oneTimePrekeys = [] → e.reply = .answered (err .noOneTimePrekeys)) ∧
      (e.before.receiver.oneTimePrekeys ≠ [] → ∃ k, e.reply = .answered (.ok k) ∧
        (¬ SameCiphertexts run.msg msg → k ≠ run.key))

/-- What SHA3-256 hashes for the anchors of the delivered messages and of the
runs before them. -/
def anchorInputs (events : List ArenaEvent) : Set Bytes :=
  {x | ∃ e ∈ events, ∃ msg, e.call = .deliver msg ∧
    (AnchorInput msg (receiverContext e.before.receiver msg) x ∨
      ∃ run ∈ e.before.runs, AnchorInput run.msg
        (buildContext run.msg.pkA run.bundleB.identityPk run.msg.ekA) x)}

/-- What SHAKE256 hashes for the session keys of the same messages and runs. -/
def sessionKeyInputs (L : Suite) (skA : SecretKey) (pkA : PublicKey) (events : List ArenaEvent) :
    Set Bytes :=
  {x | ∃ e ∈ events, ∃ msg, e.call = .deliver msg ∧ ∃ run ∈ e.before.runs,
    x ∈ kdfInputs L skA pkA run.bundleB run.draws e.before.receiver msg}

section Runs
variable {L : Suite} {params paramsA : EirnParams} {skA : SecretKey} {pkA : PublicKey}
  {b₀ : PrekeyBundle}

structure OwnRun (L : Suite) (skA : SecretKey) (pkA : PublicKey) (run : Issued) : Prop where
  bundleB : run.bundleB.identityPk.WellFormed
  built : senderCall L run.mode skA pkA run.bundleB run.draws = .ok (run.msg, run.key)

structure ArenaInv (L : Suite) (params : EirnParams) (skA : SecretKey) (pkA : PublicKey)
    (b₀ : PrekeyBundle) (a : Arena) : Prop where
  receiver : RunInv L params b₀ a.receiver
  runs : ∀ run ∈ a.runs, OwnRun L skA pkA run

theorem arenaInv_step (call : ArenaCall) (a : Arena) (hc : WellTyped call)
    (h : ArenaInv L params skA pkA b₀ a) :
    ArenaInv L params skA pkA b₀ (arenaStep L skA pkA call a).2 := by
  cases call with
  | send mode bundleB draws =>
    simp only [arenaStep]
    cases hcall : senderCall L mode skA pkA bundleB draws with
    | error e => exact h
    | ok r =>
      refine ⟨h.receiver, ?_⟩
      intro run hrun
      rcases List.mem_append.mp hrun with hrun | hrun
      · exact h.runs run hrun
      · rw [List.mem_singleton.mp hrun]
        exact ⟨hc, hcall⟩
  | deliver msg => exact ⟨runInv_step b₀ (.receive msg) a.receiver hc h.receiver, h.runs⟩
  | consume => exact ⟨runInv_step b₀ .consume a.receiver trivial h.receiver, h.runs⟩

theorem OwnRun.run {run : Issued} (h : OwnRun L skA pkA run) :
    ∃ opkB ekA eskA legs raw proof,
      SenderRun L skA pkA run.bundleB run.mode run.draws opkB ekA eskA legs raw proof ∧
      run.msg = sentMessage pkA ekA legs run.mode proof ∧
      run.key = sentKey L pkA run.bundleB.identityPk ekA legs := by
  have hbuilt := h.built
  rwa [senderCall_eq, senderHandshake_ok_iff] at hbuilt

theorem accepted_keys (hl : L.Lawful) (hA : KeyPair L paramsA pkA skA) {b : PrekeyBundle}
    (hb : BundleInv L params b) {run : Issued} (hrun : OwnRun L skA pkA run) (msg : Msg0Prime)
    (hc : Constructed msg) (hpk : msg.pkA = pkA) (ha : Acceptable L params b msg)
    (hshow : ShowsProofOf run.msg msg)
    (hinj : Set.InjOn L.sha3_256
      {x | AnchorInput run.msg (buildContext run.msg.pkA run.bundleB.identityPk run.msg.ekA) x ∨
        AnchorInput msg (receiverContext b msg) x}) :
    run.bundleB.identityPk = b.identityPk ∧ run.msg.ekA = msg.ekA := by
  obtain ⟨opkB, ekA, eskA, legs, raw, proof, hsend, hmsg, _⟩ := hrun.run
  have g := hA.generated
  have hid := hb.identity.generated
  have hek := generated_of_keygen L _ _ _ _ hsend.ephemeral
  have hparams : pkA.params = params := by rw [← hpk, ha.1.pkA]
  have hB : run.bundleB.identityPk.params = params := by rw [← hsend.params, hparams]
  have haccept := sent_accepted hl hA hsend
  rw [hmsg] at hshow hinj ⊢
  have hlen := buildContext_length pkA run.bundleB.identityPk ekA params g.wellFormed hrun.bundleB
    hek.wellFormed hparams hB (by rw [hek.params_eq, hB])
  have hlen' := buildContext_length msg.pkA b.identityPk msg.ekA params hc.pkA hid.wellFormed hc.ekA
    ha.1.pkA hid.params_eq ha.1.ekA
  have hctx := accepted_context _ msg _ _ g.wellFormed hpk hshow haccept ha.2
    (hlen.trans hlen'.symm) hinj
  rw [receiverContext, hpk] at hctx
  exact buildContext_injective pkA _ _ ekA msg.ekA hrun.bundleB hid.wellFormed hek.wellFormed hc.ekA
    (by rw [hid.params_eq, hB]) hctx

theorem recombined_acceptable (hl : L.Lawful) (hA : KeyPair L paramsA pkA skA) {b : PrekeyBundle}
    (hb : BundleInv L params b) {run : Issued} (hrun : OwnRun L skA pkA run) (msg : Msg0Prime)
    (hB : run.bundleB.identityPk = b.identityPk) (hr : Recombined run.msg msg) :
    Acceptable L params b msg := by
  obtain ⟨opkB, ekA, eskA, legs, raw, proof, hsend, hmsg, _⟩ := hrun.run
  have hid := hb.identity.generated
  have hB' : run.bundleB.identityPk.params = params := by rw [hB, hid.params_eq]
  have hs : IsSupportedParams run.bundleB.identityPk.params := by
    rw [hB']
    exact hid.supported
  have hek := generated_of_keygen L _ _ _ _ hsend.ephemeral
  obtain ⟨_, p1⟩ := encaps_wellFormed L _ _ _ _ hs hsend.legs.leg1
  obtain ⟨_, p2⟩ := encaps_wellFormed L _ _ _ _ (hsend.signedPrekey ▸ hs) hsend.legs.leg2
  obtain ⟨_, p3⟩ := encaps_wellFormed L _ _ _ _ (hsend.oneTime ▸ hs) hsend.legs.leg3
  obtain ⟨_, p4⟩ := encaps_wellFormed L _ _ _ _ (hsend.signedPrekey ▸ hs) hsend.legs.leg4
  have haccept := sent_accepted hl hA hsend
  rw [hmsg] at hr
  obtain ⟨hpk, hekA, hshow, c1, c2, c3, c4⟩ := hr
  constructor
  · constructor
    · rw [hpk, ← hB']
      exact hsend.params
    · rw [hekA, ← hB']
      exact hek.params_eq
    · rw [c1, ← hB']
      exact p1
    · rw [c2, ← hB', ← hsend.signedPrekey]
      exact p2
    · rw [c3, ← hB', ← hsend.oneTime]
      exact p3
    · rw [c4, ← hB', ← hsend.signedPrekey]
      exact p4
  · rw [ProofAccepted, receiverContext, hpk, hekA, ← hB]
    exact shows_accepted L _ msg _ hpk hshow haccept

theorem same_key_same_ciphertexts (g : Generated L paramsA pkA skA) {b : PrekeyBundle}
    (hb : BundleInv L params b) {run : Issued} (hrun : OwnRun L skA pkA run) (msg : Msg0Prime)
    (hc : Constructed msg) (hok : (receiverHandshake L b msg).1 = .ok run.key)
    (hinj : Set.InjOn (fun x => L.shake256 x 32)
      (kdfInputs L skA pkA run.bundleB run.draws b msg)) :
    SameCiphertexts run.msg msg := by
  obtain ⟨opkB, ekA, eskA, legs, raw, proof, hsend, hmsg, hkey⟩ := hrun.run
  rw [hkey] at hok
  obtain ⟨_, _, _, hsame⟩ := same_key_same_fields g hrun.bundleB hsend hb msg hc hok hinj
  rw [hmsg]
  exact hsame.cts

section Deliveries
variable {a : Arena} {msg : Msg0Prime}

theorem deliver_authenticated (hl : L.Lawful) (hA : KeyPair L paramsA pkA skA)
    (h : ArenaInv L params skA pkA b₀ a) (hc : Constructed msg)
    (hown : ShowsOwnProofs pkA (event (arenaStep L skA pkA) (.deliver msg) a))
    (hsha : Set.InjOn L.sha3_256
      (anchorInputs [event (arenaStep L skA pkA) (.deliver msg) a]))
    (hshake : Set.InjOn (fun x => L.shake256 x 32)
      (sessionKeyInputs L skA pkA [event (arenaStep L skA pkA) (.deliver msg) a])) :
    SenderAuthenticated pkA (event (arenaStep L skA pkA) (.deliver msg) a) := by
  intro msg' k hcall hreply hpk
  cases hcall
  have hok : (receiverHandshake L a.receiver msg).1 = .ok k := ArenaReply.answered.inj hreply
  constructor
  · obtain ⟨run, hmem, hshow⟩ := hown msg rfl hpk
    have ha := ((receive_ok_iff h.receiver.bundle msg hc).mp ⟨k, hok⟩).2
    refine ⟨run, hmem, hshow, accepted_keys hl hA h.receiver.bundle (h.runs run hmem) msg hc hpk ha
      hshow (hsha.mono ?_)⟩
    rintro x (hx | hx)
    · exact ⟨_, List.mem_singleton_self _, msg, rfl, Or.inr ⟨run, hmem, hx⟩⟩
    · exact ⟨_, List.mem_singleton_self _, msg, rfl, Or.inl hx⟩
  · intro run hmem hkey
    refine same_key_same_ciphertexts hA.generated h.receiver.bundle (h.runs run hmem) msg hc
      (hkey ▸ hok) (hshake.mono ?_)
    intro x hx
    exact ⟨_, List.mem_singleton_self _, msg, rfl, run, hmem, hx⟩

theorem deliver_replacement (hl : L.Lawful) (hA : KeyPair L paramsA pkA skA)
    (h : ArenaInv L params skA pkA b₀ a) (hc : Constructed msg)
    (hshake : Set.InjOn (fun x => L.shake256 x 32)
      (sessionKeyInputs L skA pkA [event (arenaStep L skA pkA) (.deliver msg) a])) :
    ReplacementShows (event (arenaStep L skA pkA) (.deliver msg) a) := by
  intro msg' hcall run hmem hB hr
  cases hcall
  have ha := recombined_acceptable hl hA h.receiver.bundle (h.runs run hmem) msg hB hr
  have hreply : (event (arenaStep L skA pkA) (.deliver msg) a).reply =
    .answered (receiverHandshake L a.receiver msg).1 := rfl
  rw [hreply]
  rcases receive_acceptable h.receiver.bundle msg hc ha with
    ⟨hempty, hres⟩ | ⟨pk, pks, _, _, k, hpk, _, _, _, hres⟩
  · exact ⟨fun _ => by rw [hres], fun hne => absurd hempty hne⟩
  · constructor
    · intro hempty
      rw [show a.receiver.oneTimePrekeys = [] from hempty] at hpk
      cases hpk
    · intro _
      refine ⟨k, by rw [hres], ?_⟩
      intro hdiff hkey
      apply hdiff
      refine same_key_same_ciphertexts hA.generated h.receiver.bundle (h.runs run hmem) msg hc
        (by rw [hres, hkey]) (hshake.mono ?_)
      intro x hx
      exact ⟨_, List.mem_singleton_self _, msg, rfl, run, hmem, hx⟩

end Deliveries

end Runs

section Subtraces
variable {events : List ArenaEvent} {e : ArenaEvent} (he : e ∈ events)
include he

theorem anchorInputs_mono : anchorInputs [e] ⊆ anchorInputs events := by
  rintro x ⟨e', he', h⟩
  rw [List.mem_singleton.mp he'] at h
  exact ⟨e, he, h⟩

theorem sessionKeyInputs_mono (L : Suite) (skA : SecretKey) (pkA : PublicKey) :
    sessionKeyInputs L skA pkA [e] ⊆ sessionKeyInputs L skA pkA events := by
  rintro x ⟨e', he', h⟩
  rw [List.mem_singleton.mp he'] at h
  exact ⟨e, he, h⟩

end Subtraces

section OneRun
variable {L : Suite} {skA : SecretKey} {pkA : PublicKey} {b : PrekeyBundle} {mode : KcpMode}
  {bundleB : PublicPrekeyBundle} {draws : SenderDraws} {msg : Msg0Prime} {key : FixedBytes 32}

theorem one_run_trace (hsend : senderCall L mode skA pkA bundleB draws = .ok (msg, key))
    (msg' : Msg0Prime) :
    trace (arenaStep L skA pkA) [.send mode bundleB draws, .deliver msg'] ⟨b, []⟩ =
      [event (arenaStep L skA pkA) (.send mode bundleB draws) ⟨b, []⟩,
        event (arenaStep L skA pkA) (.deliver msg') ⟨b, [⟨mode, bundleB, draws, msg, key⟩]⟩] := by
  simp only [trace, arenaStep, hsend, List.nil_append]

theorem one_run_shows (hsend : senderCall L mode skA pkA bundleB draws = .ok (msg, key))
    (msg' : Msg0Prime) (hshow : ShowsProofOf msg msg') :
    ∀ e ∈ trace (arenaStep L skA pkA) [.send mode bundleB draws, .deliver msg'] ⟨b, []⟩,
      ShowsOwnProofs pkA e := by
  rw [one_run_trace hsend, List.forall_mem_cons, List.forall_mem_singleton]
  constructor
  · intro m h
    cases h
  · intro m h _
    cases h
    exact ⟨_, List.mem_singleton_self _, hshow⟩

theorem one_run_sessionKeyInputs
    (hsend : senderCall L mode skA pkA bundleB draws = .ok (msg, key)) :
    sessionKeyInputs L skA pkA (trace (arenaStep L skA pkA)
      [.send mode bundleB draws, .deliver msg] ⟨b, []⟩) ⊆
        kdfInputs L skA pkA bundleB draws b msg := by
  rw [one_run_trace hsend]
  rintro x ⟨e, he, m, hcall, run, hrun, hx⟩
  simp only [List.mem_cons, List.not_mem_nil, or_false] at he
  rcases he with rfl | rfl
  · cases hcall
  · cases hcall
    rw [List.mem_singleton.mp hrun] at hx
    exact hx

theorem one_run_anchorInputs
    (hsend : senderCall L .lite skA pkA b.publicBundle draws = .ok (msg, key)) :
    (anchorInputs (trace (arenaStep L skA pkA)
      [.send .lite b.publicBundle draws, .deliver msg] ⟨b, []⟩)).Subsingleton := by
  have hmode : msg.kcpMode = .lite := by
    obtain ⟨_, _, _, _, _, _, _, rfl, _⟩ :=
      (senderHandshake_ok_iff _ _ _ _ _ _ _ _).mp ((senderCall_eq _ _ _ _ _ _).symm.trans hsend)
    rfl
  apply Set.subsingleton_of_forall_eq (proofAnchorInput msg.kcpLiteProof.commitment
    msg.kcpLiteProof.response (receiverContext b msg))
  rw [one_run_trace hsend]
  rintro x ⟨e, he, m, hcall, hx⟩
  simp only [List.mem_cons, List.not_mem_nil, or_false] at he
  rcases he with rfl | rfl
  · cases hcall
  · cases hcall
    simp only [event, List.mem_singleton, exists_eq_left, AnchorInput, hmode] at hx
    exact hx.elim id id

end OneRun

theorem exists_other_ciphertext (params : EirnParams) (hs : IsSupportedParams params)
    (ct : Ciphertext) : ∃ other : Ciphertext, other.WellFormed ∧ other.params = params ∧
      other ≠ ct := by
  have hne : params.ctBytes ≠ 0 := by
    rcases hs with rfl | rfl
    · decide
    · decide
  by_cases h : (⟨List.replicate params.ctBytes 0, params⟩ : Ciphertext) = ct
  · refine ⟨⟨List.replicate params.ctBytes 1, params⟩, ⟨hs, List.length_replicate⟩, rfl, ?_⟩
    intro h'
    have hdata := congrArg Ciphertext.data (h'.trans h.symm)
    exact absurd (List.replicate_right_injective hne hdata) (by decide)
  · exact ⟨_, ⟨hs, List.length_replicate⟩, rfl, h⟩

/-- In every run of the receiver, the sender and the adversary, acceptance under
the sender's key goes back to a run of the sender with the same three keys, and
exchanged ciphertexts show in the session key. -/
theorem sender_authentication (L : Suite) (hl : L.Lawful) (paramsA : EirnParams)
    (seedA : FixedBytes 96) (pkA : PublicKey) (skA : SecretKey)
    (hA : keygenFromSeed L seedA paramsA = .ok (pkA, skA)) (params : EirnParams)
    (hs : IsSupportedParams params) (drawn : ℕ → FixedBytes 96) (numOpk : ℕ) (b₀ : PrekeyBundle)
    (hgen : generatePrekeyBundleWithParams L drawn numOpk params = .ok b₀)
    (calls : List ArenaCall) (hc : ∀ call ∈ calls, WellTyped call)
    (hown : ∀ e ∈ trace (arenaStep L skA pkA) calls ⟨b₀, []⟩, ShowsOwnProofs pkA e)
    (hsha : Set.InjOn L.sha3_256 (anchorInputs (trace (arenaStep L skA pkA) calls ⟨b₀, []⟩)))
    (hshake : Set.InjOn (fun x => L.shake256 x 32)
      (sessionKeyInputs L skA pkA (trace (arenaStep L skA pkA) calls ⟨b₀, []⟩))) :
    ∀ e ∈ trace (arenaStep L skA pkA) calls ⟨b₀, []⟩,
      SenderAuthenticated pkA e ∧ ReplacementShows e := by
  intro e he
  have hstart : ArenaInv L params skA pkA b₀ ⟨b₀, []⟩ :=
    ⟨runInv_start (generate_inv L params hs drawn numOpk b₀ hgen).1, by simp⟩
  obtain ⟨hinv, htyped, heq⟩ := trace_invariant (arenaStep L skA pkA) WellTyped
    (ArenaInv L params skA pkA b₀) arenaInv_step calls ⟨b₀, []⟩ hc hstart e he
  have hown' := hown e he
  have hsha' := hsha.mono (anchorInputs_mono he)
  have hshake' := hshake.mono (sessionKeyInputs_mono he L skA pkA)
  rw [heq] at hown' hsha' hshake' ⊢
  cases hcall : e.call with
  | deliver msg =>
    rw [hcall] at htyped hown' hsha' hshake'
    exact ⟨deliver_authenticated hl ⟨seedA, hA⟩ hinv htyped hown' hsha' hshake',
      deliver_replacement hl ⟨seedA, hA⟩ hinv htyped hshake'⟩
  | send mode bundleB draws =>
    constructor
    · intro msg k h
      cases h
    · intro msg h
      cases h
  | consume =>
    constructor
    · intro msg k h
      cases h
    · intro msg h
      cases h

theorem sender_authentication_one_run :
    ∃ pkA skA b msg key,
      keygenFromSeed idealSuite (zeros 96) params768 = .ok (pkA, skA) ∧
      generatePrekeyBundleWithParams idealSuite (fun _ => zeros 96) 1 params768 = .ok b ∧
      senderCall idealSuite .lite skA pkA b.publicBundle zeroDraws = .ok (msg, key) ∧
      ∀ e ∈ trace (arenaStep idealSuite skA pkA)
          [.send .lite b.publicBundle zeroDraws, .deliver msg] ⟨b, []⟩,
        SenderAuthenticated pkA e ∧ ReplacementShows e := by
  obtain ⟨pkA, skA, hA, _⟩ := keygen_generated idealSuite (zeros 96) params768 supported768
  obtain ⟨b, hb, hinv, hl⟩ := generate_ok idealSuite params768 supported768 (fun _ => zeros 96) 1
  generalize zeroDraws = draws
  obtain ⟨msg, key, hsend, hw, _⟩ := exchange_ok idealSuite_lawful ⟨zeros 96, hA⟩ hinv
    (List.ne_nil_of_length_eq_add_one hl) .lite draws
  have hinputs := (honest_inputs idealSuite_lawful.keysValid idealSuite_lawful.kemCorrect hinv
    hsend).1
  rw [← senderCall_eq] at hsend
  have htyped : ∀ call ∈ ([.send .lite b.publicBundle draws, .deliver msg] : List ArenaCall),
      WellTyped call := by
    simp only [List.forall_mem_cons, WellTyped]
    exact ⟨hinv.identity.generated.wellFormed, (hw.constructed _ _ supported768).1, by simp⟩
  exact ⟨pkA, skA, b, msg, key, hA, hb, hsend,
    sender_authentication idealSuite idealSuite_lawful params768 (zeros 96) pkA skA hA params768
      supported768 (fun _ => zeros 96) 1 b hb _ htyped
      (one_run_shows hsend msg (showsProofOf_of_fields msg msg rfl rfl rfl))
      ((one_run_anchorInputs hsend).injOn _)
      ((hinputs.anti (one_run_sessionKeyInputs hsend)).injOn _)⟩

theorem replaced_ciphertext_accepted :
    ∃ pkA skA b msg key ct k,
      keygenFromSeed idealSuite (zeros 96) params768 = .ok (pkA, skA) ∧
      generatePrekeyBundleWithParams idealSuite (fun _ => zeros 96) 1 params768 = .ok b ∧
      senderCall idealSuite .lite skA pkA b.publicBundle zeroDraws = .ok (msg, key) ∧
      ct ≠ msg.ct1 ∧ WellTyped (.deliver { msg with ct1 := ct }) ∧
      (∀ e ∈ trace (arenaStep idealSuite skA pkA)
          [.send .lite b.publicBundle zeroDraws, .deliver { msg with ct1 := ct }] ⟨b, []⟩,
        ShowsOwnProofs pkA e) ∧
      ∃ e ∈ trace (arenaStep idealSuite skA pkA)
          [.send .lite b.publicBundle zeroDraws, .deliver { msg with ct1 := ct }] ⟨b, []⟩,
        e.call = .deliver { msg with ct1 := ct } ∧ e.reply = .answered (.ok k) ∧
        ¬ ∃ run ∈ e.before.runs, run.bundleB.identityPk = b.identityPk ∧
          run.msg.ekA = msg.ekA ∧ SameCiphertexts run.msg { msg with ct1 := ct } := by
  obtain ⟨pkA, skA, hA, _⟩ := keygen_generated idealSuite (zeros 96) params768 supported768
  obtain ⟨b, hb, hinv, hl⟩ := generate_ok idealSuite params768 supported768 (fun _ => zeros 96) 1
  generalize zeroDraws = draws
  obtain ⟨msg, key, hsend, hw, ha, _⟩ := exchange_ok idealSuite_lawful ⟨zeros 96, hA⟩ hinv
    (List.ne_nil_of_length_eq_add_one hl) .lite draws
  rw [← senderCall_eq] at hsend
  obtain ⟨ct, hct, hp, hne⟩ := exists_other_ciphertext params768 supported768 msg.ct1
  have hc := (hw.constructed _ _ supported768).1
  have hc' : Constructed { msg with ct1 := ct } :=
    ⟨hc.pkA, hc.ekA, hct, hc.ct2, hc.ct3, hc.ct4⟩
  have ha' : Acceptable idealSuite params768 b { msg with ct1 := ct } :=
    ⟨⟨ha.1.pkA, ha.1.ekA, hp, ha.1.ct2, ha.1.ct3, ha.1.ct4⟩, ha.2⟩
  obtain ⟨k, hok⟩ := (receive_ok_iff hinv _ hc').mpr ⟨List.ne_nil_of_length_eq_add_one hl, ha'⟩
  have hshow := showsProofOf_of_fields msg { msg with ct1 := ct } rfl rfl rfl
  refine ⟨pkA, skA, b, msg, key, ct, k, hA, hb, hsend, hne, hc', one_run_shows hsend _ hshow, ?_⟩
  rw [one_run_trace hsend]
  refine ⟨_, List.mem_cons_of_mem _ List.mem_cons_self, rfl, congrArg ArenaReply.answered hok, ?_⟩
  rintro ⟨run, hrun, _, _, hsame⟩
  rw [List.mem_singleton.mp hrun] at hsame
  exact hne hsame.1

end EirnKcp.SenderAuthentication
