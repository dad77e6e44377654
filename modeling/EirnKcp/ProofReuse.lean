import EirnKcp.NetworkKeys
import EirnKcp.SenderAuthentication

/-!
# Reuse of proofs over an open network

A proof of either mode is accepted in one context only. In any run a proof that
was accepted once is accepted again exactly at the same receiver and for the
same sender and ephemeral keys, whatever ciphertexts stand beside it.
-/

set_option autoImplicit false

namespace EirnKcp.ProofReuse
open EirnKcp.CheckedCode EirnKcp.ByteCodec EirnKcp.Params EirnKcp.Primitives EirnKcp.LatticeZk
open EirnKcp.Kem EirnKcp.KeyLaws EirnKcp.Zk EirnKcp.StrictProof EirnKcp.Prekey EirnKcp.Handshake
open EirnKcp.HandshakeSteps EirnKcp.ReceiverState EirnKcp.HonestHandshake EirnKcp.SessionBinding
open EirnKcp.SenderAuthentication EirnKcp.CallRuns EirnKcp.Interleaving EirnKcp.OpenNetwork
open EirnKcp.NetworkKeys EirnKcp.IdealSuite

section Contexts
variable {L : Suite} {params params' : EirnParams} {b b' : PrekeyBundle} {msg msg' : Msg0Prime}

theorem profile_lengths (hb : BundleInv L params b) (hc : Constructed msg)
    (ho : OfProfile params msg) :
    msg.pkA.data.length = params.pkBytes ∧
      (receiverContext b msg).length = 3*params.pkBytes := by
  have hid := hb.identity.generated
  exact ⟨by rw [hc.pkA.length, ho.pkA], buildContext_length msg.pkA b.identityPk msg.ekA params
    hc.pkA hid.wellFormed hc.ekA ho.pkA hid.params_eq ho.ekA⟩

theorem context_keys (hb : BundleInv L params b) (hb' : BundleInv L params' b')
    (hc : Constructed msg) (hc' : Constructed msg') (ho : OfProfile params msg)
    (ho' : OfProfile params' msg')
    (h : receiverContext b msg = receiverContext b' msg') :
    msg.pkA = msg'.pkA ∧ b.identityPk = b'.identityPk ∧ msg.ekA = msg'.ekA := by
  have hid := hb.identity.generated.wellFormed
  have hid' := hb'.identity.generated.wellFormed
  obtain ⟨hpk, hlen⟩ := profile_lengths hb hc ho
  obtain ⟨hpk', hlen'⟩ := profile_lengths hb' hc' ho'
  have hsize : params.pkBytes = params'.pkBytes := by
    have := congrArg List.length h
    omega
  obtain ⟨hA, hrest⟩ := List.append_inj h (by rw [hpk, hpk', hsize])
  obtain ⟨hB, hE⟩ := List.append_inj hrest (by
    rw [hid.length, hid'.length, hb.identity.generated.params_eq,
      hb'.identity.generated.params_eq, hsize])
  exact ⟨publicKey_ext _ _ hc.pkA hc'.pkA hA, publicKey_ext _ _ hid hid' hB,
    publicKey_ext _ _ hc.ekA hc'.ekA hE⟩

theorem accepted_anchor (hw : msg.pkA.WellFormed) (ctx : Bytes) (h : ProofAcceptedIn L msg ctx) :
    ∃ x, AnchorInput msg ctx x ∧
      match msg.kcpMode with
      | .lite => msg.kcpLiteProof.anchor = L.sha3_256 x
      | .strict => ∃ proof, msg.kcpStrictProof = some proof ∧ proof.anchor = L.sha3_256 x := by
  unfold ProofAcceptedIn at h
  unfold AnchorInput
  cases hm : msg.kcpMode with
  | lite =>
    simp only [hm] at h ⊢
    exact ⟨_, rfl, lite_anchor _ _ _ h⟩
  | strict =>
    simp only [hm] at h ⊢
    obtain ⟨proof, hsome, haccept⟩ := h
    obtain ⟨t, ht, hanchor⟩ := strict_anchor _ hw _ _ haccept
    exact ⟨_, ⟨proof, t, hsome, ht, rfl⟩, proof, hsome, hanchor⟩

theorem anchor_context (hb : BundleInv L params b) (hb' : BundleInv L params' b')
    (hc : Constructed msg) (hc' : Constructed msg') (ho : OfProfile params msg)
    (ho' : OfProfile params' msg') (hshow : ShowsProofOf msg msg') (x : Bytes)
    (hx : AnchorInput msg (receiverContext b msg) x)
    (hx' : AnchorInput msg' (receiverContext b' msg') x) :
    receiverContext b msg = receiverContext b' msg' := by
  obtain ⟨hmode, hproof⟩ := hshow
  obtain ⟨hpk, hlen⟩ := profile_lengths hb hc ho
  obtain ⟨hpk', hlen'⟩ := profile_lengths hb' hc' ho'
  unfold AnchorInput at hx hx'
  rw [hmode] at hx'
  cases hm : msg.kcpMode with
  | lite =>
    simp only [hm] at hx hx' hproof
    rw [hproof] at hx'
    have hinput := hx.symm.trans hx'
    exact List.append_cancel_left (List.append_cancel_left (List.append_cancel_left hinput))
  | strict =>
    simp only [hm] at hx hx' hproof
    obtain ⟨proof, t, hsome, _, rfl⟩ := hx
    obtain ⟨proof', t', hsome', _, hinput⟩ := hx'
    obtain rfl := Option.some.inj (hsome.symm.trans (hproof.symm.trans hsome'))
    have hrest := List.append_cancel_left hinput
    have hsize : params.pkBytes = params'.pkBytes := by
      have htotal := congrArg List.length hrest
      simp only [List.length_append, hpk, hlen, hpk', hlen', (encodeStatement _).2] at htotal
      omega
    obtain ⟨_, htail⟩ := List.append_inj hrest (by rw [hpk, hpk', hsize])
    exact (List.append_inj htail (by rw [hlen, hlen', hsize])).1

theorem accepted_same_context (hb : BundleInv L params b) (hb' : BundleInv L params' b')
    (hc : Constructed msg) (hc' : Constructed msg') (ha : Acceptable L params b msg)
    (ha' : Acceptable L params' b' msg') (hshow : ShowsProofOf msg msg')
    (hinj : Set.InjOn L.sha3_256 {x | AnchorInput msg (receiverContext b msg) x ∨
      AnchorInput msg' (receiverContext b' msg') x}) :
    receiverContext b msg = receiverContext b' msg' := by
  obtain ⟨x, hx, hanchor⟩ := accepted_anchor hc.pkA _ ha.2
  obtain ⟨x', hx', hanchor'⟩ := accepted_anchor hc'.pkA _ ha'.2
  have hsame : L.sha3_256 x = L.sha3_256 x' := by
    obtain ⟨hmode, hproof⟩ := hshow
    rw [hmode] at hanchor'
    cases hm : msg.kcpMode with
    | lite =>
      simp only [hm] at hanchor hanchor' hproof
      rw [← hanchor, ← hanchor', hproof]
    | strict =>
      simp only [hm] at hanchor hanchor' hproof
      obtain ⟨proof, hsome, h⟩ := hanchor
      obtain ⟨proof', hsome', h'⟩ := hanchor'
      obtain rfl := Option.some.inj (hsome.symm.trans (hproof.symm.trans hsome'))
      rw [← h, ← h']
  obtain rfl := hinj (Or.inl hx) (Or.inr hx') hsame
  exact anchor_context hb hb' hc hc' ha.1 ha'.1 hshow x hx hx'

theorem accepted_again (hshow : ShowsProofOf msg msg') (hpk : msg'.pkA = msg.pkA)
    (hid : b'.identityPk = b.identityPk) (hek : msg'.ekA = msg.ekA) (h : ProofAccepted L b msg) :
    ProofAccepted L b' msg' := by
  rw [ProofAccepted, receiverContext, hpk, hid, hek]
  exact shows_accepted L _ msg' _ hpk hshow h

structure CiphertextsOf (params : EirnParams) (msg : Msg0Prime) : Prop where
  ct1 : msg.ct1.params = params
  ct2 : msg.ct2.params = params
  ct3 : msg.ct3.params = params
  ct4 : msg.ct4.params = params

theorem reused_acceptable_iff (hb : BundleInv L params b) (hb' : BundleInv L params' b')
    (hc : Constructed msg) (hc' : Constructed msg') (ha : Acceptable L params b msg)
    (hshow : ShowsProofOf msg msg')
    (hinj : Set.InjOn L.sha3_256 {x | AnchorInput msg (receiverContext b msg) x ∨
      AnchorInput msg' (receiverContext b' msg') x}) :
    Acceptable L params' b' msg' ↔ b'.identityPk = b.identityPk ∧ msg'.pkA = msg.pkA ∧
      msg'.ekA = msg.ekA ∧ CiphertextsOf params' msg' := by
  constructor
  · intro ha'
    have hctx := accepted_same_context hb hb' hc hc' ha ha' hshow hinj
    obtain ⟨hpk, hid, hek⟩ := context_keys hb hb' hc hc' ha.1 ha'.1 hctx
    exact ⟨hid.symm, hpk.symm, hek.symm, ha'.1.ct1, ha'.1.ct2, ha'.1.ct3, ha'.1.ct4⟩
  · rintro ⟨hid, hpk, hek, hcts⟩
    have hparams : params' = params := by
      rw [← hb'.identity.generated.params_eq, hid, hb.identity.generated.params_eq]
    subst hparams
    refine ⟨⟨?_, ?_, hcts.ct1, hcts.ct2, hcts.ct3, hcts.ct4⟩,
      accepted_again hshow hpk hid hek ha.2⟩
    · rw [hpk, ha.1.pkA]
    · rw [hek, ha.1.ekA]

end Contexts

section Runs
variable {L : Suite} {start : List PrekeyBundle}

/-- What SHA3-256 hashes for the anchors of the delivered messages. -/
def deliveredAnchors (events : List OpenEvent) : Set Bytes :=
  {x | ∃ e ∈ events, ∃ index b msg, Delivers e index b msg ∧
    AnchorInput msg (receiverContext b msg) x}

theorem constructed_of_delivers (call : OpenCall) (n : System) (ha : OpenAllowed L call)
    (index : ℕ) (b : PrekeyBundle) (msg : Msg0Prime)
    (h : Delivers (event (openStep L) call n) index b msg) : Constructed msg := by
  have hcall : call = _ := h.call
  rw [hcall] at ha
  exact ha

theorem identity_fixed (n n' : System) (h : SystemInv L start n) (h' : SystemInv L start n')
    (i : ℕ) (b b' : PrekeyBundle) (hb : n.receivers[i]? = some b)
    (hb' : n'.receivers[i]? = some b') : b'.identityPk = b.identityPk := by
  obtain ⟨c, hc, hlater⟩ := h.later i b hb
  obtain ⟨c', hc', hlater'⟩ := h'.later i b' hb'
  obtain rfl := Option.some.inj (hc.symm.trans hc')
  rw [hlater.keys.identityPk, hlater'.keys.identityPk]

theorem same_receiver (hdistinct : DistinctKeys start) (n n' : System) (h : SystemInv L start n)
    (h' : SystemInv L start n') (i j : ℕ) (b b' : PrekeyBundle) (hb : n.receivers[i]? = some b)
    (hb' : n'.receivers[j]? = some b') : i = j ↔ b'.identityPk = b.identityPk := by
  constructor
  · rintro rfl
    exact identity_fixed n n' h h' i b b' hb hb'
  · intro hid
    exact receiver_index_unique hdistinct n n' h.later h'.later i j b b' hb hb' hid.symm

end Runs

/-- In every run of an open network, a proof accepted with one message is
accepted with another exactly if it reaches the same receiver with the same two
sender keys and there is a one-time prekey left; the ciphertexts may differ. -/
theorem proof_reuse_iff (L : Suite) (start : List PrekeyBundle) (hgen : Generates L start)
    (hdistinct : DistinctKeys start) (calls : List OpenCall)
    (hc : ∀ call ∈ calls, OpenAllowed L call)
    (hinj : Set.InjOn L.sha3_256
      (deliveredAnchors (trace (openStep L) calls (openStart start)))) :
    ∀ e ∈ trace (openStep L) calls (openStart start),
    ∀ e' ∈ trace (openStep L) calls (openStart start), ∀ i j b b' msg msg' k,
      Accepts e i b msg k → Delivers e' j b' msg' → ShowsProofOf msg msg' →
      ((∃ k', Accepts e' j b' msg' k') ↔
        i = j ∧ msg'.pkA = msg.pkA ∧ msg'.ekA = msg.ekA ∧
          CiphertextsOf b'.identityPk.params msg' ∧ b'.oneTimePrekeys ≠ []) := by
  intro e he e' he' i j b b' msg msg' k hacc hdel hshow
  obtain ⟨hinv, _, _⟩ := event_inv hgen hc e he
  obtain ⟨hinv', ha', heq'⟩ := event_inv hgen hc e' he'
  obtain ⟨params, hb, hmsg, hacceptable, _⟩ := event_acceptable hgen hc e he i b msg k hacc
  have hdel₀ : Delivers e i b msg := ⟨hacc.call, hacc.state⟩
  have hmem : ∀ x, (AnchorInput msg (receiverContext b msg) x ∨
      AnchorInput msg' (receiverContext b' msg') x) →
      x ∈ deliveredAnchors (trace (openStep L) calls (openStart start)) := by
    rintro x (hx | hx)
    · exact ⟨e, he, i, b, msg, hdel₀, hx⟩
    · exact ⟨e', he', j, b', msg', hdel, hx⟩
  rw [heq'] at hdel
  have hstate' := hdel.state
  have hmsg' := constructed_of_delivers e'.call e'.before ha' j b' msg' hdel
  obtain ⟨params', hb'⟩ := hinv'.receivers b' (List.mem_of_getElem? hstate')
  have hsame := same_receiver hdistinct e.before e'.before hinv hinv' i j b b' hacc.state hstate'
  have hprofile := hb'.identity.generated.params_eq
  have haccepts : (∃ k', Accepts e' j b' msg' k') ↔
      b'.oneTimePrekeys ≠ [] ∧ Acceptable L params' b' msg' := by
    rw [heq', ← receive_ok_iff hb' msg' hmsg']
    exact exists_congr fun k' => accepts_iff e'.call e'.before j b' msg' k' hdel
  rw [haccepts, reused_acceptable_iff hb hb' hmsg hmsg' hacceptable hshow (hinj.mono hmem), hsame,
    hprofile]
  constructor
  · rintro ⟨hne, hid, hpk, hek, hcts⟩
    exact ⟨hid, hpk, hek, hcts, hne⟩
  · rintro ⟨hid, hpk, hek, hcts, hne⟩
    exact ⟨hne, hid, hpk, hek, hcts⟩

section Replayed
variable {b₀ c₀ : PrekeyBundle} {pk₁ pk₂ pkA : PublicKey} {skA : SecretKey} {msg : Msg0Prime}
  {k k' : FixedBytes 32}

theorem anchorInput_unique {m : Msg0Prime} {ctx x y : Bytes} (hx : AnchorInput m ctx x)
    (hy : AnchorInput m ctx y) : x = y := by
  unfold AnchorInput at hx hy
  cases hm : m.kcpMode with
  | lite =>
    simp only [hm] at hx hy
    rw [hx, hy]
  | strict =>
    simp only [hm] at hx hy
    obtain ⟨proof, t, hsome, ht, rfl⟩ := hx
    obtain ⟨proof', t', hsome', ht', rfl⟩ := hy
    obtain rfl := Option.some.inj (hsome.symm.trans hsome')
    obtain rfl := Option.some.inj (ht.symm.trans ht')
    rfl

theorem replayed_anchors (r : ReplayedRun b₀ c₀ pk₁ pk₂ pkA skA msg k k') :
    (deliveredAnchors (trace (openStep idealSuite) (replayed skA pkA zeroDraws msg)
      (openStart [b₀, c₀]))).Subsingleton := by
  have hall : ∀ x ∈ deliveredAnchors (trace (openStep idealSuite)
      (replayed skA pkA zeroDraws msg) (openStart [b₀, c₀])),
      AnchorInput msg (receiverContext b₀ msg) x := by
    rintro x ⟨e, he, index, b, m, hdel, hx⟩
    rw [(replayed_run r.sends r.first).2] at he
    have hcall := hdel.call
    have hstate := hdel.state
    simp only [List.mem_cons, List.not_mem_nil, or_false] at he
    rcases he with rfl | rfl | rfl | rfl
    · cases hcall
    · cases hcall
    · cases hcall
      obtain rfl := Option.some.inj hstate
      exact hx
    · cases hcall
      obtain rfl := Option.some.inj hstate
      exact hx
  intro x hx y hy
  exact anchorInput_unique (hall x hx) (hall y hy)

end Replayed

theorem proof_reuse_iff_replayed :
    ∃ b₀ c₀ pkA skA msg k, ∃ calls : List OpenCall,
      calls = [.receiver 0 .publicBundle, .send skA pkA .lite zeroDraws 0,
        .receiver 0 (.receive msg), .receiver 0 (.receive msg)] ∧
      ∃ e ∈ trace (openStep idealSuite) calls (openStart [b₀, c₀]),
      ∃ e' ∈ trace (openStep idealSuite) calls (openStart [b₀, c₀]),
        Accepts e 0 b₀ msg k ∧ Delivers e' 0 (popped b₀) msg ∧
        ((∃ k', Accepts e' 0 (popped b₀) msg k') ↔
          0 = 0 ∧ msg.pkA = msg.pkA ∧ msg.ekA = msg.ekA ∧
            CiphertextsOf (popped b₀).identityPk.params msg ∧
            (popped b₀).oneTimePrekeys ≠ []) := by
  obtain ⟨b₀, c₀, pk₁, pk₂, pkA, skA, msg, k, k', r⟩ := replayedRun_exists
  obtain ⟨e, he, hacc⟩ := r.accepts_first
  obtain ⟨e', he', hacc'⟩ := r.accepts_second
  have hdel : Delivers e' 0 (popped b₀) msg := ⟨hacc'.call, hacc'.state⟩
  have hshow : ShowsProofOf msg msg := showsProofOf_of_fields msg msg rfl rfl rfl
  exact ⟨b₀, c₀, pkA, skA, msg, k, replayed skA pkA zeroDraws msg, rfl, e, he, e', he', hacc,
    hdel, proof_reuse_iff idealSuite [b₀, c₀] r.generates r.distinct _ r.allowed
      ((replayed_anchors r).injOn _) e he e' he' 0 0 b₀ (popped b₀) msg msg k hacc hdel hshow⟩

end EirnKcp.ProofReuse
