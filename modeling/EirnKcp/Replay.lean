import EirnKcp.HonestHandshake

/-!
# Redelivery of accepted messages

Nothing in a message refers to the one-time prekey that it consumes, and its
proof stays valid while the identity key does. So bytes that were accepted are
refused later exactly when the pool has run out in between.
-/

set_option autoImplicit false

namespace EirnKcp.Replay
open EirnKcp.CheckedCode EirnKcp.Params EirnKcp.Primitives EirnKcp.Kem EirnKcp.KeyLaws
open EirnKcp.Zk EirnKcp.ProofCodec EirnKcp.Prekey EirnKcp.Handshake EirnKcp.HandshakeSteps
open EirnKcp.WireFormat EirnKcp.ReceiverState EirnKcp.HonestHandshake EirnKcp.CallRuns
open EirnKcp.IdealSuite

structure SameContents (m m' : Msg0Prime) : Prop where
  mode : m.kcpMode = m'.kcpMode
  pkA : m.pkA = m'.pkA
  ekA : m.ekA = m'.ekA
  proof : m.proofField = m'.proofField

theorem sameContents_of_bytes (params : EirnParams) (m m' : Msg0Prime) (data : Bytes)
    (hc : Constructed m) (hc' : Constructed m') (hp : OfProfile params m)
    (hp' : OfProfile params m') (h : m.toBytes = .ok data) (h' : m'.toBytes = .ok data) :
    SameContents m m' := by
  obtain ⟨proof, hf, hd⟩ := toBytes_ok m data h
  obtain ⟨proof', hf', hd'⟩ := toBytes_ok m' data h'
  have ha : WireFields.Aligned (messageFields m proof) (messageFields m' proof') := by
    constructor
    · exact (hc.pkA.length.trans (by rw [hp.pkA, hp'.pkA])).trans hc'.pkA.length.symm
    · exact (hc.ekA.length.trans (by rw [hp.ekA, hp'.ekA])).trans hc'.ekA.length.symm
    · exact (hc.ct1.length.trans (by rw [hp.ct1, hp'.ct1])).trans hc'.ct1.length.symm
    · exact (hc.ct2.length.trans (by rw [hp.ct2, hp'.ct2])).trans hc'.ct2.length.symm
    · exact (hc.ct3.length.trans (by rw [hp.ct3, hp'.ct3])).trans hc'.ct3.length.symm
    · exact (hc.ct4.length.trans (by rw [hp.ct4, hp'.ct4])).trans hc'.ct4.length.symm
  obtain ⟨hfields, hmode⟩ := WireFields.bytes_injective _ _ _ _ ha (hd.symm.trans hd')
  simp only [messageFields, WireFields.mk.injEq] at hfields
  refine ⟨hmode, ?_, ?_, ?_⟩
  · rw [publicKey_eta params m.pkA hp.pkA, publicKey_eta params m'.pkA hp'.pkA, hfields.1]
  · rw [publicKey_eta params m.ekA hp.ekA, publicKey_eta params m'.ekA hp'.ekA, hfields.2.1]
  · rw [hf, hf', hfields.2.2.2.2.2.2]

theorem SameContents.shows (m m' : Msg0Prime) (h : SameContents m m') : ShowsProofOf m m' := by
  have hproof := h.proof
  unfold Msg0Prime.proofField at hproof
  rw [← h.mode] at hproof
  refine ⟨h.mode.symm, ?_⟩
  cases hm : m.kcpMode with
  | lite =>
    simp only [hm] at hproof ⊢
    exact (liteProof_toBytes_injective _ _ (Except.ok.inj hproof)).symm
  | strict =>
    simp only [hm] at hproof ⊢
    cases hs : m.kcpStrictProof with
    | none =>
      cases hs' : m'.kcpStrictProof with
      | none => rfl
      | some proof' =>
        rw [hs, hs'] at hproof
        cases hproof
    | some proof =>
      cases hs' : m'.kcpStrictProof with
      | none =>
        rw [hs, hs'] at hproof
        cases hproof
      | some proof' =>
        rw [hs, hs'] at hproof
        rw [strictProof_toBytes_injective _ _ (Except.ok.inj hproof)]

theorem proofAccepted_congr (L : Suite) (b b' : PrekeyBundle) (m m' : Msg0Prime)
    (hid : b'.identityPk = b.identityPk) (h : SameContents m m')
    (ha : ProofAccepted L b m) : ProofAccepted L b' m' := by
  have hctx : receiverContext b' m' = receiverContext b m := by
    rw [receiverContext, receiverContext, hid, h.pkA, h.ekA]
  rw [ProofAccepted, hctx]
  exact shows_accepted L m m' _ h.pkA.symm h.shows ha

abbrev ReceiverEvent := Event PrekeyBundle ReceiverCall ReceiverReply

def SameBytes (e e' : ReceiverEvent) (m m' : Msg0Prime) : Prop :=
  e.call = .receive m ∧ e'.call = .receive m' ∧
    ∃ data, m.toBytes = .ok data ∧ m'.toBytes = .ok data

def ReplayRefused (e e' : ReceiverEvent) : Prop :=
  ∀ m m', SameBytes e e' m m' → (∃ k, e.reply = .key (.ok k)) →
    (∃ error, e'.reply = .key (err error)) ∧ e'.after = e'.before

/-- If the first call could accept its message, a second one of the receiver's
profile with the same bytes finds the pool empty. -/
def ReplayFindsEmpty (L : Suite) (params : EirnParams) (e e' : ReceiverEvent) : Prop :=
  ∀ m m', SameBytes e e' m m' → e.before.oneTimePrekeys ≠ [] →
    Acceptable L params e.before m → OfProfile params m' → e'.before.oneTimePrekeys = []

section Pairs
variable {L : Suite} {params : EirnParams}

theorem receive_not_ok {b : PrekeyBundle} (hb : BundleInv L params b) (m : Msg0Prime)
    (hc : Constructed m) (h : ¬ ∃ k, (receiverHandshake L b m).1 = .ok k) :
    ∃ error, receiverHandshake L b m = (err error, b) := by
  rcases receiverHandshake_cases hb m hc with
    ⟨⟨e, _, hr⟩, _⟩ | ⟨_, ⟨_, _, hr⟩ | ⟨_, _, _, _, k, _, _, _, _, hr⟩⟩
  · exact ⟨e, hr⟩
  · exact ⟨_, hr⟩
  · exact absurd ⟨k, by rw [hr]⟩ h

theorem replay_pair_iff (b₀ : PrekeyBundle) (c : ReceiverCall) (b : PrekeyBundle)
    (c' : ReceiverCall) (b' : PrekeyBundle) (hc : Allowed c) (hb : RunInv L params b₀ b)
    (hc' : Allowed c') (hb' : RunInv L params b₀ b') :
    ReplayRefused (event (receiverStep L) c b) (event (receiverStep L) c' b') ↔
      ReplayFindsEmpty L params (event (receiverStep L) c b)
        (event (receiverStep L) c' b') := by
  apply forall_congr'
  intro m
  apply forall_congr'
  intro m'
  apply imp_congr_right
  rintro ⟨hm, hm', data, hd, hd'⟩
  dsimp only [event] at hm hm' ⊢
  subst hm hm'
  simp only [receiverStep, ReceiverReply.key.injEq]
  rw [receive_ok_iff hb.bundle m hc]
  constructor
  · intro h hne ha hp'
    obtain ⟨⟨error, herr⟩, _⟩ := h ⟨hne, ha⟩
    have hsame := sameContents_of_bytes params m m' data hc hc' ha.1 hp' hd hd'
    have ha' := proofAccepted_congr L b b' m m'
      (by rw [hb'.keys.identityPk, hb.keys.identityPk]) hsame ha.2
    by_contra hne'
    obtain ⟨k, hk⟩ := (receive_ok_iff hb'.bundle m' hc').mpr ⟨hne', hp', ha'⟩
    rw [hk] at herr
    cases herr
  · rintro h ⟨hne, ha⟩
    have hno : ¬ ∃ k, (receiverHandshake L b' m').1 = .ok k := by
      rw [receive_ok_iff hb'.bundle m' hc']
      rintro ⟨hne', ha'⟩
      exact hne' (h hne ha ha'.1)
    obtain ⟨error, hr⟩ := receive_not_ok hb'.bundle m' hc' hno
    rw [hr]
    exact ⟨⟨error, rfl⟩, rfl⟩

end Pairs

/-- In every run replays are refused exactly when each of them finds the pool
empty. -/
theorem replay_refused_iff (L : Suite) (params : EirnParams) (hs : IsSupportedParams params)
    (drawn : ℕ → FixedBytes 96) (numOpk : ℕ) (b₀ : PrekeyBundle)
    (hgen : generatePrekeyBundleWithParams L drawn numOpk params = .ok b₀)
    (calls : List ReceiverCall) (hc : ∀ call ∈ calls, Allowed call) :
    (trace (receiverStep L) calls b₀).Pairwise ReplayRefused ↔
      (trace (receiverStep L) calls b₀).Pairwise (ReplayFindsEmpty L params) :=
  trace_pairwise_iff (receiverStep L) Allowed (RunInv L params b₀) (runInv_step b₀) ReplayRefused
    (ReplayFindsEmpty L params) (replay_pair_iff b₀) calls b₀ hc
    (runInv_start (generate_inv L params hs drawn numOpk b₀ hgen).1)

theorem replay_refused_iff_two :
    ∃ b₀ msg k, generatePrekeyBundleWithParams idealSuite (fun _ => zeros 96) 2 params768 =
        .ok b₀ ∧
      (receiverHandshake idealSuite b₀ msg).1 = .ok k ∧
      ((trace (receiverStep idealSuite) [.receive msg, .receive msg] b₀).Pairwise ReplayRefused ↔
        (trace (receiverStep idealSuite) [.receive msg, .receive msg] b₀).Pairwise
          (ReplayFindsEmpty idealSuite params768)) := by
  obtain ⟨pkA, skA, hA, _⟩ := keygen_generated idealSuite (zeros 96) params768 supported768
  obtain ⟨b₀, hb, hinv, hl⟩ := generate_ok idealSuite params768 supported768 (fun _ => zeros 96) 2
  obtain ⟨msg, k, _, hw, _, hr⟩ := exchange_ok idealSuite_lawful ⟨zeros 96, hA⟩ hinv
    (List.ne_nil_of_length_eq_add_one hl) .lite zeroDraws
  have hc := (hw.constructed _ _ supported768).1
  have hcalls : ∀ call ∈ [ReceiverCall.receive msg, .receive msg], Allowed call := by
    simp only [List.forall_mem_cons, Allowed]
    exact ⟨hc, hc, by simp⟩
  exact ⟨b₀, msg, k, hb, by rw [hr], replay_refused_iff idealSuite params768 supported768
    (fun _ => zeros 96) 2 b₀ hb _ hcalls⟩

theorem replay_accepted_twice :
    ∃ b₀ msg k k', generatePrekeyBundleWithParams idealSuite (fun _ => zeros 96) 2 params768 =
        .ok b₀ ∧
      Allowed (.receive msg) ∧
      (receiverHandshake idealSuite b₀ msg).1 = .ok k ∧
      (receiverHandshake idealSuite (receiverHandshake idealSuite b₀ msg).2 msg).1 = .ok k' ∧
      ¬ (trace (receiverStep idealSuite) [.receive msg, .receive msg] b₀).Pairwise
        ReplayRefused := by
  obtain ⟨pkA, skA, hA, _⟩ := keygen_generated idealSuite (zeros 96) params768 supported768
  obtain ⟨b₀, hb, hinv, hl⟩ := generate_ok idealSuite params768 supported768 (fun _ => zeros 96) 2
  obtain ⟨msg, k, _, hw, ha, hr⟩ := exchange_ok idealSuite_lawful ⟨zeros 96, hA⟩ hinv
    (List.ne_nil_of_length_eq_add_one hl) .lite zeroDraws
  obtain ⟨hc, _⟩ := hw.constructed _ _ supported768
  obtain ⟨data, hbytes, _, _⟩ := wellFormed_round_trip idealSuite params768 supported768 msg hw
  have hpool : (popped b₀).oneTimePrekeys ≠ [] := by
    apply List.ne_nil_of_length_pos
    rw [popped, List.length_drop, hl]
    decide
  obtain ⟨k', hk'⟩ := (receive_ok_iff (popped_inv hinv) msg hc).mpr ⟨hpool, ha⟩
  refine ⟨b₀, msg, k, k', hb, hc, by rw [hr], by rw [hr, hk'], ?_⟩
  intro h
  have hpair := List.rel_of_pairwise_cons h List.mem_cons_self
  obtain ⟨⟨error, herr⟩, _⟩ := hpair msg msg ⟨rfl, rfl, data, hbytes, hbytes⟩
    ⟨k, by simp only [event, receiverStep, hr]⟩
  simp only [event, receiverStep, hr, hk', ReceiverReply.key.injEq] at herr
  cases herr

end EirnKcp.Replay
