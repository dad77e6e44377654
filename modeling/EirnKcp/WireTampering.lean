import EirnKcp.LiteBinding
import EirnKcp.ModeBinding

/-!
# What a changed message can still agree on

Between its mode byte and its proof a message carries two keys and four
ciphertexts. A receiver derives the sender's key from changed bytes exactly when
none of these six fields changed and the proof it finds is accepted. A KCP-Lite
proof cannot change either.
-/

set_option autoImplicit false

namespace EirnKcp.WireTampering
open EirnKcp.CheckedCode EirnKcp.ByteCodec EirnKcp.Params EirnKcp.Primitives EirnKcp.Kem
open EirnKcp.KeyLaws EirnKcp.Zk EirnKcp.LiteBinding EirnKcp.ProofCodec EirnKcp.Prekey
open EirnKcp.Handshake EirnKcp.HandshakeSteps EirnKcp.WireFormat EirnKcp.ReceiverState
open EirnKcp.HonestHandshake EirnKcp.SessionBinding EirnKcp.ModeBinding EirnKcp.CallRuns
open EirnKcp.IdealSuite

/-- The bytes between the mode and the proof field. -/
def bodyOf (params : EirnParams) (data : Bytes) : Bytes :=
  fieldAt data 1 (2*params.pkBytes+4*params.ctBytes)

def fieldsBody (fields : WireFields) : Bytes :=
  fields.pkA ++ (fields.ekA ++ (fields.ct1 ++ (fields.ct2 ++ (fields.ct3 ++ fields.ct4))))

theorem bodyOf_bytes (params : EirnParams) (mode : KcpMode) (fields : WireFields)
    (h : fields.Sized params mode) : bodyOf params (fields.bytes mode) = fieldsBody fields := by
  have hsplit : fields.bytes mode = mode.byte :: (fieldsBody fields ++ fields.proof) := by
    simp [WireFields.bytes, fieldsBody]
  have hl : (fieldsBody fields).length = 2*params.pkBytes+4*params.ctBytes := by
    simp only [fieldsBody, List.length_append, h.pkA, h.ekA, h.ct1, h.ct2, h.ct3, h.ct4]
    omega
  rw [bodyOf, fieldAt, hsplit, List.drop_succ_cons, List.drop_zero, List.take_left' hl]

section Messages
variable {L : Suite} {params : EirnParams} {m m' : Msg0Prime} {data data' : Bytes}

theorem bodyOf_toBytes (hs : IsSupportedParams params) (h : WellFormedMessage L params m)
    (hb : m.toBytes = .ok data) : bodyOf params data = fieldsBody (messageFields m []) := by
  obtain ⟨proof, hp, hl⟩ := h.proofField L params hs
  rw [(h.toBytes_eq L params hs m proof hp).1] at hb
  cases hb
  exact bodyOf_bytes params m.kcpMode _ (h.sized L params m proof hl)

theorem lite_of_bytes (hb : m.toBytes = .ok data) (hm : data.head? = some KcpMode.lite.byte) :
    m.kcpMode = .lite := by
  obtain ⟨proof, _, rfl⟩ := toBytes_ok m data hb
  cases hmode : m.kcpMode with
  | lite => rfl
  | strict =>
    rw [hmode] at hm
    cases hm

theorem bodyOf_eq_iff (hs : IsSupportedParams params) (h : WellFormedMessage L params m)
    (h' : WellFormedMessage L params m') (hb : m.toBytes = .ok data)
    (hb' : m'.toBytes = .ok data') : bodyOf params data' = bodyOf params data ↔
      SameSession m m' := by
  rw [bodyOf_toBytes hs h hb, bodyOf_toBytes hs h' hb']
  constructor
  · intro heq
    obtain ⟨h1, heq⟩ := List.append_inj heq (h'.pkA.2.length.trans h.pkA.2.length.symm)
    obtain ⟨h2, heq⟩ := List.append_inj heq (h'.ekA.2.length.trans h.ekA.2.length.symm)
    obtain ⟨h3, heq⟩ := List.append_inj heq (h'.ct1.2.trans h.ct1.2.symm)
    obtain ⟨h4, heq⟩ := List.append_inj heq (h'.ct2.2.trans h.ct2.2.symm)
    obtain ⟨h5, h6⟩ := List.append_inj heq (h'.ct3.2.trans h.ct3.2.symm)
    simp only [messageFields] at h1 h2 h3 h4 h5 h6
    constructor
    · rw [publicKey_eta params m.pkA h.pkA.1, publicKey_eta params m'.pkA h'.pkA.1, h1]
    · rw [publicKey_eta params m.ekA h.ekA.1, publicKey_eta params m'.ekA h'.ekA.1, h2]
    · rw [ciphertext_eta params m.ct1 h.ct1.1, ciphertext_eta params m'.ct1 h'.ct1.1, h3]
    · rw [ciphertext_eta params m.ct2 h.ct2.1, ciphertext_eta params m'.ct2 h'.ct2.1, h4]
    · rw [ciphertext_eta params m.ct3 h.ct3.1, ciphertext_eta params m'.ct3 h'.ct3.1, h5]
    · rw [ciphertext_eta params m.ct4 h.ct4.1, ciphertext_eta params m'.ct4 h'.ct4.1, h6]
  · intro hsame
    simp only [fieldsBody, messageFields, hsame.pkA, hsame.ekA, hsame.ct1, hsame.ct2, hsame.ct3,
      hsame.ct4]

end Messages

section Exchange
variable {L : Suite} {params : EirnParams} {skA : SecretKey} {pkA : PublicKey} {b : PrekeyBundle}
  {mode : KcpMode} {draws : SenderDraws} {msg m' : Msg0Prime} {k : FixedBytes 32}

theorem pool_of_sent
    (hsend : senderHandshakeWithMode L skA pkA b.publicBundle mode draws = .ok (msg, k)) :
    b.oneTimePrekeys ≠ [] := by
  obtain ⟨opkB, _, _, _, _, _, run, _, _⟩ :=
    (senderHandshake_ok_iff L skA pkA b.publicBundle mode draws msg k).mp hsend
  have hmem : opkB ∈ b.oneTimePrekeys := List.mem_of_mem_head? run.first
  exact List.ne_nil_of_mem hmem

theorem other_message_iff (hl : L.Lawful) (hA : KeyPair L params pkA skA)
    (hb : BundleInv L params b)
    (hsend : senderHandshakeWithMode L skA pkA b.publicBundle mode draws = .ok (msg, k))
    (hc : Constructed m') (hinj : Set.InjOn (fun x => L.shake256 x 32)
      (kdfInputs L skA pkA b.publicBundle draws b m')) :
    (receiverHandshake L b m').1 = .ok k ↔
      SameSession msg m' ∧ ProofAcceptedIn L m' (buildContext pkA b.identityPk msg.ekA) := by
  have hid := hb.identity.generated
  obtain ⟨opkB, ekA, eskA, legs, raw, proof, run, rfl, rfl⟩ :=
    (senderHandshake_ok_iff L skA pkA b.publicBundle mode draws msg k).mp hsend
  constructor
  · intro hk
    obtain ⟨_, _, _, hsame⟩ := same_key_same_fields hA.generated hid.wellFormed run hb m' hc hk
      hinj
    obtain ⟨_, _, haccept⟩ := (receive_ok_iff hb m' hc).mp ⟨_, hk⟩
    obtain ⟨h1, h2, h3, h4⟩ := hsame.cts
    refine ⟨⟨hsame.pkA, hsame.ekA, h1, h2, h3, h4⟩, ?_⟩
    rw [ProofAccepted, receiverContext, hsame.pkA, hsame.ekA] at haccept
    exact haccept
  · rintro ⟨hsame, haccept⟩
    have hpool := pool_of_sent hsend
    obtain ⟨msg', k', hsend', hw, ha, hr⟩ := exchange_ok hl hA hb hpool mode draws
    rw [hsend] at hsend'
    simp only [Except.ok.injEq, Prod.mk.injEq] at hsend'
    obtain ⟨rfl, rfl⟩ := hsend'
    have hsent := (hw.constructed L params hA.generated.supported)
    have hprofile : OfProfile params m' := by
      refine ⟨?_, ?_, ?_, ?_, ?_, ?_⟩
      · rw [hsame.pkA]; exact hsent.2.pkA
      · rw [hsame.ekA]; exact hsent.2.ekA
      · rw [hsame.ct1]; exact hsent.2.ct1
      · rw [hsame.ct2]; exact hsent.2.ct2
      · rw [hsame.ct3]; exact hsent.2.ct3
      · rw [hsame.ct4]; exact hsent.2.ct4
    have hother : ∃ k', (receiverHandshake L b m').1 = .ok k' := by
      rw [receive_ok_iff hb m' hc]
      refine ⟨hpool, hprofile, ?_⟩
      rw [ProofAccepted, receiverContext, hsame.pkA, hsame.ekA]
      exact haccept
    obtain ⟨k', hk'⟩ := hother
    obtain ⟨_, _, _, hkey⟩ := sameSession_key hb hsent.1 hsame (by rw [hr]) hk'
    rw [hk', hkey]

end Exchange

theorem lite_sent_only {L : Suite} {params : EirnParams} {skA : SecretKey} {pkA : PublicKey}
    {bundleB : PublicPrekeyBundle} {draws : SenderDraws} {msg m' : Msg0Prime} {k : FixedBytes 32}
    (hp : L.SignaturesParse) (he : L.DsaExact) (hn : L.SignaturesNonZero)
    (hA : KeyPair L params pkA skA) (hB : bundleB.identityPk.params = params)
    (hsend : senderHandshakeWithMode L skA pkA bundleB .lite draws = .ok (msg, k))
    (hw : WellFormedMessage L params m') (hm : m'.kcpMode = .lite) (hsame : SameSession msg m')
    (haccept : ProofAcceptedIn L m' (buildContext pkA bundleB.identityPk msg.ekA)) :
    m' = msg := by
  have g := hA.generated
  obtain ⟨opkB, ekA, eskA, legs, raw, proof, run, rfl, rfl⟩ :=
    (senderHandshake_ok_iff L skA pkA bundleB .lite draws msg k).mp hsend
  have hproof := run.proof
  rw [hB] at hproof
  obtain ⟨p, hp', hhonest⟩ := liteProve_honest g (buildContext pkA bundleB.identityPk ekA)
  rw [senderProof, kcpLiteProveForKey, if_neg (not_not_intro run.own), hp'] at hproof
  cases hproof
  have hmessage := hw.proof
  simp only [ProofAcceptedIn, hm, hsame.pkA] at haccept hmessage
  have hown := ((own_accepted_iff g hp he hn _ m'.kcpLiteProof).mp haccept).1
  have hlite := honestFields_unique _ _ _ hown hhonest
  obtain ⟨pkA', ekA', ct1, ct2, ct3, ct4, mode', lite, strict⟩ := m'
  obtain ⟨h1, h2, h3, h4, h5, h6⟩ := hsame
  dsimp only at h1 h2 h3 h4 h5 h6 hm hmessage hlite
  rw [h1, h2, h3, h4, h5, h6, hm, hmessage.2, hlite]
  rfl

theorem lite_bytes_sent {L : Suite} {params : EirnParams} {skA : SecretKey} {pkA : PublicKey}
    {bundleB : PublicPrekeyBundle} {draws : SenderDraws} {msg m' : Msg0Prime} {k : FixedBytes 32}
    {data data' : Bytes} (hp : L.SignaturesParse) (he : L.DsaExact) (hn : L.SignaturesNonZero)
    (hA : KeyPair L params pkA skA) (hB : bundleB.identityPk.params = params)
    (hsend : senderHandshakeWithMode L skA pkA bundleB .lite draws = .ok (msg, k))
    (hdata : msg.toBytes = .ok data)
    (hparse : Msg0Prime.fromBytesWithParams L data' params = .ok m')
    (hhead : data'.head? = some KcpMode.lite.byte) (hsame : SameSession msg m')
    (haccept : ProofAcceptedIn L m' (buildContext pkA bundleB.identityPk msg.ekA)) :
    data' = data := by
  obtain ⟨hw, hdata'⟩ := (parse_ok_iff L params hA.generated.supported data' m').mp hparse
  obtain rfl := lite_sent_only hp he hn hA hB hsend hw (lite_of_bytes hdata' hhead) hsame haccept
  exact Except.ok.inj (hdata'.symm.trans hdata)

end EirnKcp.WireTampering
