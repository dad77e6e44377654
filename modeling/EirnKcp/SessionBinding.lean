import EirnKcp.HonestHandshake
import EirnKcp.KdfEncoding

/-!
# What a session key determines

The key hashes eleven length-prefixed fields, so equal keys have equal fields
unless the hash collides on the two inputs. The last secret hashes fields
without prefixes; they are recovered because all but one of them are known.
-/

set_option autoImplicit false

namespace EirnKcp.SessionBinding
open EirnKcp.CheckedCode EirnKcp.ByteCodec EirnKcp.Params EirnKcp.Primitives EirnKcp.Kem
open EirnKcp.KeyLaws EirnKcp.Zk EirnKcp.Prekey EirnKcp.Handshake EirnKcp.HandshakeSteps
open EirnKcp.WireFormat EirnKcp.ReceiverState EirnKcp.HonestHandshake EirnKcp.CallRuns
open EirnKcp.IdealSuite EirnKcp.KdfEncoding

def sessionInput (secrets : List (FixedBytes 32)) (pkA pkB ekA : Bytes)
    (ciphertexts : List Bytes) : Bytes :=
  kdfEncode (sessionInputs secrets pkA pkB ekA ciphertexts none) sessionLabel

structure Fields where
  secrets : List (FixedBytes 32)
  pkA : Bytes
  pkB : Bytes
  ekA : Bytes
  ciphertexts : List Bytes

def Fields.input (fields : Fields) : Bytes :=
  sessionInput fields.secrets fields.pkA fields.pkB fields.ekA fields.ciphertexts

structure Fields.Sized (fields : Fields) : Prop where
  secrets : fields.secrets.length = 4
  pkA : fields.pkA.length < 2^32
  pkB : fields.pkB.length < 2^32
  ekA : fields.ekA.length < 2^32
  ciphertexts : fields.ciphertexts.length = 4
  each : ∀ ct ∈ fields.ciphertexts, ct.length < 2^32

def Fields.arguments (fields : Fields) : SessionArguments :=
  ⟨fields.secrets, fields.pkA, fields.pkB, fields.ekA, fields.ciphertexts, none⟩

theorem Fields.Sized.short {fields : Fields} (h : fields.Sized) : fields.arguments.Short := by
  refine ⟨h.pkA, h.pkB, h.ekA, h.each, ?_⟩
  intro data hd
  cases hd

theorem input_injective (f g : Fields) (hf : f.Sized) (hg : g.Sized) (h : f.input = g.input) :
    f = g := by
  obtain ⟨_, hinputs⟩ := kdfEncode_injective sessionLabel sessionLabel f.arguments.inputs
    g.arguments.inputs rfl (f.arguments.inputs_short hf.short)
    (g.arguments.inputs_short hg.short) h
  -- both have four secrets and four ciphertexts, so the roles are fixed
  have hroles := f.arguments.sameRoles_of_counts g.arguments hinputs
    (hf.secrets.trans hg.secrets.symm) (hf.ciphertexts.trans hg.ciphertexts.symm)
  cases f
  cases g
  simp only [Fields.mk.injEq]
  exact ⟨hroles.sharedSecrets, hroles.pkA, hroles.pkB, hroles.ekA, hroles.ciphertexts⟩

theorem naxosInput_injective (raw raw' : FixedBytes 32)
    (senderPk recipientPk recipientPk' ctx : Bytes)
    (h : naxosInput raw senderPk recipientPk ctx = naxosInput raw' senderPk recipientPk' ctx) :
    raw = raw' ∧ recipientPk = recipientPk' := by
  have h0 := List.append_cancel_left h
  obtain ⟨hraw, h1⟩ := List.append_inj h0 (by rw [raw.2, raw'.2])
  exact ⟨Subtype.ext hraw, List.append_cancel_right (List.append_cancel_left h1)⟩

theorem publicKey_ext (pk pk' : PublicKey) (h : pk.WellFormed) (h' : pk'.WellFormed)
    (hd : pk.data = pk'.data) : pk = pk' := by
  have hp := supported_eq_of_pkBytes pk.params pk'.params h.supported h'.supported
    (by rw [← h.length, ← h'.length, hd])
  cases pk
  cases pk'
  cases hd
  cases hp
  rfl

theorem ciphertext_ext (ct ct' : Ciphertext) (h : ct.WellFormed) (h' : ct'.WellFormed)
    (hd : ct.data = ct'.data) : ct = ct' := by
  have hp := supported_eq_of_ctBytes ct.params ct'.params h.supported h'.supported
    (by rw [← h.length, ← h'.length, hd])
  cases ct
  cases ct'
  cases hd
  cases hp
  rfl

theorem publicKey_short (pk : PublicKey) (h : pk.WellFormed) : pk.data.length < 2^32 := by
  have hb := (supported_consistent _ h.supported).bounded
  have hl := h.length
  omega

theorem ciphertext_short (ct : Ciphertext) (h : ct.WellFormed) : ct.data.length < 2^32 := by
  have hb := (supported_consistent _ h.supported).bounded
  have hl := h.length
  omega

def SenderSession (L : Suite) (skA : SecretKey) (pkA : PublicKey) (bundleB : PublicPrekeyBundle)
    (draws : SenderDraws) (ekA : PublicKey) (legs : Legs) (raw : FixedBytes 32) : Prop :=
  ∃ eskA opkB,
    keygenWithParams L draws.ephemeral bundleB.identityPk.params = .ok (ekA, eskA) ∧
    bundleB.oneTimePrekeys.head? = some opkB ∧
    LegsOf L skA bundleB opkB (buildContext pkA bundleB.identityPk ekA) draws legs raw

structure Secrets where
  k1 : FixedBytes 32
  k2 : FixedBytes 32
  k3 : FixedBytes 32
  raw : FixedBytes 32

def ReceiverSession (L : Suite) (b : PrekeyBundle) (msg : Msg0Prime) (secrets : Secrets) : Prop :=
  ∃ sk, b.oneTimeSecretKeys.head? = some sk ∧
    SecretsOf L b msg sk secrets.k1 secrets.k2 secrets.k3 secrets.raw

theorem senderSession_unique {L : Suite} {skA : SecretKey} {pkA : PublicKey}
    {bundleB : PublicPrekeyBundle} {draws : SenderDraws} {ekA ekA' : PublicKey}
    {legs legs' : Legs} {raw raw' : FixedBytes 32}
    (h : SenderSession L skA pkA bundleB draws ekA legs raw)
    (h' : SenderSession L skA pkA bundleB draws ekA' legs' raw') :
    ekA = ekA' ∧ legs = legs' ∧ raw = raw' := by
  obtain ⟨eskA, opkB, hek, hopk, l1, l2, l3, l4, l5⟩ := h
  obtain ⟨eskA', opkB', hek', hopk', l1', l2', l3', l4', l5'⟩ := h'
  rw [hek] at hek'
  rw [hopk] at hopk'
  cases hek'
  cases hopk'
  rw [l1] at l1'
  rw [l2] at l2'
  rw [l3] at l3'
  rw [l4] at l4'
  simp only [Except.ok.injEq, Prod.mk.injEq] at l1' l2' l3' l4'
  obtain ⟨hct4, rfl⟩ := l4'
  refine ⟨rfl, ?_, rfl⟩
  cases legs
  cases legs'
  simp only [Legs.mk.injEq]
  exact ⟨l1'.1, l1'.2, l2'.1, l2'.2, l3'.1, l3'.2, hct4, l5.trans l5'.symm⟩

theorem receiverSession_unique {L : Suite} {b : PrekeyBundle} {msg : Msg0Prime}
    {secrets secrets' : Secrets} (h : ReceiverSession L b msg secrets)
    (h' : ReceiverSession L b msg secrets') : secrets = secrets' := by
  obtain ⟨sk, hsk, l1, l2, l3, l4⟩ := h
  obtain ⟨sk', hsk', l1', l2', l3', l4'⟩ := h'
  rw [hsk] at hsk'
  cases hsk'
  rw [l1] at l1'
  rw [l2] at l2'
  rw [l3] at l3'
  rw [l4] at l4'
  cases secrets
  cases secrets'
  simp only [Secrets.mk.injEq]
  exact ⟨Except.ok.inj l1', Except.ok.inj l2', Except.ok.inj l3', Except.ok.inj l4'⟩

def Secrets.list (L : Suite) (b : PrekeyBundle) (msg : Msg0Prime) (secrets : Secrets) :
    List (FixedBytes 32) :=
  [secrets.k1, secrets.k2, secrets.k3, receiverNaxos L b msg secrets.raw]

def senderFields (pkA pkB ekA : PublicKey) (legs : Legs) : Fields :=
  ⟨legs.secrets, pkA.data, pkB.data, ekA.data, legs.ciphertexts⟩

def receiverFields (L : Suite) (b : PrekeyBundle) (msg : Msg0Prime) (secrets : Secrets) : Fields :=
  ⟨secrets.list L b msg, msg.pkA.data, b.identityPk.data, msg.ekA.data, msg.ciphertexts⟩

section Exchange
variable (L : Suite) (skA : SecretKey) (pkA : PublicKey) (bundleB : PublicPrekeyBundle)
  (draws : SenderDraws) (b : PrekeyBundle) (msg : Msg0Prime)

/-- The inputs of the two calls to SHAKE256 that derive the session keys. -/
def kdfInputs : Set Bytes :=
  {x | (∃ ekA legs raw, SenderSession L skA pkA bundleB draws ekA legs raw ∧
      x = (senderFields pkA bundleB.identityPk ekA legs).input) ∨
    ∃ secrets, ReceiverSession L b msg secrets ∧ x = (receiverFields L b msg secrets).input}

def naxosInputs : Set Bytes :=
  {x | (∃ ekA legs raw, SenderSession L skA pkA bundleB draws ekA legs raw ∧
      x = naxosInput raw skA.pkData bundleB.signedPrekeyPk.data
        (buildContext pkA bundleB.identityPk ekA)) ∨
    ∃ secrets, ReceiverSession L b msg secrets ∧
      x = naxosInput secrets.raw msg.pkA.data b.signedPrekeySk.pkData (receiverContext b msg)}

end Exchange

section Runs
variable {L : Suite} {params : EirnParams} {skA eskA : SecretKey} {pkA opkB ekA : PublicKey}
  {bundleB : PublicPrekeyBundle} {mode : KcpMode} {draws : SenderDraws} {legs : Legs}
  {raw : FixedBytes 32} {proof : KcpLiteProof × Option KcpStrictProof}

theorem sender_wellFormed (g : Generated L params pkA skA)
    (run : SenderRun L skA pkA bundleB mode draws opkB ekA eskA legs raw proof) :
    pkA.WellFormed ∧ ekA.WellFormed ∧ legs.ct1.WellFormed ∧ legs.ct2.WellFormed ∧
      legs.ct3.WellFormed ∧ legs.ct4.WellFormed := by
  have hs : IsSupportedParams bundleB.identityPk.params := by
    rw [← run.params, g.params_eq]
    exact g.supported
  have hek := generated_of_keygen L _ _ _ _ run.ephemeral
  exact ⟨g.wellFormed, hek.wellFormed, (encaps_wellFormed L _ _ _ _ hs run.legs.leg1).1,
    (encaps_wellFormed L _ _ _ _ (run.signedPrekey ▸ hs) run.legs.leg2).1,
    (encaps_wellFormed L _ _ _ _ (run.oneTime ▸ hs) run.legs.leg3).1,
    (encaps_wellFormed L _ _ _ _ (run.signedPrekey ▸ hs) run.legs.leg4).1⟩

theorem senderFields_sized (g : Generated L params pkA skA)
    (hB : bundleB.identityPk.WellFormed)
    (run : SenderRun L skA pkA bundleB mode draws opkB ekA eskA legs raw proof) :
    (senderFields pkA bundleB.identityPk ekA legs).Sized := by
  obtain ⟨hA, hek, h1, h2, h3, h4⟩ := sender_wellFormed g run
  refine ⟨rfl, publicKey_short _ hA, publicKey_short _ hB, publicKey_short _ hek, rfl, ?_⟩
  simp only [senderFields, Legs.ciphertexts, List.forall_mem_cons]
  exact ⟨ciphertext_short _ h1, ciphertext_short _ h2, ciphertext_short _ h3,
    ciphertext_short _ h4, by simp⟩

theorem receiverFields_sized {b : PrekeyBundle} {msg : Msg0Prime} (hb : b.identityPk.WellFormed)
    (hc : Constructed msg) (secrets : Secrets) : (receiverFields L b msg secrets).Sized := by
  refine ⟨rfl, publicKey_short _ hc.pkA, publicKey_short _ hb, publicKey_short _ hc.ekA, rfl, ?_⟩
  simp only [receiverFields, Msg0Prime.ciphertexts, List.forall_mem_cons]
  exact ⟨ciphertext_short _ hc.ct1, ciphertext_short _ hc.ct2, ciphertext_short _ hc.ct3,
    ciphertext_short _ hc.ct4, by simp⟩

theorem receiver_session {b : PrekeyBundle} (hb : BundleInv L params b) (msg : Msg0Prime)
    (hc : Constructed msg) (k : FixedBytes 32) (h : (receiverHandshake L b msg).1 = .ok k) :
    ∃ secrets, ReceiverSession L b msg secrets ∧
      k = L.shake256 (receiverFields L b msg secrets).input 32 := by
  obtain ⟨sk, hsk, hkey⟩ := receive_first hb msg k hc h
  obtain ⟨k1, k2, k3, raw, hsec, rfl⟩ := (receiverKey_ok_iff L b msg sk k).mp hkey
  exact ⟨⟨k1, k2, k3, raw⟩, ⟨sk, hsk, hsec⟩, rfl⟩

structure SameTranscript (pkA pkB ekA : PublicKey) (legs : Legs) (b : PrekeyBundle)
    (msg : Msg0Prime) : Prop where
  pkA : msg.pkA = pkA
  pkB : b.identityPk = pkB
  ekA : msg.ekA = ekA
  cts : msg.ct1 = legs.ct1 ∧ msg.ct2 = legs.ct2 ∧ msg.ct3 = legs.ct3 ∧ msg.ct4 = legs.ct4

theorem same_key_same_fields {paramsR : EirnParams} {b : PrekeyBundle}
    (g : Generated L params pkA skA) (hB : bundleB.identityPk.WellFormed)
    (run : SenderRun L skA pkA bundleB mode draws opkB ekA eskA legs raw proof)
    (hb : BundleInv L paramsR b) (msg : Msg0Prime) (hc : Constructed msg)
    (hrecv : (receiverHandshake L b msg).1 = .ok (sentKey L pkA bundleB.identityPk ekA legs))
    (hshake : Set.InjOn (fun x => L.shake256 x 32) (kdfInputs L skA pkA bundleB draws b msg)) :
    ∃ secrets, ReceiverSession L b msg secrets ∧ secrets.list L b msg = legs.secrets ∧
      SameTranscript pkA bundleB.identityPk ekA legs b msg := by
  have hid := hb.identity.generated
  obtain ⟨secrets, hsession, hkey⟩ := receiver_session hb msg hc _ hrecv
  have hsender : SenderSession L skA pkA bundleB draws ekA legs raw :=
    ⟨eskA, opkB, run.ephemeral, run.first, run.legs⟩
  have hinput := hshake (Or.inr ⟨secrets, hsession, rfl⟩) (Or.inl ⟨ekA, legs, raw, hsender, rfl⟩)
    hkey.symm
  have hfields := input_injective _ _ (receiverFields_sized hid.wellFormed hc secrets)
    (senderFields_sized g hB run) hinput
  simp only [senderFields, receiverFields, Fields.mk.injEq, Legs.ciphertexts,
    Msg0Prime.ciphertexts, List.cons.injEq, and_true] at hfields
  obtain ⟨hsecrets, hpkA, hpkB, hekA, h1, h2, h3, h4⟩ := hfields
  obtain ⟨wA, wE, w1, w2, w3, w4⟩ := sender_wellFormed g run
  exact ⟨secrets, hsession, hsecrets, publicKey_ext _ _ hc.pkA wA hpkA,
    publicKey_ext _ _ hid.wellFormed hB hpkB, publicKey_ext _ _ hc.ekA wE hekA,
    ciphertext_ext _ _ hc.ct1 w1 h1, ciphertext_ext _ _ hc.ct2 w2 h2,
    ciphertext_ext _ _ hc.ct3 w3 h3, ciphertext_ext _ _ hc.ct4 w4 h4⟩

theorem same_last_secret_same_prekey {paramsR : EirnParams} {b : PrekeyBundle}
    (g : Generated L params pkA skA)
    (run : SenderRun L skA pkA bundleB mode draws opkB ekA eskA legs raw proof)
    (hb : BundleInv L paramsR b) (msg : Msg0Prime) {secrets : Secrets}
    (hsession : ReceiverSession L b msg secrets)
    (hsame : SameTranscript pkA bundleB.identityPk ekA legs b msg)
    (hlast : receiverNaxos L b msg secrets.raw = legs.k4)
    (hsha : Set.InjOn L.sha3_256 (naxosInputs L skA pkA bundleB draws b msg)) :
    b.signedPrekeyPk = bundleB.signedPrekeyPk := by
  have hspk := hb.signedPrekey.generated
  have hsender : SenderSession L skA pkA bundleB draws ekA legs raw :=
    ⟨eskA, opkB, run.ephemeral, run.first, run.legs⟩
  rw [run.legs.naxos, receiverNaxos] at hlast
  have hnaxos := hsha (Or.inr ⟨secrets, hsession, rfl⟩) (Or.inl ⟨ekA, legs, raw, hsender, rfl⟩)
    hlast
  have hctx : receiverContext b msg = buildContext pkA bundleB.identityPk ekA := by
    rw [receiverContext, hsame.pkA, hsame.pkB, hsame.ekA]
  rw [hctx, hsame.pkA, g.secretData, hspk.secretData] at hnaxos
  have hdata := (naxosInput_injective _ _ _ _ _ _ hnaxos).2
  have hp : b.signedPrekeyPk.params = bundleB.signedPrekeyPk.params := by
    rw [run.signedPrekey, ← hsame.pkB, hspk.params_eq, hb.identity.generated.params_eq]
  rw [publicKey_eta _ b.signedPrekeyPk hp, hdata]

end Runs

theorem honest_inputs {L : Suite} {params : EirnParams} {skA : SecretKey} {pkA : PublicKey}
    {b : PrekeyBundle} {mode : KcpMode} {draws : SenderDraws} {msg : Msg0Prime}
    {k : FixedBytes 32} (hv : L.KeysValid) (hkem : L.KemCorrect) (hb : BundleInv L params b)
    (hsend : senderHandshakeWithMode L skA pkA b.publicBundle mode draws = .ok (msg, k)) :
    (kdfInputs L skA pkA b.publicBundle draws b msg).Subsingleton ∧
      (naxosInputs L skA pkA b.publicBundle draws b msg).Subsingleton := by
  obtain ⟨opkB, ekA, eskA, legs, raw, proof, run, rfl, rfl⟩ :=
    (senderHandshake_ok_iff L skA pkA b.publicBundle mode draws msg k).mp hsend
  obtain ⟨pks, hpks⟩ : ∃ pks, b.oneTimePrekeys = opkB::pks := List.head?_eq_some_iff.mp run.first
  obtain ⟨sk, sks, hpair, _, hsks⟩ := List.forall₂_cons_left_iff.mp (hpks ▸ hb.pool)
  obtain ⟨k3, hsec, hnaxos, hsame, _⟩ := secrets_sent hv hkem hb (publicBundle_snapshot b) run
    hpair hpair
  obtain rfl := hsame rfl
  have hsender : SenderSession L skA pkA b.publicBundle draws ekA legs raw :=
    ⟨eskA, opkB, run.ephemeral, run.first, run.legs⟩
  have hreceiver : ReceiverSession L b (sentMessage pkA ekA legs mode proof)
      ⟨legs.k1, legs.k2, legs.k3, raw⟩ := ⟨sk, by rw [hsks]; rfl, hsec⟩
  have hlist : Secrets.list L b (sentMessage pkA ekA legs mode proof)
      ⟨legs.k1, legs.k2, legs.k3, raw⟩ = legs.secrets := by
    rw [Secrets.list, hnaxos]
    rfl
  have hspk := hb.signedPrekey.generated
  have hown : skA.pkData = pkA.data := (matchesPublicKey_iff skA pkA).mp run.own |>.2
  constructor
  · apply Set.subsingleton_of_forall_eq (senderFields pkA b.identityPk ekA legs).input
    rintro x (⟨ekA', legs', raw', h, rfl⟩ | ⟨secrets, h, rfl⟩)
    · obtain ⟨rfl, rfl, rfl⟩ := senderSession_unique hsender h
      rfl
    · obtain rfl := receiverSession_unique hreceiver h
      rw [receiverFields, hlist]
      rfl
  · apply Set.subsingleton_of_forall_eq (naxosInput raw skA.pkData b.signedPrekeyPk.data
      (buildContext pkA b.identityPk ekA))
    rintro x (⟨ekA', legs', raw', h, rfl⟩ | ⟨secrets, h, rfl⟩)
    · obtain ⟨rfl, rfl, rfl⟩ := senderSession_unique hsender h
      rfl
    · obtain rfl := receiverSession_unique hreceiver h
      rw [hspk.secretData, hown]
      rfl

/-- Equal keys come from equal transcripts and equal secrets. -/
theorem equal_keys_equal_transcripts (L : Suite) (params paramsR : EirnParams) (mode : KcpMode)
    (seedA : FixedBytes 96) (pkA : PublicKey) (skA : SecretKey)
    (hA : keygenFromSeed L seedA params = .ok (pkA, skA)) (bundleB : PublicPrekeyBundle)
    (hB : bundleB.identityPk.WellFormed) (draws : SenderDraws) (msg : Msg0Prime)
    (k : FixedBytes 32) (hsend : senderCall L mode skA pkA bundleB draws = .ok (msg, k))
    (hR : IsSupportedParams paramsR) (drawn : ℕ → FixedBytes 96) (numOpk : ℕ)
    (b₀ : PrekeyBundle)
    (hgen : generatePrekeyBundleWithParams L drawn numOpk paramsR = .ok b₀)
    (calls : List ReceiverCall) (hcalls : ∀ call ∈ calls, Allowed call) (b : PrekeyBundle)
    (hb : b = after (receiverStep L) calls b₀) (msg' : Msg0Prime) (hc : Constructed msg')
    (k' : FixedBytes 32) (hrecv : (receiverHandshake L b msg').1 = .ok k')
    (hshake : Set.InjOn (fun x => L.shake256 x 32) (kdfInputs L skA pkA bundleB draws b msg'))
    (hsha : Set.InjOn L.sha3_256 (naxosInputs L skA pkA bundleB draws b msg')) (hk : k = k') :
    msg'.pkA = msg.pkA ∧ b.identityPk = bundleB.identityPk ∧ msg'.ekA = msg.ekA ∧
      (msg'.ct1 = msg.ct1 ∧ msg'.ct2 = msg.ct2 ∧ msg'.ct3 = msg.ct3 ∧ msg'.ct4 = msg.ct4) ∧
      (∃ ekA legs raw secrets, SenderSession L skA pkA bundleB draws ekA legs raw ∧
        ReceiverSession L b msg' secrets ∧ secrets.list L b msg' = legs.secrets) ∧
      b.signedPrekeyPk = bundleB.signedPrekeyPk := by
  have g := generated_of_keygen L seedA params pkA skA hA
  have hinv := (run_invariant b₀ calls hcalls
    (generate_inv L paramsR hR drawn numOpk b₀ hgen).1).bundle
  rw [← hb] at hinv
  rw [senderCall_eq, senderHandshake_ok_iff] at hsend
  obtain ⟨opkB, ekA, eskA, legs, raw, proof, run, rfl, rfl⟩ := hsend
  subst hk
  obtain ⟨secrets, hsession, hsecrets, hsame⟩ := same_key_same_fields g hB run hinv msg' hc
    hrecv hshake
  have hsender : SenderSession L skA pkA bundleB draws ekA legs raw :=
    ⟨eskA, opkB, run.ephemeral, run.first, run.legs⟩
  have hlast := hsecrets
  simp only [Legs.secrets, Secrets.list, List.cons.injEq] at hlast
  exact ⟨hsame.pkA, hsame.pkB, hsame.ekA, hsame.cts,
    ⟨ekA, legs, raw, secrets, hsender, hsession, hsecrets⟩,
    same_last_secret_same_prekey g run hinv msg' hsession hsame hlast.2.2.2.1 hsha⟩

theorem equal_keys_honest_exchange :
    ∃ pkA skA b msg k,
      keygenFromSeed idealSuite (zeros 96) params768 = .ok (pkA, skA) ∧
      generatePrekeyBundleWithParams idealSuite (fun _ => zeros 96) 1 params768 = .ok b ∧
      senderCall idealSuite .lite skA pkA b.publicBundle zeroDraws = .ok (msg, k) ∧
      (receiverHandshake idealSuite b msg).1 = .ok k ∧
      ∃ ekA legs raw secrets,
        SenderSession idealSuite skA pkA b.publicBundle zeroDraws ekA legs raw ∧
        ReceiverSession idealSuite b msg secrets ∧
        secrets.list idealSuite b msg = legs.secrets := by
  obtain ⟨pkA, skA, hA, _⟩ := keygen_generated idealSuite (zeros 96) params768 supported768
  obtain ⟨b, hb, hinv, hl⟩ := generate_ok idealSuite params768 supported768 (fun _ => zeros 96) 1
  obtain ⟨msg, k, hsend, hw, _, hr⟩ := exchange_ok idealSuite_lawful ⟨zeros 96, hA⟩ hinv
    (List.ne_nil_of_length_eq_add_one hl) .lite zeroDraws
  obtain ⟨hshake, hsha⟩ := honest_inputs idealSuite_lawful.keysValid idealSuite_lawful.kemCorrect
    hinv hsend
  have hcall := (senderCall_eq idealSuite .lite skA pkA b.publicBundle _).trans hsend
  have hrecv : (receiverHandshake idealSuite b msg).1 = .ok k := by rw [hr]
  exact ⟨pkA, skA, b, msg, k, hA, hb, hcall, hrecv,
    (equal_keys_equal_transcripts idealSuite params768 params768 .lite (zeros 96) pkA skA hA
      b.publicBundle hinv.identity.generated.wellFormed _ msg k hcall supported768
      (fun _ => zeros 96) 1 b hb [] (by simp) b rfl msg (hw.constructed _ _ supported768).1 k
      hrecv (hshake.injOn _) (hsha.injOn _) rfl).2.2.2.2.1⟩

end EirnKcp.SessionBinding
