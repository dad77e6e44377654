import EirnKcp.SessionBinding

/-!
# Domain separation of the hash functions

The crate calls SHA3-256 for eight purposes and SHAKE256 for five, some of them
without a label in front. For keys, contexts and proofs of a handshake the sizes
tell the purposes and the profiles apart, so what is hashed determines the
purpose and every argument.
-/

set_option autoImplicit false

namespace EirnKcp.HashUses
open EirnKcp.CheckedCode EirnKcp.ByteCodec EirnKcp.Params EirnKcp.Primitives EirnKcp.LatticeZk
open EirnKcp.Kem EirnKcp.Zk EirnKcp.Prekey EirnKcp.Handshake EirnKcp.KdfEncoding
open EirnKcp.LiteProof EirnKcp.SessionBinding

section Layouts

theorem parts_eq (parts parts' : List Bytes) (widths : List ℕ)
    (hw : parts.map List.length = widths) (hw' : parts'.map List.length = widths)
    (h : parts.flatten = parts'.flatten) : parts = parts' :=
  List.eq_iff_flatten_eq.mpr ⟨h, hw.trans hw'.symm⟩

theorem flatten_length (parts : List Bytes) (widths : List ℕ)
    (hw : parts.map List.length = widths) : parts.flatten.length = widths.sum := by
  rw [List.length_flatten, hw]

end Layouts

structure SessionKeys (params : EirnParams) (pkA pkB ekA : PublicKey) : Prop where
  pkA : pkA.WellFormed ∧ pkA.params = params
  pkB : pkB.WellFormed ∧ pkB.params = params
  ekA : ekA.WellFormed ∧ ekA.params = params

theorem key_length {params : EirnParams} {pk : PublicKey} (h : pk.WellFormed ∧ pk.params = params) :
    pk.data.length = params.pkBytes := by
  rw [h.1.length, h.2]

theorem context_length {params : EirnParams} {pkA pkB ekA : PublicKey}
    (h : SessionKeys params pkA pkB ekA) :
    (buildContext pkA pkB ekA).length = 3*params.pkBytes := by
  simp only [buildContext, List.length_append, key_length h.pkA, key_length h.pkB,
    key_length h.ekA]
  omega

/-- The purposes of SHA3-256 with what is hashed for them. -/
inductive Sha3Use where
  | commitmentSecret (kemSeed : FixedBytes 64) (sigSeed : FixedBytes 32)
  | prekeyCommitment (commitmentSecret : FixedBytes 32) (signedPrekeyPk : Bytes)
  | naxosCoins (senderSecret ephemeralSecret : FixedBytes 32) (recipientPk context : Bytes)
  | naxosSecret (ssRaw : FixedBytes 32) (senderPk recipientPk context : Bytes)
  | verifyingKey (vkBytes : Bytes)
  | liteAnchor (commitment : FixedBytes 32) (response ctx : Bytes)
  | strictChallenge (pk ctx : Bytes) (statement commitment : Statement)
  | strictAnchor (pk ctx : Bytes) (statement : Statement) (commitment response : Bytes)

namespace Sha3Use

inductive Purpose where
  | commitmentSecret
  | prekeyCommitment
  | naxosCoins
  | naxosSecret
  | verifyingKey
  | liteAnchor
  | strictChallenge
  | strictAnchor

def purpose : Sha3Use → Purpose
  | commitmentSecret _ _ => .commitmentSecret
  | prekeyCommitment _ _ => .prekeyCommitment
  | naxosCoins _ _ _ _ => .naxosCoins
  | naxosSecret _ _ _ _ => .naxosSecret
  | verifyingKey _ => .verifyingKey
  | liteAnchor _ _ _ => .liteAnchor
  | strictChallenge _ _ _ _ => .strictChallenge
  | strictAnchor _ _ _ _ _ => .strictAnchor

def parts : Sha3Use → List Bytes
  | commitmentSecret kemSeed sigSeed => [kemSeed.1, sigSeed.1]
  | prekeyCommitment secret pk => [secret.1, pk, prekeyCommitLabel]
  | naxosCoins sender ephemeral pk ctx => [sender.1, ephemeral.1, pk, ctx, naxosLabel]
  | naxosSecret ssRaw senderPk recipientPk ctx =>
    [naxosSsLabel, ssRaw.1, senderPk, recipientPk, ctx]
  | verifyingKey vkBytes => [vkBytes]
  | liteAnchor commitment response ctx => [kcpLiteAnchorLabel, commitment.1, response, ctx]
  | strictChallenge pk ctx statement commitment =>
    [challengeLabel, pk, ctx, (encodeStatement statement).1, (encodeStatement commitment).1]
  | strictAnchor pk ctx statement commitment response =>
    [kcpStrictAnchorLabel, pk, ctx, (encodeStatement statement).1, commitment, response]

def input (use : Sha3Use) : Bytes := use.parts.flatten

def digest (L : Suite) (use : Sha3Use) : FixedBytes 32 := L.sha3_256 use.input

def Purpose.widths (params : EirnParams) : Purpose → List ℕ
  | commitmentSecret => [64, 32]
  | prekeyCommitment => [32, params.pkBytes, 21]
  | naxosCoins => [32, 32, params.pkBytes, 3*params.pkBytes, 13]
  | naxosSecret => [8, 32, params.pkBytes, params.pkBytes, 3*params.pkBytes]
  | verifyingKey => [params.sigPkBytes]
  | liteAnchor => [23, 32, params.sigBytes, 3*params.pkBytes]
  | strictChallenge => [28, params.pkBytes, 3*params.pkBytes, statementBytes, statementBytes]
  | strictAnchor =>
    [25, params.pkBytes, 3*params.pkBytes, statementBytes, statementBytes, responseBytes]

theorem Purpose.eq_of_sum {params params' : EirnParams} (hs : IsSupportedParams params)
    (hs' : IsSupportedParams params') (a b : Purpose)
    (h : (a.widths params).sum = (b.widths params').sum) :
    a = b ∧ a.widths params = b.widths params' := by
  rcases hs with rfl | rfl <;> rcases hs' with rfl | rfl <;> cases a <;> cases b <;>
    first | exact ⟨rfl, rfl⟩ | exact absurd h (by decide)

theorem encodeStatement_injective (t t' : Statement)
    (h : (encodeStatement t).1 = (encodeStatement t').1) : t = t' := by
  funext i
  have hi := congrArg (fun bytes => wordAt bytes i) h
  simpa [encodeStatement] using hi

theorem parts_injective (use use' : Sha3Use) (hp : use.purpose = use'.purpose)
    (h : use.parts = use'.parts) : use = use' := by
  cases use <;> cases use' <;>
    simp_all [purpose, parts, Subtype.ext_iff]
  case strictChallenge.strictChallenge =>
    exact ⟨encodeStatement_injective _ _ h.2.2.1, encodeStatement_injective _ _ h.2.2.2⟩
  case strictAnchor.strictAnchor =>
    exact encodeStatement_injective _ _ h.2.2.1

/-- What the calls of a handshake hash: keys of the profile, contexts built from
such keys and proofs of the profile's sizes. -/
inductive InHandshake (params : EirnParams) : Sha3Use → Prop where
  | commitmentSecret (sk : SecretKey) :
    InHandshake params (.commitmentSecret sk.kemSeed sk.sigSeed)
  | prekeyCommitment (L : Suite) (signedPrekeySk : SecretKey) (signedPrekeyPk : PublicKey)
    (hpk : signedPrekeyPk.WellFormed ∧ signedPrekeyPk.params = params) :
    InHandshake params (.prekeyCommitment (signedPrekeySk.commitmentSecret L) signedPrekeyPk.data)
  | naxosCoins (L : Suite) (senderSk senderEphemeralSk : SecretKey)
    (recipientPk pkA pkB ekA : PublicKey)
    (hpk : recipientPk.WellFormed ∧ recipientPk.params = params)
    (hctx : SessionKeys params pkA pkB ekA) :
    InHandshake params (.naxosCoins (senderSk.commitmentSecret L)
      (senderEphemeralSk.commitmentSecret L) recipientPk.data (buildContext pkA pkB ekA))
  | naxosSecret (ssRaw : FixedBytes 32) (recipientPk pkA pkB ekA : PublicKey)
    (hpk : recipientPk.WellFormed ∧ recipientPk.params = params)
    (hctx : SessionKeys params pkA pkB ekA) :
    InHandshake params (.naxosSecret ssRaw pkA.data recipientPk.data (buildContext pkA pkB ekA))
  | verifyingKey (pk : PublicKey) (vkBytes : Bytes)
    (hpk : pk.WellFormed ∧ pk.params = params)
    (hvk : verifyingKeyBytes pk.data params = .ok vkBytes) :
    InHandshake params (.verifyingKey vkBytes)
  | liteAnchor (proof : KcpLiteProof) (pkA pkB ekA : PublicKey)
    (hlen : proof.response.length = params.sigBytes) (hctx : SessionKeys params pkA pkB ekA) :
    InHandshake params (.liteAnchor proof.commitment proof.response (buildContext pkA pkB ekA))
  | strictChallenge (pkA pkB ekA : PublicKey) (statement commitment : Statement)
    (hctx : SessionKeys params pkA pkB ekA) :
    InHandshake params
      (.strictChallenge pkA.data (buildContext pkA pkB ekA) statement commitment)
  | strictAnchor (proof : KcpStrictProof) (pkA pkB ekA : PublicKey) (statement : Statement)
    (hctx : SessionKeys params pkA pkB ekA) :
    InHandshake params (.strictAnchor pkA.data (buildContext pkA pkB ekA) statement
      proof.commitment.1 proof.response.1)

theorem InHandshake.sized {params : EirnParams} (hs : IsSupportedParams params) {use : Sha3Use}
    (h : use.InHandshake params) : use.parts.map List.length = use.purpose.widths params := by
  cases h with
  | commitmentSecret sk => simp [parts, purpose, Purpose.widths, sk.kemSeed.2, sk.sigSeed.2]
  | prekeyCommitment L sk pk hpk =>
    have hlabel : prekeyCommitLabel.length = 21 := by decide
    simp [parts, purpose, Purpose.widths, (sk.commitmentSecret L).2, key_length hpk, hlabel]
  | naxosCoins L sk esk pk pkA pkB ekA hpk hctx =>
    have hlabel : naxosLabel.length = 13 := by decide
    simp [parts, purpose, Purpose.widths, (sk.commitmentSecret L).2, (esk.commitmentSecret L).2,
      key_length hpk, context_length hctx, hlabel]
  | naxosSecret ssRaw pk pkA pkB ekA hpk hctx =>
    have hlabel : naxosSsLabel.length = 8 := by decide
    simp [parts, purpose, Purpose.widths, ssRaw.2, key_length hpk, key_length hctx.pkA,
      context_length hctx, hlabel]
  | verifyingKey pk vk hpk hvk =>
    rw [verifyingKeyBytes_eq params pk.data hs (key_length hpk), Except.ok.injEq] at hvk
    have hc := supported_consistent params hs
    have hl := key_length hpk
    have hvl : (sigPart params pk.data).length = params.sigPkBytes := by
      simp only [sigPart, List.length_take, List.length_drop, hl, hc.pkBytes]
      omega
    simp [parts, purpose, Purpose.widths, ← hvk, hvl]
  | liteAnchor proof pkA pkB ekA hlen hctx =>
    have hlabel : kcpLiteAnchorLabel.length = 23 := by decide
    simp [parts, purpose, Purpose.widths, proof.commitment.2, hlen, context_length hctx, hlabel]
  | strictChallenge pkA pkB ekA t u hctx =>
    have hlabel : challengeLabel.length = 28 := by decide
    simp [parts, purpose, Purpose.widths, key_length hctx.pkA, context_length hctx,
      (encodeStatement t).2, (encodeStatement u).2, hlabel]
  | strictAnchor proof pkA pkB ekA t hctx =>
    have hlabel : kcpStrictAnchorLabel.length = 25 := by decide
    simp [parts, purpose, Purpose.widths, key_length hctx.pkA, context_length hctx,
      (encodeStatement t).2, proof.commitment.2, proof.response.2, hlabel]

section Calls
variable (L : Suite)

theorem commitmentSecret_digest (sk : SecretKey) :
    sk.commitmentSecret L = digest L (.commitmentSecret sk.kemSeed sk.sigSeed) := by
  simp [SecretKey.commitmentSecret, digest, input, parts]

theorem bundle_digest (drawn : ℕ → FixedBytes 96) (numOpk : ℕ) (params : EirnParams)
    (b : PrekeyBundle) (h : generatePrekeyBundleWithParams L drawn numOpk params = .ok b) :
    b.commitment = digest L
      (.prekeyCommitment (b.signedPrekeySk.commitmentSecret L) b.signedPrekeyPk.data) := by
  simp only [generatePrekeyBundleWithParams, bind_ok_iff, pure_ok, Except.ok.injEq] at h
  obtain ⟨_, _, _, _, _, _, rfl⟩ := h
  simp [digest, input, parts]

theorem naxosCoins_digest (senderSk senderEphemeralSk : SecretKey) (recipientPk : PublicKey)
    (context : Bytes) :
    naxosDeriveCoins L senderSk senderEphemeralSk recipientPk context =
      digest L (.naxosCoins (senderSk.commitmentSecret L) (senderEphemeralSk.commitmentSecret L)
        recipientPk.data context) := by
  simp [naxosDeriveCoins, digest, input, parts]

theorem naxosSecret_digest (ssRaw : FixedBytes 32) (senderPk recipientPk context : Bytes) :
    L.sha3_256 (naxosInput ssRaw senderPk recipientPk context) =
      digest L (.naxosSecret ssRaw senderPk recipientPk context) := by
  simp [naxosInput, digest, input, parts]

theorem liteProof_digest (sk : SecretKey) (pk ctx : Bytes) (proof : KcpLiteProof)
    (h : kcpLiteProve L sk pk ctx = .ok proof) :
    (∃ vkBytes, verifyingKeyBytes pk sk.params = .ok vkBytes ∧
      proof.commitment = digest L (.verifyingKey vkBytes)) ∧
      proof.anchor = digest L (.liteAnchor proof.commitment proof.response ctx) := by
  by_cases hown : ctEq sk.pkData pk = true
  · simp only [kcpLiteProve, hown, not_true, if_false, bind_ok_iff, pure_ok,
      Except.ok.injEq] at h
    obtain ⟨vkBytes, hvk, response, _, rfl⟩ := h
    refine ⟨⟨vkBytes, hvk, ?_⟩, ?_⟩
    · simp [digest, input, parts]
    · simp [proofAnchor, proofAnchorInput, digest, input, parts]
  · simp only [kcpLiteProve, hown] at h
    cases h

theorem strictAnchor_digest (pk ctx : Bytes) (statement : Statement) (commitment response : Bytes) :
    Zk.strictAnchor L pk ctx statement commitment response =
      digest L (.strictAnchor pk ctx statement commitment response) := by
  simp [Zk.strictAnchor, strictAnchorInput, digest, input, parts]

theorem challenge_digest (pk ctx : Bytes) (statement commitment : Statement) :
    challenge L pk ctx statement commitment =
      leWord ((digest L (.strictChallenge pk ctx statement commitment)).1.getD 0 0)
        ((digest L (.strictChallenge pk ctx statement commitment)).1.getD 1 0) % 4095+1 := by
  simp [challenge, digest, input, parts]

end Calls

end Sha3Use

/-- Two calls of handshakes, of either profile, hash the same bytes with SHA3-256
only for one purpose and with the same arguments. -/
theorem sha3_uses_separate (params params' : EirnParams) (hs : IsSupportedParams params)
    (hs' : IsSupportedParams params') (use use' : Sha3Use) (h : use.InHandshake params)
    (h' : use'.InHandshake params') : use.input = use'.input ↔ use = use' := by
  constructor
  · intro hinput
    have hsize := h.sized hs
    have hsize' := h'.sized hs'
    have hsum : (use.purpose.widths params).sum = (use'.purpose.widths params').sum := by
      rw [← flatten_length _ _ hsize, ← flatten_length _ _ hsize']
      exact congrArg List.length hinput
    obtain ⟨hpurpose, hwidths⟩ := Sha3Use.Purpose.eq_of_sum hs hs' _ _ hsum
    exact use.parts_injective use' hpurpose
      (parts_eq _ _ _ hsize (hsize'.trans hwidths.symm) hinput)
  · rintro rfl
    rfl

theorem zeroKey_wellFormed {params : EirnParams} (hs : IsSupportedParams params) :
    (⟨List.replicate params.pkBytes 0, params⟩ : PublicKey).WellFormed :=
  ⟨hs, List.length_replicate⟩

theorem sha3_uses_separate_profiles :
    let pk768 : PublicKey := ⟨List.replicate params768.pkBytes 0, params768⟩
    let pk1024 : PublicKey := ⟨List.replicate params1024.pkBytes 0, params1024⟩
    (Sha3Use.strictChallenge pk768.data (buildContext pk768 pk768 pk768) (fun _ => 0)
        (fun _ => 0)).input ≠
      (Sha3Use.naxosSecret (zeros 32) pk1024.data pk1024.data
        (buildContext pk1024 pk1024 pk1024)).input := by
  intro pk768 pk1024 heq
  have h768 := zeroKey_wellFormed supported768
  have h1024 := zeroKey_wellFormed supported1024
  have h := sha3_uses_separate params768 params1024 supported768 supported1024
    (.strictChallenge pk768.data (buildContext pk768 pk768 pk768) (fun _ => 0) (fun _ => 0))
    (.naxosSecret (zeros 32) pk1024.data pk1024.data (buildContext pk1024 pk1024 pk1024))
    (.strictChallenge pk768 pk768 pk768 _ _ ⟨⟨h768, rfl⟩, ⟨h768, rfl⟩, ⟨h768, rfl⟩⟩)
    (.naxosSecret _ pk1024 pk1024 pk1024 pk1024 ⟨h1024, rfl⟩
      ⟨⟨h1024, rfl⟩, ⟨h1024, rfl⟩, ⟨h1024, rfl⟩⟩)
  cases h.mp heq

section Messages

def messageInput (sessionKey : FixedBytes 32) (counter : UInt64) : Bytes :=
  kdfEncode [sessionKey.1, beBytes 8 counter.toNat] messageLabel

theorem deriveMessageKey_eq (L : Suite) (sessionKey : FixedBytes 32) (counter : UInt64) :
    deriveMessageKey L sessionKey counter = L.shake256 (messageInput sessionKey counter) 32 := rfl

theorem messageInput_injective (k k' : FixedBytes 32) (c c' : UInt64)
    (h : messageInput k c = messageInput k' c') : k = k' ∧ c = c' := by
  have hshort : ∀ (key : FixedBytes 32) (counter : UInt64),
      ∀ x ∈ [key.1, beBytes 8 counter.toNat], x.length < 2^32 := by
    intro key counter
    simp [key.2]
  obtain ⟨_, hinputs⟩ := kdfEncode_injective messageLabel messageLabel _ _ rfl (hshort k c)
    (hshort k' c') h
  simp only [List.cons.injEq, and_true] at hinputs
  obtain ⟨hk, hcounter⟩ := hinputs
  have hc := beBytes_injective 8 c.toNat c'.toNat c.toNat_lt c'.toNat_lt hcounter
  exact ⟨Subtype.ext hk, UInt64.toNat_inj.mp hc⟩

end Messages

inductive XofUse where
  | sessionKey (fields : Fields)
  | messageKey (sessionKey : FixedBytes 32) (counter : UInt64)
  | witness (kemSeed : FixedBytes 64) (sigSeed : FixedBytes 32)
  | mask (secret : FixedBytes 32) (pk ctx : Bytes)
  | matrix (publicSeed : Bytes)

namespace XofUse

inductive Purpose where
  | sessionKey
  | messageKey
  | witness
  | mask
  | matrix
  deriving DecidableEq

def purpose : XofUse → Purpose
  | sessionKey _ => .sessionKey
  | messageKey _ _ => .messageKey
  | witness _ _ => .witness
  | mask _ _ _ => .mask
  | matrix _ => .matrix

def input : XofUse → Bytes
  | sessionKey fields => fields.input
  | messageKey key counter => messageInput key counter
  | witness kemSeed sigSeed => witnessLabel ++ kemSeed.1 ++ sigSeed.1
  | mask secret pk ctx => maskLabel ++ secret.1 ++ pk ++ ctx
  | matrix publicSeed => matrixLabel ++ publicSeed

def purposeOf (input : Bytes) : Option Purpose :=
  if input.take 2 = [0, 10] then some .sessionKey
  else if input.take 2 = [0, 11] then some .messageKey
  else if input.take 19 = witnessLabel.take 19 then some .witness
  else if input.take 19 = maskLabel.take 19 then some .mask
  else if input.take 19 = matrixLabel.take 19 then some .matrix
  else none

theorem purposeOf_label (label rest : Bytes) (h : 19 ≤ label.length) :
    purposeOf (label ++ rest) = purposeOf label := by
  simp only [purposeOf, List.take_append_of_le_length h,
    List.take_append_of_le_length (show 2 ≤ label.length by omega)]

theorem purposeOf_input (use : XofUse) : purposeOf use.input = some use.purpose := by
  cases use with
  | sessionKey fields =>
    have htake : fields.input.take 2 = beBytes 2 sessionLabel.length := by
      rw [Fields.input, sessionInput, kdfEncode, List.take_left' (by simp)]
    have hlen : beBytes 2 sessionLabel.length = [0, 10] := by decide
    rw [input, purposeOf, htake, hlen]
    rfl
  | messageKey key counter =>
    have htake : (messageInput key counter).take 2 = beBytes 2 messageLabel.length := by
      rw [messageInput, kdfEncode, List.take_left' (by simp)]
    have hlen : beBytes 2 messageLabel.length = [0, 11] := by decide
    rw [input, purposeOf, htake, hlen]
    rfl
  | witness kemSeed sigSeed =>
    rw [input, List.append_assoc, purposeOf_label _ _ (by decide)]
    show purposeOf witnessLabel = some .witness
    decide
  | mask secret pk ctx =>
    rw [input, List.append_assoc, List.append_assoc, purposeOf_label _ _ (by decide)]
    show purposeOf maskLabel = some .mask
    decide
  | matrix publicSeed =>
    rw [input, purposeOf_label _ _ (by decide)]
    show purposeOf matrixLabel = some .matrix
    decide

/-- The sizes that the arguments of handshake calls have. -/
def Sized : XofUse → Prop
  | sessionKey fields => fields.Sized
  | mask _ pk ctx => ∃ params, IsSupportedParams params ∧ pk.length = params.pkBytes ∧
      ctx.length = 3*params.pkBytes
  | _ => True

theorem mask_injective (secret secret' : FixedBytes 32) (pk pk' ctx ctx' : Bytes)
    (h : (mask secret pk ctx).Sized) (h' : (mask secret' pk' ctx').Sized)
    (hinput : (mask secret pk ctx).input = (mask secret' pk' ctx').input) :
    secret = secret' ∧ pk = pk' ∧ ctx = ctx' := by
  obtain ⟨params, _, hpk, hctx⟩ := h
  obtain ⟨params', _, hpk', hctx'⟩ := h'
  simp only [input, List.append_assoc] at hinput
  obtain ⟨hsecret, hrest⟩ := List.append_inj (List.append_cancel_left hinput)
    (by rw [secret.2, secret'.2])
  have hlen := congrArg List.length hrest
  simp only [List.length_append] at hlen
  obtain ⟨rfl, rfl⟩ := List.append_inj hrest (by omega)
  exact ⟨Subtype.ext hsecret, rfl, rfl⟩

theorem input_injective (use use' : XofUse) (h : use.Sized) (h' : use'.Sized)
    (hp : use.purpose = use'.purpose) (hinput : use.input = use'.input) : use = use' := by
  cases use <;> cases use' <;> cases hp
  case sessionKey.sessionKey fields fields' =>
    rw [SessionBinding.input_injective fields fields' h h' hinput]
  case messageKey.messageKey k c k' c' =>
    obtain ⟨rfl, rfl⟩ := messageInput_injective k k' c c' hinput
    rfl
  case witness.witness a b a' b' =>
    simp only [input, List.append_assoc] at hinput
    obtain ⟨ha, hb⟩ := List.append_inj (List.append_cancel_left hinput) (by rw [a.2, a'.2])
    rw [Subtype.ext ha, Subtype.ext hb]
  case mask.mask secret pk ctx secret' pk' ctx' =>
    obtain ⟨rfl, rfl, rfl⟩ := mask_injective secret secret' pk pk' ctx ctx' h h' hinput
    rfl
  case matrix.matrix seed seed' =>
    rw [List.append_cancel_left hinput]

section Calls
variable (L : Suite)

theorem sessionKey_hashed (fields : Fields) :
    deriveSessionKey L fields.secrets fields.pkA fields.pkB fields.ekA fields.ciphertexts none =
      L.shake256 (sessionKey fields).input 32 := rfl

theorem messageKey_hashed (key : FixedBytes 32) (counter : UInt64) :
    deriveMessageKey L key counter = L.shake256 (messageKey key counter).input 32 := rfl

theorem witness_hashed (kemSeed : FixedBytes 64) (sigSeed : FixedBytes 32) (i : Fin witnessDim) :
    (deriveWitness L kemSeed sigSeed i).toInt =
      (((L.shake256 (witness kemSeed sigSeed).input witnessDim).1.getD i 0).toNat % 3 : ℕ)-1 := by
  simp only [deriveWitness, input]
  generalize (List.getD _ _ (0 : UInt8)).toNat = byte
  have hb : byte % 3 = 0 ∨ byte % 3 = 1 ∨ byte % 3 = 2 := by omega
  rcases hb with h | h | h <;> rw [h] <;> decide

theorem mask_hashed (secret : FixedBytes 32) (pk ctx : Bytes) (i : Fin witnessDim) :
    deriveMask L secret pk ctx i =
      Int16.ofInt (((wordAt (L.shake256 (mask secret pk ctx).input (witnessDim*2)).1 i).toNat :
        ℤ).tmod (maskBound*2+1)-maskBound) := rfl

theorem matrix_hashed (publicSeed : Bytes) (i : Fin (statementDim*witnessDim)) :
    expandMatrix L publicSeed i =
      wordAt (L.shake256 (matrix publicSeed).input (statementDim*witnessDim*2)).1 i %
        UInt16.ofNat q := rfl

end Calls

end XofUse

/-- Whatever is hashed, two SHAKE256 calls hash the same bytes only for one
purpose, and in handshakes only with the same arguments. -/
theorem shake256_uses_separate (use use' : XofUse) :
    (use.input = use'.input → use.purpose = use'.purpose) ∧
      (use.Sized → use'.Sized → (use.input = use'.input ↔ use = use')) := by
  have hpurpose : use.input = use'.input → use.purpose = use'.purpose := by
    intro h
    have hread := congrArg XofUse.purposeOf h
    rw [use.purposeOf_input, use'.purposeOf_input] at hread
    exact Option.some.inj hread
  refine ⟨hpurpose, ?_⟩
  intro h h'
  constructor
  · intro hinput
    exact use.input_injective use' h h' (hpurpose hinput) hinput
  · rintro rfl
    rfl

theorem shake256_uses_separate_masks :
    (XofUse.mask (zeros 32) (zeros 3200).1 (zeros 9600).1).input ≠
      (XofUse.mask (zeros 32) (zeros 3200).1 (List.replicate 9600 1)).input := by
  intro heq
  have hsized : ∀ ctx : Bytes, ctx.length = 9600 →
      (XofUse.mask (zeros 32) (zeros 3200).1 ctx).Sized :=
    fun ctx hctx => ⟨params768, supported768, (zeros 3200).2, hctx⟩
  have h := (shake256_uses_separate (.mask (zeros 32) (zeros 3200).1 (zeros 9600).1)
    (.mask (zeros 32) (zeros 3200).1 (List.replicate 9600 1))).2
    (hsized _ (zeros 9600).2) (hsized _ List.length_replicate)
  have hctx : List.replicate 9600 (0 : UInt8) = List.replicate 9600 1 :=
    (XofUse.mask.inj (h.mp heq)).2.2
  exact absurd (List.replicate_right_injective (by decide) hctx) (by decide)

end EirnKcp.HashUses
