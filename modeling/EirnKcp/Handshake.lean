import EirnKcp.Prekey

/-!
# The `MSG0'` handshake

The sender builds the message from a public bundle, the receiver verifies the
proof, consumes a one-time prekey and derives the same key. The message has a
fixed-size wire encoding whose last field depends on the mode.
-/

set_option autoImplicit false

namespace EirnKcp.Handshake
open EirnKcp.CheckedCode EirnKcp.ByteCodec EirnKcp.Params EirnKcp.Primitives
open EirnKcp.LatticeZk EirnKcp.Kem EirnKcp.Zk EirnKcp.Prekey

structure Msg0Prime where
  pkA : PublicKey
  ekA : PublicKey
  ct1 : Ciphertext
  ct2 : Ciphertext
  ct3 : Ciphertext
  ct4 : Ciphertext
  kcpMode : KcpMode
  kcpLiteProof : KcpLiteProof
  kcpStrictProof : Option KcpStrictProof
  deriving DecidableEq

def msg0Size (params : EirnParams) (mode : KcpMode) : Result ℕ := do
  let proofSize := match mode with
    | .lite => params.proofBytes
    | .strict => params.strictProofBytes
  let keys ← usize (params.pkBytes*2)
  let total ← usize (1+keys)
  let ciphertexts ← usize (params.ctBytes*4)
  let total ← usize (total+ciphertexts)
  usize (total+proofSize)

def emptyLiteProof (params : EirnParams) : KcpLiteProof where
  commitment := zeros 32
  response := List.replicate params.sigBytes 0
  anchor := zeros 32

def readDynamicField (data : Bytes) (offset len : ℕ) : Result (Bytes × ℕ) := do
  let hi ← usize (offset+len)
  let field ← slice data offset hi
  pure (field, hi)

namespace Msg0Prime

def totalSize (msg : Msg0Prime) : Result ℕ := msg0Size msg.pkA.params msg.kcpMode

/-- The proof field. A strict message without a strict proof panics. -/
def proofField (msg : Msg0Prime) : Result Bytes :=
  match msg.kcpMode with
  | .lite => .ok msg.kcpLiteProof.toBytes
  | .strict =>
    match msg.kcpStrictProof with
    | some proof => .ok proof.toBytes.1
    | none => panic (.expect "strict messages carry a strict proof")

def toBytes (msg : Msg0Prime) : Result Bytes := do
  let _ ← msg.totalSize
  let proof ← msg.proofField
  pure (msg.kcpMode.byte :: (msg.pkA.data ++ (msg.ekA.data ++ (msg.ct1.data ++ (msg.ct2.data ++
    (msg.ct3.data ++ (msg.ct4.data ++ proof)))))))

/-- The match on the first byte in `from_bytes_with_params`. -/
def readMode (data : Bytes) : Result KcpMode :=
  match data.head? with
  | some byte =>
    if byte = KcpMode.lite.byte then .ok .lite
    else if byte = KcpMode.strict.byte then .ok .strict
    else err .strictModeUnavailable
  | none => err (.invalidMessageLength 1 0)

def fromBytesWithParams (L : Suite) (data : Bytes) (params : EirnParams) :
    Result Msg0Prime := do
  let mode ← readMode data
  let expectedSize ← msg0Size params mode
  if data.length ≠ expectedSize then err (.invalidMessageLength expectedSize data.length)
  else
    let (field, offset) ← readDynamicField data 1 params.pkBytes
    let pkA ← PublicKey.fromBytes L field params
    let (field, offset) ← readDynamicField data offset params.pkBytes
    let ekA ← PublicKey.fromBytes L field params
    let (field, offset) ← readDynamicField data offset params.ctBytes
    let ct1 ← Ciphertext.fromBytes L field params
    let (field, offset) ← readDynamicField data offset params.ctBytes
    let ct2 ← Ciphertext.fromBytes L field params
    let (field, offset) ← readDynamicField data offset params.ctBytes
    let ct3 ← Ciphertext.fromBytes L field params
    let (field, offset) ← readDynamicField data offset params.ctBytes
    let ct4 ← Ciphertext.fromBytes L field params
    match mode with
    | .lite =>
      let (field, _) ← readDynamicField data offset params.proofBytes
      let proof ← KcpLiteProof.fromBytesWithParams L field params
      pure ⟨pkA, ekA, ct1, ct2, ct3, ct4, mode, proof, none⟩
    | .strict =>
      let (field, _) ← readDynamicField data offset params.strictProofBytes
      let proof ← KcpStrictProof.fromBytes field
      pure ⟨pkA, ekA, ct1, ct2, ct3, ct4, mode, emptyLiteProof params, some proof⟩

end Msg0Prime

def buildContext (pkA pkB ekA : PublicKey) : Bytes := pkA.data ++ (pkB.data ++ ekA.data)

/-- What one sender call draws: the ephemeral key seed and the coins of the
four encapsulations. -/
structure SenderDraws where
  ephemeral : FixedBytes 96
  coins1 : FixedBytes 32
  coins2 : FixedBytes 32
  coins3 : FixedBytes 32
  coins4 : FixedBytes 32

structure Legs where
  ct1 : Ciphertext
  k1 : FixedBytes 32
  ct2 : Ciphertext
  k2 : FixedBytes 32
  ct3 : Ciphertext
  k3 : FixedBytes 32
  ct4 : Ciphertext
  k4 : FixedBytes 32

def Legs.secrets (legs : Legs) : List (FixedBytes 32) := [legs.k1, legs.k2, legs.k3, legs.k4]

def Legs.ciphertexts (legs : Legs) : List Bytes :=
  [legs.ct1.data, legs.ct2.data, legs.ct3.data, legs.ct4.data]

/-- The encapsulations of `sender_handshake_with_mode`. -/
def senderLegs (L : Suite) (skA eskA : SecretKey) (bundleB : PublicPrekeyBundle) (opkB : PublicKey)
    (ctx : Bytes) (draws : SenderDraws) : Result Legs := do
  let (ct1, k1) ← encaps L draws.coins1 bundleB.identityPk
  let (ct2, k2) ← encaps L draws.coins2 bundleB.signedPrekeyPk
  let (ct3, k3) ← encaps L draws.coins3 opkB
  let (ct4, k4) ← naxosEncaps L draws.coins4 bundleB.signedPrekeyPk skA eskA ctx
  pure ⟨ct1, k1, ct2, k2, ct3, k3, ct4, k4⟩

/-- The proof pair of `sender_handshake_with_mode`. -/
def senderProof (L : Suite) (skA : SecretKey) (pkA : PublicKey) (params : EirnParams)
    (ctx : Bytes) (mode : KcpMode) : Result (KcpLiteProof × Option KcpStrictProof) :=
  match mode with
  | .lite => do
    let proof ← kcpLiteProveForKey L skA pkA ctx
    pure (proof, none)
  | .strict => do
    let proof ← kcpStrictProve L skA pkA ctx
    pure (emptyLiteProof params, some proof)

def senderHandshakeWithMode (L : Suite) (skA : SecretKey) (pkA : PublicKey)
    (bundleB : PublicPrekeyBundle) (mode : KcpMode) (draws : SenderDraws) :
    Result (Msg0Prime × FixedBytes 32) := do
  if ¬ skA.matchesPublicKey pkA then err .keyMismatch
  else
    let params := bundleB.identityPk.params
    if pkA.params ≠ params ∨ bundleB.signedPrekeyPk.params ≠ params then err .keyMismatch
    else
      let (ekA, eskA) ← keygenWithParams L draws.ephemeral params
      match bundleB.oneTimePrekeys.head? with
      | none => err .noOneTimePrekeys
      | some opkB =>
        if opkB.params ≠ params then err .keyMismatch
        else
          let ctx := buildContext pkA bundleB.identityPk ekA
          let legs ← senderLegs L skA eskA bundleB opkB ctx draws
          let (liteProof, strictProof) ← senderProof L skA pkA params ctx mode
          let ss := deriveSessionKey L legs.secrets pkA.data bundleB.identityPk.data ekA.data
            legs.ciphertexts none
          pure (⟨pkA, ekA, legs.ct1, legs.ct2, legs.ct3, legs.ct4, mode, liteProof,
            strictProof⟩, ss)

def senderHandshake (L : Suite) (skA : SecretKey) (pkA : PublicKey)
    (bundleB : PublicPrekeyBundle) (draws : SenderDraws) : Result (Msg0Prime × FixedBytes 32) :=
  senderHandshakeWithMode L skA pkA bundleB .lite draws

def senderHandshakeStrict (L : Suite) (skA : SecretKey) (pkA : PublicKey)
    (bundleB : PublicPrekeyBundle) (draws : SenderDraws) : Result (Msg0Prime × FixedBytes 32) :=
  senderHandshakeWithMode L skA pkA bundleB .strict draws

/-- The checks that `receiver_handshake` makes before it consumes a prekey. -/
def receiverChecks (L : Suite) (bundleB : PrekeyBundle) (msg0 : Msg0Prime) : Result Unit := do
  let params := bundleB.identityPk.params
  if msg0.pkA.params ≠ params ∨ msg0.ekA.params ≠ params ∨ msg0.ct1.params ≠ params ∨
      msg0.ct2.params ≠ params ∨ msg0.ct3.params ≠ params ∨ msg0.ct4.params ≠ params then
    err .keyMismatch
  else
    let ctx := buildContext msg0.pkA bundleB.identityPk msg0.ekA
    match msg0.kcpMode with
    | .lite =>
      let accepted ← kcpLiteVerify L msg0.pkA.data ctx msg0.kcpLiteProof
      if ¬ accepted then err .authenticationFailed else pure ()
    | .strict =>
      match msg0.kcpStrictProof with
      | none => err .authenticationFailed
      | some proof =>
        let accepted ← kcpStrictVerify L msg0.pkA ctx proof
        if ¬ accepted then err .authenticationFailed else pure ()

/-- The four decapsulations of `receiver_handshake`. -/
def receiverSecrets (L : Suite) (bundleB : PrekeyBundle) (opkSk : SecretKey)
    (msg0 : Msg0Prime) : Result (List (FixedBytes 32)) := do
  let ctx := buildContext msg0.pkA bundleB.identityPk msg0.ekA
  let k1 ← decaps L bundleB.identitySk msg0.ct1
  let k2 ← decaps L bundleB.signedPrekeySk msg0.ct2
  let k3 ← decaps L opkSk msg0.ct3
  let k4 ← naxosDecaps L bundleB.signedPrekeySk msg0.ct4 msg0.pkA ctx
  pure [k1, k2, k3, k4]

def Msg0Prime.ciphertexts (msg0 : Msg0Prime) : List Bytes :=
  [msg0.ct1.data, msg0.ct2.data, msg0.ct3.data, msg0.ct4.data]

def receiverKey (L : Suite) (bundleB : PrekeyBundle) (opkSk : SecretKey) (msg0 : Msg0Prime) :
    Result (FixedBytes 32) := do
  let secrets ← receiverSecrets L bundleB opkSk msg0
  pure (deriveSessionKey L secrets msg0.pkA.data bundleB.identityPk.data msg0.ekA.data
    msg0.ciphertexts none)

/-- The result and the receiver state after the call. -/
def receiverHandshake (L : Suite) (bundleB : PrekeyBundle) (msg0 : Msg0Prime) :
    Result (FixedBytes 32) × PrekeyBundle :=
  match receiverChecks L bundleB msg0 with
  | .error e => (.error e, bundleB)
  | .ok () =>
    match bundleB.consumeOpk with
    | (.error e, bundle) => (.error e, bundle)
    | (.ok (_, opkSk), bundle) => (receiverKey L bundle opkSk msg0, bundle)

end EirnKcp.Handshake

namespace EirnKcp.Primitives.Suite
open EirnKcp.CheckedCode EirnKcp.Kem EirnKcp.Zk EirnKcp.Handshake

/-- What SHA3-256 hashes for the KCP-Lite proofs that senders with generated
keys put into their messages. -/
def sentDigests (L : Suite) : Set Bytes :=
  {x | ∃ seed params pkA skA bundleB draws msg key,
    keygenFromSeed L seed params = .ok (pkA, skA) ∧
    senderHandshake L skA pkA bundleB draws = .ok (msg, key) ∧
    (verifyingKeyBytes pkA.data pkA.params = .ok x ∨
      x = proofAnchorInput msg.kcpLiteProof.commitment msg.kcpLiteProof.response
        (buildContext pkA bundleB.identityPk msg.ekA))}

/-- No digest of a handshake and no signature is all zero. -/
structure NonZero (L : Suite) : Prop where
  digests : ∀ x ∈ L.sentDigests, L.sha3_256 x ≠ zeros 32
  signatures : L.SignaturesNonZero

/-- What an honest handshake relies on. -/
structure Lawful (L : Suite) : Prop where
  keysValid : L.KeysValid
  kemCorrect : L.KemCorrect
  signaturesParse : L.SignaturesParse
  dsaCorrect : L.DsaCorrect
  nonZero : L.NonZero

end EirnKcp.Primitives.Suite
