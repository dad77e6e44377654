import EirnKcp.Kem

/-!
# Key consistency proofs

KCP-Lite signs the session context with ML-DSA and binds the signature by an
anchor hash. KCP-Strict proves the lattice relation of the public key by a
Fiat-Shamir transform and binds the transcript by its own anchor hash.
-/

set_option autoImplicit false

namespace EirnKcp.Zk
open EirnKcp.CheckedCode EirnKcp.ByteCodec EirnKcp.Params EirnKcp.Primitives
open EirnKcp.LatticeZk EirnKcp.Kem

def kcpLiteSignLabel : Bytes := ascii "eirn-kcp-lite-ml-dsa-v1"
def kcpLiteAnchorLabel : Bytes := ascii "eirn-kcp-lite-anchor-v1"
def kcpStrictAnchorLabel : Bytes := ascii "eirn-kcp-strict-anchor-v1"

inductive KcpMode where
  | lite
  | strict
  deriving DecidableEq, Repr

def KcpMode.byte : KcpMode → UInt8
  | .lite => 0x00
  | .strict => 0x01

structure KcpLiteProof where
  commitment : FixedBytes 32
  response : Bytes
  anchor : FixedBytes 32
  deriving DecidableEq

structure KcpStrictProof where
  commitment : FixedBytes commitmentBytes
  response : FixedBytes responseBytes
  anchor : FixedBytes 32
  deriving DecidableEq

/-- `try_from` on signature bytes: the length, then the crate's own check. -/
def parseSignatureWith {vkSize sigSize : ℕ} (D : MlDsa vkSize sigSize) (data : Bytes)
    (params : EirnParams) : Result (FixedBytes sigSize) :=
  if h : data.length = sigSize then
    if D.parses ⟨data, h⟩ then .ok ⟨data, h⟩
    else err (.invalidProofLength params.sigBytes data.length)
  else err (.invalidProofLength params.sigBytes data.length)

def parseSignature (L : Suite) (data : Bytes) (params : EirnParams) : Result Unit :=
  dispatch params
    (do let _ ← parseSignatureWith L.mlDsa65 data params)
    (do let _ ← parseSignatureWith L.mlDsa87 data params)
    (err (.unsupportedParameterSet params.name))

namespace KcpStrictProof

def toBytes (proof : KcpStrictProof) : FixedBytes strictProofBytes :=
  ⟨proof.commitment.1 ++ (proof.response.1 ++ proof.anchor.1), by
    rw [List.length_append, List.length_append, proof.commitment.2, proof.response.2,
      proof.anchor.2]
    rfl⟩

def fromBytes (data : Bytes) : Result KcpStrictProof := do
  if data.length ≠ strictProofBytes then
    err (.invalidProofLength strictProofBytes data.length)
  else
    let commitment ← slice data 0 commitmentBytes
    let commitment ← copyFromSlice commitmentBytes commitment
    let response ← slice data commitmentBytes (commitmentBytes+responseBytes)
    let response ← copyFromSlice responseBytes response
    let anchor ← slice data (commitmentBytes+responseBytes) data.length
    let anchor ← copyFromSlice 32 anchor
    match decodeStatement commitment.1, decodeResponse response.1 with
    | none, _ => err .authenticationFailed
    | some _, none => err .authenticationFailed
    | some _, some _ => pure ⟨commitment, response, anchor⟩

end KcpStrictProof

namespace KcpLiteProof

def toBytes (proof : KcpLiteProof) : Bytes :=
  proof.commitment.1 ++ (proof.response ++ proof.anchor.1)

def fromBytesWithParams (L : Suite) (data : Bytes) (params : EirnParams) :
    Result KcpLiteProof := do
  if data.length ≠ params.proofBytes then
    err (.invalidProofLength params.proofBytes data.length)
  else
    let commitment ← slice data 0 32
    let commitment ← copyFromSlice 32 commitment
    let hi ← usize (32+params.sigBytes)
    let response ← slice data 32 hi
    let anchor ← slice data hi data.length
    let anchor ← copyFromSlice 32 anchor
    parseSignature L response params
    pure ⟨commitment, response, anchor⟩

end KcpLiteProof

def proofMessage (commitment : FixedBytes 32) (pk ctx : Bytes) : Bytes :=
  kcpLiteSignLabel ++ (commitment.1 ++ (pk ++ ctx))

/-- What `proof_anchor` hashes. -/
def proofAnchorInput (commitment : FixedBytes 32) (response ctx : Bytes) : Bytes :=
  kcpLiteAnchorLabel ++ (commitment.1 ++ (response ++ ctx))

def proofAnchor (L : Suite) (commitment : FixedBytes 32) (response ctx : Bytes) :
    FixedBytes 32 := L.sha3_256 (proofAnchorInput commitment response ctx)

/-- What `strict_anchor` hashes. -/
def strictAnchorInput (pk ctx : Bytes) (statement : Statement) (commitment response : Bytes) :
    Bytes :=
  kcpStrictAnchorLabel ++ (pk ++ (ctx ++ ((encodeStatement statement).1 ++
    (commitment ++ response))))

def strictAnchor (L : Suite) (pk ctx : Bytes) (statement : Statement)
    (commitment response : Bytes) : FixedBytes 32 :=
  L.sha3_256 (strictAnchorInput pk ctx statement commitment response)

def paramsFromPublicKeyLen (len : ℕ) : Option EirnParams :=
  if len = params768.pkBytes then some params768
  else if len = params1024.pkBytes then some params1024
  else none

def verifyingKeyBytes (pk : Bytes) (params : EirnParams) : Result Bytes := do
  if pk.length ≠ params.pkBytes then err (.invalidKeyLength params.pkBytes pk.length)
  else
    let hi ← usize (params.kemPkBytes+params.sigPkBytes)
    slice pk params.kemPkBytes hi

section Signature
variable {vkSize sigSize : ℕ}

def parseVerifyingKeyWith (_ : MlDsa vkSize sigSize) (data : Bytes) (params : EirnParams) :
    Result (FixedBytes vkSize) :=
  if h : data.length = vkSize then .ok ⟨data, h⟩
  else err (.invalidKeyLength params.sigPkBytes data.length)

def verifySignatureWith (D : MlDsa vkSize sigSize) (vkBytes message : Bytes)
    (proof : KcpLiteProof) (params : EirnParams) : Bool :=
  match parseVerifyingKeyWith D vkBytes params, parseSignatureWith D proof.response params with
  | .ok verifyingKey, .ok signature => D.verify verifyingKey message signature
  | _, _ => false

end Signature

def verifySignature (L : Suite) (vkBytes message : Bytes) (proof : KcpLiteProof)
    (params : EirnParams) : Bool :=
  dispatch params
    (verifySignatureWith L.mlDsa65 vkBytes message proof params)
    (verifySignatureWith L.mlDsa87 vkBytes message proof params)
    false

def kcpLiteProve (L : Suite) (sk : SecretKey) (pk ctx : Bytes) : Result KcpLiteProof := do
  if ¬ ctEq sk.pkData pk then err .keyMismatch
  else
    let params := sk.params
    let vkBytes ← verifyingKeyBytes pk params
    let commitment := L.sha3_256 vkBytes
    let message := proofMessage commitment pk ctx
    let response ← sk.signProofMessage L message
    let anchor := proofAnchor L commitment response ctx
    pure ⟨commitment, response, anchor⟩

def kcpLiteProveForKey (L : Suite) (sk : SecretKey) (pk : PublicKey) (ctx : Bytes) :
    Result KcpLiteProof :=
  if ¬ sk.matchesPublicKey pk then err .keyMismatch else kcpLiteProve L sk pk.data ctx

/-- The checks of `kcp_lite_verify` after the verifying key is found. -/
def liteChecks (L : Suite) (params : EirnParams) (vkBytes pk ctx : Bytes)
    (proof : KcpLiteProof) : Bool :=
  ctEq proof.commitment.1 (L.sha3_256 vkBytes).1 &&
  decide (proof.response.length = params.sigBytes) &&
  verifySignature L vkBytes (proofMessage proof.commitment pk ctx) proof params &&
  ctEq proof.anchor.1 (proofAnchor L proof.commitment proof.response ctx).1 &&
  (decide (proof.commitment ≠ zeros 32) && decide (proof.anchor ≠ zeros 32) &&
    proof.response.any (fun b => b != 0))

def kcpLiteVerify (L : Suite) (pk ctx : Bytes) (proof : KcpLiteProof) : Result Bool :=
  match paramsFromPublicKeyLen pk.length with
  | none => .ok false
  | some params =>
    match verifyingKeyBytes pk params with
    | .ok vkBytes => .ok (liteChecks L params vkBytes pk ctx proof)
    | .error (.err _) => .ok false
    | .error (.panic cause) => panic cause

def strictStatement (pk : Bytes) (params : EirnParams) : Result Statement := do
  if pk.length ≠ params.pkBytes then err (.invalidKeyLength params.pkBytes pk.length)
  else
    let bytes ← statementBytesFromKey pk params.kemPkBytes params.sigPkBytes
    match decodeStatement bytes with
    | none => err .authenticationFailed
    | some statement => pure statement

/-- The response loop of `kcp_strict_prove`. -/
def responseLoop (mask witness : Vector64) (challenge : UInt16) : Result Vector64 :=
  forArray (fun i => do
    let product ← i16 (challenge.toInt16.toInt*(witness i).toInt)
    let dst ← i16 ((mask i).toInt+product.toInt)
    if responseBound < dst.toInt.natAbs then err .authenticationFailed else pure dst)

def kcpStrictProve (L : Suite) (sk : SecretKey) (pk : PublicKey) (ctx : Bytes) :
    Result KcpStrictProof := do
  if ¬ sk.matchesPublicKey pk then err .keyMismatch
  else
    let statement ← strictStatement pk.data pk.params
    let witness := sk.strictWitness L
    let mask := deriveMask L (sk.commitmentSecret L) pk.data ctx
    let publicSeed ← sk.strictPublicSeed
    let commitment ← matrixMul L publicSeed mask
    let c := challenge L pk.data ctx statement commitment
    let response ← responseLoop mask witness c
    let commitment := encodeStatement commitment
    let response := encodeResponse response
    let anchor := strictAnchor L pk.data ctx statement commitment.1 response.1
    pure ⟨commitment, response, anchor⟩

def kcpStrictVerify (L : Suite) (pk : PublicKey) (ctx : Bytes) (proof : KcpStrictProof) :
    Result Bool :=
  let params := pk.params
  match strictStatement pk.data params with
  | .error (.err _) => .ok false
  | .error (.panic cause) => panic cause
  | .ok statement =>
    match decodeStatement proof.commitment.1 with
    | none => .ok false
    | some commitment =>
      match decodeResponse proof.response.1 with
      | none => .ok false
      | some response => do
        let c := challenge L pk.data ctx statement commitment
        let publicSeed ← publicSeedFromKey pk.data params.kemPkBytes params.sigPkBytes
        let lhs ← matrixMul L publicSeed response
        let rhs ← addScaledStatement commitment statement c
        if lhs ≠ rhs then pure false
        else
          let expectedAnchor :=
            strictAnchor L pk.data ctx statement proof.commitment.1 proof.response.1
          pure (ctEq proof.anchor.1 expectedAnchor.1)

end EirnKcp.Zk
