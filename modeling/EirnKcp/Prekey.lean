import EirnKcp.Zk

/-!
# Key derivation and receiver prekey state

The session key hashes the shared secrets and the transcript as one list of
length-prefixed inputs. The receiver keeps its one-time prekeys as two parallel
vectors and removes the first entry of each when one is consumed.
-/

set_option autoImplicit false

namespace EirnKcp.Prekey
open EirnKcp.CheckedCode EirnKcp.ByteCodec EirnKcp.Params EirnKcp.Primitives
open EirnKcp.LatticeZk EirnKcp.Kem EirnKcp.Zk

def sessionLabel : Bytes := ascii "Eirn-ZK-v1"
def messageLabel : Bytes := ascii "Eirn-ZK-msg"
def naxosLabel : Bytes := ascii "eirn-naxos-v1"
def naxosSsLabel : Bytes := ascii "naxos-ss"
def prekeyCommitLabel : Bytes := ascii "eirn-prekey-commit-v1"

/-- The flat input list of `derive_session_key`. -/
def sessionInputs (sharedSecrets : List (FixedBytes 32)) (pkA pkB ekA : Bytes)
    (ciphertexts : List Bytes) (additionalData : Option Bytes) : List Bytes :=
  sharedSecrets.map (fun s => s.1) ++ [pkA, pkB, ekA] ++ ciphertexts ++
    match additionalData with
    | some data => if data.isEmpty then [] else [data]
    | none => []

def deriveSessionKey (L : Suite) (sharedSecrets : List (FixedBytes 32)) (pkA pkB ekA : Bytes)
    (ciphertexts : List Bytes) (additionalData : Option Bytes) : FixedBytes 32 :=
  kdf L (sessionInputs sharedSecrets pkA pkB ekA ciphertexts additionalData) sessionLabel 32

def deriveMessageKey (L : Suite) (sessionKey : FixedBytes 32) (counter : UInt64) :
    FixedBytes 32 :=
  kdf L [sessionKey.1, beBytes 8 counter.toNat] messageLabel 32

/-- Public, but not used by the handshake. -/
def naxosDeriveCoins (L : Suite) (senderSk senderEphemeralSk : SecretKey) (recipientPk : PublicKey)
    (context : Bytes) : FixedBytes 32 :=
  L.sha3_256 ((senderSk.commitmentSecret L).1 ++ ((senderEphemeralSk.commitmentSecret L).1 ++
    (recipientPk.data ++ (context ++ naxosLabel))))

/-- What `naxos_encaps` and `naxos_decaps` hash. -/
def naxosInput (ssRaw : FixedBytes 32) (senderPk recipientPk context : Bytes) : Bytes :=
  naxosSsLabel ++ (ssRaw.1 ++ (senderPk ++ (recipientPk ++ context)))

/-- The ephemeral secret key is an argument of the source that its body ignores. -/
def naxosEncaps (L : Suite) (drawn : FixedBytes 32) (recipientPk : PublicKey)
    (senderSk _senderEphemeralSk : SecretKey) (context : Bytes) :
    Result (Ciphertext × FixedBytes 32) := do
  let (ct, ssRaw) ← encaps L drawn recipientPk
  pure (ct, L.sha3_256 (naxosInput ssRaw senderSk.pkData recipientPk.data context))

def naxosDecaps (L : Suite) (recipientSk : SecretKey) (ct : Ciphertext) (senderPk : PublicKey)
    (context : Bytes) : Result (FixedBytes 32) := do
  let ssRaw ← decaps L recipientSk ct
  pure (L.sha3_256 (naxosInput ssRaw senderPk.data recipientSk.pkData context))

structure PublicPrekeyBundle where
  identityPk : PublicKey
  signedPrekeyPk : PublicKey
  oneTimePrekeys : List PublicKey
  commitment : FixedBytes 32
  deriving DecidableEq

structure PrekeyBundle where
  identityPk : PublicKey
  identitySk : SecretKey
  signedPrekeyPk : PublicKey
  signedPrekeySk : SecretKey
  oneTimePrekeys : List PublicKey
  oneTimeSecretKeys : List SecretKey
  commitment : FixedBytes 32
  deriving DecidableEq

namespace PrekeyBundle

def publicBundle (bundle : PrekeyBundle) : PublicPrekeyBundle where
  identityPk := bundle.identityPk
  signedPrekeyPk := bundle.signedPrekeyPk
  oneTimePrekeys := bundle.oneTimePrekeys
  commitment := bundle.commitment

/-- The result and the state after the call. The public key is removed before
the secret key, whose removal panics on an empty vector. -/
def consumeOpk (bundle : PrekeyBundle) : Result (PublicKey × SecretKey) × PrekeyBundle :=
  match bundle.oneTimePrekeys, bundle.oneTimeSecretKeys with
  | [], _ => (err .noOneTimePrekeys, bundle)
  | _::pks, [] => (panic .removeIndex, { bundle with oneTimePrekeys := pks })
  | pk::pks, sk::sks =>
    (.ok (pk, sk), { bundle with oneTimePrekeys := pks, oneTimeSecretKeys := sks })

end PrekeyBundle

/-- The loop that generates one-time pairs, drawing from position `first` on. -/
def generateOneTime (L : Suite) (drawn : ℕ → FixedBytes 96) (params : EirnParams) :
    ℕ → ℕ → Result (List PublicKey × List SecretKey)
  | _, 0 => pure ([], [])
  | first, count+1 => do
      let (pk, sk) ← keygenWithParams L (drawn first) params
      let (pks, sks) ← generateOneTime L drawn params (first+1) count
      pure (pk::pks, sk::sks)

/-- The draws of the operating-system generator are the argument `drawn`. -/
def generatePrekeyBundleWithParams (L : Suite) (drawn : ℕ → FixedBytes 96) (numOpk : ℕ)
    (params : EirnParams) : Result PrekeyBundle := do
  let (identityPk, identitySk) ← keygenWithParams L (drawn 0) params
  let (signedPrekeyPk, signedPrekeySk) ← keygenWithParams L (drawn 1) params
  let (oneTimePrekeys, oneTimeSecretKeys) ← generateOneTime L drawn params 2 numOpk
  let commitmentSecret := signedPrekeySk.commitmentSecret L
  let commitment :=
    L.sha3_256 (commitmentSecret.1 ++ signedPrekeyPk.data ++ prekeyCommitLabel)
  pure ⟨identityPk, identitySk, signedPrekeyPk, signedPrekeySk, oneTimePrekeys,
    oneTimeSecretKeys, commitment⟩

end EirnKcp.Prekey
