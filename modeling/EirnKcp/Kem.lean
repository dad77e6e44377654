import EirnKcp.LatticeZk

/-!
# Keys, ciphertexts and the ML-KEM layer

Keys and ciphertexts carry their bytes and the profile they were made for.
Each function dispatches on the profile of one of its arguments, as the source
does; the two arms differ only in the parameter sets they call.
-/

set_option autoImplicit false

namespace EirnKcp.Kem
open EirnKcp.CheckedCode EirnKcp.ByteCodec EirnKcp.Params EirnKcp.Primitives
open EirnKcp.LatticeZk

/-- `match params { PARAMS_768 => .., PARAMS_1024 => .., _ => .. }`. -/
def dispatch {α : Type} (params : EirnParams) (on768 on1024 otherwise : α) : α :=
  if params = params768 then on768 else if params = params1024 then on1024 else otherwise

@[simp] theorem dispatch768 {α : Type} (a b c : α) : dispatch params768 a b c = a := if_pos rfl

@[simp] theorem dispatch1024 {α : Type} (a b c : α) : dispatch params1024 a b c = b := by
  rw [dispatch, if_neg params1024_ne_params768, if_pos rfl]

structure PublicKey where
  data : Bytes
  params : EirnParams
  deriving DecidableEq

structure SecretKey where
  kemSeed : FixedBytes 64
  sigSeed : FixedBytes 32
  pkData : Bytes
  params : EirnParams
  deriving DecidableEq

structure Ciphertext where
  data : Bytes
  params : EirnParams
  deriving DecidableEq

/-- What every constructor of a key or a ciphertext establishes. -/
structure PublicKey.WellFormed (pk : PublicKey) : Prop where
  supported : IsSupportedParams pk.params
  length : pk.data.length = pk.params.pkBytes

structure Ciphertext.WellFormed (ct : Ciphertext) : Prop where
  supported : IsSupportedParams ct.params
  length : ct.data.length = ct.params.ctBytes

section Parsing
variable {ekSize ctSize vkSize : ℕ}

/-- `parse_encapsulation_key_768` and `parse_encapsulation_key_1024`. -/
def parseEncapsulationKeyWith (K : MlKem ekSize ctSize) (data : Bytes) (params : EirnParams) :
    Result (FixedBytes ekSize) :=
  if params.kemPkBytes ≤ data.length then
    let kemBytes := data.take params.kemPkBytes
    if h : kemBytes.length = ekSize then
      if K.newKey ⟨kemBytes, h⟩ then .ok ⟨kemBytes, h⟩ else err .authenticationFailed
    else err (.invalidKeyLength params.kemPkBytes kemBytes.length)
  else err (.invalidKeyLength params.pkBytes data.length)

/-- `parse_ciphertext_768` and `parse_ciphertext_1024`. -/
def parseCiphertextWith (_ : MlKem ekSize ctSize) (data : Bytes) (params : EirnParams) :
    Result (FixedBytes ctSize) :=
  if h : data.length = ctSize then .ok ⟨data, h⟩
  else err (.invalidCiphertextLength params.ctBytes data.length)

end Parsing

def parseEncapsulationKey (L : Suite) (data : Bytes) (params : EirnParams) : Result Unit :=
  dispatch params
    (do let _ ← parseEncapsulationKeyWith L.mlKem768 data params)
    (do let _ ← parseEncapsulationKeyWith L.mlKem1024 data params)
    (err (.unsupportedParameterSet params.name))

def parseCiphertext (L : Suite) (data : Bytes) (params : EirnParams) : Result Unit :=
  dispatch params
    (do let _ ← parseCiphertextWith L.mlKem768 data params)
    (do let _ ← parseCiphertextWith L.mlKem1024 data params)
    (err (.unsupportedParameterSet params.name))

/-- Decoding a verifying key cannot fail, so only its length is checked. -/
def parseVerifyingKey (data : Bytes) (params : EirnParams) : Result Unit :=
  dispatch params
    (if data.length = 1952 then .ok ()
      else err (.invalidKeyLength params.sigPkBytes data.length))
    (if data.length = 2592 then .ok ()
      else err (.invalidKeyLength params.sigPkBytes data.length))
    (err (.unsupportedParameterSet params.name))

def parseLatticeStatement (data : Bytes) (params : EirnParams) : Result Unit := do
  let keys ← usize (params.kemPkBytes+params.sigPkBytes)
  let expected ← usize (keys+params.zkStatementBytes)
  if data.length ≠ expected then err (.invalidKeyLength expected data.length)
  else
    let bytes ← statementBytesFromKey data params.kemPkBytes params.sigPkBytes
    match decodeStatement bytes with
    | none => err .authenticationFailed
    | some _ => pure ()

def PublicKey.fromBytes (L : Suite) (data : Bytes) (params : EirnParams) :
    Result PublicKey := do
  ensureSupportedParams params
  if data.length ≠ params.pkBytes then err (.invalidKeyLength params.pkBytes data.length)
  else
    parseEncapsulationKey L data params
    let hi ← usize (params.kemPkBytes+params.sigPkBytes)
    let vkBytes ← slice data params.kemPkBytes hi
    parseVerifyingKey vkBytes params
    parseLatticeStatement data params
    pure ⟨data, params⟩

def Ciphertext.fromBytes (L : Suite) (data : Bytes) (params : EirnParams) :
    Result Ciphertext := do
  ensureSupportedParams params
  if data.length ≠ params.ctBytes then
    err (.invalidCiphertextLength params.ctBytes data.length)
  else
    parseCiphertext L data params
    pure ⟨data, params⟩

namespace SecretKey

def commitmentSecret (L : Suite) (sk : SecretKey) : FixedBytes 32 :=
  L.sha3_256 (sk.kemSeed.1 ++ sk.sigSeed.1)

def signProofMessage (L : Suite) (sk : SecretKey) (message : Bytes) : Result Bytes :=
  dispatch sk.params
    (.ok (L.mlDsa65.sign sk.sigSeed message).1)
    (.ok (L.mlDsa87.sign sk.sigSeed message).1)
    (panic (.unreachable "SecretKey construction rejects unsupported params"))

def strictWitness (L : Suite) (sk : SecretKey) : Vector64 :=
  deriveWitness L sk.kemSeed sk.sigSeed

def strictPublicSeed (sk : SecretKey) : Result Bytes :=
  publicSeedFromKey sk.pkData sk.params.kemPkBytes sk.params.sigPkBytes

def matchesPublicKey (sk : SecretKey) (pk : PublicKey) : Bool :=
  decide (sk.params = pk.params) && ctEq sk.pkData pk.data

end SecretKey

def kemSeedOf (seed : FixedBytes 96) : FixedBytes 64 :=
  ⟨seed.1.take 64, by simp [seed.2]⟩

def sigSeedOf (seed : FixedBytes 96) : FixedBytes 32 :=
  ⟨seed.1.drop 64, by simp [seed.2]⟩

def encodedKeys (L : Suite) (kemSeed : FixedBytes 64) (sigSeed : FixedBytes 32)
    (params : EirnParams) : Result (Bytes × Bytes) :=
  dispatch params
    (.ok ((L.mlKem768.encapsulationKey kemSeed).1, (L.mlDsa65.verifyingKey sigSeed).1))
    (.ok ((L.mlKem1024.encapsulationKey kemSeed).1, (L.mlDsa87.verifyingKey sigSeed).1))
    (panic (.unreachable "unsupported params rejected above"))

def keygenFromSeed (L : Suite) (seed : FixedBytes 96) (params : EirnParams) :
    Result (PublicKey × SecretKey) := do
  if ¬ IsSupportedParams params then
    panic (.explicit ("unsupported Eirn-KCP parameter set: " ++ params.name))
  else
    let kemSeed := kemSeedOf seed
    let sigSeed := sigSeedOf seed
    let (ekBytes, vkBytes) ← encodedKeys L kemSeed sigSeed params
    let publicSeed := ekBytes ++ vkBytes
    let witness := deriveWitness L kemSeed sigSeed
    let statement ← statementFromWitness L publicSeed witness
    let pkData := publicSeed ++ (encodeStatement statement).1
    pure (⟨pkData, params⟩, ⟨kemSeed, sigSeed, pkData, params⟩)

/-- The drawn randomness is an argument here and in `encaps`. -/
def keygenWithParams (L : Suite) (drawn : FixedBytes 96) (params : EirnParams) :
    Result (PublicKey × SecretKey) := keygenFromSeed L drawn params

section Encapsulation
variable {ekSize ctSize : ℕ}

def encapsWith (K : MlKem ekSize ctSize) (pk : PublicKey) (coins : FixedBytes 32) :
    Result (Ciphertext × FixedBytes 32) := do
  let ek ← expect "PublicKey values are validated at construction"
    (parseEncapsulationKeyWith K pk.data pk.params)
  let (ct, ss) := K.encapsulateDeterministic ek coins
  pure (⟨ct.1, pk.params⟩, ss)

def decapsWith (K : MlKem ekSize ctSize) (sk : SecretKey) (ct : Ciphertext) :
    Result (FixedBytes 32) := do
  let kemCt ← expect "Ciphertext values are validated at construction"
    (parseCiphertextWith K ct.data ct.params)
  pure (K.decapsulate sk.kemSeed kemCt)

end Encapsulation

def encapsDeterministic (L : Suite) (pk : PublicKey) (coins : FixedBytes 32) :
    Result (Ciphertext × FixedBytes 32) :=
  dispatch pk.params (encapsWith L.mlKem768 pk coins) (encapsWith L.mlKem1024 pk coins)
    (panic (.unreachable "PublicKey construction rejects unsupported params"))

def encaps (L : Suite) (drawn : FixedBytes 32) (pk : PublicKey) :
    Result (Ciphertext × FixedBytes 32) := encapsDeterministic L pk drawn

def decaps (L : Suite) (sk : SecretKey) (ct : Ciphertext) : Result (FixedBytes 32) :=
  dispatch sk.params (decapsWith L.mlKem768 sk ct) (decapsWith L.mlKem1024 sk ct)
    (panic (.unreachable "SecretKey construction rejects unsupported params"))

end EirnKcp.Kem
