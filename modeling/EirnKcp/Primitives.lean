import EirnKcp.ByteCodec

/-!
# External primitives

ML-KEM, ML-DSA, SHA3-256 and SHAKE256 come from other crates and enter as
functions on arrays of the sizes their types fix. What the handshake relies on
beyond these types is stated as separate laws, so that every result names the
laws it uses. The helpers of `util` are defined over the two hash functions.
-/

set_option autoImplicit false

namespace EirnKcp.Primitives
open EirnKcp.CheckedCode EirnKcp.ByteCodec

/-- One ML-KEM parameter set. `newKey` is the check of `EncapsulationKey::new`. -/
structure MlKem (ekSize ctSize : ℕ) where
  encapsulationKey : FixedBytes 64 → FixedBytes ekSize
  newKey : FixedBytes ekSize → Bool
  encapsulateDeterministic : FixedBytes ekSize → FixedBytes 32 →
    FixedBytes ctSize × FixedBytes 32
  decapsulate : FixedBytes 64 → FixedBytes ctSize → FixedBytes 32

/-- One ML-DSA parameter set. `parses` is the check of `Signature::try_from`
on a byte string of the right length. -/
structure MlDsa (vkSize sigSize : ℕ) where
  verifyingKey : FixedBytes 32 → FixedBytes vkSize
  sign : FixedBytes 32 → Bytes → FixedBytes sigSize
  parses : FixedBytes sigSize → Bool
  verify : FixedBytes vkSize → Bytes → FixedBytes sigSize → Bool

structure Suite where
  mlKem768 : MlKem 1184 1088
  mlKem1024 : MlKem 1568 1568
  mlDsa65 : MlDsa 1952 3309
  mlDsa87 : MlDsa 2592 4627
  sha3_256 : Bytes → FixedBytes 32
  shake256 : Bytes → (outLen : ℕ) → FixedBytes outLen

/-- `util::kdf`'s input to SHAKE256: each count is cast to a fixed width. -/
def kdfEncode (inputs : List Bytes) (label : Bytes) : Bytes :=
  beBytes 2 label.length ++ (label ++ (beBytes 2 inputs.length ++ fields inputs))

def kdf (L : Suite) (inputs : List Bytes) (label : Bytes) (outLen : ℕ) :
    FixedBytes outLen :=
  L.shake256 (kdfEncode inputs label) outLen

/-- `util::ct_eq`. -/
def ctEq (a b : Bytes) : Bool := decide (a = b)

@[simp] theorem ctEq_iff (a b : Bytes) : ctEq a b = true ↔ a = b := decide_eq_true_iff

/-- `str::as_bytes`. The fixed labels are ASCII. -/
def ascii (text : String) : Bytes := text.toUTF8.data.toList

theorem ascii_injective : Function.Injective ascii := by
  intro a b h
  exact String.toByteArray_inj.mp (ByteArray.ext (Array.toList_inj.mp h))

theorem ascii_append (a b : String) : ascii (a ++ b) = ascii a ++ ascii b := by
  simp [ascii]

/-- Labels of one length and inputs shorter than `2^32` bytes are recovered from
what SHAKE256 hashes. Neither needs the count, which is cast to 16 bits. -/
theorem kdfEncode_injective (label label' : Bytes) (xs ys : List Bytes)
    (hlabel : label.length = label'.length) (hx : ∀ x ∈ xs, x.length < 2^32)
    (hy : ∀ y ∈ ys, y.length < 2^32) (h : kdfEncode xs label = kdfEncode ys label') :
    label = label' ∧ xs = ys := by
  unfold kdfEncode at h
  rw [hlabel] at h
  obtain ⟨rfl, hrest⟩ := List.append_inj (List.append_cancel_left h) hlabel
  obtain ⟨_, hfields⟩ := List.append_inj hrest (by simp)
  exact ⟨rfl, fields_injective xs ys hx hy hfields⟩

section Laws
variable {ekSize ctSize vkSize sigSize : ℕ}

def MlKem.KeysValid (K : MlKem ekSize ctSize) : Prop :=
  ∀ seed, K.newKey (K.encapsulationKey seed) = true

/-- Decapsulation with the matching key inverts encapsulation. -/
def MlKem.Correct (K : MlKem ekSize ctSize) : Prop :=
  ∀ seed coins,
    K.decapsulate seed (K.encapsulateDeterministic (K.encapsulationKey seed) coins).1 =
      (K.encapsulateDeterministic (K.encapsulationKey seed) coins).2

/-- Implicit rejection: decapsulation with another key gives another secret. -/
def MlKem.Rejecting (K : MlKem ekSize ctSize) : Prop :=
  ∀ seed other coins, K.encapsulationKey other ≠ K.encapsulationKey seed →
    K.decapsulate other (K.encapsulateDeterministic (K.encapsulationKey seed) coins).1 ≠
      (K.encapsulateDeterministic (K.encapsulationKey seed) coins).2

def MlDsa.SignaturesParse (D : MlDsa vkSize sigSize) : Prop :=
  ∀ seed message, D.parses (D.sign seed message) = true

def MlDsa.Correct (D : MlDsa vkSize sigSize) : Prop :=
  ∀ seed message, D.verify (D.verifyingKey seed) message (D.sign seed message) = true

def MlDsa.NonZero (D : MlDsa vkSize sigSize) : Prop :=
  ∀ seed message, (D.sign seed message).1.any (fun b => b != 0) = true

/-- A key accepts its own signature of a message and no other. -/
def MlDsa.Exact (D : MlDsa vkSize sigSize) : Prop :=
  ∀ seed message signature,
    D.verify (D.verifyingKey seed) message signature = true ↔ signature = D.sign seed message

/-- No signature is valid for two of the messages under one key. -/
def MlDsa.OneMessage (D : MlDsa vkSize sigSize) (messages : Set Bytes) : Prop :=
  ∀ seed signature,
    {m ∈ messages | D.verify (D.verifyingKey seed) m signature = true}.Subsingleton

end Laws

namespace Suite

structure KeysValid (L : Suite) : Prop where
  mlKem768 : L.mlKem768.KeysValid
  mlKem1024 : L.mlKem1024.KeysValid

structure KemCorrect (L : Suite) : Prop where
  mlKem768 : L.mlKem768.Correct
  mlKem1024 : L.mlKem1024.Correct

structure Rejecting (L : Suite) : Prop where
  mlKem768 : L.mlKem768.Rejecting
  mlKem1024 : L.mlKem1024.Rejecting

structure SignaturesParse (L : Suite) : Prop where
  mlDsa65 : L.mlDsa65.SignaturesParse
  mlDsa87 : L.mlDsa87.SignaturesParse

structure DsaCorrect (L : Suite) : Prop where
  mlDsa65 : L.mlDsa65.Correct
  mlDsa87 : L.mlDsa87.Correct

structure DsaExact (L : Suite) : Prop where
  mlDsa65 : L.mlDsa65.Exact
  mlDsa87 : L.mlDsa87.Exact

structure OneMessage (L : Suite) (messages : Set Bytes) : Prop where
  mlDsa65 : L.mlDsa65.OneMessage messages
  mlDsa87 : L.mlDsa87.OneMessage messages

structure SignaturesNonZero (L : Suite) : Prop where
  mlDsa65 : L.mlDsa65.NonZero
  mlDsa87 : L.mlDsa87.NonZero

end Suite

end EirnKcp.Primitives
