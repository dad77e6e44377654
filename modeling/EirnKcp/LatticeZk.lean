import EirnKcp.Params
import EirnKcp.Primitives
import Mathlib.Algebra.BigOperators.Fin
import Mathlib.Tactic

/-!
# The lattice relation helpers

Statements and commitments are arrays of 32 words, witnesses, masks and
responses arrays of 64 signed words. Matrix products accumulate in `i64` and
reduce once per row. Every operation that Rust checks is checked here.
-/

set_option autoImplicit false

namespace EirnKcp.LatticeZk
open EirnKcp.CheckedCode EirnKcp.ByteCodec EirnKcp.Params EirnKcp.Primitives

abbrev q : ℕ := 3329
abbrev witnessDim : ℕ := 64
abbrev statementDim : ℕ := 32
abbrev statementBytes : ℕ := statementDim*2
abbrev commitmentBytes : ℕ := statementBytes
abbrev responseBytes : ℕ := witnessDim*2
abbrev strictProofBytes : ℕ := commitmentBytes+responseBytes+32
abbrev maskBound : ℤ := 12000
abbrev responseBound : ℕ := 16095

abbrev Vector64 := Fin witnessDim → Int16
abbrev Statement := Fin statementDim → UInt16

def witnessLabel : Bytes := ascii "eirn-kcp-strict-witness-v1"
def matrixLabel : Bytes := ascii "eirn-kcp-strict-matrix-v1"
def maskLabel : Bytes := ascii "eirn-kcp-strict-mask-v1"
def challengeLabel : Bytes := ascii "eirn-kcp-strict-challenge-v1"

def deriveWitness (L : Suite) (kemSeed : FixedBytes 64) (sigSeed : FixedBytes 32) : Vector64 :=
  let bytes := L.shake256 (witnessLabel ++ kemSeed.1 ++ sigSeed.1) witnessDim
  fun i => match (bytes.1.getD i 0).toNat % 3 with
    | 0 => -1
    | 1 => 0
    | _ => 1

def deriveMask (L : Suite) (secret : FixedBytes 32) (pk ctx : Bytes) : Vector64 :=
  let bytes := L.shake256 (maskLabel ++ secret.1 ++ pk ++ ctx) (witnessDim*2)
  fun i =>
    let value : ℤ := (wordAt bytes.1 i).toNat
    let span := maskBound*2+1
    Int16.ofInt (value.tmod span-maskBound)

/-- The matrix in row-major order. -/
def expandMatrix (L : Suite) (publicSeed : Bytes) : Fin (statementDim*witnessDim) → UInt16 :=
  let bytes := L.shake256 (matrixLabel ++ publicSeed) (statementDim*witnessDim*2)
  fun i => wordAt bytes.1 i % UInt16.ofNat q

def modQ (value : ℤ) : UInt16 :=
  let reduced := value.tmod q
  UInt16.ofInt (if reduced < 0 then reduced+q else reduced)

theorem index_lt (row : Fin statementDim) (col : Fin witnessDim) :
    row*witnessDim+col < statementDim*witnessDim := by
  have hr : row.val < 32 := row.isLt
  have hc : col.val < 64 := col.isLt
  change row.val*64+col.val < 32*64
  omega

def entry (matrix : Fin (statementDim*witnessDim) → UInt16) (row : Fin statementDim)
    (col : Fin witnessDim) : UInt16 :=
  matrix ⟨row*witnessDim+col, index_lt row col⟩

def rowProduct (matrix : Fin (statementDim*witnessDim) → UInt16) (vector : Vector64)
    (row : Fin statementDim) : Result ℤ :=
  (List.finRange witnessDim).foldlM (fun acc col => do
    let term ← i64 ((entry matrix row col).toNat*(vector col).toInt)
    i64 (acc+term)) 0

def matrixMul (L : Suite) (publicSeed : Bytes) (vector : Vector64) : Result Statement :=
  let matrix := expandMatrix L publicSeed
  forArray (fun row => do
    let acc ← rowProduct matrix vector row
    pure (modQ acc))

def statementFromWitness (L : Suite) (publicSeed : Bytes) (witness : Vector64) :
    Result Statement := matrixMul L publicSeed witness

def encodeStatement (values : Statement) : FixedBytes statementBytes :=
  ⟨encodeWords values, encodeWords_length values⟩

def decodeStatement (bytes : Bytes) : Option Statement :=
  if bytes.length ≠ statementBytes then none
  else forArray (fun i =>
    let value := wordAt bytes i
    if q ≤ value.toNat then none else some value)

def encodeResponse (values : Vector64) : FixedBytes responseBytes :=
  ⟨encodeWords (fun i => (values i).toUInt16), encodeWords_length _⟩

def decodeResponse (bytes : Bytes) : Option Vector64 :=
  if bytes.length ≠ responseBytes then none
  else forArray (fun i =>
    let value := (wordAt bytes i).toInt16
    if responseBound < value.toInt.natAbs then none else some value)

def challenge (L : Suite) (pk ctx : Bytes) (statement commitment : Statement) : UInt16 :=
  let digest := L.sha3_256 (challengeLabel ++ pk ++ ctx ++ (encodeStatement statement).1 ++
    (encodeStatement commitment).1)
  leWord (digest.1.getD 0 0) (digest.1.getD 1 0) % 4095+1

def addScaledStatement (commitment statement : Statement) (challenge : UInt16) :
    Result Statement :=
  forArray (fun i => do
    let scaled ← i64 (challenge.toNat*(statement i).toNat)
    let sum ← i64 ((commitment i).toNat+scaled)
    pure (modQ sum))

def publicSeedFromKey (pk : Bytes) (kemPkBytes sigPkBytes : ℕ) : Result Bytes := do
  let hi ← usize (kemPkBytes+sigPkBytes)
  slice pk 0 hi

def statementBytesFromKey (pk : Bytes) (kemPkBytes sigPkBytes : ℕ) : Result Bytes := do
  let lo ← usize (kemPkBytes+sigPkBytes)
  let hi ← usize (lo+statementBytes)
  slice pk lo hi

def Ternary (s : Vector64) : Prop := ∀ i, s i = -1 ∨ s i = 0 ∨ s i = 1

theorem witness_ternary (L : Suite) (kemSeed : FixedBytes 64) (sigSeed : FixedBytes 32) :
    Ternary (deriveWitness L kemSeed sigSeed) := by
  intro i
  unfold deriveWitness
  split
  · exact Or.inl rfl
  · exact Or.inr (Or.inl rfl)
  · exact Or.inr (Or.inr rfl)

theorem ternary_bound (s : Vector64) (h : Ternary s) (i : Fin witnessDim) :
    |(s i).toInt| ≤ 1 := by
  rcases h i with hi | hi | hi <;> rw [hi] <;> decide

theorem mask_bound (L : Suite) (secret : FixedBytes 32) (pk ctx : Bytes)
    (i : Fin witnessDim) : |(deriveMask L secret pk ctx i).toInt| ≤ maskBound := by
  unfold deriveMask
  generalize wordAt _ _ = w
  change |(Int16.ofInt ((w.toNat : ℤ).tmod (maskBound*2+1)-maskBound)).toInt| ≤ maskBound
  have ht : ((w.toNat : ℤ).tmod (maskBound*2+1)) = (w.toNat : ℤ) % 24001 :=
    Int.tmod_eq_emod_of_nonneg (by omega)
  rw [ht, Int16.toInt_ofInt_of_le (by change _ ≤ _ - 12000; omega)
    (by change _ - 12000 < _; omega), abs_le]
  change -12000 ≤ _ - 12000 ∧ _ - 12000 ≤ 12000
  constructor <;> omega

def Returned (c : UInt16) : Prop :=
  ∃ digest : FixedBytes 32, c = leWord (digest.1.getD 0 0) (digest.1.getD 1 0) % 4095+1

theorem challenge_returned (L : Suite) (pk ctx : Bytes) (t u : Statement) :
    Returned (challenge L pk ctx t u) := ⟨_, rfl⟩

theorem returned_iff (c : UInt16) : Returned c ↔ 1 ≤ c.toNat ∧ c.toNat ≤ 4095 := by
  constructor
  · rintro ⟨digest, rfl⟩
    generalize leWord _ _ = w
    simp only [UInt16.toNat_add, UInt16.toNat_mod, UInt16.reduceToNat]
    omega
  · rintro ⟨hl, hu⟩
    have hbytes := leWord_leBytes (c-1)
    refine ⟨⟨leBytes (c-1) ++ (zeros 30).1, rfl⟩, ?_⟩
    have hw : leWord ((leBytes (c-1) ++ (zeros 30).1).getD 0 0)
        ((leBytes (c-1) ++ (zeros 30).1).getD 1 0) = c-1 := hbytes
    have hsub : (c-1).toNat = c.toNat-1 := UInt16.toNat_sub_of_le c 1 hl
    rw [hw]
    apply UInt16.toNat_inj.mp
    simp only [UInt16.toNat_add, UInt16.toNat_mod, UInt16.reduceToNat, hsub]
    omega

theorem challenge_range (L : Suite) (pk ctx : Bytes) (t u : Statement) :
    1 ≤ (challenge L pk ctx t u).toNat ∧ (challenge L pk ctx t u).toNat ≤ 4095 :=
  (returned_iff _).mp (challenge_returned L pk ctx t u)

theorem modQ_toNat (value : ℤ) : ((modQ value).toNat : ℤ) = value % 3329 := by
  have hr : (if value.tmod q < 0 then value.tmod q+q else value.tmod q) = value % 3329 := by
    have ht := Int.tmod_eq_emod (a := value) (b := 3329)
    change (if value.tmod 3329 < 0 then value.tmod 3329+3329 else value.tmod 3329) = _
    split_ifs at ht ⊢ <;> omega
  simp only [modQ, hr, UInt16.ofInt, UInt16.toNat_ofNat']
  omega

example : modQ (-1) = 3328 := by decide

theorem modQ_lt (value : ℤ) : (modQ value).toNat < q := by
  have h := modQ_toNat value
  change (modQ value).toNat < 3329
  omega

theorem decodeStatement_iff (bytes : Bytes) (t : Statement) :
    decodeStatement bytes = some t ↔
      bytes = (encodeStatement t).1 ∧ ∀ i, (t i).toNat < q := by
  unfold decodeStatement
  by_cases hl : bytes.length = statementBytes
  · rw [if_neg (by simpa using hl), forArray_some_iff]
    constructor
    · intro h
      have hi : ∀ i : Fin statementDim, wordAt bytes i = t i ∧ (t i).toNat < q := by
        intro i
        have := h i
        dsimp only at this
        split_ifs at this with hq
        · have ht := Option.some.inj this
          rw [ht] at hq
          exact ⟨ht, by omega⟩
      refine ⟨?_, fun i => (hi i).2⟩
      rw [encodeStatement, ← funext (fun i => (hi i).1)]
      exact (encodeWords_wordAt statementDim bytes (by omega)).symm
    · rintro ⟨rfl, hq⟩ i
      dsimp only [encodeStatement]
      rw [wordAt_encodeWords, if_neg (by have := hq i; omega)]
  · rw [if_pos hl]
    constructor
    · intro h
      cases h
    · rintro ⟨rfl, _⟩
      exact absurd (encodeStatement t).2 hl

theorem decodeResponse_iff (bytes : Bytes) (z : Vector64) :
    decodeResponse bytes = some z ↔
      bytes = (encodeResponse z).1 ∧ ∀ i, (z i).toInt.natAbs ≤ responseBound := by
  unfold decodeResponse
  by_cases hl : bytes.length = responseBytes
  · rw [if_neg (by simpa using hl), forArray_some_iff]
    constructor
    · intro h
      have hi : ∀ i : Fin witnessDim, wordAt bytes i = (z i).toUInt16 ∧
          (z i).toInt.natAbs ≤ responseBound := by
        intro i
        have := h i
        dsimp only at this
        split_ifs at this with hb
        · rw [← Option.some.inj this]
          exact ⟨(UInt16.toUInt16_toInt16 _).symm, by omega⟩
      refine ⟨?_, fun i => (hi i).2⟩
      rw [encodeResponse, ← funext (fun i => (hi i).1)]
      exact (encodeWords_wordAt witnessDim bytes (by omega)).symm
    · rintro ⟨rfl, hb⟩ i
      dsimp only [encodeResponse]
      rw [wordAt_encodeWords, Int16.toInt16_toUInt16, if_neg (by have := hb i; omega)]
  · rw [if_pos hl]
    constructor
    · intro h
      cases h
    · rintro ⟨rfl, _⟩
      exact absurd (encodeResponse z).2 hl

/-- Summing bounded products in `i64` is exact while the bounds fit. -/
theorem foldlM_i64 {ι : Type} (f : ι → ℤ) (B : ℤ) (hf : ∀ i, |f i| ≤ B) (l : List ι) (acc : ℤ)
    (h : |acc|+l.length*B < 2^63) :
    l.foldlM (fun acc i => do
      let term ← i64 (f i)
      i64 (acc+term)) acc = (.ok (acc+(l.map f).sum) : Result ℤ) := by
  induction l generalizing acc with
  | nil => simp
  | cons i l ih =>
    have hB : 0 ≤ B := le_trans (abs_nonneg _) (hf i)
    have hlB : 0 ≤ (l.length : ℤ)*B := by positivity
    have hi := abs_le.mp (hf i)
    have ha := abs_add_le acc (f i)
    have hfi := hf i
    rw [List.length_cons] at h
    push_cast at h
    rw [add_mul, one_mul] at h
    have hacc := abs_nonneg acc
    have hs := abs_le.mp (le_refl |acc+f i|)
    simp only [List.foldlM_cons, List.map_cons, List.sum_cons]
    rw [i64_ok (f i) (by omega) (by omega), ok_bind, i64_ok _ (by omega) (by omega), ok_bind,
      ih _ (by omega), add_assoc]

theorem word_product_bound (w : UInt16) (v : Int16) : |(w.toNat : ℤ)*v.toInt| ≤ 2^31 := by
  have hw := w.toNat_lt
  have hl := v.le_toInt
  have hu := v.toInt_lt
  have hv : |v.toInt| ≤ 2^15 := abs_le.mpr ⟨by omega, by omega⟩
  have hn : |(w.toNat : ℤ)| ≤ 2^16 := by rw [Nat.abs_cast]; omega
  calc
    |(w.toNat : ℤ)*v.toInt| = |(w.toNat : ℤ)| * |v.toInt| := abs_mul _ _
    _ ≤ 2^16*2^15 := mul_le_mul hn hv (abs_nonneg _) (by norm_num)
    _ = 2^31 := by norm_num

theorem rowProduct_eq (matrix : Fin (statementDim*witnessDim) → UInt16) (vector : Vector64)
    (row : Fin statementDim) :
    rowProduct matrix vector row =
      .ok (∑ col, ((entry matrix row col).toNat : ℤ)*(vector col).toInt) := by
  have h := foldlM_i64 (fun col => ((entry matrix row col).toNat : ℤ)*(vector col).toInt) (2^31)
    (fun col => word_product_bound _ _) (List.finRange witnessDim) 0 (by simp)
  rw [rowProduct, h, zero_add, ← Fin.sum_univ_def]

theorem matrixMul_eq (L : Suite) (publicSeed : Bytes) (vector : Vector64) :
    matrixMul L publicSeed vector = .ok (fun row => modQ (∑ col,
      ((entry (expandMatrix L publicSeed) row col).toNat : ℤ)*(vector col).toInt)) := by
  rw [matrixMul, forArray_ok_iff]
  intro row
  rw [rowProduct_eq]
  rfl

theorem addScaledStatement_eq (u t : Statement) (c : UInt16) :
    addScaledStatement u t c =
      .ok (fun i => modQ ((u i).toNat+(c.toNat : ℤ)*(t i).toNat)) := by
  rw [addScaledStatement, forArray_ok_iff]
  intro i
  have hu := (u i).toNat_lt
  have hp : c.toNat*(t i).toNat ≤ 2^16*2^16 :=
    Nat.mul_le_mul (Nat.le_of_lt c.toNat_lt) (Nat.le_of_lt (t i).toNat_lt)
  have hp' : (c.toNat : ℤ)*(t i).toNat ≤ 2^16*2^16 := by exact_mod_cast hp
  have hn : 0 ≤ (c.toNat : ℤ)*(t i).toNat := by positivity
  rw [i64_ok _ (by omega) (by omega), ok_bind, i64_ok _ (by omega) (by omega)]
  rfl

end EirnKcp.LatticeZk
