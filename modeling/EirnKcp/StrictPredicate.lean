import EirnKcp.StrictProof

/-!
# The predicate that KCP-Strict verification decides

The predicate is stated on bytes and integers: little-endian words, their two's
complement reading, exact sums and one congruence for each row. The verifier's
fixed-width arithmetic computes it without overflow or truncation.
-/

set_option autoImplicit false

namespace EirnKcp.StrictPredicate
open EirnKcp.CheckedCode EirnKcp.ByteCodec EirnKcp.Params EirnKcp.Primitives
open EirnKcp.LatticeZk EirnKcp.Kem EirnKcp.KeyLaws EirnKcp.Zk EirnKcp.ProofCodec
open EirnKcp.IdealSuite EirnKcp.LinearIdentification EirnKcp.StrictProof
open Matrix

def word (bytes : Bytes) (i : ℕ) : ℕ :=
  (bytes.getD (2*i) 0).toNat+256*(bytes.getD (2*i+1) 0).toNat

def signedWord (bytes : Bytes) (i : ℕ) : ℤ :=
  if word bytes i < 2^15 then word bytes i else (word bytes i : ℤ)-2^16

def matrixWord (L : Suite) (publicSeed : Bytes) (row col : ℕ) : ℕ :=
  word (L.shake256 (matrixLabel ++ publicSeed) 4096).1 (64*row+col) % 3329

def challengeWord (L : Suite) (pk ctx statement commitment : Bytes) : ℕ :=
  word (L.sha3_256 (challengeLabel ++ pk ++ ctx ++ statement ++ commitment)).1 0 % 4095+1

/-- The statement that a proof makes about a key and a context. -/
structure Holds (L : Suite) (pk : PublicKey) (ctx : Bytes) (proof : KcpStrictProof) : Prop where
  commitment : ∀ i : Fin 32, word proof.commitment.1 i < 3329
  response : ∀ i : Fin 64, |signedWord proof.response.1 i| ≤ 16095
  equation : ∀ row : Fin 32,
    (∑ col : Fin 64, matrixWord L (seedPart pk) row col*signedWord proof.response.1 col) ≡
      word proof.commitment.1 row+
        challengeWord L pk.data ctx (statementPart pk) proof.commitment.1*
          word (statementPart pk) row [ZMOD 3329]
  anchor : proof.anchor = L.sha3_256 (kcpStrictAnchorLabel ++ (pk.data ++ (ctx ++
    (statementPart pk ++ (proof.commitment.1 ++ proof.response.1)))))

theorem wordAt_toNat (bytes : Bytes) (i : ℕ) : (wordAt bytes i).toNat = word bytes i := by
  have hlo := (bytes.getD (2*i) 0).toNat_lt
  have hhi := (bytes.getD (2*i+1) 0).toNat_lt
  simp only [wordAt, leWord, word, UInt16.toNat_ofNat']
  omega

theorem toInt16_toInt (w : UInt16) :
    w.toInt16.toInt = if w.toNat < 2^15 then (w.toNat : ℤ) else (w.toNat : ℤ)-2^16 := by
  have h : w.toInt16.toInt = w.toBitVec.toInt := rfl
  have hn : w.toBitVec.toNat = w.toNat := rfl
  rw [h, BitVec.toInt_eq_toNat_cond, hn]
  split_ifs <;> omega

theorem wordAt_toInt (bytes : Bytes) (i : ℕ) :
    (wordAt bytes i).toInt16.toInt = signedWord bytes i := by
  rw [toInt16_toInt, wordAt_toNat, signedWord]

theorem entry_toNat (L : Suite) (publicSeed : Bytes) (row : Fin statementDim)
    (col : Fin witnessDim) :
    (entry (expandMatrix L publicSeed) row col).toNat = matrixWord L publicSeed row col := by
  have h : entry (expandMatrix L publicSeed) row col =
      wordAt (L.shake256 (matrixLabel ++ publicSeed) 4096).1 (row.val*64+col.val) %
        UInt16.ofNat q := rfl
  rw [h, UInt16.toNat_mod, wordAt_toNat, matrixWord, Nat.mul_comm]
  rfl

theorem challenge_toNat (L : Suite) (pk ctx : Bytes) (t u : Statement) :
    (challenge L pk ctx t u).toNat =
      challengeWord L pk ctx (encodeStatement t).1 (encodeStatement u).1 := by
  have h : challenge L pk ctx t u = wordAt (L.sha3_256 (challengeLabel ++ pk ++ ctx ++
      (encodeStatement t).1 ++ (encodeStatement u).1)).1 0 % 4095+1 := rfl
  rw [h, challengeWord, ← wordAt_toNat]
  generalize wordAt _ _ = w
  simp only [UInt16.toNat_add, UInt16.toNat_mod, UInt16.reduceToNat]
  omega

theorem statement_words (bytes : Bytes) (t : Statement) (h : decodeStatement bytes = some t)
    (i : Fin statementDim) : (t i).toNat = word bytes i := by
  obtain ⟨rfl, _⟩ := (decodeStatement_iff _ _).mp h
  rw [← wordAt_toNat, encodeStatement, wordAt_encodeWords]

theorem response_words (bytes : Bytes) (z : Vector64) (h : decodeResponse bytes = some z)
    (i : Fin witnessDim) : (z i).toInt = signedWord bytes i := by
  obtain ⟨rfl, _⟩ := (decodeResponse_iff _ _).mp h
  rw [← wordAt_toInt, encodeResponse, wordAt_encodeWords, Int16.toInt16_toUInt16]

theorem statement_decodes_iff (bytes : FixedBytes statementBytes) :
    (∃ u, decodeStatement bytes.1 = some u) ↔ ∀ i : Fin 32, word bytes.1 i < 3329 := by
  rw [decodeStatement_isSome _ bytes.2]
  simp only [wordAt_toNat]
  exact ⟨fun h i => h i i.isLt, fun h i hi => h ⟨i, hi⟩⟩

theorem response_decodes_iff (bytes : FixedBytes responseBytes) :
    (∃ z, decodeResponse bytes.1 = some z) ↔ ∀ i : Fin 64, |signedWord bytes.1 i| ≤ 16095 := by
  rw [decodeResponse_isSome _ bytes.2]
  simp only [wordAt_toInt]
  constructor
  · intro h i
    have hi : (signedWord bytes.1 i).natAbs ≤ 16095 := h i i.isLt
    rw [Int.abs_eq_natAbs]
    exact_mod_cast hi
  · intro h i hi
    have hb := h ⟨i, hi⟩
    rw [Int.abs_eq_natAbs] at hb
    exact_mod_cast hb

section Rows
variable (L : Suite) (pk : PublicKey) (ctx : Bytes) (proof : KcpStrictProof) (t u : Statement)
  (z : Vector64) (ht : decodeStatement (statementPart pk) = some t)
  (hu : decodeStatement proof.commitment.1 = some u)
  (hz : decodeResponse proof.response.1 = some z)
include ht hu hz

theorem accepts_iff_rows :
    Accepts (residueMatrix L (seedPart pk)) (residues t) (residues u)
        (challenge L pk.data ctx t u).toNat (lift z) ↔
      ∀ row : Fin 32,
        (∑ col : Fin 64, matrixWord L (seedPart pk) row col*signedWord proof.response.1 col) ≡
          word proof.commitment.1 row+
            challengeWord L pk.data ctx (statementPart pk) proof.commitment.1*
              word (statementPart pk) row [ZMOD 3329] := by
  have htb := ((decodeStatement_iff _ _).mp ht).1
  have hub := ((decodeStatement_iff _ _).mp hu).1
  rw [challenge_toNat, ← htb, ← hub, Accepts, funext_iff]
  apply forall_congr'
  intro row
  have hcast := ZMod.intCast_eq_intCast_iff
    (∑ col : Fin 64, matrixWord L (seedPart pk) row col*signedWord proof.response.1 col)
    (word proof.commitment.1 row+
      challengeWord L pk.data ctx (statementPart pk) proof.commitment.1*
        word (statementPart pk) row) 3329
  rw [Nat.cast_ofNat] at hcast
  rw [← hcast]
  push_cast
  simp only [mulVec, dotProduct, residueMatrix, lift, residues, Pi.add_apply, Pi.smul_apply,
    smul_eq_mul, entry_toNat, statement_words _ _ ht, statement_words _ _ hu,
    response_words _ _ hz]

end Rows

theorem holds_iff (L : Suite) (pk : PublicKey) (ctx : Bytes) (proof : KcpStrictProof)
    (t : Statement) (ht : decodeStatement (statementPart pk) = some t) :
    Holds L pk ctx proof ↔
      ∃ t u z, decodeStatement (statementPart pk) = some t ∧
        decodeStatement proof.commitment.1 = some u ∧
        decodeResponse proof.response.1 = some z ∧
        Accepts (residueMatrix L (seedPart pk)) (residues t) (residues u)
          (challenge L pk.data ctx t u).toNat (lift z) ∧
        proof.anchor = strictAnchor L pk.data ctx t proof.commitment.1 proof.response.1 := by
  have hanchor : strictAnchor L pk.data ctx t proof.commitment.1 proof.response.1 =
      L.sha3_256 (kcpStrictAnchorLabel ++ (pk.data ++ (ctx ++
        (statementPart pk ++ (proof.commitment.1 ++ proof.response.1))))) := by
    rw [strictAnchor, strictAnchorInput, ← ((decodeStatement_iff _ _).mp ht).1]
  constructor
  · intro h
    obtain ⟨u, hu⟩ := (statement_decodes_iff proof.commitment).mpr h.commitment
    obtain ⟨z, hz⟩ := (response_decodes_iff proof.response).mpr h.response
    exact ⟨t, u, z, ht, hu, hz, (accepts_iff_rows L pk ctx proof t u z ht hu hz).mpr h.equation,
      h.anchor.trans hanchor.symm⟩
  · rintro ⟨t', u, z, ht', hu, hz, ha, hproof⟩
    rw [ht] at ht'
    cases ht'
    exact ⟨(statement_decodes_iff proof.commitment).mp ⟨u, hu⟩,
      (response_decodes_iff proof.response).mp ⟨z, hz⟩,
      (accepts_iff_rows L pk ctx proof t u z ht hu hz).mp ha, hproof.trans hanchor⟩

/-- The words that the verifier computes are the exact values modulo 3329. -/
structure ExactArithmetic (L : Suite) (pk : PublicKey) (ctx : Bytes) : Prop where
  product : ∀ z : Vector64, ∃ lhs, matrixMul L (seedPart pk) z = .ok lhs ∧
    ∀ row : Fin 32, ((lhs row).toNat : ℤ) =
      (∑ col : Fin 64, matrixWord L (seedPart pk) row col*(z col).toInt) % 3329
  scaled : ∀ (u t : Statement) (c : UInt16), ∃ rhs, addScaledStatement u t c = .ok rhs ∧
    ∀ row, ((rhs row).toNat : ℤ) = ((u row).toNat+(c.toNat : ℤ)*(t row).toNat) % 3329
  challenge : ∀ t u : Statement, (challenge L pk.data ctx t u).toNat =
    challengeWord L pk.data ctx (encodeStatement t).1 (encodeStatement u).1

theorem exactArithmetic (L : Suite) (pk : PublicKey) (ctx : Bytes) :
    ExactArithmetic L pk ctx where
  product z := by
    refine ⟨_, matrixMul_eq _ _ _, fun row => ?_⟩
    rw [modQ_toNat]
    simp only [entry_toNat]
  scaled u t c := ⟨_, addScaledStatement_eq _ _ _, fun row => modQ_toNat _⟩
  challenge t u := challenge_toNat L pk.data ctx t u

/-- On every key that a constructor returned, verification returns and decides
the predicate, and none of its fixed-width results differs from the exact one. -/
theorem strict_verify_exact (L : Suite) (pk : PublicKey) (hpk : ObtainedKey L pk) (ctx : Bytes)
    (proof : KcpStrictProof) :
    (∃ accepted, kcpStrictVerify L pk ctx proof = .ok accepted ∧
      (accepted = true ↔ Holds L pk ctx proof)) ∧ ExactArithmetic L pk ctx := by
  have hw := obtained_wellFormed hpk
  obtain ⟨t, ht⟩ := obtained_statement hpk
  obtain ⟨accepted, hv⟩ := strictVerify_ok L pk ctx hw proof
  refine ⟨⟨accepted, hv, ?_⟩, exactArithmetic L pk ctx⟩
  rw [holds_iff L pk ctx proof t ht, ← strictVerify_true_iff L pk ctx hw, hv, Except.ok.injEq]

theorem strict_verify_exact_long :
    ∃ accepted,
      kcpStrictVerify sparseSuite longKey []
        ⟨zeros commitmentBytes, zeros responseBytes, zeros 32⟩ = .ok accepted ∧
      (accepted = true ↔ Holds sparseSuite longKey []
        ⟨zeros commitmentBytes, zeros responseBytes, zeros 32⟩) :=
  (strict_verify_exact sparseSuite longKey (Or.inr ⟨_, _, longKey_fromBytes⟩) []
    ⟨zeros commitmentBytes, zeros responseBytes, zeros 32⟩).1

end EirnKcp.StrictPredicate
