import EirnKcp.StrictProof

/-!
# Two accepted transcripts of KCP-Strict

Challenges range over more than one representative of some residues, and so do
responses. Two transcripts determine a solution unless their challenges differ
by the modulus, and an accepted proof always has a twin whose response differs
by the modulus in one coordinate.
-/

set_option autoImplicit false

namespace EirnKcp.StrictPairs
open EirnKcp.CheckedCode EirnKcp.ByteCodec EirnKcp.Params EirnKcp.Primitives
open EirnKcp.LatticeZk EirnKcp.Kem EirnKcp.KeyLaws EirnKcp.Zk EirnKcp.ProofCodec
open EirnKcp.IdealSuite EirnKcp.LinearIdentification EirnKcp.StrictProof
open Matrix

theorem prime_q : Nat.Prime 3329 := by norm_num

theorem residue_eq_iff (c c' : UInt16) (hc : Returned c) (hc' : Returned c') (hne : c ≠ c') :
    (c.toNat : Residue) = c'.toNat ↔ c.toNat = c'.toNat+3329 ∨ c'.toNat = c.toNat+3329 := by
  have hb := (returned_iff c).mp hc
  have hb' := (returned_iff c').mp hc'
  have hn : c.toNat ≠ c'.toNat := fun h => hne (UInt16.toNat_inj.mp h)
  rw [ZMod.natCast_eq_natCast_iff']
  omega

section ZeroTranscripts

def secondUnit : Statement := fun i => if i.val = 1 then 1 else 0

def secondCommitment : Statement := fun i => if i.val = 1 then 3328 else 0

theorem secondUnit_canonical : Canonical secondUnit ∧ Canonical secondCommitment := by
  constructor
  · intro i
    unfold secondUnit
    split_ifs <;> decide
  · intro i
    unfold secondCommitment
    split_ifs <;> decide

theorem zeroResponse_decodes :
    decodeResponse (encodeResponse (fun _ => 0)).1 = some (fun _ => 0) := by
  rw [decodeResponse_iff]
  exact ⟨rfl, fun _ => by decide⟩

theorem zeroResponse_answers (L : Suite) (publicSeed : Bytes) (c : UInt16)
    (hc : (c.toNat : Residue) = 1) :
    matrixMul L publicSeed (fun _ => 0) = addScaledStatement secondCommitment secondUnit c := by
  have hzero : lift (fun _ => 0) = 0 := by
    ext i
    rfl
  rw [comparison_iff, Accepts, hzero, mulVec_zero, hc, one_smul]
  ext i
  simp only [Pi.zero_apply, Pi.add_apply, residues, secondCommitment, secondUnit]
  split_ifs <;> decide

theorem secondUnit_no_preimage (publicSeed : Bytes) (w : Fin witnessDim → Residue) :
    residueMatrix sparseSuite publicSeed *ᵥ w ≠ residues secondUnit := by
  intro h
  have hrow := congrFun h 1
  rw [sparse_mulVec_ne _ _ _ (by decide)] at hrow
  revert hrow
  simp only [residues, secondUnit]
  decide

end ZeroTranscripts

section UnitTranscripts

def firstWord (a : UInt16) : Statement := fun i => if i.val = 0 then a else 0

def firstEntry (v : Int16) : Vector64 := fun i => if i.val = 0 then v else 0

theorem firstEntry_answers (publicSeed : Bytes) (a b c : UInt16) (v : Int16)
    (h : (v.toInt : Residue) = a.toNat+c.toNat*b.toNat) :
    matrixMul sparseSuite publicSeed (firstEntry v) =
      addScaledStatement (firstWord a) (firstWord b) c := by
  rw [comparison_iff, Accepts]
  ext row
  by_cases hrow : row = 0
  · subst hrow
    rw [sparse_mulVec]
    exact h
  · have hval : row.val ≠ 0 := fun h => hrow (Fin.ext h)
    rw [sparse_mulVec_ne _ _ _ hrow]
    simp [residues, firstWord, hval]

end UnitTranscripts

/-- Two answers to one commitment under different challenges give a solution of
the public relation exactly when the challenges do not differ by the modulus. -/
theorem special_soundness_iff (L : Suite) (publicSeed : Bytes) (t u : Statement)
    (z z' : Vector64) (c c' : UInt16) (hc : Returned c) (hc' : Returned c') (hne : c ≠ c')
    (h : matrixMul L publicSeed z = addScaledStatement u t c)
    (h' : matrixMul L publicSeed z' = addScaledStatement u t c') :
    (IsUnit ((c.toNat : Residue)-c'.toNat) ∧
      residueMatrix L publicSeed *ᵥ (((c.toNat : Residue)-c'.toNat)⁻¹•(lift z-lift z')) =
        residues t) ↔
      ¬ (c.toNat = c'.toNat+3329 ∨ c'.toNat = c.toNat+3329) := by
  have : Fact (Nat.Prime 3329) := ⟨prime_q⟩
  rw [comparison_iff] at h h'
  rw [← residue_eq_iff c c' hc hc' hne]
  constructor
  · rintro ⟨hunit, _⟩
    exact sub_ne_zero.mp hunit.ne_zero
  · intro hres
    exact ⟨(sub_ne_zero.mpr hres).isUnit, special_soundness _ _ _ _ _ _ _ hres h h'⟩

theorem special_soundness_iff_unit :
    matrixMul sparseSuite [] (firstEntry 2) = addScaledStatement (firstWord 1) (firstWord 1) 1 ∧
      matrixMul sparseSuite [] (firstEntry 3) =
        addScaledStatement (firstWord 1) (firstWord 1) 2 ∧
      ((IsUnit (((1 : UInt16).toNat : Residue)-(2 : UInt16).toNat) ∧
        residueMatrix sparseSuite [] *ᵥ
          ((((1 : UInt16).toNat : Residue)-(2 : UInt16).toNat)⁻¹•
            (lift (firstEntry 2)-lift (firstEntry 3))) = residues (firstWord 1)) ↔
        ¬ ((1 : UInt16).toNat = (2 : UInt16).toNat+3329 ∨
          (2 : UInt16).toNat = (1 : UInt16).toNat+3329)) := by
  have h := firstEntry_answers [] 1 1 1 2 (by decide)
  have h' := firstEntry_answers [] 1 1 2 3 (by decide)
  exact ⟨h, h', special_soundness_iff sparseSuite [] _ _ _ _ 1 2
    ((returned_iff 1).mpr (by decide)) ((returned_iff 2).mpr (by decide)) (by decide) h h'⟩

theorem congruent_challenges_answered :
    Canonical secondUnit ∧ Canonical secondCommitment ∧
      decodeResponse (encodeResponse (fun _ => 0)).1 = some (fun _ => 0) ∧
      Returned 1 ∧ Returned 3330 ∧ (1 : UInt16) ≠ 3330 ∧
      matrixMul sparseSuite [] (fun _ => 0) =
        addScaledStatement secondCommitment secondUnit 1 ∧
      matrixMul sparseSuite [] (fun _ => 0) =
        addScaledStatement secondCommitment secondUnit 3330 ∧
      ¬ IsUnit (((1 : UInt16).toNat : Residue)-(3330 : UInt16).toNat) ∧
      ∀ w, residueMatrix sparseSuite [] *ᵥ w ≠ residues secondUnit := by
  have hzero : ((1 : UInt16).toNat : Residue)-(3330 : UInt16).toNat = 0 := by decide
  have : Fact (Nat.Prime 3329) := ⟨prime_q⟩
  refine ⟨secondUnit_canonical.1, secondUnit_canonical.2, zeroResponse_decodes,
    (returned_iff 1).mpr (by decide), (returned_iff 3330).mpr (by decide), by decide,
    zeroResponse_answers _ _ _ (by decide), zeroResponse_answers _ _ _ (by decide), ?_,
    secondUnit_no_preimage []⟩
  intro hunit
  exact hunit.ne_zero hzero

section Twins

def shiftEntry (v : Int16) : Int16 :=
  Int16.ofInt (if 0 ≤ v.toInt then v.toInt-3329 else v.toInt+3329)

theorem shiftEntry_toInt (v : Int16) (hv : v.toInt.natAbs ≤ responseBound) :
    (shiftEntry v).toInt = if 0 ≤ v.toInt then v.toInt-3329 else v.toInt+3329 := by
  have hb : v.toInt.natAbs ≤ 16095 := hv
  unfold shiftEntry
  split_ifs with h
  · exact Int16.toInt_ofInt_of_le (by omega) (by omega)
  · exact Int16.toInt_ofInt_of_le (by omega) (by omega)

theorem shiftEntry_spec (v : Int16) (hv : v.toInt.natAbs ≤ responseBound) :
    (shiftEntry v).toInt.natAbs ≤ responseBound ∧ shiftEntry v ≠ v ∧
      (shiftEntry v).toInt ≡ v.toInt [ZMOD 3329] := by
  have hb : v.toInt.natAbs ≤ 16095 := hv
  have ht := shiftEntry_toInt v hv
  refine ⟨?_, ?_, ?_⟩
  · change _ ≤ 16095
    rw [ht]
    split_ifs <;> omega
  · intro h
    rw [h] at ht
    split_ifs at ht <;> omega
  · rw [ht]
    unfold Int.ModEq
    split_ifs <;> omega

def twin (z : Vector64) : Vector64 := fun i => if i.val = 0 then shiftEntry (z i) else z i

theorem lift_eq_iff (z z' : Vector64) :
    lift z = lift z' ↔ ∀ i, (z i).toInt ≡ (z' i).toInt [ZMOD 3329] := by
  rw [funext_iff]
  apply forall_congr'
  intro i
  exact ZMod.intCast_eq_intCast_iff _ _ 3329

theorem twin_spec (z : Vector64) (hz : ∀ i, (z i).toInt.natAbs ≤ responseBound) :
    (∀ i, (twin z i).toInt.natAbs ≤ responseBound) ∧ twin z ≠ z ∧
      ∀ i, (twin z i).toInt ≡ (z i).toInt [ZMOD 3329] := by
  refine ⟨?_, ?_, ?_⟩
  · intro i
    unfold twin
    split_ifs
    · exact (shiftEntry_spec (z i) (hz i)).1
    · exact hz i
  · intro h
    exact (shiftEntry_spec (z 0) (hz 0)).2.1 (congrFun h 0)
  · intro i
    unfold twin
    split_ifs
    · exact (shiftEntry_spec (z i) (hz i)).2.2
    · exact Int.ModEq.refl _

def CongruentResponses (p p' : KcpStrictProof) : Prop :=
  ∃ z z', decodeResponse p.response.1 = some z ∧ decodeResponse p'.response.1 = some z' ∧
    ∀ i, (z i).toInt ≡ (z' i).toInt [ZMOD 3329]

theorem twin_accepted (L : Suite) (pk : PublicKey) (h : pk.WellFormed) (ctx : Bytes)
    (p : KcpStrictProof) (hv : kcpStrictVerify L pk ctx p = .ok true) :
    ∃ p', kcpStrictVerify L pk ctx p' = .ok true ∧ p.commitment = p'.commitment ∧
      CongruentResponses p p' ∧ p ≠ p' := by
  obtain ⟨t, u, z, ht, hu, hz, ha, _⟩ := (strictVerify_true_iff L pk ctx h p).mp hv
  obtain ⟨hbytes, hbound⟩ := (decodeResponse_iff _ _).mp hz
  obtain ⟨htwin, hne, hmod⟩ := twin_spec z hbound
  have hz' : decodeResponse (encodeResponse (twin z)).1 = some (twin z) :=
    (decodeResponse_iff _ _).mpr ⟨rfl, htwin⟩
  refine ⟨⟨p.commitment, encodeResponse (twin z),
    strictAnchor L pk.data ctx t p.commitment.1 (encodeResponse (twin z)).1⟩, ?_, rfl,
    ⟨z, twin z, hz, hz', fun i => (hmod i).symm⟩, ?_⟩
  · rw [strictVerify_true_iff L pk ctx h]
    refine ⟨t, u, twin z, ht, hu, hz', ?_, rfl⟩
    rw [(lift_eq_iff (twin z) z).mpr hmod]
    exact ha
  · intro heq
    rw [heq] at hz
    exact hne (Option.some.inj (hz'.symm.trans hz))

end Twins

theorem longKey_wellFormed : longKey.WellFormed :=
  obtained_wellFormed (Or.inr ⟨_, _, longKey_fromBytes⟩)

/-- Accepted proofs are determined by their commitment and their response modulo
3329 exactly for the keys and contexts that have no accepted proof. -/
theorem strict_canonical_iff (L : Suite) (pk : PublicKey) (h : pk.WellFormed) (ctx : Bytes) :
    (∀ p p', kcpStrictVerify L pk ctx p = .ok true → kcpStrictVerify L pk ctx p' = .ok true →
      p.commitment = p'.commitment → CongruentResponses p p' → p = p') ↔
      ¬ ForgeableKey L pk ctx := by
  rw [← accepted_iff_forgeable L pk h ctx]
  constructor
  · rintro hcanonical ⟨p, hv⟩
    obtain ⟨p', hv', hcommit, hcongr, hne⟩ := twin_accepted L pk h ctx p hv
    exact hne (hcanonical p p' hv hv' hcommit hcongr)
  · intro hnone p p' hv
    exact absurd ⟨p, hv⟩ hnone

theorem strict_canonical_iff_long :
    (∀ p p', kcpStrictVerify sparseSuite longKey [] p = .ok true →
      kcpStrictVerify sparseSuite longKey [] p' = .ok true →
      p.commitment = p'.commitment → CongruentResponses p p' → p = p') ↔
      ¬ ForgeableKey sparseSuite longKey [] :=
  strict_canonical_iff sparseSuite longKey longKey_wellFormed []

theorem honest_proof_twin :
    ∃ pk sk p p', keygenFromSeed idealSuite (zeros 96) params768 = .ok (pk, sk) ∧
      kcpStrictProve idealSuite sk pk [] = .ok p ∧
      kcpStrictVerify idealSuite pk [] p = .ok true ∧
      kcpStrictVerify idealSuite pk [] p' = .ok true ∧
      p.commitment = p'.commitment ∧ CongruentResponses p p' ∧ p ≠ p' := by
  obtain ⟨pk, sk, hk, g, _⟩ := keygen_generated idealSuite (zeros 96) params768 supported768
  obtain ⟨p, hprove, _, hv⟩ := strictProof_honest g []
  obtain ⟨p', hv', h⟩ := twin_accepted idealSuite pk g.wellFormed [] p hv
  exact ⟨pk, sk, p, p', hk, hprove, hv, hv', h⟩

end EirnKcp.StrictPairs
