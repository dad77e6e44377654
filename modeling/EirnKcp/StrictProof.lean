import EirnKcp.IdealSuite
import EirnKcp.LinearIdentification
import EirnKcp.ProofCodec

/-!
# KCP-Strict against its relation

The verifier's words are read modulo 3329, where its test is the linear
identification equation. Every residue has a representative inside the response
bound, so the bound does not restrict what is accepted.
-/

set_option autoImplicit false

namespace EirnKcp.StrictProof
open EirnKcp.CheckedCode EirnKcp.ByteCodec EirnKcp.Params EirnKcp.Primitives
open EirnKcp.LatticeZk EirnKcp.Kem EirnKcp.KeyLaws EirnKcp.Zk EirnKcp.ProofCodec
open EirnKcp.IdealSuite EirnKcp.LinearIdentification
open Matrix

abbrev Residue := ZMod 3329

instance neZeroQ : NeZero 3329 := ⟨by decide⟩

def Canonical (t : Statement) : Prop := ∀ i, (t i).toNat < q

def residues (t : Statement) : Fin statementDim → Residue := fun i => (t i).toNat

def lift (z : Vector64) : Fin witnessDim → Residue := fun i => (z i).toInt

def residueMatrix (L : Suite) (publicSeed : Bytes) :
    Matrix (Fin statementDim) (Fin witnessDim) Residue :=
  fun row col => (entry (expandMatrix L publicSeed) row col).toNat

theorem modQ_residue (value : ℤ) : ((modQ value).toNat : Residue) = value := by
  have h := congrArg (Int.cast : ℤ → Residue) (modQ_toNat value)
  rw [Int.cast_natCast] at h
  rw [h]
  exact (ZMod.intCast_eq_intCast_iff _ _ 3329).mpr (Int.mod_modEq value 3329)

theorem residues_injective (t w : Statement) (ht : Canonical t) (hw : Canonical w)
    (h : residues t = residues w) : t = w := by
  funext i
  have hi := congrFun h i
  apply UInt16.toNat_inj.mp
  have hmod := (ZMod.natCast_eq_natCast_iff' _ _ 3329).mp hi
  rwa [Nat.mod_eq_of_lt (ht i), Nat.mod_eq_of_lt (hw i)] at hmod

def ofResidues (r : Fin statementDim → Residue) : Statement := fun i => UInt16.ofNat (r i).val

def unlift (r : Fin witnessDim → Residue) : Vector64 := fun i => Int16.ofInt (r i).val

theorem ofResidues_toNat (r : Fin statementDim → Residue) (i : Fin statementDim) :
    (ofResidues r i).toNat = (r i).val := by
  have h := ZMod.val_lt (r i)
  simp only [ofResidues, UInt16.toNat_ofNat']
  omega

theorem ofResidues_canonical (r : Fin statementDim → Residue) : Canonical (ofResidues r) := by
  intro i
  rw [ofResidues_toNat]
  exact ZMod.val_lt (r i)

@[simp] theorem residues_ofResidues (r : Fin statementDim → Residue) :
    residues (ofResidues r) = r := by
  funext i
  rw [residues, ofResidues_toNat, ZMod.natCast_zmod_val]

theorem unlift_toInt (r : Fin witnessDim → Residue) (i : Fin witnessDim) :
    (unlift r i).toInt = (r i).val := by
  have h := ZMod.val_lt (r i)
  rw [unlift, Int16.toInt_ofInt_of_le (by omega) (by omega)]

@[simp] theorem lift_unlift (r : Fin witnessDim → Residue) : lift (unlift r) = r := by
  funext i
  rw [lift, unlift_toInt, Int.cast_natCast, ZMod.natCast_zmod_val]

theorem unlift_bound (r : Fin witnessDim → Residue) (i : Fin witnessDim) :
    (unlift r i).toInt.natAbs ≤ responseBound := by
  have h := ZMod.val_lt (r i)
  rw [unlift_toInt, Int.natAbs_natCast]
  change _ ≤ 16095
  omega

theorem matrixMul_iff (L : Suite) (publicSeed : Bytes) (z : Vector64) (w : Statement) :
    matrixMul L publicSeed z = .ok w ↔
      Canonical w ∧ residueMatrix L publicSeed *ᵥ lift z = residues w := by
  have hr : residues (fun row => modQ (∑ col,
      ((entry (expandMatrix L publicSeed) row col).toNat : ℤ)*(z col).toInt)) =
      residueMatrix L publicSeed *ᵥ lift z := by
    funext row
    simp only [residues, modQ_residue, mulVec, dotProduct, residueMatrix, lift]
    push_cast
    rfl
  rw [matrixMul_eq, ← hr]
  constructor
  · rintro h
    cases h
    exact ⟨fun i => modQ_lt _, rfl⟩
  · rintro ⟨hw, h⟩
    exact congrArg _ (residues_injective _ _ (fun i => modQ_lt _) hw h)

theorem addScaled_iff (u t : Statement) (c : UInt16) (w : Statement) :
    addScaledStatement u t c = .ok w ↔
      Canonical w ∧ residues u+(c.toNat : Residue)•residues t = residues w := by
  have hr : residues (fun i => modQ ((u i).toNat+(c.toNat : ℤ)*(t i).toNat)) =
      residues u+(c.toNat : Residue)•residues t := by
    funext i
    simp only [residues, modQ_residue, Pi.add_apply, Pi.smul_apply, smul_eq_mul]
    push_cast
    rfl
  rw [addScaledStatement_eq, ← hr]
  constructor
  · rintro h
    cases h
    exact ⟨fun i => modQ_lt _, rfl⟩
  · rintro ⟨hw, h⟩
    exact congrArg _ (residues_injective _ _ (fun i => modQ_lt _) hw h)

theorem comparison_iff (L : Suite) (publicSeed : Bytes) (t u : Statement) (z : Vector64)
    (c : UInt16) :
    matrixMul L publicSeed z = addScaledStatement u t c ↔
      Accepts (residueMatrix L publicSeed) (residues t) (residues u) c.toNat (lift z) := by
  obtain ⟨lhs, hl⟩ : ∃ lhs, matrixMul L publicSeed z = .ok lhs := ⟨_, matrixMul_eq _ _ _⟩
  obtain ⟨rhs, hr⟩ : ∃ rhs, addScaledStatement u t c = .ok rhs := ⟨_, addScaledStatement_eq _ _ _⟩
  obtain ⟨hcl, hl'⟩ := (matrixMul_iff _ _ _ _).mp hl
  obtain ⟨hcr, hr'⟩ := (addScaled_iff _ _ _ _).mp hr
  rw [hl, hr, Except.ok.injEq, Accepts, hl', hr']
  constructor
  · rintro rfl
    rfl
  · exact residues_injective lhs rhs hcl hcr

theorem toInt16_small (c : UInt16) (h : c.toNat ≤ 4095) : c.toInt16.toInt = c.toNat := by
  have hb : c.toBitVec.toNat ≤ 4095 := h
  show c.toBitVec.toInt = c.toBitVec.toNat
  exact BitVec.toInt_eq_toNat_of_lt (by omega)

section Response
variable (mask s : Vector64) (c : UInt16) (hm : ∀ i, |(mask i).toInt| ≤ maskBound)
  (hs : Ternary s) (hc : c.toNat ≤ 4095)
include hm hs hc

theorem response_entry_bound (i : Fin witnessDim) :
    |(c.toNat : ℤ)*(s i).toInt| ≤ 4095 ∧
      |(mask i).toInt+c.toNat*(s i).toInt| ≤ responseBound := by
  have hmi : |(mask i).toInt| ≤ 12000 := hm i
  have hp : |(c.toNat : ℤ)*(s i).toInt| ≤ 4095 := by
    rw [abs_mul, Nat.abs_cast]
    have hsi := ternary_bound s hs i
    have hc' : (c.toNat : ℤ) ≤ 4095 := by exact_mod_cast hc
    calc
      (c.toNat : ℤ)*|(s i).toInt| ≤ 4095*1 :=
        mul_le_mul hc' hsi (abs_nonneg _) (by norm_num)
      _ = 4095 := mul_one _
  refine ⟨hp, ?_⟩
  calc
    |(mask i).toInt+c.toNat*(s i).toInt|
      ≤ |(mask i).toInt| + |(c.toNat : ℤ)*(s i).toInt| := abs_add_le _ _
    _ ≤ 12000+4095 := add_le_add hmi hp
    _ = responseBound := by norm_num

theorem response_toInt (i : Fin witnessDim) :
    (Int16.ofInt ((mask i).toInt+c.toNat*(s i).toInt)).toInt =
      (mask i).toInt+c.toNat*(s i).toInt := by
  have hb := abs_le.mp (response_entry_bound mask s c hm hs hc i).2
  change -(16095 : ℤ) ≤ _ ∧ _ ≤ (16095 : ℤ) at hb
  exact Int16.toInt_ofInt_of_le (by omega) (by omega)

/-- The bounds of mask, challenge and witness add up to the response bound, so
no entry overflows or is rejected. -/
theorem responseLoop_eq :
    responseLoop mask s c = .ok (fun i => Int16.ofInt ((mask i).toInt+c.toNat*(s i).toInt)) := by
  rw [responseLoop, forArray_ok_iff]
  intro i
  obtain ⟨hp, hb⟩ := response_entry_bound mask s c hm hs hc i
  have ht := response_toInt mask s c hm hs hc i
  change _ ≤ (16095 : ℤ) at hb
  have hb' := abs_le.mp hb
  rw [abs_le] at hp
  rw [toInt16_small c hc, i16_ok _ (by omega) (by omega), ok_bind,
    Int16.toInt_ofInt_of_le (by omega) (by omega), i16_ok _ (by omega) (by omega), ok_bind, ht,
    if_neg (by change ¬ 16095 < _; omega)]
  rfl

theorem responseLoop_ok_iff (z : Vector64) :
    responseLoop mask s c = .ok z ↔
      ∀ i, (z i).toInt = (mask i).toInt+c.toNat*(s i).toInt := by
  rw [responseLoop_eq mask s c hm hs hc, Except.ok.injEq, funext_iff]
  apply forall_congr'
  intro i
  rw [← Int16.toInt_inj, response_toInt mask s c hm hs hc i]
  exact eq_comm

end Response

section Verifier
variable (L : Suite) (pk : PublicKey) (ctx : Bytes)

def seedPart (pk : PublicKey) : Bytes :=
  pk.data.take (pk.params.kemPkBytes+pk.params.sigPkBytes)

def statementPart (pk : PublicKey) : Bytes :=
  pk.data.drop (pk.params.kemPkBytes+pk.params.sigPkBytes)

def challengeResidue (t : Statement) (u : Fin statementDim → Residue) : Residue :=
  (challenge L pk.data ctx t (ofResidues u)).toNat

theorem strictStatement_eq (h : pk.WellFormed) :
    strictStatement pk.data pk.params =
      match decodeStatement (statementPart pk) with
      | none => err .authenticationFailed
      | some t => .ok t := by
  rw [strictStatement, if_neg (not_not_intro h.length), statementBytes_eq h.supported _ h.length]
  rfl

theorem strictVerify_decoded (h : pk.WellFormed) (proof : KcpStrictProof) (t u : Statement)
    (z : Vector64) (ht : decodeStatement (statementPart pk) = some t)
    (hu : decodeStatement proof.commitment.1 = some u)
    (hz : decodeResponse proof.response.1 = some z) :
    ∃ lhs rhs, matrixMul L (seedPart pk) z = .ok lhs ∧
      addScaledStatement u t (challenge L pk.data ctx t u) = .ok rhs ∧
      kcpStrictVerify L pk ctx proof = .ok (decide (lhs = rhs) &&
        decide (proof.anchor =
          strictAnchor L pk.data ctx t proof.commitment.1 proof.response.1)) := by
  refine ⟨_, _, matrixMul_eq _ _ _, addScaledStatement_eq _ _ _, ?_⟩
  simp only [kcpStrictVerify, strictStatement_eq pk h, ht, hu, hz,
    publicSeed_eq h.supported _ h.length, ok_bind]
  rw [show pk.data.take (pk.params.kemPkBytes+pk.params.sigPkBytes) = seedPart pk from rfl,
    matrixMul_eq, ok_bind, addScaledStatement_eq, ok_bind]
  by_cases heq : (fun row => modQ (∑ col,
      ((entry (expandMatrix L (seedPart pk)) row col).toNat : ℤ)*(z col).toInt)) =
      (fun i => modQ ((u i).toNat+((challenge L pk.data ctx t u).toNat : ℤ)*(t i).toNat))
  · simp [heq, ctEq, Subtype.ext_iff]
  · simp [heq]

theorem strictVerify_ok (h : pk.WellFormed) (proof : KcpStrictProof) :
    ∃ accepted, kcpStrictVerify L pk ctx proof = .ok accepted := by
  cases ht : decodeStatement (statementPart pk) with
  | none => exact ⟨false, by simp only [kcpStrictVerify, strictStatement_eq pk h, ht]; rfl⟩
  | some t =>
    cases hu : decodeStatement proof.commitment.1 with
    | none => exact ⟨false, by simp only [kcpStrictVerify, strictStatement_eq pk h, ht, hu]⟩
    | some u =>
      cases hz : decodeResponse proof.response.1 with
      | none =>
        exact ⟨false, by simp only [kcpStrictVerify, strictStatement_eq pk h, ht, hu, hz]⟩
      | some z =>
        obtain ⟨_, _, _, _, hv⟩ := strictVerify_decoded L pk ctx h proof t u z ht hu hz
        exact ⟨_, hv⟩

theorem strictVerify_true_iff (h : pk.WellFormed) (proof : KcpStrictProof) :
    kcpStrictVerify L pk ctx proof = .ok true ↔
      ∃ t u z, decodeStatement (statementPart pk) = some t ∧
        decodeStatement proof.commitment.1 = some u ∧
        decodeResponse proof.response.1 = some z ∧
        Accepts (residueMatrix L (seedPart pk)) (residues t) (residues u)
          (challenge L pk.data ctx t u).toNat (lift z) ∧
        proof.anchor = strictAnchor L pk.data ctx t proof.commitment.1 proof.response.1 := by
  constructor
  · intro hv
    cases ht : decodeStatement (statementPart pk) with
    | none => simp [kcpStrictVerify, strictStatement_eq pk h, ht, err] at hv
    | some t =>
      cases hu : decodeStatement proof.commitment.1 with
      | none => simp [kcpStrictVerify, strictStatement_eq pk h, ht, hu] at hv
      | some u =>
        cases hz : decodeResponse proof.response.1 with
        | none => simp [kcpStrictVerify, strictStatement_eq pk h, ht, hu, hz] at hv
        | some z =>
          obtain ⟨lhs, rhs, hl, hr, hd⟩ := strictVerify_decoded L pk ctx h proof t u z ht hu hz
          rw [hd] at hv
          have hb := Except.ok.inj hv
          rw [Bool.and_eq_true, decide_eq_true_iff, decide_eq_true_iff] at hb
          have hcmp : matrixMul L (seedPart pk) z =
              addScaledStatement u t (challenge L pk.data ctx t u) := by
            rw [hl, hr, hb.1]
          exact ⟨t, u, z, rfl, rfl, rfl, (comparison_iff _ _ _ _ _ _).mp hcmp, hb.2⟩
  · rintro ⟨t, u, z, ht, hu, hz, ha, hanchor⟩
    obtain ⟨lhs, rhs, hl, hr, hd⟩ := strictVerify_decoded L pk ctx h proof t u z ht hu hz
    have hcmp := (comparison_iff _ _ _ _ _ _).mpr ha
    rw [hl, hr, Except.ok.injEq] at hcmp
    rw [hd, decide_eq_true hcmp, decide_eq_true hanchor]
    rfl

end Verifier

section HonestProver
variable {L : Suite} {params : EirnParams} {pk : PublicKey} {sk : SecretKey}

theorem strictProve_ok (g : Generated L params pk sk) (ctx : Bytes) :
    ∃ t u z, decodeStatement (statementPart pk) = some t ∧
      residueMatrix L (seedPart pk) *ᵥ lift (sk.strictWitness L) = residues t ∧
      residueMatrix L (seedPart pk) *ᵥ lift (deriveMask L (sk.commitmentSecret L) pk.data ctx) =
        residues u ∧
      Canonical u ∧
      (∀ i, (z i).toInt = (deriveMask L (sk.commitmentSecret L) pk.data ctx i).toInt+
        (challenge L pk.data ctx t u).toNat*(sk.strictWitness L i).toInt) ∧
      (∀ i, (z i).toInt.natAbs ≤ responseBound) ∧
      kcpStrictProve L sk pk ctx = .ok ⟨encodeStatement u, encodeResponse z,
        strictAnchor L pk.data ctx t (encodeStatement u).1 (encodeResponse z).1⟩ := by
  obtain ⟨t, ht, hdec⟩ := g.statement_decodes
  rw [← g.params_eq] at ht hdec
  change decodeStatement (statementPart pk) = some t at hdec
  have hrt := ((matrixMul_iff _ _ _ _).mp ht).2
  generalize hmask : deriveMask L (sk.commitmentSecret L) pk.data ctx = mask
  have hbound : ∀ i, |(mask i).toInt| ≤ maskBound := hmask ▸ mask_bound L _ _ _
  obtain ⟨u, hu⟩ : ∃ u, matrixMul L (seedPart pk) mask = .ok u := ⟨_, matrixMul_eq _ _ _⟩
  obtain ⟨hcu, hru⟩ := (matrixMul_iff _ _ _ _).mp hu
  have hc := (challenge_range L pk.data ctx t u).2
  have hs : Ternary (sk.strictWitness L) := witness_ternary L _ _
  obtain ⟨z, hz⟩ : ∃ z, responseLoop mask (sk.strictWitness L) (challenge L pk.data ctx t u) =
      .ok z := ⟨_, responseLoop_eq _ _ _ hbound hs hc⟩
  have hentries := (responseLoop_ok_iff _ _ _ hbound hs hc z).mp hz
  have hz16095 : ∀ i, (z i).toInt.natAbs ≤ responseBound := by
    intro i
    have hb := (response_entry_bound mask _ _ hbound hs hc i).2
    rw [← hentries i] at hb
    rw [← Int.natCast_natAbs] at hb
    exact_mod_cast hb
  refine ⟨t, u, z, hdec, hrt, hru, hcu, hentries, hz16095, ?_⟩
  have hseed : sk.strictPublicSeed = .ok (seedPart pk) := by
    rw [SecretKey.strictPublicSeed, g.secretData, g.secretParams, ← g.params_eq]
    exact publicSeed_eq g.wellFormed.supported _ g.wellFormed.length
  rw [kcpStrictProve, if_neg (not_not_intro g.matches_own), strictStatement_eq pk g.wellFormed,
    hdec]
  simp only [ok_bind, hmask, hseed, hu, hz, pure_ok]

theorem strictProof_honest (g : Generated L params pk sk) (ctx : Bytes) :
    ∃ proof, kcpStrictProve L sk pk ctx = .ok proof ∧ StrictProofValid proof ∧
      kcpStrictVerify L pk ctx proof = .ok true := by
  obtain ⟨t, u, z, ht, hs, hmask, hu, hz, hb, hprove⟩ := strictProve_ok g ctx
  have hdu : decodeStatement (encodeStatement u).1 = some u :=
    (decodeStatement_iff _ _).mpr ⟨rfl, hu⟩
  have hdz : decodeResponse (encodeResponse z).1 = some z := (decodeResponse_iff _ _).mpr ⟨rfl, hb⟩
  refine ⟨_, hprove, ⟨⟨u, hdu⟩, ⟨z, hdz⟩⟩, ?_⟩
  rw [strictVerify_true_iff L pk ctx g.wellFormed]
  refine ⟨t, u, z, ht, hdu, hdz, ?_, rfl⟩
  have hlift : lift z = lift (deriveMask L (sk.commitmentSecret L) pk.data ctx)+
      ((challenge L pk.data ctx t u).toNat : Residue)•lift (sk.strictWitness L) := by
    funext i
    simp only [lift, hz i, Pi.add_apply, Pi.smul_apply, smul_eq_mul]
    push_cast
    rfl
  rw [hlift, ← hs, ← hmask]
  exact honest_accepts _ _ _ _

end HonestProver

/-- Every honest proof is produced, decodes to itself and is accepted. -/
theorem strict_completeness (L : Suite) (params : EirnParams) (hs : IsSupportedParams params)
    (seed : FixedBytes 96) (ctx : Bytes) :
    ∃ pk sk proof, keygenFromSeed L seed params = .ok (pk, sk) ∧
      kcpStrictProve L sk pk ctx = .ok proof ∧ kcpStrictVerify L pk ctx proof = .ok true ∧
      KcpStrictProof.fromBytes proof.toBytes.1 = .ok proof := by
  obtain ⟨pk, sk, hk, g, _⟩ := keygen_generated L seed params hs
  obtain ⟨proof, hprove, hvalid, hverify⟩ := strictProof_honest g ctx
  exact ⟨pk, sk, proof, hk, hprove, hverify,
    (strictProof_fromBytes_ok_iff _ _).mpr ⟨rfl, hvalid⟩⟩

theorem strict_completeness_768 : ∃ pk sk proof,
    keygenFromSeed idealSuite (zeros 96) params768 = .ok (pk, sk) ∧
      kcpStrictProve idealSuite sk pk [] = .ok proof ∧
      kcpStrictVerify idealSuite pk [] proof = .ok true ∧
      KcpStrictProof.fromBytes proof.toBytes.1 = .ok proof :=
  strict_completeness idealSuite params768 supported768 (zeros 96) []

/-- The relation that the scheme proves. -/
def ShortWitness (L : Suite) (pk : PublicKey) : Prop :=
  ∃ s t, Ternary s ∧ decodeStatement (statementPart pk) = some t ∧
    statementFromWitness L (seedPart pk) s = .ok t

/-- Some commitment and its challenge meet the column space modulo 3329. -/
def ForgeableKey (L : Suite) (pk : PublicKey) (ctx : Bytes) : Prop :=
  ∃ t, decodeStatement (statementPart pk) = some t ∧
    Forgeable (residueMatrix L (seedPart pk)) (residues t) (challengeResidue L pk ctx t)

/-- The response bound excludes nothing: a proof is accepted for some bytes
exactly when linear algebra modulo 3329 gives any response at all. -/
theorem accepted_iff_forgeable (L : Suite) (pk : PublicKey) (h : pk.WellFormed) (ctx : Bytes) :
    (∃ proof, kcpStrictVerify L pk ctx proof = .ok true) ↔ ForgeableKey L pk ctx := by
  constructor
  · rintro ⟨proof, hv⟩
    obtain ⟨t, u, z, ht, hu, _, ha, _⟩ := (strictVerify_true_iff L pk ctx h proof).mp hv
    have hcu := ((decodeStatement_iff _ _).mp hu).2
    refine ⟨t, ht, residues u, lift z, ?_⟩
    rwa [challengeResidue, residues_injective _ u (ofResidues_canonical _) hcu
      (residues_ofResidues _)]
  · rintro ⟨t, ht, u, z, ha⟩
    have hdu : decodeStatement (encodeStatement (ofResidues u)).1 = some (ofResidues u) :=
      (decodeStatement_iff _ _).mpr ⟨rfl, ofResidues_canonical u⟩
    have hdz : decodeResponse (encodeResponse (unlift z)).1 = some (unlift z) :=
      (decodeResponse_iff _ _).mpr ⟨rfl, unlift_bound z⟩
    refine ⟨⟨encodeStatement (ofResidues u), encodeResponse (unlift z),
      strictAnchor L pk.data ctx t (encodeStatement (ofResidues u)).1
        (encodeResponse (unlift z)).1⟩, ?_⟩
    rw [strictVerify_true_iff L pk ctx h]
    refine ⟨t, ofResidues u, unlift z, ht, hdu, hdz, ?_, rfl⟩
    rw [residues_ofResidues, lift_unlift]
    exact ha

theorem forgeable_of_preimage (L : Suite) (pk : PublicKey) (ctx : Bytes) (t : Statement)
    (ht : decodeStatement (statementPart pk) = some t) (z₀ : Vector64)
    (h : statementFromWitness L (seedPart pk) z₀ = .ok t) : ForgeableKey L pk ctx :=
  ⟨t, ht, forgeable_of_combination _ _ _ (lift z₀) ((matrixMul_iff _ _ _ _).mp h).2⟩

section LongWitness

def sparseSuite : Suite := { idealSuite with shake256 := fun _ outLen => fit outLen [1] }

def longStatement : Statement := fun i => if i = 0 then 5 else 0

def longWitness : Vector64 := fun i => if i = 0 then 5 else 0

def longKey : PublicKey :=
  ⟨(zeros 3136).1 ++ (encodeStatement longStatement).1, params768⟩

theorem sparse_byte (n i : ℕ) (hn : 0 < n) :
    (fit n [1]).1.getD i 0 = if i = 0 then 1 else 0 := by
  rw [fit_val]
  cases i with
  | zero => simp [List.getD, hn]
  | succ i =>
    simp only [List.getD, List.getElem?_take, List.cons_append, List.getElem?_cons_succ,
      List.nil_append, List.getElem?_replicate, Nat.succ_ne_zero, if_false]
    split_ifs <;> rfl

theorem sparse_entry (publicSeed : Bytes) (row : Fin statementDim) (col : Fin witnessDim) :
    residueMatrix sparseSuite publicSeed row col = if row = 0 ∧ col = 0 then 1 else 0 := by
  have hpos : row.val*64+col.val = 0 ↔ row = 0 ∧ col = 0 := by
    rw [Fin.ext_iff, Fin.ext_iff]
    show row.val*64+col.val = 0 ↔ row.val = 0 ∧ col.val = 0
    omega
  have hword : entry (expandMatrix sparseSuite publicSeed) row col =
      wordAt (fit 4096 [1]).1 (row.val*64+col.val) % UInt16.ofNat q := rfl
  rw [residueMatrix, hword, wordAt, sparse_byte _ _ (by decide), sparse_byte _ _ (by decide),
    if_neg (Nat.succ_ne_zero _)]
  by_cases h : row = 0 ∧ col = 0
  · rw [if_pos h, if_pos (by rw [hpos.mpr h])]
    decide
  · rw [if_neg h, if_neg (by rw [← hpos] at h; omega)]
    decide

theorem sparse_mulVec (publicSeed : Bytes) (v : Fin witnessDim → Residue) :
    (residueMatrix sparseSuite publicSeed *ᵥ v) 0 = v 0 := by
  simp only [mulVec, dotProduct, sparse_entry, true_and, ite_mul, one_mul, zero_mul,
    Finset.sum_ite_eq', Finset.mem_univ, if_true]

theorem sparse_mulVec_ne (publicSeed : Bytes) (v : Fin witnessDim → Residue)
    (row : Fin statementDim) (h : row ≠ 0) :
    (residueMatrix sparseSuite publicSeed *ᵥ v) row = 0 := by
  simp only [mulVec, dotProduct, sparse_entry, h, false_and, if_false, zero_mul,
    Finset.sum_const_zero]

theorem longKey_parts : seedPart longKey = (zeros 3136).1 ∧
    statementPart longKey = (encodeStatement longStatement).1 :=
  ⟨List.take_left' (zeros 3136).2, List.drop_left' (zeros 3136).2⟩

theorem longStatement_canonical : Canonical longStatement := by
  intro i
  unfold longStatement
  split_ifs <;> decide

theorem longKey_decodes : decodeStatement (statementPart longKey) = some longStatement := by
  rw [longKey_parts.2]
  exact (decodeStatement_iff _ _).mpr ⟨rfl, longStatement_canonical⟩

theorem longKey_fromBytes :
    PublicKey.fromBytes sparseSuite longKey.data params768 = .ok longKey := by
  have hlen : longKey.data.length = 3200 := by
    rw [longKey, List.length_append, (zeros 3136).2, (encodeStatement longStatement).2]
    rfl
  rw [fromBytes_ok_iff]
  refine ⟨⟨supported768, hlen, ?_, ?_⟩, rfl⟩
  · have hk : (longKey.data.take 1184).length = 1184 := by
      rw [List.length_take, hlen]
      rfl
    rw [kemPartValid, dispatch768, newKeyOn]
    exact dif_pos hk
  · have hp := longKey_parts.2
    rw [statementPart] at hp
    rw [show params768 = longKey.params from rfl, hp]
    exact (decodeStatement_isSome _ (encodeStatement longStatement).2).mp
      ⟨_, (decodeStatement_iff _ _).mpr ⟨rfl, longStatement_canonical⟩⟩

theorem longWitness_statement :
    statementFromWitness sparseSuite (seedPart longKey) longWitness = .ok longStatement := by
  refine (matrixMul_iff _ _ _ _).mpr ⟨longStatement_canonical, ?_⟩
  funext row
  by_cases h : row = 0
  · subst h
    rw [sparse_mulVec]
    rfl
  · rw [sparse_mulVec_ne _ _ _ h, residues, longStatement, if_neg h]
    rfl

theorem longKey_no_short_witness : ¬ ShortWitness sparseSuite longKey := by
  rintro ⟨s, t, hs, ht, hst⟩
  rw [longKey_decodes] at ht
  obtain rfl := Option.some.inj ht
  have h := congrFun ((matrixMul_iff _ _ _ _).mp hst).2 0
  rw [sparse_mulVec, lift, residues] at h
  rcases hs 0 with hi | hi | hi <;> rw [hi] at h <;> revert h <;> decide

end LongWitness

/-- Acceptance implies a short witness exactly for the keys that have one and
for those that no commitment can be answered for. -/
theorem strict_soundness_iff (L : Suite) (params : EirnParams) (data : Bytes) (pk : PublicKey)
    (hpk : PublicKey.fromBytes L data params = .ok pk) (ctx : Bytes) :
    (∀ proof, kcpStrictVerify L pk ctx proof = .ok true → ShortWitness L pk) ↔
      ShortWitness L pk ∨ ¬ ForgeableKey L pk ctx := by
  obtain ⟨hvalid, rfl⟩ := (fromBytes_ok_iff L data params pk).mp hpk
  rw [← accepted_iff_forgeable L _ ⟨hvalid.supported, hvalid.length⟩ ctx]
  constructor
  · intro h
    by_cases hf : ∃ proof, kcpStrictVerify L ⟨data, params⟩ ctx proof = .ok true
    · obtain ⟨proof, hv⟩ := hf
      exact Or.inl (h proof hv)
    · exact Or.inr hf
  · rintro (h | h) proof hv
    · exact h
    · exact absurd ⟨proof, hv⟩ h

theorem long_witness_accepted :
    PublicKey.fromBytes sparseSuite longKey.data params768 = .ok longKey ∧
      ¬ ∀ proof, kcpStrictVerify sparseSuite longKey [] proof = .ok true →
        ShortWitness sparseSuite longKey := by
  obtain ⟨hvalid, _⟩ := (fromBytes_ok_iff _ _ _ _).mp longKey_fromBytes
  obtain ⟨proof, hv⟩ := (accepted_iff_forgeable sparseSuite longKey
    ⟨hvalid.supported, hvalid.length⟩ []).mpr
      (forgeable_of_preimage _ _ _ _ longKey_decodes longWitness longWitness_statement)
  exact ⟨longKey_fromBytes, fun h => longKey_no_short_witness (h proof hv)⟩

theorem strict_soundness_iff_long :
    (∀ proof, kcpStrictVerify sparseSuite longKey [] proof = .ok true →
      ShortWitness sparseSuite longKey) ↔
      ShortWitness sparseSuite longKey ∨ ¬ ForgeableKey sparseSuite longKey [] :=
  strict_soundness_iff sparseSuite params768 longKey.data longKey longKey_fromBytes []

section ResponseSupport

/-- The responses that the loop emits over all masks in range. -/
def Emitted (s : Vector64) (c : UInt16) : Set Vector64 :=
  {z | ∃ mask : Vector64, (∀ i, |(mask i).toInt| ≤ maskBound) ∧ responseLoop mask s c = .ok z}

def integers (z : Vector64) : Fin witnessDim → ℤ := fun i => (z i).toInt

theorem integers_injective : Function.Injective integers := by
  intro s s' h
  funext i
  exact Int16.toInt_inj.mp (congrFun h i)

theorem emitted_iff (s : Vector64) (c : UInt16) (hs : Ternary s) (hc : c.toNat ≤ 4095)
    (z : Vector64) :
    z ∈ Emitted s c ↔ integers z ∈ responses maskBound c.toNat (integers s) := by
  constructor
  · rintro ⟨mask, hm, hz⟩
    exact ⟨integers mask, hm, (responseLoop_ok_iff mask s c hm hs hc z).mp hz⟩
  · rintro ⟨y, hy, hz⟩
    have hmask : ∀ i, (Int16.ofInt (y i)).toInt = y i := by
      intro i
      have hi : |y i| ≤ 12000 := hy i
      rw [abs_le] at hi
      exact Int16.toInt_ofInt_of_le (by omega) (by omega)
    have hm : ∀ i, |(Int16.ofInt (y i)).toInt| ≤ maskBound := by
      intro i
      rw [hmask i]
      exact hy i
    refine ⟨fun i => Int16.ofInt (y i), hm, ?_⟩
    rw [responseLoop_ok_iff _ s c hm hs hc z]
    intro i
    rw [hmask i]
    exact hz i

theorem responses_integers (s : Vector64) (c : UInt16) (hs : Ternary s) (hc : c.toNat ≤ 4095)
    (r : Fin witnessDim → ℤ) (hr : r ∈ responses maskBound c.toNat (integers s)) :
    ∃ z ∈ Emitted s c, integers z = r := by
  have hb := response_bound maskBound c.toNat 16095 (integers s) r (ternary_bound s hs)
    (by rw [Nat.abs_cast]; change (12000 : ℤ)+_ ≤ _; omega) hr
  have hz : integers (fun i => Int16.ofInt (r i)) = r := by
    funext i
    have hi := abs_le.mp (hb i)
    exact Int16.toInt_ofInt_of_le (by omega) (by omega)
  refine ⟨fun i => Int16.ofInt (r i), ?_, hz⟩
  rw [emitted_iff s c hs hc, hz]
  exact hr

theorem emitted_injective (c : UInt16) (hc0 : 1 ≤ c.toNat) (hc : c.toNat ≤ 4095)
    (s s' : Vector64) (hs : Ternary s) (hs' : Ternary s') (h : Emitted s c = Emitted s' c) :
    s = s' := by
  apply integers_injective
  apply responses_injective maskBound c.toNat (by norm_num) (by omega)
  intro r hr
  obtain ⟨z, hz, rfl⟩ := responses_integers s c hs hc r hr
  rw [h] at hz
  exact (emitted_iff s' c hs' hc z).mp hz

/-- The supports of two witnesses agree only when the witnesses do. -/
theorem response_support_eq_iff (c : UInt16) (hc0 : 1 ≤ c.toNat) (hc : c.toNat ≤ 4095)
    (s s' : Vector64) (hs : Ternary s) (hs' : Ternary s') :
    Emitted s c = Emitted s' c ↔ s = s' :=
  ⟨emitted_injective c hc0 hc s s' hs hs', fun h => by rw [h]⟩

theorem response_support_eq_iff_one :
    Emitted (fun _ => 1) 1 = Emitted (fun _ => 0) 1 ↔
      ((fun _ => 1 : Vector64) = fun _ => 0) :=
  response_support_eq_iff 1 (by decide) (by decide) _ _ (fun _ => Or.inr (Or.inr rfl))
    (fun _ => Or.inr (Or.inl rfl))

theorem ones_not_hidden :
    (fun _ => 12001 : Vector64) ∈ Emitted (fun _ => 1) 1 ∧
      (fun _ => 12001 : Vector64) ∉ Emitted (fun _ => 0) 1 := by
  rw [emitted_iff _ 1 (fun _ => Or.inr (Or.inr rfl)) (by decide),
    emitted_iff _ 1 (fun _ => Or.inr (Or.inl rfl)) (by decide), mem_responses, mem_responses]
  constructor
  · intro i
    show |Int16.toInt 12001-1*Int16.toInt 1| ≤ 12000
    decide
  · intro h
    exact absurd (h 0) (by decide)

end ResponseSupport

end EirnKcp.StrictProof
