import EirnKcp.StrictProof

/-!
# What a KCP-Strict transcript shows

The commitment of a transcript is computed back from its challenge and its
response, so all that depends on the witness is the range of the response. An
entry of it gives the witness entry away exactly when it is beyond the bound of
the mask; over several proofs, also when two entries come close to both ends.
-/

set_option autoImplicit false

namespace EirnKcp.StrictTranscripts
open EirnKcp.CheckedCode EirnKcp.ByteCodec EirnKcp.Params EirnKcp.Primitives
open EirnKcp.LatticeZk EirnKcp.Kem EirnKcp.KeyLaws EirnKcp.Zk EirnKcp.StrictProof
open EirnKcp.LinearIdentification EirnKcp.IdealSuite
open Matrix

/-- The commitments and responses that the prover makes with a witness over all
masks in range. -/
def honestTranscripts (L : Suite) (pk : PublicKey) (s : Vector64) (c : UInt16) :
    Set (Statement × Vector64) :=
  {p | ∃ mask : Vector64, (∀ i, |(mask i).toInt| ≤ maskBound) ∧
    matrixMul L (seedPart pk) mask = .ok p.1 ∧ responseLoop mask s c = .ok p.2}

/-- The commitment computed from the public key, a challenge and a response. -/
def simulatedCommitment (L : Suite) (pk : PublicKey) (t : Statement) (c : UInt16)
    (z : Vector64) : Statement :=
  ofResidues (simulated (residueMatrix L (seedPart pk)) (residues t) c.toNat (lift z))

section Commitments
variable (L : Suite) (pk : PublicKey) (t u : Statement) (c : UInt16) (z : Vector64)

theorem comparison_iff_simulated (hu : Canonical u) :
    matrixMul L (seedPart pk) z = addScaledStatement u t c ↔
      u = simulatedCommitment L pk t c z := by
  rw [comparison_iff, accepts_iff_simulated, simulatedCommitment]
  constructor
  · intro h
    apply residues_injective u _ hu (ofResidues_canonical _)
    rw [residues_ofResidues, h]
  · intro h
    rw [h, residues_ofResidues]

theorem lift_response (mask s : Vector64)
    (hz : ∀ i, (z i).toInt = (mask i).toInt+c.toNat*(s i).toInt) :
    lift z = lift mask+(c.toNat : Residue)•lift s := by
  funext i
  simp only [lift, hz i, Pi.add_apply, Pi.smul_apply, smul_eq_mul]
  push_cast
  rfl

theorem mask_commitment_iff (mask s : Vector64) (hs : matrixMul L (seedPart pk) s = .ok t)
    (hz : ∀ i, (z i).toInt = (mask i).toInt+c.toNat*(s i).toInt) :
    matrixMul L (seedPart pk) mask = .ok u ↔ u = simulatedCommitment L pk t c z := by
  have hst := ((matrixMul_iff _ _ _ _).mp hs).2
  have haccept := honest_accepts (residueMatrix L (seedPart pk)) (lift s) (lift mask) c.toNat
  rw [hst, ← lift_response c z mask s hz, accepts_iff_simulated] at haccept
  rw [matrixMul_iff, haccept, simulatedCommitment]
  constructor
  · rintro ⟨hu, h⟩
    apply residues_injective u _ hu (ofResidues_canonical _)
    rw [residues_ofResidues, h]
  · rintro rfl
    exact ⟨ofResidues_canonical _, (residues_ofResidues _).symm⟩

end Commitments

theorem honest_iff_simulated (L : Suite) (pk : PublicKey) (s : Vector64) (t : Statement)
    (c : UInt16) (hst : matrixMul L (seedPart pk) s = .ok t) (hs : Ternary s)
    (hc : c.toNat ≤ 4095) (u : Statement) (z : Vector64) :
    (u, z) ∈ honestTranscripts L pk s c ↔
      z ∈ Emitted s c ∧ u = simulatedCommitment L pk t c z := by
  constructor
  · rintro ⟨mask, hm, hu, hz⟩
    have hentries := (responseLoop_ok_iff mask s c hm hs hc z).mp hz
    exact ⟨⟨mask, hm, hz⟩, (mask_commitment_iff L pk t u c z mask s hst hentries).mp hu⟩
  · rintro ⟨⟨mask, hm, hz⟩, hu⟩
    have hentries := (responseLoop_ok_iff mask s c hm hs hc z).mp hz
    exact ⟨mask, hm, (mask_commitment_iff L pk t u c z mask s hst hentries).mpr hu, hz⟩

theorem emitted_mask_unique (s : Vector64) (c : UInt16) (hs : Ternary s) (hc : c.toNat ≤ 4095)
    (z : Vector64) (hz : z ∈ Emitted s c) :
    ∃! mask : Vector64, (∀ i, |(mask i).toInt| ≤ maskBound) ∧
      responseLoop mask s c = .ok z := by
  have hr := (emitted_iff s c hs hc z).mp hz
  obtain ⟨_, _, hunique⟩ := mask_unique maskBound c.toNat (integers s) (integers z) hr
  obtain ⟨mask, hm, hloop⟩ := hz
  refine ⟨mask, ⟨hm, hloop⟩, ?_⟩
  rintro mask' ⟨hm', hloop'⟩
  apply integers_injective
  have h := (responseLoop_ok_iff mask s c hm hs hc z).mp hloop
  have h' := (responseLoop_ok_iff mask' s c hm' hs hc z).mp hloop'
  rw [hunique (integers mask) ⟨hm, h⟩, hunique (integers mask') ⟨hm', h'⟩]

section Entries
variable (s z : Vector64) (c : UInt16)

theorem ternary_entry (hs : Ternary s) (i : Fin witnessDim) :
    (s i).toInt = -1 ∨ (s i).toInt = 0 ∨ (s i).toInt = 1 := by
  rcases hs i with h | h | h
  · rw [h]
    exact Or.inl rfl
  · rw [h]
    exact Or.inr (Or.inl rfl)
  · rw [h]
    exact Or.inr (Or.inr rfl)

theorem ternary_of_entry (w : ℤ) (hw : w = -1 ∨ w = 0 ∨ w = 1) :
    (Int16.ofInt w = -1 ∨ Int16.ofInt w = 0 ∨ Int16.ofInt w = 1) ∧
      (Int16.ofInt w).toInt = w := by
  rcases hw with rfl | rfl | rfl
  · decide
  · decide
  · decide

theorem ternary_updated (hs : Ternary s) (i : Fin witnessDim) (w : ℤ)
    (hw : w = -1 ∨ w = 0 ∨ w = 1) : Ternary (Function.update s i (Int16.ofInt w)) := by
  intro j
  by_cases hj : j = i
  · subst hj
    rw [Function.update_self]
    exact (ternary_of_entry w hw).1
  · rw [Function.update_of_ne hj]
    exact hs j

theorem emitted_update (hs : Ternary s) (hc : c.toNat ≤ 4095) (hz : z ∈ Emitted s c)
    (i : Fin witnessDim) (w : ℤ) (hw : w = -1 ∨ w = 0 ∨ w = 1)
    (hfit : |(z i).toInt-c.toNat*w| ≤ maskBound) :
    z ∈ Emitted (Function.update s i (Int16.ofInt w)) c := by
  have hs' := ternary_updated s hs i w hw
  rw [emitted_iff s c hs hc, mem_responses] at hz
  rw [emitted_iff _ c hs' hc, mem_responses]
  intro j
  by_cases hj : j = i
  · subst hj
    rw [integers, integers, Function.update_self, (ternary_of_entry w hw).2]
    exact hfit
  · have h := hz j
    rw [integers, integers, Function.update_of_ne hj]
    exact h

theorem emitted_entries_iff {κ : Type} (c : κ → UInt16) (z : κ → Vector64) (hs : Ternary s)
    (hc : ∀ k, 1 ≤ (c k).toNat ∧ (c k).toNat ≤ 4095) (hz : ∀ k, z k ∈ Emitted s (c k))
    (i : Fin witnessDim) :
    (∀ s', Ternary s' → (∀ k, z k ∈ Emitted s' (c k)) → s' i = s i) ↔
      Exposed maskBound (fun k => ((c k).toNat : ℤ)) (fun k => (z k i).toInt) := by
  have hfits : ∀ s', Ternary s' → (∀ k, z k ∈ Emitted s' (c k)) →
      ∀ k, |(z k i).toInt-(c k).toNat*(s' i).toInt| ≤ maskBound := by
    intro s' hs' hz' k
    exact (mem_responses _ _ _ _).mp ((emitted_iff s' (c k) hs' (hc k).2 (z k)).mp (hz' k)) i
  rw [← entries_fixed_iff maskBound _ _ (s i).toInt (ternary_entry s hs i) (by norm_num)
    (fun k => by have h := (hc k).1; omega) (hfits s hs hz)]
  constructor
  · intro h w hw hwfit
    have hi := h _ (ternary_updated s hs i w hw)
      (fun k => emitted_update s (z k) (c k) hs (hc k).2 (hz k) i w hw (hwfit k))
    rw [Function.update_self] at hi
    rw [← hi, (ternary_of_entry w hw).2]
  · intro h s' hs' hz'
    exact Int16.toInt_inj.mp (h (s' i).toInt (ternary_entry s' hs' i) (hfits s' hs' hz'))

theorem emitted_entry_iff (hs : Ternary s) (hc0 : 1 ≤ c.toNat) (hc : c.toNat ≤ 4095)
    (hz : z ∈ Emitted s c) (i : Fin witnessDim) :
    (∀ s', Ternary s' → z ∈ Emitted s' c → s' i = s i) ↔ maskBound < |(z i).toInt| := by
  have h := emitted_entries_iff s (fun _ : Unit => c) (fun _ => z) hs (fun _ => ⟨hc0, hc⟩)
    (fun _ => hz) i
  rw [exposed_single_iff _ _ _ (fun _ => by change (c.toNat : ℤ) ≤ 12000; omega)] at h
  simpa only [forall_const] using h

theorem emitted_entry_sign (hs : Ternary s) (hc0 : 1 ≤ c.toNat) (hc : c.toNat ≤ 4095)
    (hz : z ∈ Emitted s c) (i : Fin witnessDim) (hi : maskBound < |(z i).toInt|) :
    (s i).toInt = (z i).toInt.sign :=
  entry_sign maskBound c.toNat (z i).toInt (s i).toInt (by norm_num) (by omega)
    (ternary_entry s hs i) ((mem_responses _ _ _ _).mp ((emitted_iff s c hs hc z).mp hz) i) hi

end Entries

/-- For every generated key and every challenge the honest transcripts are those
computed back from the responses in range, one for each mask. -/
theorem transcripts_simulated (L : Suite) (params : EirnParams) (seed : FixedBytes 96)
    (pk : PublicKey) (sk : SecretKey) (hk : keygenFromSeed L seed params = .ok (pk, sk))
    (c : UInt16) (hc : Returned c) :
    ∃ t, decodeStatement (statementPart pk) = some t ∧
      (∀ u z, (u, z) ∈ honestTranscripts L pk (sk.strictWitness L) c ↔
        z ∈ Emitted (sk.strictWitness L) c ∧ u = simulatedCommitment L pk t c z) ∧
      (∀ u z, Canonical u → (matrixMul L (seedPart pk) z = addScaledStatement u t c ↔
        u = simulatedCommitment L pk t c z)) ∧
      ∀ z ∈ Emitted (sk.strictWitness L) c, ∃! mask : Vector64,
        (∀ i, |(mask i).toInt| ≤ maskBound) ∧
          responseLoop mask (sk.strictWitness L) c = .ok z := by
  have g := generated_of_keygen L seed params pk sk hk
  obtain ⟨t, ht, hdec⟩ := g.statement_decodes
  rw [← g.params_eq] at ht hdec
  have hs : Ternary (sk.strictWitness L) := witness_ternary L _ _
  have hrange := ((returned_iff c).mp hc).2
  exact ⟨t, hdec, honest_iff_simulated L pk _ t c ht hs hrange,
    fun u z hu => comparison_iff_simulated L pk t u c z hu, emitted_mask_unique _ c hs hrange⟩

theorem transcripts_simulated_768 :
    ∃ pk sk t, keygenFromSeed idealSuite (zeros 96) params768 = .ok (pk, sk) ∧
      decodeStatement (statementPart pk) = some t ∧
      ∀ u z, (u, z) ∈ honestTranscripts idealSuite pk (sk.strictWitness idealSuite) 1 ↔
        z ∈ Emitted (sk.strictWitness idealSuite) 1 ∧
          u = simulatedCommitment idealSuite pk t 1 z := by
  obtain ⟨pk, sk, hk, _⟩ := keygen_generated idealSuite (zeros 96) params768 supported768
  obtain ⟨t, ht, h, _⟩ := transcripts_simulated idealSuite params768 (zeros 96) pk sk hk 1
    ((returned_iff 1).mpr (by decide))
  exact ⟨pk, sk, t, hk, ht, h⟩

theorem proof_transcript {L : Suite} {params : EirnParams} {pk : PublicKey} {sk : SecretKey}
    (g : Generated L params pk sk) (t : Statement)
    (ht : decodeStatement (statementPart pk) = some t) (ctx : Bytes) :
    ∃ (u : Statement) (z : Vector64),
      (∃ proof, kcpStrictProve L sk pk ctx = .ok proof ∧
        decodeStatement proof.commitment.1 = some u ∧
        decodeResponse proof.response.1 = some z) ∧
      z ∈ Emitted (sk.strictWitness L) (challenge L pk.data ctx t u) := by
  have hs : Ternary (sk.strictWitness L) := witness_ternary L _ _
  obtain ⟨t', u, z, ht', _, _, hu, hentries, hb, hprove⟩ := strictProve_ok g ctx
  obtain rfl := Option.some.inj (ht.symm.trans ht')
  obtain ⟨_, hc⟩ := challenge_range L pk.data ctx t u
  have hmask := mask_bound L (sk.commitmentSecret L) pk.data ctx
  refine ⟨u, z, ⟨_, hprove, ?_, ?_⟩, _, hmask, ?_⟩
  · exact (decodeStatement_iff _ _).mpr ⟨rfl, hu⟩
  · exact (decodeResponse_iff _ _).mpr ⟨rfl, hb⟩
  · exact (responseLoop_ok_iff _ _ _ hmask hs hc z).mpr hentries

section EdgeMask

/-- A suite whose masks are zero but for the second entry, which is at the lower
end of the range. Witnesses are one and then minus one throughout. -/
def edgeSuite : Suite :=
  { idealSuite with
    shake256 := fun data outLen =>
      if data.take maskLabel.length = maskLabel then
        fit outLen ([0xE0, 0x2E, 0, 0] ++ (List.replicate 62 [0xE0, 0x2E]).flatten)
      else fit outLen [2] }

theorem edge_mask (secret : FixedBytes 32) (pk ctx : Bytes) :
    (deriveMask edgeSuite secret pk ctx 0).toInt = 0 ∧
      (deriveMask edgeSuite secret pk ctx 1).toInt = -12000 := by
  have hlabel : (maskLabel ++ secret.1 ++ pk ++ ctx).take maskLabel.length = maskLabel := by
    simp only [List.append_assoc, List.take_left']
  simp only [deriveMask, edgeSuite, hlabel, if_true]
  decide

theorem edge_witness (sk : SecretKey) :
    (sk.strictWitness edgeSuite 0).toInt = 1 ∧ (sk.strictWitness edgeSuite 1).toInt = -1 := by
  have hlabel : (witnessLabel ++ sk.kemSeed.1 ++ sk.sigSeed.1).take maskLabel.length ≠
      maskLabel := by
    have htake : maskLabel.length ≤ witnessLabel.length := by decide
    rw [List.append_assoc, List.take_append_of_le_length htake]
    decide
  simp only [SecretKey.strictWitness, deriveWitness, edgeSuite, if_neg hlabel]
  decide

end EdgeMask

/-- The response of every honest proof fixes a witness entry, and then by its
sign, exactly where it exceeds the mask bound. -/
theorem strict_proof_reveals (L : Suite) (params : EirnParams) (seed : FixedBytes 96)
    (pk : PublicKey) (sk : SecretKey) (hk : keygenFromSeed L seed params = .ok (pk, sk))
    (ctx : Bytes) :
    ∃ proof t u z, kcpStrictProve L sk pk ctx = .ok proof ∧
      decodeStatement (statementPart pk) = some t ∧
      decodeStatement proof.commitment.1 = some u ∧ decodeResponse proof.response.1 = some z ∧
      z ∈ Emitted (sk.strictWitness L) (challenge L pk.data ctx t u) ∧
      ∀ i, ((∀ s, Ternary s → z ∈ Emitted s (challenge L pk.data ctx t u) →
          s i = sk.strictWitness L i) ↔ maskBound < |(z i).toInt|) ∧
        (maskBound < |(z i).toInt| → (sk.strictWitness L i).toInt = (z i).toInt.sign) := by
  have g := generated_of_keygen L seed params pk sk hk
  obtain ⟨t, _, ht⟩ := g.statement_decodes
  rw [← g.params_eq] at ht
  have hs : Ternary (sk.strictWitness L) := witness_ternary L _ _
  obtain ⟨u, z, ⟨proof, hprove, hu, hresponse⟩, hz⟩ := proof_transcript g t ht ctx
  obtain ⟨hc0, hc⟩ := challenge_range L pk.data ctx t u
  exact ⟨proof, t, u, z, hprove, ht, hu, hresponse, hz,
    fun i => ⟨emitted_entry_iff _ z _ hs hc0 hc hz i, emitted_entry_sign _ z _ hs hc0 hc hz i⟩⟩

theorem strict_proof_reveals_768 :
    ∃ pk sk proof t u z, keygenFromSeed edgeSuite (zeros 96) params768 = .ok (pk, sk) ∧
      kcpStrictProve edgeSuite sk pk [] = .ok proof ∧
      decodeStatement (statementPart pk) = some t ∧
      decodeStatement proof.commitment.1 = some u ∧ decodeResponse proof.response.1 = some z ∧
      maskBound < |(z 1).toInt| ∧
      (∀ s, Ternary s → z ∈ Emitted s (challenge edgeSuite pk.data [] t u) →
        s 1 = sk.strictWitness edgeSuite 1) ∧
      (sk.strictWitness edgeSuite 1).toInt = (z 1).toInt.sign ∧
      |(z 0).toInt| ≤ maskBound ∧
      ¬ ∀ s, Ternary s → z ∈ Emitted s (challenge edgeSuite pk.data [] t u) →
        s 0 = sk.strictWitness edgeSuite 0 := by
  obtain ⟨pk, sk, hk, g, _⟩ := keygen_generated edgeSuite (zeros 96) params768 supported768
  obtain ⟨proof, t, u, z, hprove, ht, hu, hz, _, h⟩ :=
    strict_proof_reveals edgeSuite params768 (zeros 96) pk sk hk []
  obtain ⟨t', u', z', ht', _, _, hcu, hentries, hb, hprove'⟩ := strictProve_ok g []
  rw [hprove] at hprove'
  cases hprove'
  obtain rfl := Option.some.inj (ht.symm.trans ht')
  obtain rfl := Option.some.inj (hu.symm.trans ((decodeStatement_iff _ _).mpr ⟨rfl, hcu⟩))
  obtain rfl := Option.some.inj (hz.symm.trans ((decodeResponse_iff _ _).mpr ⟨rfl, hb⟩))
  obtain ⟨hc0, hc⟩ := challenge_range edgeSuite pk.data [] t u
  obtain ⟨hmask0, hmask1⟩ := edge_mask (sk.commitmentSecret edgeSuite) pk.data []
  obtain ⟨hwitness0, hwitness1⟩ := edge_witness sk
  have hz0 := hentries 0
  have hz1 := hentries 1
  rw [hmask0, hwitness0] at hz0
  rw [hmask1, hwitness1] at hz1
  have hbeyond : maskBound < |(z 1).toInt| := by
    rw [hz1, lt_abs]
    exact Or.inr (by change 12000 < _; omega)
  have hwithin : |(z 0).toInt| ≤ maskBound := by
    rw [hz0, abs_le]
    constructor
    · change -12000 ≤ _
      omega
    · change _ ≤ 12000
      omega
  exact ⟨pk, sk, _, t, u, z, hk, hprove, ht, hu, hz, hbeyond, (h 1).1.mpr hbeyond,
    (h 1).2 hbeyond, hwithin, fun hfixed => absurd ((h 0).1.mp hfixed) (not_lt.mpr hwithin)⟩

/-- What all honest proofs of a key in any set of contexts give away together:
an entry of the witness is determined exactly when a response exceeds the mask
bound there or two responses come close to both ends of it. -/
theorem strict_proofs_reveal (L : Suite) (params : EirnParams) (seed : FixedBytes 96)
    (pk : PublicKey) (sk : SecretKey) (hk : keygenFromSeed L seed params = .ok (pk, sk)) :
    ∃ (t : Statement) (u : Bytes → Statement) (z : Bytes → Vector64),
      decodeStatement (statementPart pk) = some t ∧
      (∀ ctx, ∃ proof, kcpStrictProve L sk pk ctx = .ok proof ∧
        decodeStatement proof.commitment.1 = some (u ctx) ∧
        decodeResponse proof.response.1 = some (z ctx)) ∧
      ∀ (ctxs : Set Bytes) (i : Fin witnessDim),
        (∀ s, Ternary s → (∀ ctx ∈ ctxs, z ctx ∈ Emitted s (challenge L pk.data ctx t (u ctx))) →
          s i = sk.strictWitness L i) ↔
        Exposed maskBound (fun ctx : ctxs => ((challenge L pk.data ctx t (u ctx)).toNat : ℤ))
          (fun ctx : ctxs => (z ctx i).toInt) := by
  have g := generated_of_keygen L seed params pk sk hk
  obtain ⟨t, _, ht⟩ := g.statement_decodes
  rw [← g.params_eq] at ht
  have hs : Ternary (sk.strictWitness L) := witness_ternary L _ _
  choose u z hprove hz using proof_transcript g t ht
  refine ⟨t, u, z, ht, hprove, ?_⟩
  intro ctxs i
  have h := emitted_entries_iff (sk.strictWitness L)
    (fun ctx : ctxs => challenge L pk.data ctx t (u ctx)) (fun ctx => z ctx) hs
    (fun ctx => challenge_range L pk.data ctx t (u ctx)) (fun ctx => hz ctx) i
  simpa only [Subtype.forall] using h

theorem strict_proofs_reveal_two :
    ∃ pk sk t, ∃ (u : Bytes → Statement) (z : Bytes → Vector64),
      keygenFromSeed idealSuite (zeros 96) params768 = .ok (pk, sk) ∧
      (∀ ctx, ∃ proof, kcpStrictProve idealSuite sk pk ctx = .ok proof ∧
        decodeStatement proof.commitment.1 = some (u ctx) ∧
        decodeResponse proof.response.1 = some (z ctx)) ∧
      ∀ i, (∀ s, Ternary s → (∀ ctx ∈ ({[], [1]} : Set Bytes),
          z ctx ∈ Emitted s (challenge idealSuite pk.data ctx t (u ctx))) →
          s i = sk.strictWitness idealSuite i) ↔
        Exposed maskBound
          (fun ctx : ({[], [1]} : Set Bytes) =>
            ((challenge idealSuite pk.data ctx t (u ctx)).toNat : ℤ))
          (fun ctx : ({[], [1]} : Set Bytes) => (z ctx i).toInt) := by
  obtain ⟨pk, sk, hk, _⟩ := keygen_generated idealSuite (zeros 96) params768 supported768
  obtain ⟨t, u, z, _, hprove, h⟩ := strict_proofs_reveal idealSuite params768 (zeros 96) pk sk hk
  exact ⟨pk, sk, t, u, z, hk, hprove, h {[], [1]}⟩

end EirnKcp.StrictTranscripts
