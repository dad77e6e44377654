import Mathlib.LinearAlgebra.Matrix.ToLin
import Mathlib.Tactic

/-!
# Linear identification with a masked response

A prover holds `s` with `A s = t`, commits to `A y` and answers a challenge `c`
with `y + c s`. The verifier tests one linear equation. Over the integers the
mask is bounded, and the set of possible responses is a box around `c s`.
-/

set_option autoImplicit false

namespace EirnKcp.LinearIdentification
open Matrix

section Relation
variable {m n R : Type} [Fintype n] [CommRing R]

def Accepts (A : Matrix m n R) (t u : m → R) (c : R) (z : n → R) : Prop :=
  A *ᵥ z = u+c•t

theorem honest_accepts (A : Matrix m n R) (s y : n → R) (c : R) :
    Accepts A (A *ᵥ s) (A *ᵥ y) c (y+c•s) := by
  rw [Accepts, mulVec_add, mulVec_smul]

theorem combination_accepts (A : Matrix m n R) (t : m → R) (z₀ : n → R) (h : A *ᵥ z₀ = t)
    (u : m → R) (y : n → R) (hu : A *ᵥ y = u) (c : R) : Accepts A t u c (y+c•z₀) := by
  subst h hu
  exact honest_accepts A z₀ y c

/-- Some commitment has a response to the challenge that it determines. -/
def Forgeable (A : Matrix m n R) (t : m → R) (challenge : (m → R) → R) : Prop :=
  ∃ u z, Accepts A t u (challenge u) z

theorem forgeable_of_combination (A : Matrix m n R) (t : m → R) (challenge : (m → R) → R)
    (z₀ : n → R) (h : A *ᵥ z₀ = t) : Forgeable A t challenge :=
  ⟨A *ᵥ 0, _, combination_accepts A t z₀ h _ 0 rfl _⟩

theorem answers_difference (A : Matrix m n R) (t u : m → R) (c c' : R) (z z' : n → R)
    (h : Accepts A t u c z) (h' : Accepts A t u c' z') : A *ᵥ (z-z') = (c-c')•t := by
  rw [mulVec_sub, show A *ᵥ z = u+c•t from h, show A *ᵥ z' = u+c'•t from h',
    add_sub_add_left_eq_sub, sub_smul]

def simulated (A : Matrix m n R) (t : m → R) (c : R) (z : n → R) : m → R := A *ᵥ z-c•t

theorem accepts_iff_simulated (A : Matrix m n R) (t u : m → R) (c : R) (z : n → R) :
    Accepts A t u c z ↔ u = simulated A t c z := by
  rw [Accepts, simulated]
  exact eq_comm.trans eq_sub_iff_add_eq.symm

end Relation

theorem special_soundness {m n K : Type} [Fintype n] [Field K] (A : Matrix m n K) (t u : m → K)
    (c c' : K) (z z' : n → K) (hc : c ≠ c') (h : Accepts A t u c z) (h' : Accepts A t u c' z') :
    A *ᵥ ((c-c')⁻¹•(z-z')) = t := by
  rw [mulVec_smul, answers_difference A t u c c' z z' h h', smul_smul,
    inv_mul_cancel₀ (sub_ne_zero.mpr hc), one_smul]

section Responses
variable {ι : Type}

def responses (M c : ℤ) (s : ι → ℤ) : Set (ι → ℤ) :=
  {z | ∃ y : ι → ℤ, (∀ i, |y i| ≤ M) ∧ ∀ i, z i = y i+c*s i}

theorem mem_responses (M c : ℤ) (s z : ι → ℤ) :
    z ∈ responses M c s ↔ ∀ i, |z i-c*s i| ≤ M := by
  constructor
  · rintro ⟨y, hy, hz⟩ i
    rw [hz i, add_sub_cancel_right]
    exact hy i
  · intro h
    exact ⟨fun i => z i-c*s i, h, fun i => by ring⟩

theorem response_bound (M c B : ℤ) (s z : ι → ℤ) (hs : ∀ i, |s i| ≤ 1) (hB : M+|c| ≤ B)
    (hz : z ∈ responses M c s) (i : ι) : |z i| ≤ B := by
  have hm := (mem_responses M c s z).mp hz i
  have hc : |c*s i| ≤ |c| := by
    rw [abs_mul]
    exact mul_le_of_le_one_right (abs_nonneg c) (hs i)
  calc
    |z i| = |(z i-c*s i)+c*s i| := by rw [sub_add_cancel]
    _ ≤ |z i-c*s i| + |c*s i| := abs_add_le _ _
    _ ≤ M+|c| := add_le_add hm hc
    _ ≤ B := hB

theorem responses_injective (M c : ℤ) (hM : 0 ≤ M) (hc : c ≠ 0) (s s' : ι → ℤ)
    (h : responses M c s ⊆ responses M c s') : s = s' := by
  have hup : (fun i => M+c*s i) ∈ responses M c s' := h (by
    rw [mem_responses]
    intro i
    simp [abs_of_nonneg hM])
  have hdown : (fun i => -M+c*s i) ∈ responses M c s' := h (by
    rw [mem_responses]
    intro i
    simp [abs_of_nonneg hM])
  rw [mem_responses] at hup hdown
  funext i
  have hu := (abs_le.mp (hup i)).2
  have hd := (abs_le.mp (hdown i)).1
  exact mul_left_cancel₀ hc (by linarith)

theorem mask_unique (M c : ℤ) (s z : ι → ℤ) (h : z ∈ responses M c s) :
    ∃! y : ι → ℤ, (∀ i, |y i| ≤ M) ∧ ∀ i, z i = y i+c*s i := by
  obtain ⟨y, hy, hz⟩ := h
  refine ⟨y, ⟨hy, hz⟩, ?_⟩
  rintro y' ⟨_, hz'⟩
  funext i
  have hi := hz i
  rw [hz' i] at hi
  exact add_right_cancel hi

theorem entry_sign (M c z s : ℤ) (hM : 0 ≤ M) (hc : 0 < c) (hs : s = -1 ∨ s = 0 ∨ s = 1)
    (hz : |z-c*s| ≤ M) (h : M < |z|) : s = z.sign := by
  rw [abs_le] at hz
  rcases lt_abs.mp h with hpos | hneg
  · rw [Int.sign_eq_one_of_pos (by omega)]
    rcases hs with rfl | rfl | rfl
    · omega
    · omega
    · rfl
  · rw [Int.sign_eq_neg_one_of_neg (by omega)]
    rcases hs with rfl | rfl | rfl
    · rfl
    · omega
    · omega

section Series
variable {κ : Type} (M : ℤ) (c z : κ → ℤ)

/-- Response entries to one witness entry that give it away: one of them is
beyond the mask bound, or they come close to both ends of it. -/
def Exposed : Prop :=
  (∃ k, M < |z k|) ∨ ((∃ k, z k-c k < -M) ∧ ∃ k, M < z k+c k)

theorem entries_fixed_iff (s : ℤ) (hs : s = -1 ∨ s = 0 ∨ s = 1) (hM : 0 ≤ M)
    (hc : ∀ k, 0 < c k) (hz : ∀ k, |z k-c k*s| ≤ M) :
    (∀ w, (w = -1 ∨ w = 0 ∨ w = 1) → (∀ k, |z k-c k*w| ≤ M) → w = s) ↔ Exposed M c z := by
  constructor
  · intro h
    by_contra hhidden
    rw [Exposed, not_or, not_exists] at hhidden
    obtain ⟨hin, hends⟩ := hhidden
    have hrange : ∀ k, -M ≤ z k ∧ z k ≤ M := fun k => abs_le.mp (not_lt.mp (hin k))
    have hzero : 0 = s := by
      apply h 0 (Or.inr (Or.inl rfl))
      intro k
      rw [mul_zero, sub_zero, abs_le]
      exact hrange k
    -- on the side that is not reached there is room for another value
    by_cases hlow : ∃ k, z k-c k < -M
    · have hhigh : ∀ k, z k+c k ≤ M := fun k => not_lt.mp fun hk => hends ⟨hlow, k, hk⟩
      have hminus : -1 = s := by
        apply h (-1) (Or.inl rfl)
        intro k
        have hk := hrange k
        have hpos := hc k
        have hend := hhigh k
        exact abs_le.mpr ⟨by omega, by omega⟩
      omega
    · have hroom : ∀ k, -M ≤ z k-c k := fun k => not_lt.mp fun hk => hlow ⟨k, hk⟩
      have hplus : 1 = s := by
        apply h 1 (Or.inr (Or.inr rfl))
        intro k
        have hk := hrange k
        have hpos := hc k
        have hend := hroom k
        exact abs_le.mpr ⟨by omega, by omega⟩
      omega
  · rintro (⟨k, hk⟩ | ⟨⟨k, hk⟩, k', hk'⟩) w hw hwz
    · rw [entry_sign M (c k) (z k) w hM (hc k) hw (hwz k) hk,
        entry_sign M (c k) (z k) s hM (hc k) hs (hz k) hk]
    · have hmiddle : ∀ v, (v = -1 ∨ v = 0 ∨ v = 1) → (∀ k, |z k-c k*v| ≤ M) → v = 0 := by
        intro v hv hvz
        have h1 := (abs_le.mp (hvz k)).1
        have h2 := (abs_le.mp (hvz k')).2
        rcases hv with rfl | rfl | rfl
        · omega
        · rfl
        · omega
      rw [hmiddle w hw hwz, hmiddle s hs hz]

theorem exposed_single_iff (hc : ∀ k, c k ≤ M) [Unique κ] :
    Exposed M c z ↔ M < |z default| := by
  constructor
  · rintro (⟨k, hk⟩ | ⟨⟨k, hk⟩, k', hk'⟩)
    · rw [← Unique.eq_default k]
      exact hk
    · rw [Unique.eq_default k] at hk
      rw [Unique.eq_default k'] at hk'
      have hle := hc default
      omega
  · intro h
    exact Or.inl ⟨default, h⟩

end Series

end Responses

end EirnKcp.LinearIdentification
