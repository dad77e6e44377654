import EirnKcp.CheckedCode

/-!
# Protocol profiles and errors

The two profiles carry the wire sizes used everywhere else. All fields of a
profile are public, so a caller may supply any values; only the two built-in
profiles are supported.
-/

set_option autoImplicit false

namespace EirnKcp.Params
open EirnKcp.CheckedCode

structure EirnParams where
  name : String
  n : ℕ
  k : ℕ
  q : ℕ
  eta1 : ℕ
  eta2 : ℕ
  skBytes : ℕ
  kemPkBytes : ℕ
  sigPkBytes : ℕ
  zkStatementBytes : ℕ
  pkBytes : ℕ
  ctBytes : ℕ
  ssBytes : ℕ
  coinsBytes : ℕ
  sigBytes : ℕ
  proofBytes : ℕ
  strictProofBytes : ℕ
  nistLevel : ℕ
  deriving DecidableEq, Repr

def params768 : EirnParams where
  name := "Eirn-ML-KEM-768-ML-DSA-65"
  n := 256
  k := 3
  q := 3329
  eta1 := 2
  eta2 := 2
  skBytes := 96
  kemPkBytes := 1184
  sigPkBytes := 1952
  zkStatementBytes := 64
  pkBytes := 3200
  ctBytes := 1088
  ssBytes := 32
  coinsBytes := 32
  sigBytes := 3309
  proofBytes := 3373
  strictProofBytes := 224
  nistLevel := 3

def params1024 : EirnParams where
  name := "Eirn-ML-KEM-1024-ML-DSA-87"
  n := 256
  k := 4
  q := 3329
  eta1 := 2
  eta2 := 2
  skBytes := 96
  kemPkBytes := 1568
  sigPkBytes := 2592
  zkStatementBytes := 64
  pkBytes := 4224
  ctBytes := 1568
  ssBytes := 32
  coinsBytes := 32
  sigBytes := 4627
  proofBytes := 4691
  strictProofBytes := 224
  nistLevel := 5

inductive EirnError where
  | authenticationFailed
  | keyMismatch
  | invalidCiphertextLength (expected actual : ℕ)
  | invalidMessageLength (expected actual : ℕ)
  | invalidProofLength (expected actual : ℕ)
  | invalidKeyLength (expected actual : ℕ)
  | noOneTimePrekeys
  | strictModeUnavailable
  | unsupportedParameterSet (name : String)
  deriving DecidableEq, Repr

/-- The crate's `Result`, with the panics its code can reach. -/
abbrev Result (α : Type) := Outcome EirnError α

def IsSupportedParams (params : EirnParams) : Prop :=
  params = params768 ∨ params = params1024

instance decidableSupported (params : EirnParams) : Decidable (IsSupportedParams params) :=
  inferInstanceAs (Decidable (_ ∨ _))

def ensureSupportedParams (params : EirnParams) : Result Unit :=
  if IsSupportedParams params then .ok () else err (.unsupportedParameterSet params.name)

theorem params1024_ne_params768 : params1024 ≠ params768 := by
  intro h
  have hk := congrArg EirnParams.k h
  simp [params1024, params768] at hk

@[simp] theorem supported768 : IsSupportedParams params768 := Or.inl rfl

@[simp] theorem supported1024 : IsSupportedParams params1024 := Or.inr rfl

/-- The size relations that the slices of keys, proofs and messages rely on. -/
structure Consistent (params : EirnParams) : Prop where
  pkBytes : params.pkBytes = params.kemPkBytes+params.sigPkBytes+64
  statement : params.zkStatementBytes = 64
  proofBytes : params.proofBytes = 32+params.sigBytes+32
  strictProofBytes : params.strictProofBytes = 224
  bounded : params.pkBytes < 2^16 ∧ params.ctBytes < 2^16 ∧ params.proofBytes < 2^16

theorem supported_consistent (params : EirnParams) (h : IsSupportedParams params) :
    Consistent params := by
  rcases h with rfl | rfl <;>
    exact ⟨rfl, rfl, rfl, rfl, by decide, by decide, by decide⟩

theorem supported_eq_of_pkBytes (p q : EirnParams) (hp : IsSupportedParams p)
    (hq : IsSupportedParams q) (h : p.pkBytes = q.pkBytes) : p = q := by
  rcases hp with rfl | rfl <;> rcases hq with rfl | rfl <;>
    first | rfl | simp [params768, params1024] at h

theorem supported_eq_of_ctBytes (p q : EirnParams) (hp : IsSupportedParams p)
    (hq : IsSupportedParams q) (h : p.ctBytes = q.ctBytes) : p = q := by
  rcases hp with rfl | rfl <;> rcases hq with rfl | rfl <;>
    first | rfl | simp [params768, params1024] at h

end EirnKcp.Params
