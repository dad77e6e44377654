import Mathlib.Data.Fin.Tuple.Basic
import Mathlib.Tactic

/-!
# Outcomes of checked code

A call of checked code ends in one of three ways: with a value, with an error
of its result type, or with a panic. Slicing, copying into a fixed array and
machine arithmetic panic outside their domain. A loop that fills a fixed array
stops at the first entry that does not produce a value.
-/

set_option autoImplicit false

namespace EirnKcp.CheckedCode

abbrev Bytes := List UInt8

/-- An array type with its length, such as `[u8; 32]`. -/
abbrev FixedBytes (n : ℕ) := { bytes : Bytes // bytes.length = n }

def zeros (n : ℕ) : FixedBytes n := ⟨List.replicate n 0, List.length_replicate⟩

inductive Panic where
  | slice
  | copyLength
  | overflow
  | removeIndex
  | expect (message : String)
  | unreachable (message : String)
  | explicit (message : String)
  deriving DecidableEq, Repr

inductive Failure (ε : Type) where
  | err (error : ε)
  | panic (cause : Panic)
  deriving DecidableEq, Repr

abbrev Outcome (ε α : Type) := Except (Failure ε) α

variable {ε α β : Type}

def err (e : ε) : Outcome ε α := .error (.err e)

def panic (cause : Panic) : Outcome ε α := .error (.panic cause)

def Panics (r : Outcome ε α) : Prop := ∃ cause, r = panic cause

def IsErr (r : Outcome ε α) : Prop := ∃ e, r = err e

/-- `Result::expect`: an error becomes a panic with the given text. -/
def expect (message : String) : Outcome ε α → Outcome ε α
  | .error (.err _) => panic (.expect message)
  | r => r

@[simp] theorem ok_bind (a : α) (f : α → Outcome ε β) :
    ((.ok a : Outcome ε α) >>= f) = f a := rfl

@[simp] theorem error_bind (e : Failure ε) (f : α → Outcome ε β) :
    ((.error e : Outcome ε α) >>= f) = .error e := rfl

@[simp] theorem pure_ok (a : α) : (pure a : Outcome ε α) = .ok a := rfl

theorem bind_ok_iff (r : Outcome ε α) (f : α → Outcome ε β) (b : β) :
    (r >>= f) = .ok b ↔ ∃ a, r = .ok a ∧ f a = .ok b := by
  cases r with
  | error e => simp
  | ok a => simp

theorem ok_not_err (a : α) : ¬ IsErr (.ok a : Outcome ε α) := by
  rintro ⟨e, h⟩
  cases h

theorem ok_not_panics (a : α) : ¬ Panics (.ok a : Outcome ε α) := by
  rintro ⟨cause, h⟩
  cases h

theorem err_not_panics (e : ε) : ¬ Panics (err e : Outcome ε α) := by
  rintro ⟨cause, h⟩
  cases h

theorem panic_panics (cause : Panic) : Panics (panic cause : Outcome ε α) := ⟨cause, rfl⟩

theorem bind_panics_iff (r : Outcome ε α) (f : α → Outcome ε β) :
    Panics (r >>= f) ↔ Panics r ∨ ∃ a, r = .ok a ∧ Panics (f a) := by
  cases r with
  | error e => cases e <;> simp [Panics, panic]
  | ok a => simp [Panics, panic]

theorem bind_not_panics (r : Outcome ε α) (f : α → Outcome ε β) (hr : ¬ Panics r)
    (hf : ∀ a, r = .ok a → ¬ Panics (f a)) : ¬ Panics (r >>= f) := by
  rw [bind_panics_iff]
  rintro (h | ⟨a, ha, h⟩)
  · exact hr h
  · exact hf a ha h

/-- `&data[lo..hi]`. -/
def slice (data : Bytes) (lo hi : ℕ) : Outcome ε Bytes :=
  if lo ≤ hi ∧ hi ≤ data.length then .ok ((data.drop lo).take (hi-lo)) else panic .slice

theorem slice_ok (data : Bytes) (lo hi : ℕ) (h : lo ≤ hi) (hd : hi ≤ data.length) :
    slice data lo hi = (.ok ((data.drop lo).take (hi-lo)) : Outcome ε Bytes) :=
  if_pos ⟨h, hd⟩

theorem slice_bind_panics_iff (data : Bytes) (lo hi : ℕ) (f : Bytes → Outcome ε β) :
    Panics (slice data lo hi >>= f) ↔
      ¬ (lo ≤ hi ∧ hi ≤ data.length) ∨ Panics (f ((data.drop lo).take (hi-lo))) := by
  unfold slice
  split_ifs with h
  · simp only [ok_bind, h, not_true, false_or, and_self]
  · exact iff_of_true (panic_panics _) (Or.inl h)

theorem slice_middle (a b c : Bytes) (lo hi : ℕ) (hlo : lo = a.length)
    (hhi : hi = a.length+b.length) :
    slice (a ++ (b ++ c)) lo hi = (.ok b : Outcome ε Bytes) := by
  subst hlo hhi
  rw [slice_ok _ _ _ (by omega) (by simp only [List.length_append]; omega)]
  simp

/-- `copy_from_slice` into an array of `n` bytes. -/
def copyFromSlice (n : ℕ) (source : Bytes) : Outcome ε (FixedBytes n) :=
  if h : source.length = n then .ok ⟨source, h⟩ else panic .copyLength

theorem copy_ok (n : ℕ) (source : Bytes) (h : source.length = n) :
    copyFromSlice n source = (.ok ⟨source, h⟩ : Outcome ε (FixedBytes n)) := dif_pos h

theorem copy_bind_panics_iff (n : ℕ) (source : Bytes) (f : FixedBytes n → Outcome ε β) :
    Panics (copyFromSlice n source >>= f) ↔
      source.length ≠ n ∨ ∃ h : source.length = n, Panics (f ⟨source, h⟩) := by
  unfold copyFromSlice
  split_ifs with h
  · simp only [ok_bind, h, ne_eq, not_true, false_or, exists_true_left]
  · exact iff_of_true (panic_panics _) (Or.inl h)

def usize (x : ℕ) : Outcome ε ℕ := if x < 2^64 then .ok x else panic .overflow

def i64 (x : ℤ) : Outcome ε ℤ :=
  if -2^63 ≤ x ∧ x < 2^63 then .ok x else panic .overflow

def i16 (x : ℤ) : Outcome ε Int16 :=
  if -2^15 ≤ x ∧ x < 2^15 then .ok (Int16.ofInt x) else panic .overflow

theorem usize_ok (x : ℕ) (h : x < 2^64) : usize x = (.ok x : Outcome ε ℕ) := if_pos h

theorem usize_panics_iff (x : ℕ) : Panics (usize x : Outcome ε ℕ) ↔ ¬ x < 2^64 := by
  unfold usize
  split_ifs with h
  · exact iff_of_false (ok_not_panics x) (not_not_intro h)
  · exact iff_of_true (panic_panics _) h

theorem usize_bind_panics_iff (x : ℕ) (f : ℕ → Outcome ε β) :
    Panics (usize x >>= f) ↔ ¬ x < 2^64 ∨ Panics (f x) := by
  rw [bind_panics_iff, usize_panics_iff]
  by_cases h : x < 2^64
  · simp only [usize_ok x h, Except.ok.injEq, exists_eq_left']
  · exact iff_of_true (Or.inl h) (Or.inl h)

theorem i64_ok (x : ℤ) (hl : -2^63 ≤ x) (hu : x < 2^63) :
    i64 x = (.ok x : Outcome ε ℤ) := if_pos ⟨hl, hu⟩

theorem i16_ok (x : ℤ) (hl : -2^15 ≤ x) (hu : x < 2^15) :
    i16 x = (.ok (Int16.ofInt x) : Outcome ε Int16) := if_pos ⟨hl, hu⟩

/-- The loop that fills an array entry by entry. -/
def forArray {m : Type → Type} [Monad m] : {n : ℕ} → (Fin n → m α) → m (Fin n → α)
  | 0, _ => pure Fin.elim0
  | _+1, f => do
      let head ← f 0
      let tail ← forArray (fun i => f i.succ)
      pure (Fin.cons head tail)

theorem forArray_pure_iff {m : Type → Type} [Monad m]
    (hpure : ∀ {γ : Type} (a b : γ), (pure a : m γ) = pure b ↔ a = b)
    (hbind : ∀ {γ δ : Type} (x : m γ) (f : γ → m δ) (b : δ),
      x >>= f = pure b ↔ ∃ a, x = pure a ∧ f a = pure b)
    {n : ℕ} (f : Fin n → m α) (g : Fin n → α) :
    forArray f = pure g ↔ ∀ i, f i = pure (g i) := by
  induction n with
  | zero =>
    constructor
    · intro _ i
      exact i.elim0
    · intro _
      exact congrArg pure (Subsingleton.elim _ _)
  | succ n ih =>
    simp only [forArray, hbind, hpure]
    constructor
    · rintro ⟨head, hh, tail, ht, rfl⟩ i
      cases i using Fin.cases with
      | zero => exact hh
      | succ i => exact (ih _ _).mp ht i
    · intro h
      exact ⟨g 0, h 0, Fin.tail g, (ih _ _).mpr (fun i => h i.succ), Fin.cons_self_tail g⟩

theorem forArray_ok_iff {n : ℕ} (f : Fin n → Outcome ε α) (g : Fin n → α) :
    forArray f = .ok g ↔ ∀ i, f i = .ok (g i) :=
  forArray_pure_iff (fun _ _ => ⟨Except.ok.inj, congrArg _⟩) bind_ok_iff f g

theorem forArray_some_iff {n : ℕ} (f : Fin n → Option α) (g : Fin n → α) :
    forArray f = some g ↔ ∀ i, f i = some (g i) :=
  forArray_pure_iff (fun _ _ => Option.some_inj) (fun _ _ _ => Option.bind_eq_some_iff) f g

end EirnKcp.CheckedCode
