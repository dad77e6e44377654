import EirnKcp.CheckedCode
import Mathlib.Data.List.OfFn

/-!
# Fixed-width words and length-prefixed fields

Arrays of 16-bit words are stored as consecutive little-endian pairs. A list
of byte strings is stored as consecutive fields, each behind its big-endian
length. Both encodings are inverted exactly, so neither is ambiguous.
-/

set_option autoImplicit false

namespace EirnKcp.ByteCodec
open EirnKcp.CheckedCode

/-- `u16::from_le_bytes`. -/
def leWord (lo hi : UInt8) : UInt16 := UInt16.ofNat (lo.toNat+256*hi.toNat)

/-- `u16::to_le_bytes`. -/
def leBytes (w : UInt16) : Bytes := [UInt8.ofNat w.toNat, UInt8.ofNat (w.toNat/256)]

theorem leWord_leBytes (w : UInt16) :
    leWord (UInt8.ofNat w.toNat) (UInt8.ofNat (w.toNat/256)) = w := by
  have hw := w.toNat_lt
  apply UInt16.toNat_inj.mp
  simp only [leWord, UInt16.toNat_ofNat', UInt8.toNat_ofNat']
  omega

theorem leBytes_leWord (lo hi : UInt8) : leBytes (leWord lo hi) = [lo, hi] := by
  have hlo := lo.toNat_lt
  have hhi := hi.toNat_lt
  have hw : (leWord lo hi).toNat = lo.toNat+256*hi.toNat := by
    simp only [leWord, UInt16.toNat_ofNat']
    omega
  simp only [leBytes, hw, List.cons.injEq, and_true]
  constructor
  · apply UInt8.toNat_inj.mp
    simp only [UInt8.toNat_ofNat']
    omega
  · apply UInt8.toNat_inj.mp
    simp only [UInt8.toNat_ofNat']
    omega

/-- The word of the `i`-th chunk of `chunks_exact(2)`. -/
def wordAt (bytes : Bytes) (i : ℕ) : UInt16 :=
  leWord (bytes.getD (2*i) 0) (bytes.getD (2*i+1) 0)

theorem wordAt_succ (a b : UInt8) (rest : Bytes) (i : ℕ) :
    wordAt (a::b::rest) (i+1) = wordAt rest i := by
  simp [wordAt, Nat.mul_add]

def encodeWords {n : ℕ} (f : Fin n → UInt16) : Bytes := (List.ofFn f).flatMap leBytes

theorem encodeWords_succ {n : ℕ} (f : Fin (n+1) → UInt16) :
    encodeWords f = UInt8.ofNat (f 0).toNat :: UInt8.ofNat ((f 0).toNat/256) ::
      encodeWords (fun i => f i.succ) := by
  simp [encodeWords, leBytes, List.ofFn_succ]

@[simp] theorem encodeWords_length {n : ℕ} (f : Fin n → UInt16) :
    (encodeWords f).length = 2*n := by
  induction n with
  | zero => simp [encodeWords]
  | succ n ih =>
    rw [encodeWords_succ, List.length_cons, List.length_cons, ih]
    omega

@[simp] theorem wordAt_encodeWords {n : ℕ} (f : Fin n → UInt16) (i : Fin n) :
    wordAt (encodeWords f) i = f i := by
  induction n with
  | zero => exact i.elim0
  | succ n ih =>
    rw [encodeWords_succ]
    cases i using Fin.cases with
    | zero => exact leWord_leBytes (f 0)
    | succ i =>
      rw [Fin.val_succ, wordAt_succ]
      exact ih (fun j => f j.succ) i

theorem encodeWords_wordAt (n : ℕ) (bytes : Bytes) (h : bytes.length = 2*n) :
    encodeWords (fun i : Fin n => wordAt bytes i) = bytes := by
  induction n generalizing bytes with
  | zero =>
    obtain rfl := List.length_eq_zero_iff.mp h
    rfl
  | succ n ih =>
    obtain ⟨a, rest, rfl⟩ := List.exists_cons_of_length_eq_add_one
      (show bytes.length = (2*n+1)+1 by omega)
    obtain ⟨b, rest, rfl⟩ := List.exists_cons_of_length_eq_add_one (Nat.succ.inj h)
    have ht := ih rest (by simp only [List.length_cons] at h; omega)
    have hh := leBytes_leWord a b
    simp only [leBytes, List.cons.injEq, and_true] at hh
    rw [encodeWords_succ]
    simp only [Fin.val_succ, wordAt_succ, ht]
    exact congrArg₂ (· :: · :: rest) hh.1 hh.2

/-- The low `width` bytes of `x`, most significant first: a truncating cast
followed by `to_be_bytes`. -/
def beBytes : ℕ → ℕ → Bytes
  | 0, _ => []
  | width+1, x => beBytes width (x/256) ++ [UInt8.ofNat x]

@[simp] theorem beBytes_length (width x : ℕ) : (beBytes width x).length = width := by
  induction width generalizing x with
  | zero => rfl
  | succ width ih => simp [beBytes, ih]

theorem beBytes_injective (width x y : ℕ) (hx : x < 256^width) (hy : y < 256^width)
    (h : beBytes width x = beBytes width y) : x = y := by
  induction width generalizing x y with
  | zero => omega
  | succ width ih =>
    obtain ⟨hhigh, hlow⟩ := List.append_inj h (by simp)
    have hlow' : x % 256 = y % 256 := by
      simpa using congrArg UInt8.toNat (List.singleton_inj.mp hlow)
    have hx' : x/256 < 256^width := by rw [Nat.div_lt_iff_lt_mul (by decide)]; exact hx
    have hy' : y/256 < 256^width := by rw [Nat.div_lt_iff_lt_mul (by decide)]; exact hy
    have hdiv := ih (x/256) (y/256) hx' hy' hhigh
    omega

def field (bytes : Bytes) : Bytes := beBytes 4 bytes.length ++ bytes

def fields (inputs : List Bytes) : Bytes := inputs.flatMap field

theorem fields_cons (input : Bytes) (inputs : List Bytes) :
    fields (input::inputs) = beBytes 4 input.length ++ (input ++ fields inputs) := by
  simp [fields, field]

theorem fields_cons_ne_nil (input : Bytes) (inputs : List Bytes) :
    fields (input::inputs) ≠ fields [] := by
  intro h
  have hl := congrArg List.length h
  rw [fields_cons] at hl
  simp only [fields, List.flatMap_nil, List.length_append, beBytes_length, List.length_nil] at hl
  omega

theorem fields_injective (xs ys : List Bytes) (hx : ∀ x ∈ xs, x.length < 2^32)
    (hy : ∀ y ∈ ys, y.length < 2^32) (h : fields xs = fields ys) : xs = ys := by
  induction xs generalizing ys with
  | nil =>
    cases ys with
    | nil => rfl
    | cons y ys => exact absurd h.symm (fields_cons_ne_nil y ys)
  | cons x xs ih =>
    cases ys with
    | nil => exact absurd h (fields_cons_ne_nil x xs)
    | cons y ys =>
      rw [fields_cons, fields_cons] at h
      obtain ⟨hcount, hrest⟩ := List.append_inj h (by simp)
      have hlen : x.length = y.length := beBytes_injective 4 _ _
        (by have := hx x (by simp); omega) (by have := hy y (by simp); omega) hcount
      obtain ⟨rfl, htail⟩ := List.append_inj hrest hlen
      rw [ih ys (fun z hz => hx z (by simp [hz])) (fun z hz => hy z (by simp [hz])) htail]

end EirnKcp.ByteCodec
