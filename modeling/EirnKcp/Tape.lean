import Mathlib.Data.List.Basic
import Mathlib.Tactic.Common

/-!
# Programs that draw from a tape

A drawing program reads an endless tape from a position on. It ends with a value
or an error, and with the position after the last symbol it read. An error does
not give symbols back. Positions only grow, and a program behaves alike on two
tapes that agree on what it reads.
-/

set_option autoImplicit false

namespace EirnKcp.Tape

variable {σ ε α β : Type}

def window (tape : ℕ → σ) (pos n : ℕ) : List σ := (List.range n).map (fun i => tape (pos+i))

@[simp] theorem window_length (tape : ℕ → σ) (pos n : ℕ) : (window tape pos n).length = n := by
  simp [window]

theorem window_congr (tape tape' : ℕ → σ) (pos n : ℕ)
    (h : ∀ i, pos ≤ i → i < pos+n → tape' i = tape i) : window tape' pos n = window tape pos n := by
  unfold window
  apply List.map_congr_left
  intro i hi
  have hlt := List.mem_range.mp hi
  exact h (pos+i) (by omega) (by omega)

/-- A program: the result and the next position, from a tape and a position. -/
def Drawing (σ ε α : Type) := (ℕ → σ) → ℕ → Except ε α × ℕ

def bindAt (f : α → Drawing σ ε β) (tape : ℕ → σ) : Except ε α × ℕ → Except ε β × ℕ
  | (.ok a, pos) => f a tape pos
  | (.error e, pos) => (.error e, pos)

instance : Monad (Drawing σ ε) where
  pure a := fun _ pos => (.ok a, pos)
  bind m f := fun tape pos => bindAt f tape (m tape pos)

def lift (r : Except ε α) : Drawing σ ε α := fun _ pos => (r, pos)

def draw (n : ℕ) : Drawing σ ε { symbols : List σ // symbols.length = n } :=
  fun tape pos => (.ok ⟨window tape pos n, window_length tape pos n⟩, pos+n)

section Rules
variable (tape : ℕ → σ) (pos : ℕ) (m : Drawing σ ε α) (f : α → Drawing σ ε β)

@[simp] theorem pure_run (a : α) : (pure a : Drawing σ ε α) tape pos = (.ok a, pos) := rfl

@[simp] theorem lift_run (r : Except ε α) : (lift r : Drawing σ ε α) tape pos = (r, pos) := rfl

@[simp] theorem draw_run (n : ℕ) : (draw n : Drawing σ ε _) tape pos =
    (.ok ⟨window tape pos n, window_length tape pos n⟩, pos+n) := rfl

theorem bind_run : (m >>= f) tape pos = bindAt f tape (m tape pos) := rfl

theorem bind_result :
    ((m >>= f) tape pos).1 = (m tape pos).1 >>= fun a => (f a tape (m tape pos).2).1 := by
  rw [bind_run]
  cases h : m tape pos with
  | mk r next =>
    cases r with
    | error e => rfl
    | ok a => rfl

end Rules

/-- A program that returns a value has read `n` symbols. -/
def Costs (m : Drawing σ ε α) (n : ℕ) : Prop :=
  ∀ tape pos a last, m tape pos = (.ok a, last) → last = pos+n

theorem Costs.run {m : Drawing σ ε α} {n : ℕ} (h : Costs m n) (tape : ℕ → σ) (pos : ℕ) (a : α)
    (ha : (m tape pos).1 = .ok a) : m tape pos = (.ok a, pos+n) := by
  cases hr : m tape pos with
  | mk r last =>
    rw [hr] at ha
    subst ha
    rw [h tape pos a last hr]

theorem costs_pure (a : α) : Costs (pure a : Drawing σ ε α) 0 := by
  intro tape pos b last h
  exact (congrArg Prod.snd h).symm

theorem costs_lift (r : Except ε α) : Costs (lift r : Drawing σ ε α) 0 := by
  intro tape pos b last h
  exact (congrArg Prod.snd h).symm

theorem costs_error (e : ε) (n : ℕ) : Costs (lift (.error e) : Drawing σ ε α) n := by
  intro tape pos b last h
  cases h

theorem costs_draw (n : ℕ) : Costs (draw n : Drawing σ ε _) n := by
  intro tape pos b last h
  exact (congrArg Prod.snd h).symm

theorem costs_bind (m : Drawing σ ε α) (f : α → Drawing σ ε β) (n k : ℕ) (hm : Costs m n)
    (hf : ∀ a, Costs (f a) k) : Costs (m >>= f) (n+k) := by
  intro tape pos b last h
  rw [bind_run] at h
  cases hr : m tape pos with
  | mk r next =>
    rw [hr] at h
    cases r with
    | error e => cases h
    | ok a =>
      have hnext := hm tape pos a next hr
      have hlast := hf a tape next b last h
      omega

/-- A program never moves back, and its behaviour is fixed by what it reads. -/
structure Causal (m : Drawing σ ε α) : Prop where
  advances : ∀ tape pos, pos ≤ (m tape pos).2
  determined : ∀ tape tape' pos, (∀ i, pos ≤ i → i < (m tape pos).2 → tape' i = tape i) →
    m tape' pos = m tape pos

theorem causal_pure (a : α) : Causal (pure a : Drawing σ ε α) :=
  ⟨fun _ pos => Nat.le_refl pos, fun _ _ _ _ => rfl⟩

theorem causal_lift (r : Except ε α) : Causal (lift r : Drawing σ ε α) :=
  ⟨fun _ pos => Nat.le_refl pos, fun _ _ _ _ => rfl⟩

theorem causal_draw (n : ℕ) : Causal (draw n : Drawing σ ε _) where
  advances := by
    intro tape pos
    rw [draw_run]
    exact Nat.le_add_right pos n
  determined := by
    intro tape tape' pos h
    simp only [draw_run] at h ⊢
    rw [Prod.mk.injEq, Except.ok.injEq, Subtype.mk.injEq]
    exact ⟨window_congr tape tape' pos n h, rfl⟩

theorem causal_bind (m : Drawing σ ε α) (f : α → Drawing σ ε β) (hm : Causal m)
    (hf : ∀ a, Causal (f a)) : Causal (m >>= f) where
  advances := by
    intro tape pos
    have hpos := hm.advances tape pos
    rw [bind_run]
    cases h : m tape pos with
    | mk r next =>
      rw [h] at hpos
      cases r with
      | error e => exact hpos
      | ok a => exact Nat.le_trans hpos ((hf a).advances tape next)
  determined := by
    intro tape tape' pos hagree
    simp only [bind_run] at hagree ⊢
    -- The first program reads a part of what the sequence reads.
    have hfirst : m tape' pos = m tape pos := by
      apply hm.determined
      intro i hi hlt
      apply hagree i hi
      cases h : m tape pos with
      | mk r next =>
        rw [h] at hlt
        cases r with
        | error e => exact hlt
        | ok a => exact Nat.lt_of_lt_of_le hlt ((hf a).advances tape next)
    have hpos := hm.advances tape pos
    rw [hfirst]
    cases h : m tape pos with
    | mk r next =>
      rw [h] at hagree hpos
      cases r with
      | error e => rfl
      | ok a =>
        apply (hf a).determined
        intro i hi hlt
        exact hagree i (Nat.le_trans hpos hi) hlt

end EirnKcp.Tape
