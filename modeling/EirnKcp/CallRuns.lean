import Mathlib.Data.List.Basic
import Mathlib.Tactic.Common

/-!
# Runs of a machine that answers calls

A machine answers each call with a reply and a next state. A run records every
call with the states around it. Invariants, pairs of calls of one run, and
machines that hand out the items of a list one at a time have a rule each.
-/

set_option autoImplicit false

namespace EirnKcp.CallRuns

structure Event (State Call Reply : Type) where
  before : State
  call : Call
  reply : Reply
  after : State

variable {State Call Reply : Type} (step : Call → State → Reply × State)

def event (call : Call) (s : State) : Event State Call Reply :=
  ⟨s, call, (step call s).1, (step call s).2⟩

def after : List Call → State → State
  | [], s => s
  | call::calls, s => after calls (step call s).2

def trace : List Call → State → List (Event State Call Reply)
  | [], _ => []
  | call::calls, s => event step call s :: trace calls (step call s).2

theorem after_append (calls more : List Call) (s : State) :
    after step (calls ++ more) s = after step more (after step calls s) := by
  induction calls generalizing s with
  | nil => rfl
  | cons call calls ih => exact ih _

theorem trace_append (calls more : List Call) (s : State) :
    trace step (calls ++ more) s = trace step calls s ++ trace step more (after step calls s) := by
  induction calls generalizing s with
  | nil => rfl
  | cons call calls ih =>
    show event step call s :: trace step (calls ++ more) _ = _
    rw [ih]
    rfl

section Invariants
variable (Allowed : Call → Prop) (Inv : State → Prop)
  (hstep : ∀ call s, Allowed call → Inv s → Inv (step call s).2)
include hstep

theorem after_invariant (calls : List Call) (s : State) (hc : ∀ call ∈ calls, Allowed call)
    (hs : Inv s) : Inv (after step calls s) := by
  induction calls generalizing s with
  | nil => exact hs
  | cons call calls ih =>
    exact ih _ (fun c h => hc c (List.mem_cons_of_mem call h))
      (hstep call s (hc call List.mem_cons_self) hs)

theorem trace_invariant (calls : List Call) (s : State) (hc : ∀ call ∈ calls, Allowed call)
    (hs : Inv s) (e : Event State Call Reply) (he : e ∈ trace step calls s) :
    Inv e.before ∧ Allowed e.call ∧ e = event step e.call e.before := by
  induction calls generalizing s with
  | nil => cases he
  | cons call calls ih =>
    rcases List.mem_cons.mp he with rfl | he
    · exact ⟨hs, hc call List.mem_cons_self, rfl⟩
    · exact ih _ (fun c h => hc c (List.mem_cons_of_mem call h))
        (hstep call s (hc call List.mem_cons_self) hs) he

theorem trace_pairwise_iff (P Q : Event State Call Reply → Event State Call Reply → Prop)
    (hpair : ∀ c₁ s₁ c₂ s₂, Allowed c₁ → Inv s₁ → Allowed c₂ → Inv s₂ →
      (P (event step c₁ s₁) (event step c₂ s₂) ↔ Q (event step c₁ s₁) (event step c₂ s₂)))
    (calls : List Call) (s : State) (hc : ∀ call ∈ calls, Allowed call) (hs : Inv s) :
    (trace step calls s).Pairwise P ↔ (trace step calls s).Pairwise Q := by
  apply List.Pairwise.iff_of_mem
  intro e₁ e₂ h₁ h₂
  obtain ⟨i₁, a₁, eq₁⟩ := trace_invariant step Allowed Inv hstep calls s hc hs e₁ h₁
  obtain ⟨i₂, a₂, eq₂⟩ := trace_invariant step Allowed Inv hstep calls s hc hs e₂ h₂
  rw [eq₁, eq₂]
  exact hpair _ _ _ _ a₁ i₁ a₂ i₂

theorem trace_pairwise_of_monotone (R : State → State → Prop) (hrefl : ∀ s, R s s)
    (htrans : ∀ a b c, R a b → R b c → R a c)
    (hmono : ∀ call s, Allowed call → Inv s → R s (step call s).2)
    (calls : List Call) (s : State) (hc : ∀ call ∈ calls, Allowed call) (hs : Inv s) :
    (trace step calls s).Pairwise (fun e e' => R e.after e'.before) ∧
      ∀ e ∈ trace step calls s, R s e.before := by
  induction calls generalizing s with
  | nil => exact ⟨List.Pairwise.nil, by simp [trace]⟩
  | cons call calls ih =>
    have ha := hc call List.mem_cons_self
    obtain ⟨hpair, hbefore⟩ := ih (step call s).2 (fun c h => hc c (List.mem_cons_of_mem call h))
      (hstep call s ha hs)
    constructor
    · exact List.pairwise_cons.mpr ⟨hbefore, hpair⟩
    · intro e he
      rcases List.mem_cons.mp he with rfl | he
      · exact hrefl s
      · exact htrans _ _ _ (hmono call s ha hs) (hbefore e he)

end Invariants

section Dispensing
variable {α : Type} (items : State → List α) (uses : Reply → Bool)

/-- The items that a run hands out: the first one at every use. -/
def spent (events : List (Event State Call Reply)) : List α :=
  events.flatMap (fun e => if uses e.reply then (items e.before).take 1 else [])

/-- A machine that drops the first of its items at every use and at no other
call has handed out exactly what is missing. -/
theorem spent_append_rest (Allowed : Call → Prop) (Inv : State → Prop)
    (hstep : ∀ call s, Allowed call → Inv s → Inv (step call s).2)
    (hitems : ∀ call s, Allowed call → Inv s →
      items (step call s).2 = if uses (step call s).1 then (items s).drop 1 else items s)
    (calls : List Call) (s : State) (hc : ∀ call ∈ calls, Allowed call) (hs : Inv s) :
    spent items uses (trace step calls s) ++ items (after step calls s) = items s := by
  induction calls generalizing s with
  | nil => rfl
  | cons call calls ih =>
    have ha := hc call List.mem_cons_self
    have hrest := ih _ (fun c h => hc c (List.mem_cons_of_mem call h)) (hstep call s ha hs)
    have hhead := hitems call s ha hs
    simp only [trace, after, spent, List.flatMap_cons, event, List.append_assoc] at hrest ⊢
    rw [hrest, hhead]
    by_cases hu : uses (step call s).1 = true
    · rw [if_pos hu, if_pos hu, List.take_append_drop]
    · rw [if_neg hu, if_neg hu, List.nil_append]

theorem spent_length (Allowed : Call → Prop) (Inv : State → Prop)
    (hstep : ∀ call s, Allowed call → Inv s → Inv (step call s).2)
    (hne : ∀ call s, Allowed call → Inv s → uses (step call s).1 = true → items s ≠ [])
    (calls : List Call) (s : State) (hc : ∀ call ∈ calls, Allowed call) (hs : Inv s) :
    (spent items uses (trace step calls s)).length =
      (trace step calls s).countP (fun e => uses e.reply) := by
  induction calls generalizing s with
  | nil => rfl
  | cons call calls ih =>
    have ha := hc call List.mem_cons_self
    have hrest := ih _ (fun c h => hc c (List.mem_cons_of_mem call h)) (hstep call s ha hs)
    simp only [trace, spent, List.flatMap_cons, event, List.length_append,
      List.countP_cons] at hrest ⊢
    rw [hrest]
    by_cases hu : uses (step call s).1 = true
    · have hpos := List.length_pos_iff.mpr (hne call s ha hs hu)
      rw [if_pos hu, if_pos hu, List.length_take]
      omega
    · rw [if_neg hu, if_neg hu, List.length_nil]
      omega

end Dispensing

end EirnKcp.CallRuns
