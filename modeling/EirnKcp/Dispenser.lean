import EirnKcp.CallRuns

/-!
# Dispensers

A dispenser holds a list of items. What a call does is fixed by the call alone:
it takes the first item, or is refused when there is none, or only looks. After
any calls the items left depend on the number of takers among them. A machine
that answers like a dispenser inherits both facts for its own runs.
-/

set_option autoImplicit false

namespace EirnKcp.Dispenser
open EirnKcp.CallRuns

inductive Behaviour (Reply α : Type) where
  | take (grant : α → Reply) (refuse : Reply)
  | look (answer : List α → Reply)

variable {Call Reply α : Type}

def Behaviour.takes : Behaviour Reply α → Bool
  | .take _ _ => true
  | .look _ => false

def Behaviour.reply : Behaviour Reply α → List α → Reply
  | .take _ refuse, [] => refuse
  | .take grant _, item::_ => grant item
  | .look answer, items => answer items

def Behaviour.rest (b : Behaviour Reply α) (items : List α) : List α :=
  if b.takes then items.drop 1 else items

def dispense (d : Call → Behaviour Reply α) (call : Call) (items : List α) : Reply × List α :=
  ((d call).reply items, (d call).rest items)

def takers (d : Call → Behaviour Reply α) (calls : List Call) : ℕ :=
  calls.countP (fun call => (d call).takes)

section Runs
variable (d : Call → Behaviour Reply α)

theorem takers_cons (call : Call) (calls : List Call) :
    takers d (call::calls) = takers d calls+if (d call).takes then 1 else 0 := by
  simp only [takers, List.countP_cons]

theorem takers_perm (calls calls' : List Call) (h : calls.Perm calls') :
    takers d calls = takers d calls' := h.countP_eq _

theorem after_dispense (calls : List Call) (items : List α) :
    after (dispense d) calls items = items.drop (takers d calls) := by
  induction calls generalizing items with
  | nil => rfl
  | cons call calls ih =>
    rw [after, ih, takers_cons, dispense, Behaviour.rest]
    by_cases ht : (d call).takes = true
    · rw [if_pos ht, if_pos ht, List.drop_drop, Nat.add_comm]
    · rw [if_neg ht, if_neg ht, Nat.add_zero]

end Runs

section Refinement
variable {State : Type} (step : Call → State → Reply × State) (Allowed : Call → Prop)
  (Inv : State → Prop) (items : State → List α) (d : Call → Behaviour Reply α)

/-- Every call answers and moves as the dispenser does on the items of the state. -/
structure Refines : Prop where
  keeps : ∀ call s, Allowed call → Inv s → Inv (step call s).2
  answers : ∀ call s, Allowed call → Inv s → (step call s).1 = (d call).reply (items s)
  moves : ∀ call s, Allowed call → Inv s → items (step call s).2 = (d call).rest (items s)

variable {step Allowed Inv items d}

theorem Refines.after_items (h : Refines step Allowed Inv items d) (calls : List Call) (s : State)
    (hc : ∀ call ∈ calls, Allowed call) (hs : Inv s) :
    items (after step calls s) = (items s).drop (takers d calls) := by
  rw [← after_dispense d calls (items s)]
  induction calls generalizing s with
  | nil => rfl
  | cons call calls ih =>
    have ha := hc call List.mem_cons_self
    rw [after, after, ih _ (fun c hm => hc c (List.mem_cons_of_mem call hm)) (h.keeps call s ha hs),
      h.moves call s ha hs]
    rfl

theorem Refines.replies (h : Refines step Allowed Inv items d) (calls : List Call) (s : State)
    (hc : ∀ call ∈ calls, Allowed call) (hs : Inv s) :
    (trace step calls s).map Event.reply =
      (trace (dispense d) calls (items s)).map Event.reply := by
  induction calls generalizing s with
  | nil => rfl
  | cons call calls ih =>
    have ha := hc call List.mem_cons_self
    have hrest := ih _ (fun c hm => hc c (List.mem_cons_of_mem call hm)) (h.keeps call s ha hs)
    rw [h.moves call s ha hs] at hrest
    simp only [trace, List.map_cons, event, hrest, h.answers call s ha hs, dispense]

theorem Refines.reply_after (h : Refines step Allowed Inv items d) (calls : List Call) (s : State)
    (hc : ∀ call ∈ calls, Allowed call) (hs : Inv s) (call : Call) (ha : Allowed call) :
    (step call (after step calls s)).1 = (d call).reply ((items s).drop (takers d calls)) := by
  rw [h.answers call _ ha (after_invariant step Allowed Inv h.keeps calls s hc hs),
    h.after_items calls s hc hs]

theorem Refines.successes (h : Refines step Allowed Inv items d) (good : Reply → Bool)
    (hgood : ∀ call s, Allowed call → Inv s →
      good (step call s).1 = ((d call).takes && !(items s).isEmpty))
    (calls : List Call) (s : State) (hc : ∀ call ∈ calls, Allowed call) (hs : Inv s) :
    (trace step calls s).countP (fun e => good e.reply) =
      min (items s).length (takers d calls) := by
  induction calls generalizing s with
  | nil => simp [trace, takers]
  | cons call calls ih =>
    have ha := hc call List.mem_cons_self
    rw [trace, List.countP_cons, ih _ (fun c hm => hc c (List.mem_cons_of_mem call hm))
      (h.keeps call s ha hs), h.moves call s ha hs, takers_cons]
    simp only [event, hgood call s ha hs, Behaviour.rest]
    by_cases ht : (d call).takes = true
    · cases items s with
      | nil => simp [ht]
      | cons item rest => simp [ht]
    · simp [ht]

end Refinement

end EirnKcp.Dispenser
