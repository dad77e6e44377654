import EirnKcp.CallRuns

/-!
# Runs with silent calls

A machine follows another one along a map of states when each of its calls is
read, in the state it is made in, as a call of the other or as no call at all.
Its runs are then runs of the other, and its events are the events there with
silent ones between them.
-/

set_option autoImplicit false

namespace EirnKcp.Stuttering
open EirnKcp.CallRuns

variable {State Call Reply State' Call' Reply' : Type}
  (step : Call → State → Reply × State) (step' : Call' → State' → Reply' × State')
  (Allowed : Call → Prop) (Inv : State → Prop) (Allowed' : Call' → Prop)
  (abs : State → State') (read : Call → State → Option Call')

structure Follows : Prop where
  keeps : ∀ call s, Allowed call → Inv s → Inv (step call s).2
  allowed : ∀ call s c, Allowed call → Inv s → read call s = some c → Allowed' c
  stays : ∀ call s, Allowed call → Inv s → read call s = none → abs (step call s).2 = abs s
  moves : ∀ call s c, Allowed call → Inv s → read call s = some c →
    abs (step call s).2 = (step' c (abs s)).2

def readCalls : List Call → State → List Call'
  | [], _ => []
  | call::calls, s => (read call s).toList ++ readCalls calls (step call s).2

def readEvent (e : Event State Call Reply) : List (Event State' Call' Reply') :=
  (read e.call e.before).toList.map (fun c => event step' c (abs e.before))

variable {step step' Allowed Inv Allowed' abs read}

theorem mem_readEvent (e : Event State Call Reply) (c : Call')
    (h : read e.call e.before = some c) :
    event step' c (abs e.before) ∈ readEvent step' abs read e := by
  simp [readEvent, h]

theorem Follows.allowed_read (h : Follows step step' Allowed Inv Allowed' abs read)
    (calls : List Call) (s : State) (hc : ∀ call ∈ calls, Allowed call) (hs : Inv s) :
    ∀ c ∈ readCalls step read calls s, Allowed' c := by
  induction calls generalizing s with
  | nil => simp [readCalls]
  | cons call calls ih =>
    have ha := hc call List.mem_cons_self
    intro c hmem
    rcases List.mem_append.mp hmem with hmem | hmem
    · exact h.allowed call s c ha hs (Option.mem_toList.mp hmem)
    · exact ih _ (fun c hm => hc c (List.mem_cons_of_mem call hm)) (h.keeps call s ha hs) c hmem

theorem Follows.after_read (h : Follows step step' Allowed Inv Allowed' abs read)
    (calls : List Call) (s : State) (hc : ∀ call ∈ calls, Allowed call) (hs : Inv s) :
    after step' (readCalls step read calls s) (abs s) = abs (after step calls s) := by
  induction calls generalizing s with
  | nil => rfl
  | cons call calls ih =>
    have ha := hc call List.mem_cons_self
    rw [after, ← ih _ (fun c hm => hc c (List.mem_cons_of_mem call hm)) (h.keeps call s ha hs)]
    cases hr : read call s with
    | none => simp only [readCalls, hr, Option.toList_none, List.nil_append,
        h.stays call s ha hs hr]
    | some c => simp only [readCalls, hr, Option.toList_some, List.cons_append, List.nil_append,
        after, h.moves call s c ha hs hr]

theorem Follows.trace_read (h : Follows step step' Allowed Inv Allowed' abs read)
    (calls : List Call) (s : State) (hc : ∀ call ∈ calls, Allowed call) (hs : Inv s) :
    trace step' (readCalls step read calls s) (abs s) =
      (trace step calls s).flatMap (readEvent step' abs read) := by
  induction calls generalizing s with
  | nil => rfl
  | cons call calls ih =>
    have ha := hc call List.mem_cons_self
    rw [trace, List.flatMap_cons, ← ih _ (fun c hm => hc c (List.mem_cons_of_mem call hm))
      (h.keeps call s ha hs)]
    cases hr : read call s with
    | none => simp only [readCalls, readEvent, event, hr, Option.toList_none, List.map_nil,
        List.nil_append, h.stays call s ha hs hr]
    | some c => simp only [readCalls, readEvent, event, hr, Option.toList_some, List.map_cons,
        List.map_nil, List.cons_append, List.nil_append, trace, h.moves call s c ha hs hr]

theorem Follows.pairwise_read (h : Follows step step' Allowed Inv Allowed' abs read)
    (calls : List Call) (s : State) (hc : ∀ call ∈ calls, Allowed call) (hs : Inv s)
    (R : Event State' Call' Reply' → Event State' Call' Reply' → Prop)
    (hR : (trace step' (readCalls step read calls s) (abs s)).Pairwise R) :
    (trace step calls s).Pairwise (fun e e' => ∀ x ∈ readEvent step' abs read e,
      ∀ y ∈ readEvent step' abs read e', R x y) := by
  rw [h.trace_read calls s hc hs] at hR
  exact (List.pairwise_flatMap.mp hR).2

/-- A machine with the states and answers of the other one follows it if its
calls are calls of the other one or without effect. -/
theorem follows_of_cases {stepB : Call' → State → Reply × State}
    {readB : Call → State → Option Call'}
    (keeps : ∀ c s, Allowed' c → Inv s → Inv (stepB c s).2)
    (cases : ∀ call s, Allowed call → Inv s →
      (∃ c, readB call s = some c ∧ Allowed' c ∧ step call s = stepB c s) ∨
        (readB call s = none ∧ (step call s).2 = s)) :
    Follows step stepB Allowed Inv Allowed' (fun s => s) readB where
  keeps call s ha hs := by
    rcases cases call s ha hs with ⟨c, _, hc, hstep⟩ | ⟨_, hstep⟩
    · rw [hstep]
      exact keeps c s hc hs
    · rw [hstep]
      exact hs
  allowed call s c ha hs hread := by
    rcases cases call s ha hs with ⟨c', hread', hc, _⟩ | ⟨hread', _⟩
    · obtain rfl := Option.some.inj (hread'.symm.trans hread)
      exact hc
    · rw [hread'] at hread
      cases hread
  stays call s ha hs hread := by
    rcases cases call s ha hs with ⟨c', hread', _, _⟩ | ⟨_, hstep⟩
    · rw [hread'] at hread
      cases hread
    · exact hstep
  moves call s c ha hs hread := by
    rcases cases call s ha hs with ⟨c', hread', _, hstep⟩ | ⟨hread', _⟩
    · obtain rfl := Option.some.inj (hread'.symm.trans hread)
      rw [hstep]
    · rw [hread'] at hread
      cases hread

end EirnKcp.Stuttering
