import EirnKcp.NetworkKeys
import EirnKcp.OsRandom

/-!
# Parties that share one generator

Key owners and receivers are created at any time of a run and draw, like the
senders, from one generator. Every such run is a run of the open network from
the receivers that will be created, with draws taken from disjoint windows of
the generator's tape.
-/

set_option autoImplicit false

namespace EirnKcp.SharedGenerator
open EirnKcp.CheckedCode EirnKcp.Params EirnKcp.Primitives EirnKcp.Kem EirnKcp.Zk
open EirnKcp.Prekey EirnKcp.Handshake EirnKcp.HandshakeSteps EirnKcp.WireFormat
open EirnKcp.ReceiverState EirnKcp.HonestHandshake EirnKcp.CallRuns EirnKcp.Interleaving
open EirnKcp.OpenNetwork EirnKcp.NetworkKeys EirnKcp.Tape EirnKcp.OsRandom EirnKcp.IdealSuite

/-- The open network with the key pairs of the senders and the number of bytes
that the generator has given out. -/
structure Process where
  used : ℕ
  owners : List (PublicKey × SecretKey)
  system : System

inductive ProcessCall where
  | keygen (params : EirnParams)
  | generate (numOpk : ℕ) (params : EirnParams)
  | receiver (index : ℕ) (call : ReceiverCall)
  | send (owner : ℕ) (mode : KcpMode) (index : ℕ)

def made {ε α : Type} : Except ε α → List α
  | .ok a => [a]
  | .error _ => []

/-- One call. An error leaves the drawn bytes spent and nothing else changed. -/
def processStep (L : Suite) (tape : ℕ → UInt8) : ProcessCall → Process → OpenReply × Process
  | .keygen params, p =>
    let (r, used) := keygenWithRng L params tape p.used
    (.idle, { p with used := used, owners := p.owners ++ made r })
  | .generate numOpk params, p =>
    let (r, used) := generatePrekeyBundleOs L numOpk params tape p.used
    (.idle, { p with
      used := used
      system := { p.system with receivers := p.system.receivers ++ made r } })
  | .receiver index call, p =>
    let (reply, system) := openStep L (.receiver index call) p.system
    (reply, { p with system := system })
  | .send owner mode index, p =>
    match p.owners[owner]?, p.system.published[index]? with
    | some (pkA, skA), some snapshot =>
      match senderHandshakeOs L skA pkA snapshot mode tape p.used with
      | (.ok (msg, key), used) =>
        let sent : Sent := ⟨skA, pkA, snapshot, mode, drawsAt tape p.used, msg, key⟩
        (.idle, { p with
          used := used
          system := { p.system with sent := p.system.sent ++ [sent] } })
      | (.error _, used) => (.idle, { p with used := used })
    | _, _ => (.idle, p)

def processStart : Process := ⟨0, [], ⟨[], [], []⟩⟩

abbrev ProcessEvent := Event Process ProcessCall OpenReply

def ProcessAllowed : ProcessCall → Prop
  | .receiver _ call => Allowed call
  | _ => True

def processAsked : ProcessCall → Option (ℕ × ReceiverCall)
  | .receiver index call => some (index, call)
  | _ => none

def openAsked : OpenCall → Option (ℕ × ReceiverCall)
  | .receiver index call => some (index, call)
  | .send _ _ _ _ _ => none

structure Answer where
  asked : Option (ℕ × ReceiverCall)
  state : Option PrekeyBundle
  reply : OpenReply

/-- What a call to a receiver that is there gets, silence included, and any
reply to another call. -/
def answer (asked : Option (ℕ × ReceiverCall)) (n : System) (reply : OpenReply) : List Answer :=
  match asked.bind (fun a => n.receivers[a.1]?), reply with
  | none, .idle => []
  | state, reply => [⟨asked, state, reply⟩]

theorem answer_unasked (n : System) : answer none n .idle = [] := rfl

theorem answer_absent (n : System) (index : ℕ) (call : ReceiverCall)
    (h : n.receivers.length ≤ index) : answer (some (index, call)) n .idle = [] := by
  have hnone : n.receivers[index]? = none := List.getElem?_eq_none h
  simp only [answer, Option.bind_some, hnone]

theorem processAsked_other (call : ProcessCall) (h : ∀ index c, call ≠ .receiver index c) :
    processAsked call = none := by
  cases call with
  | receiver index c => exact absurd rfl (h index c)
  | keygen params => rfl
  | generate numOpk params => rfl
  | send owner mode index => rfl

def openAnswers (events : List OpenEvent) : List Answer :=
  events.flatMap fun e => answer (openAsked e.call) e.before e.reply

def answers (events : List ProcessEvent) : List Answer :=
  events.flatMap fun e => answer (processAsked e.call) e.before.system e.reply

structure Reception where
  index : ℕ
  bundle : PrekeyBundle
  msg : Msg0Prime
  result : Result (FixedBytes 32)

def reception (index : ℕ) (call : ReceiverCall) (n : System) (reply : OpenReply) :
    List Reception :=
  match call, n.receivers[index]?, reply with
  | .receive msg, some b, .answered (.key r) => [⟨index, b, msg, r⟩]
  | _, _, _ => []

def openReception (e : OpenEvent) : List Reception :=
  match e.call with
  | .receiver index call => reception index call e.before e.reply
  | .send _ _ _ _ _ => []

def openReceptions (events : List OpenEvent) : List Reception := events.flatMap openReception

def receptions (events : List ProcessEvent) : List Reception :=
  events.flatMap fun e => match e.call with
    | .receiver index call => reception index call e.before.system e.reply
    | _ => []

theorem receptions_append (events events' : List ProcessEvent) :
    receptions (events ++ events') = receptions events ++ receptions events' :=
  List.flatMap_append

theorem answers_append (events events' : List ProcessEvent) :
    answers (events ++ events') = answers events ++ answers events' :=
  List.flatMap_append

def receptionOf (a : Answer) : List Reception :=
  match a.asked, a.state, a.reply with
  | some (index, .receive msg), some b, .answered (.key r) => [⟨index, b, msg, r⟩]
  | _, _, _ => []

theorem receptionOf_answer (index : ℕ) (call : ReceiverCall) (n : System) (reply : OpenReply) :
    (answer (some (index, call)) n reply).flatMap receptionOf = reception index call n reply := by
  cases hb : n.receivers[index]? with
  | none => cases call <;> cases reply <;> simp [answer, reception, receptionOf, hb]
  | some b =>
    cases reply with
    | idle => cases call <;> simp [answer, reception, receptionOf, hb]
    | answered r => cases call <;> cases r <;> simp [answer, reception, receptionOf, hb]

theorem receptionOf_unasked (n : System) (reply : OpenReply) :
    (answer none n reply).flatMap receptionOf = [] := by
  cases reply with
  | idle => rfl
  | answered r => rfl

theorem receptions_of_answers (events : List ProcessEvent) :
    (answers events).flatMap receptionOf = receptions events := by
  simp only [answers, receptions, List.flatMap_assoc]
  congr 1
  funext e
  cases hcall : e.call with
  | receiver index call => exact receptionOf_answer index call _ _
  | keygen params => exact receptionOf_unasked _ _
  | generate numOpk params => exact receptionOf_unasked _ _
  | send owner mode index => exact receptionOf_unasked _ _

theorem openReceptions_of_answers (events : List OpenEvent) :
    (openAnswers events).flatMap receptionOf = openReceptions events := by
  simp only [openAnswers, openReceptions, List.flatMap_assoc]
  congr 1
  funext e
  unfold openReception
  cases hcall : e.call with
  | receiver index call => exact receptionOf_answer index call _ _
  | send skA pkA mode draws index => exact receptionOf_unasked _ _

/-- The receivers of a system with later ones behind them. -/
def widen (n : System) (more : List PrekeyBundle) : System :=
  { n with receivers := n.receivers ++ more }

theorem widen_nil (n : System) : widen n [] = n := by
  simp [widen]

section Schedules
variable (L : Suite) (tape : ℕ → UInt8)

structure GeneratedAt (pos next : ℕ) (b : PrekeyBundle) (numOpk : ℕ) (params : EirnParams) :
    Prop where
  supported : IsSupportedParams params
  generated : generatePrekeyBundleWithParams L (fun i => bytesAt 96 tape (pos+96*i)) numOpk
    params = .ok b
  next : next = pos+96*(numOpk+2)

/-- Bundles generated one after the other, with any draws in between. -/
def Scheduled : ℕ → ℕ → List PrekeyBundle → Prop
  | pos, last, [] => pos ≤ last
  | pos, last, b::bs => ∃ first next numOpk params, pos ≤ first ∧
      GeneratedAt L tape first next b numOpk params ∧ Scheduled next last bs

variable {L tape}

theorem scheduled_append (pos mid last : ℕ) (bs cs : List PrekeyBundle)
    (h : Scheduled L tape pos mid bs) (h' : Scheduled L tape mid last cs) :
    Scheduled L tape pos last (bs ++ cs) := by
  induction bs generalizing pos with
  | nil =>
    cases cs with
    | nil => exact Nat.le_trans h h'
    | cons c cs =>
      obtain ⟨first, next, numOpk, params, hfirst, hgen, hrest⟩ := h'
      exact ⟨first, next, numOpk, params, Nat.le_trans h hfirst, hgen, hrest⟩
  | cons b bs ih =>
    obtain ⟨first, next, numOpk, params, hfirst, hgen, hrest⟩ := h
    exact ⟨first, next, numOpk, params, hfirst, hgen, ih next hrest⟩

theorem scheduled_le (pos last : ℕ) (bs : List PrekeyBundle) (h : Scheduled L tape pos last bs) :
    pos ≤ last := by
  induction bs generalizing pos with
  | nil => exact h
  | cons b bs ih =>
    obtain ⟨first, next, numOpk, params, hfirst, hgen, hrest⟩ := h
    have hlast := ih next hrest
    have hnext := hgen.next
    omega

theorem scheduled_mem (pos last : ℕ) (bs : List PrekeyBundle) (h : Scheduled L tape pos last bs)
    (b : PrekeyBundle) (hb : b ∈ bs) : ∃ first next numOpk params, pos ≤ first ∧ next ≤ last ∧
      GeneratedAt L tape first next b numOpk params := by
  induction bs generalizing pos with
  | nil => cases hb
  | cons c bs ih =>
    obtain ⟨first, next, numOpk, params, hfirst, hgen, hrest⟩ := h
    rcases List.mem_cons.mp hb with rfl | hb
    · exact ⟨first, next, numOpk, params, hfirst, scheduled_le next last bs hrest, hgen⟩
    · obtain ⟨first', next', numOpk', params', hfirst', hlast, hgen'⟩ := ih next hrest hb
      have hnext := hgen.next
      exact ⟨first', next', numOpk', params', by omega, hlast, hgen'⟩

theorem scheduled_generates (pos last : ℕ) (bs : List PrekeyBundle)
    (h : Scheduled L tape pos last bs) : Generates L bs := by
  intro b hb
  obtain ⟨first, next, numOpk, params, _, _, hgen⟩ := scheduled_mem pos last bs h b hb
  exact ⟨params, _, numOpk, hgen.supported, hgen.generated⟩

end Schedules

section Widening
variable {L : Suite}

theorem receiver_widen (n : System) (more : List PrekeyBundle) (index : ℕ) (call : ReceiverCall)
    (h : index < n.receivers.length) :
    openStep L (.receiver index call) (widen n more) =
      ((openStep L (.receiver index call) n).1,
        widen (openStep L (.receiver index call) n).2 more) := by
  have hget : (n.receivers ++ more)[index]? = n.receivers[index]? := List.getElem?_append_left h
  have hsome : n.receivers[index]? = some n.receivers[index] := List.getElem?_eq_getElem h
  simp only [openStep, widen, hget, hsome, List.set_append_left _ _ h]

theorem answer_widen (n : System) (more : List PrekeyBundle) (index : ℕ) (call : ReceiverCall)
    (reply : OpenReply) (h : index < n.receivers.length) :
    answer (some (index, call)) (widen n more) reply = answer (some (index, call)) n reply := by
  have hget : (n.receivers ++ more)[index]? = n.receivers[index]? := List.getElem?_append_left h
  simp only [answer, widen, Option.bind_some, hget]

theorem send_widen (n : System) (more : List PrekeyBundle) (skA : SecretKey) (pkA : PublicKey)
    (mode : KcpMode) (draws : SenderDraws) (index : ℕ) :
    openStep L (.send skA pkA mode draws index) (widen n more) =
      ((openStep L (.send skA pkA mode draws index) n).1,
        widen (openStep L (.send skA pkA mode draws index) n).2 more) := by
  cases hp : n.published[index]? with
  | none => simp only [openStep, widen, hp]
  | some snapshot =>
    cases hr : senderCall L mode skA pkA snapshot draws with
    | error e => simp only [openStep, widen, hp, hr]
    | ok r => simp only [openStep, widen, hp, hr]

theorem receiver_absent (n : System) (index : ℕ) (call : ReceiverCall)
    (h : n.receivers.length ≤ index) : openStep L (.receiver index call) n = (.idle, n) := by
  have hnone : n.receivers[index]? = none := List.getElem?_eq_none h
  simp only [openStep, hnone]

end Widening

section Simulation
variable {L : Suite} {tape : ℕ → UInt8}

/-- The messages were built from windows of the tape that do not overlap. -/
def SentFrom (tape : ℕ → UInt8) (used : ℕ) (sent : List Sent) : Prop :=
  ∃ starts : List ℕ, sent.map Sent.draws = starts.map (drawsAt tape) ∧
    starts.Pairwise (fun pos pos' => pos+224 ≤ pos') ∧ ∀ pos ∈ starts, pos+224 ≤ used

theorem sentFrom_later {used used' : ℕ} {sent : List Sent} (h : SentFrom tape used sent)
    (hused : used ≤ used') : SentFrom tape used' sent := by
  obtain ⟨starts, hdraws, hpair, hlast⟩ := h
  exact ⟨starts, hdraws, hpair, fun pos hpos => Nat.le_trans (hlast pos hpos) hused⟩

theorem sentFrom_append {used : ℕ} {sent : List Sent} (h : SentFrom tape used sent) (s : Sent)
    (hs : s.draws = drawsAt tape used) : SentFrom tape (used+224) (sent ++ [s]) := by
  obtain ⟨starts, hdraws, hpair, hlast⟩ := h
  refine ⟨starts ++ [used], ?_, ?_, ?_⟩
  · simp only [List.map_append, hdraws, List.map_cons, List.map_nil, hs]
  · apply List.pairwise_append.mpr
    refine ⟨hpair, List.pairwise_singleton _ _, ?_⟩
    intro pos hpos pos' hpos'
    obtain rfl := List.mem_singleton.mp hpos'
    exact hlast pos hpos
  · intro pos hpos
    rcases List.mem_append.mp hpos with hpos | hpos
    · have hpos' := hlast pos hpos
      omega
    · obtain rfl := List.mem_singleton.mp hpos
      exact Nat.le_refl _

structure ProcessInv (L : Suite) (tape : ℕ → UInt8) (p : Process) : Prop where
  owners : ∀ pair ∈ p.owners, ∃ params, KeyPair L params pair.1 pair.2
  receivers : ∀ b ∈ p.system.receivers, ∃ params, BundleInv L params b
  sent : SentFrom tape p.used p.system.sent

theorem processInv_start : ProcessInv L tape processStart where
  owners := by simp [processStart]
  receivers := by simp [processStart]
  sent := ⟨[], rfl, List.Pairwise.nil, by simp⟩

theorem receiver_keeps_sent (n : System) (index : ℕ) (call : ReceiverCall) :
    (openStep L (.receiver index call) n).2.sent = n.sent := by
  cases hb : n.receivers[index]? with
  | none => simp only [openStep, hb]
  | some b => simp only [openStep, hb]

theorem supported_of_generated {drawn : ℕ → FixedBytes 96} {numOpk : ℕ} {params : EirnParams}
    {b : PrekeyBundle} (h : generatePrekeyBundleWithParams L drawn numOpk params = .ok b) :
    IsSupportedParams params := by
  rw [generatePrekeyBundleWithParams, CheckedCode.bind_ok_iff] at h
  obtain ⟨⟨pk, sk⟩, hkey, _⟩ := h
  exact (KeyLaws.generated_of_keygen L _ params pk sk hkey).supported

/-- What a call can do: only draw, create a receiver, ask one, or send. -/
inductive Stepped (L : Suite) (tape : ℕ → UInt8) (p : Process) :
    ProcessCall → OpenReply × Process → Prop where
  | drew (call : ProcessCall) (hcall : ∀ index c, call ≠ .receiver index c) (used : ℕ)
      (hused : p.used ≤ used) (pairs : List (PublicKey × SecretKey))
      (hpairs : ∀ pair ∈ pairs, ∃ params, KeyPair L params pair.1 pair.2) :
    Stepped L tape p call (.idle, { p with used := used, owners := p.owners ++ pairs })
  | created (numOpk : ℕ) (params : EirnParams) (used : ℕ) (b : PrekeyBundle)
      (h : GeneratedAt L tape p.used used b numOpk params) :
    Stepped L tape p (.generate numOpk params) (.idle, { p with
      used := used
      system := { p.system with receivers := p.system.receivers ++ [b] } })
  | answered (index : ℕ) (call : ReceiverCall) :
    Stepped L tape p (.receiver index call)
      ((openStep L (.receiver index call) p.system).1,
        { p with system := (openStep L (.receiver index call) p.system).2 })
  | sent (owner index : ℕ) (s : Sent) (howner : (s.pkA, s.skA) ∈ p.owners)
      (hsnap : p.system.published[index]? = some s.snapshot)
      (hdraws : s.draws = drawsAt tape p.used)
      (h : senderCall L s.mode s.skA s.pkA s.snapshot s.draws = .ok (s.msg, s.key)) :
    Stepped L tape p (.send owner s.mode index) (.idle, { p with
      used := p.used+224
      system := { p.system with sent := p.system.sent ++ [s] } })

theorem keygen_cases (params : EirnParams) (p : Process) :
    Stepped L tape p (.keygen params) (processStep L tape (.keygen params) p) := by
  cases hr : keygenWithRng L params tape p.used with
  | mk r used =>
    have hused := (keygenWithRng_causal L params).advances tape p.used
    rw [hr] at hused
    simp only [processStep, hr]
    apply Stepped.drew _ (by simp) used hused
    intro pair hpair
    cases r with
    | error e => cases hpair
    | ok key =>
      obtain rfl := List.mem_singleton.mp hpair
      exact ⟨params, _, congrArg Prod.fst hr⟩

theorem generate_cases (numOpk : ℕ) (params : EirnParams) (p : Process) :
    Stepped L tape p (.generate numOpk params)
      (processStep L tape (.generate numOpk params) p) := by
  cases hr : generatePrekeyBundleOs L numOpk params tape p.used with
  | mk r used =>
    have hused := (generatePrekeyBundleOs_causal L numOpk params).advances tape p.used
    have hresult := generatePrekeyBundleOs_result L tape p.used numOpk params
    rw [hr] at hused hresult
    cases r with
    | error e =>
      have h : Stepped L tape p _ _ := .drew (.generate numOpk params) (by simp) used hused []
        (by simp)
      simpa only [processStep, hr, made, List.append_nil] using h
    | ok b =>
      have hcost := generatePrekeyBundleOs_costs L numOpk params tape p.used b used hr
      simp only [processStep, hr, made]
      exact .created numOpk params used b
        ⟨supported_of_generated hresult.symm, hresult.symm, hcost⟩

theorem send_cases (owner : ℕ) (mode : KcpMode) (index : ℕ) (p : Process) :
    Stepped L tape p (.send owner mode index)
      (processStep L tape (.send owner mode index) p) := by
  have hidle : ∀ used, p.used ≤ used →
      Stepped L tape p (.send owner mode index) (.idle, { p with used := used }) := by
    intro used hused
    have h : Stepped L tape p _ _ := .drew (.send owner mode index) (by simp) used hused []
      (by simp)
    simpa only [List.append_nil] using h
  cases howner : p.owners[owner]? with
  | none =>
    simp only [processStep, howner]
    exact hidle p.used (Nat.le_refl _)
  | some pair =>
    cases hsnap : p.system.published[index]? with
    | none =>
      simp only [processStep, howner, hsnap]
      exact hidle p.used (Nat.le_refl _)
    | some snapshot =>
      cases hr : senderHandshakeOs L pair.2 pair.1 snapshot mode tape p.used with
      | mk r used =>
        have hused := (senderHandshakeOs_causal L pair.2 pair.1 snapshot mode).advances tape p.used
        have hresult := senderHandshakeOs_result L tape p.used pair.2 pair.1 snapshot mode
        rw [hr] at hused hresult
        simp only [processStep, howner, hsnap, hr]
        cases r with
        | error e => exact hidle used hused
        | ok made =>
          have hcost := senderHandshakeOs_costs L pair.2 pair.1 snapshot mode tape p.used made
            used hr
          subst hcost
          rw [← senderCall_eq] at hresult
          exact .sent owner index ⟨pair.2, pair.1, snapshot, mode, drawsAt tape p.used, made.1,
            made.2⟩ (List.mem_of_getElem? howner) hsnap rfl hresult.symm

theorem processStep_cases (call : ProcessCall) (p : Process) :
    Stepped L tape p call (processStep L tape call p) := by
  cases call with
  | keygen params => exact keygen_cases params p
  | generate numOpk params => exact generate_cases numOpk params p
  | receiver index call => exact .answered index call
  | send owner mode index => exact send_cases owner mode index p

theorem processInv_step (call : ProcessCall) (p : Process) (ha : ProcessAllowed call)
    (h : ProcessInv L tape p) : ProcessInv L tape (processStep L tape call p).2 := by
  have hstep : Stepped L tape p call _ := processStep_cases call p
  generalize processStep L tape call p = r at hstep ⊢
  cases hstep with
  | drew call hcall used hused pairs hpairs =>
    refine ⟨?_, h.receivers, sentFrom_later h.sent hused⟩
    intro pair hpair
    rcases List.mem_append.mp hpair with hpair | hpair
    · exact h.owners pair hpair
    · exact hpairs pair hpair
  | created numOpk params used b hgen =>
    have hused : p.used ≤ used := by
      have hnext := hgen.next
      omega
    refine ⟨h.owners, ?_, sentFrom_later h.sent hused⟩
    intro c hc
    rcases List.mem_append.mp hc with hc | hc
    · exact h.receivers c hc
    · obtain rfl := List.mem_singleton.mp hc
      exact ⟨params, (generate_inv L params hgen.supported _ numOpk c hgen.generated).1⟩
  | answered index call =>
    refine ⟨h.owners, answered_inv p.system index call ha h.receivers, ?_⟩
    rw [receiver_keeps_sent]
    exact h.sent
  | sent owner index s howner hsnap hdraws hsend =>
    exact ⟨h.owners, h.receivers, sentFrom_append h.sent s hdraws⟩

/-- From a process that will create the receivers `fresh`, the events are those
of the open network that already has them, whatever is created later. -/
structure Simulated (L : Suite) (tape : ℕ → UInt8) (p p' : Process) (events : List ProcessEvent)
    (fresh : List PrekeyBundle) (calls : List OpenCall) : Prop where
  schedule : Scheduled L tape p.used p'.used fresh
  allowed : ∀ call ∈ calls, OpenAllowed L call
  final : ∀ more, after (openStep L) calls (widen p.system (fresh ++ more)) =
    widen p'.system more
  answered : ∀ more, openAnswers (trace (openStep L) calls (widen p.system (fresh ++ more))) =
    answers events

theorem simulated_idle {p p' : Process} {events : List ProcessEvent} (hused : p.used ≤ p'.used)
    (hsystem : p'.system = p.system) (hevents : answers events = []) :
    Simulated L tape p p' events [] [] where
  schedule := hused
  allowed := by simp
  final := by
    intro more
    rw [hsystem]
    rfl
  answered := by
    intro more
    rw [hevents]
    rfl

theorem step_simulated (call : ProcessCall) (p : Process) (ha : ProcessAllowed call)
    (h : ProcessInv L tape p) : ∃ fresh calls, Simulated L tape p (processStep L tape call p).2
      [event (processStep L tape) call p] fresh calls := by
  have hstep : Stepped L tape p call _ := processStep_cases call p
  rw [event]
  generalize processStep L tape call p = r at hstep ⊢
  cases hstep with
  | drew call hcall used hused pairs hpairs =>
    refine ⟨[], [], simulated_idle hused rfl ?_⟩
    simp only [answers, List.flatMap_cons, List.flatMap_nil, processAsked_other call hcall,
      answer_unasked, List.append_nil]
  | created numOpk params used b hgen =>
    refine ⟨[b], [], ?_, by simp, ?_, fun more => rfl⟩
    · exact ⟨p.used, used, numOpk, params, Nat.le_refl _, hgen, Nat.le_refl _⟩
    · intro more
      simp only [after, widen, List.append_assoc]
  | answered index call =>
    by_cases hindex : index < p.system.receivers.length
    · refine ⟨[], [.receiver index call], Nat.le_refl _, ?_, ?_, ?_⟩
      · intro c hmem
        obtain rfl := List.mem_singleton.mp hmem
        exact ha
      · intro more
        rw [List.nil_append, after, after, receiver_widen p.system more index call hindex]
      · intro more
        simp only [List.nil_append, trace, event, openAnswers, answers, openAsked, processAsked,
          List.flatMap_cons, List.flatMap_nil,
          receiver_widen p.system more index call hindex,
          answer_widen p.system more index call _ hindex]
    · have hsame := receiver_absent (L := L) p.system index call (by omega)
      refine ⟨[], [], simulated_idle (Nat.le_refl _) ?_ ?_⟩
      · simp only [hsame]
      · simp only [answers, List.flatMap_cons, List.flatMap_nil, processAsked, hsame,
          answer_absent p.system index call (by omega), List.append_nil]
  | sent owner index s howner hsnap hdraws hsend =>
    refine ⟨[], [.send s.skA s.pkA s.mode s.draws index], Nat.le_add_right _ _, ?_, ?_, ?_⟩
    · intro c hmem
      obtain rfl := List.mem_singleton.mp hmem
      exact h.owners _ howner
    · intro more
      rw [List.nil_append, after, after, send_widen]
      simp only [openStep, hsnap, hsend]
    · intro more
      simp only [List.nil_append, trace, event, openAnswers, answers, List.flatMap_cons,
        List.flatMap_nil, send_widen]
      simp only [openStep, hsnap, hsend, openAsked, processAsked, answer_unasked]

theorem simulated_trans {p p' p'' : Process} {events events' : List ProcessEvent}
    {fresh fresh' : List PrekeyBundle} {calls calls' : List OpenCall}
    (h : Simulated L tape p p' events fresh calls)
    (h' : Simulated L tape p' p'' events' fresh' calls') :
    Simulated L tape p p'' (events ++ events') (fresh ++ fresh') (calls ++ calls') where
  schedule := scheduled_append _ _ _ _ _ h.schedule h'.schedule
  allowed := by
    intro call hmem
    rcases List.mem_append.mp hmem with hmem | hmem
    · exact h.allowed call hmem
    · exact h'.allowed call hmem
  final := by
    intro more
    rw [after_append, List.append_assoc, h.final, h'.final]
  answered := by
    intro more
    rw [trace_append, List.append_assoc, h.final]
    simp only [openAnswers, answers, List.flatMap_append]
    exact congrArg₂ _ (h.answered _) (h'.answered more)

theorem run_simulated (calls : List ProcessCall) (p : Process)
    (hc : ∀ call ∈ calls, ProcessAllowed call) (h : ProcessInv L tape p) :
    ∃ fresh calls', Simulated L tape p (after (processStep L tape) calls p)
      (trace (processStep L tape) calls p) fresh calls' := by
  induction calls generalizing p with
  | nil => exact ⟨[], [], simulated_idle (Nat.le_refl _) rfl rfl⟩
  | cons call calls ih =>
    have ha := hc call List.mem_cons_self
    obtain ⟨fresh, first, hstep⟩ := step_simulated call p ha h
    obtain ⟨fresh', rest, hrun⟩ := ih _ (fun c hm => hc c (List.mem_cons_of_mem call hm))
      (processInv_step call p ha h)
    exact ⟨fresh ++ fresh', first ++ rest, simulated_trans hstep hrun⟩

structure NetworkRun (L : Suite) (tape : ℕ → UInt8) (calls : List ProcessCall)
    (start : List PrekeyBundle) (calls' : List OpenCall) : Prop where
  schedule : Scheduled L tape 0 (after (processStep L tape) calls processStart).used start
  allowed : ∀ call ∈ calls', OpenAllowed L call
  final : (after (processStep L tape) calls processStart).system =
    after (openStep L) calls' (openStart start)
  answered : answers (trace (processStep L tape) calls processStart) =
    openAnswers (trace (openStep L) calls' (openStart start))
  sent : SentFrom tape (after (processStep L tape) calls processStart).used
    (after (processStep L tape) calls processStart).system.sent

theorem NetworkRun.received {calls : List ProcessCall} {start : List PrekeyBundle}
    {calls' : List OpenCall} (run : NetworkRun L tape calls start calls') :
    receptions (trace (processStep L tape) calls processStart) =
      openReceptions (trace (openStep L) calls' (openStart start)) := by
  rw [← receptions_of_answers, run.answered, openReceptions_of_answers]

theorem networkRun_exists (calls : List ProcessCall) (hc : ∀ call ∈ calls, ProcessAllowed call) :
    ∃ start calls', NetworkRun L tape calls start calls' := by
  have hstart : ProcessInv L tape processStart := processInv_start
  obtain ⟨start, calls', hsim⟩ := run_simulated calls processStart hc hstart
  have hinv := after_invariant (processStep L tape) ProcessAllowed (ProcessInv L tape)
    processInv_step calls _ hc hstart
  have hfinal := hsim.final []
  have hanswered := hsim.answered []
  rw [List.append_nil] at hfinal hanswered
  rw [widen_nil] at hfinal
  exact ⟨start, calls', hsim.schedule, hsim.allowed, hfinal.symm, hanswered.symm, hinv.sent⟩

end Simulation

section OneSession
variable {L : Suite} {tape : ℕ → UInt8}

def opening : List ProcessCall :=
  [.keygen params768, .generate 1 params768, .receiver 0 .publicBundle, .send 0 .lite 0]

structure Opened (L : Suite) (tape : ℕ → UInt8) (b : PrekeyBundle) (pkA : PublicKey)
    (skA : SecretKey) (msg : Msg0Prime) (k : FixedBytes 32) : Prop where
  bundle : BundleInv L params768 b
  message : WellFormedMessage L params768 msg
  sends : senderCall L .lite skA pkA b.publicBundle (drawsAt tape 384) = .ok (msg, k)
  receives : receiverHandshake L b msg = (.ok k, popped b)
  state : after (processStep L tape) opening processStart =
    ⟨608, [(pkA, skA)], ⟨[b], [b.publicBundle],
      [⟨skA, pkA, b.publicBundle, .lite, drawsAt tape 384, msg, k⟩]⟩⟩
  answers : answers (trace (processStep L tape) opening processStart) =
    [⟨some (0, .publicBundle), some b, .answered (.bundle b.publicBundle)⟩]

theorem opened_exists (hl : L.Lawful) : ∃ b pkA skA msg k, Opened L tape b pkA skA msg k := by
  obtain ⟨pkA, skA, hkey, hA⟩ := keygen_isOk L params768 supported768 (bytesAt 96 tape 0)
  obtain ⟨b, hb, hinv, hlen⟩ := generate_ok L params768 supported768
    (fun i => bytesAt 96 tape (96+96*i)) 1
  have hpool : b.oneTimePrekeys ≠ [] := List.ne_nil_of_length_eq_add_one hlen
  obtain ⟨msg, k, hsend, hw, _, hr⟩ := exchange_ok hl hA hinv hpool .lite (drawsAt tape 384)
  have hstep1 : keygenWithRng L params768 tape 0 = (.ok (pkA, skA), 96) := by
    rw [keygenWithRng_run, hkey]
  have hstep2 : generatePrekeyBundleOs L 1 params768 tape 96 = (.ok b, 384) :=
    (generatePrekeyBundleOs_costs L 1 params768).run tape 96 b
      ((generatePrekeyBundleOs_result L tape 96 1 params768).trans hb)
  have hstep3 : senderHandshakeOs L skA pkA b.publicBundle .lite tape 384 =
      (.ok (msg, k), 608) :=
    (senderHandshakeOs_costs L skA pkA b.publicBundle .lite).run tape 384 (msg, k)
      ((senderHandshakeOs_result L tape 384 skA pkA b.publicBundle .lite).trans hsend)
  refine ⟨b, pkA, skA, msg, k, hinv, hw, by rw [senderCall_eq, hsend], hr, ?_, ?_⟩
  · simp [opening, processStart, after, processStep, openStep, receiverStep, publishedBy, made,
      hstep1, hstep2, hstep3]
  · simp [opening, processStart, answers, trace, event, processAsked, answer, processStep,
      openStep, receiverStep, publishedBy, made, hstep1, hstep2, hstep3]

def oneSession (msg : Msg0Prime) : List ProcessCall := opening ++ [.receiver 0 (.receive msg)]

theorem oneSession_allowed {msg : Msg0Prime} (hc : Constructed msg) :
    ∀ call ∈ oneSession msg, ProcessAllowed call := by
  simp [oneSession, opening, ProcessAllowed, Allowed, hc]

structure OneSession (L : Suite) (tape : ℕ → UInt8) (b : PrekeyBundle) (pkA : PublicKey)
    (skA : SecretKey) (msg : Msg0Prime) (k : FixedBytes 32) : Prop where
  bundle : BundleInv L params768 b
  constructed : Constructed msg
  sends : senderCall L .lite skA pkA b.publicBundle (drawsAt tape 384) = .ok (msg, k)
  used : (after (processStep L tape) (oneSession msg) processStart).used = 608
  sent : (after (processStep L tape) (oneSession msg) processStart).system.sent =
    [⟨skA, pkA, b.publicBundle, .lite, drawsAt tape 384, msg, k⟩]
  received : receptions (trace (processStep L tape) (oneSession msg) processStart) =
    [⟨0, b, msg, .ok k⟩]
  answered : answers (trace (processStep L tape) (oneSession msg) processStart) =
    [⟨some (0, .publicBundle), some b, .answered (.bundle b.publicBundle)⟩,
      ⟨some (0, .receive msg), some b, .answered (.key (.ok k))⟩]

theorem oneSession_exists (hl : L.Lawful) :
    ∃ b pkA skA msg k, OneSession L tape b pkA skA msg k := by
  have hopened : ∃ b pkA skA msg k, Opened L tape b pkA skA msg k := opened_exists hl
  obtain ⟨b, pkA, skA, msg, k, h⟩ := hopened
  have hsilent : receptions (trace (processStep L tape) opening processStart) = [] := rfl
  refine ⟨b, pkA, skA, msg, k, h.bundle,
    (h.message.constructed L params768 supported768).1, h.sends, ?_, ?_, ?_, ?_⟩
  · rw [oneSession, after_append, h.state]
    rfl
  · rw [oneSession, after_append, h.state]
    rfl
  · rw [oneSession, trace_append, h.state, receptions_append, hsilent]
    simp [receptions, trace, event, reception, processStep, openStep, receiverStep, h.receives]
  · rw [oneSession, trace_append, h.state, answers_append, h.answers]
    simp [answers, trace, event, processAsked, answer, processStep, openStep, receiverStep,
      h.receives]

end OneSession

/-- Every run of parties that share a generator is a run of the open network
from the receivers it creates: the same final system, the same replies to the
same calls in the same states, receivers generated one after the other from the
tape and senders that drew windows of it which do not overlap. -/
theorem shared_generator_refines (L : Suite) (tape : ℕ → UInt8) (calls : List ProcessCall)
    (hc : ∀ call ∈ calls, ProcessAllowed call) :
    let final := after (processStep L tape) calls processStart
    ∃ start calls', Scheduled L tape 0 final.used start ∧
      (∀ call ∈ calls', OpenAllowed L call) ∧
      final.system = after (openStep L) calls' (openStart start) ∧
      answers (trace (processStep L tape) calls processStart) =
        openAnswers (trace (openStep L) calls' (openStart start)) ∧
      SentFrom tape final.used final.system.sent := by
  have hrun : ∃ start calls', NetworkRun L tape calls start calls' := networkRun_exists calls hc
  obtain ⟨start, calls', run⟩ := hrun
  exact ⟨start, calls', run.schedule, run.allowed, run.final, run.answered, run.sent⟩

theorem shared_generator_refines_one_session :
    ∃ b msg k, let calls := oneSession msg
      let final := after (processStep idealSuite fun _ => 0) calls processStart
      answers (trace (processStep idealSuite fun _ => 0) calls processStart) =
        [⟨some (0, .publicBundle), some b, .answered (.bundle b.publicBundle)⟩,
          ⟨some (0, .receive msg), some b, .answered (.key (.ok k))⟩] ∧
      ∃ start calls', Scheduled idealSuite (fun _ => 0) 0 final.used start ∧
        (∀ call ∈ calls', OpenAllowed idealSuite call) ∧
        final.system = after (openStep idealSuite) calls' (openStart start) ∧
        answers (trace (processStep idealSuite fun _ => 0) calls processStart) =
          openAnswers (trace (openStep idealSuite) calls' (openStart start)) ∧
        SentFrom (fun _ => 0) final.used final.system.sent := by
  have hrun : ∃ b pkA skA msg k, OneSession idealSuite (fun _ => 0) b pkA skA msg k :=
    oneSession_exists idealSuite_lawful
  obtain ⟨b, pkA, skA, msg, k, r⟩ := hrun
  exact ⟨b, msg, k, r.answered, shared_generator_refines idealSuite (fun _ => 0) (oneSession msg)
    (oneSession_allowed r.constructed)⟩

end EirnKcp.SharedGenerator
