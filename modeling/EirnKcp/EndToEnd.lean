import EirnKcp.FreshSessions
import EirnKcp.WireNetwork

/-!
# Parties that share one generator and exchange bytes

Key owners and receivers are created at any time, every draw comes from one
generator, and receivers are handed byte strings of any origin. A run is a run
of the parties that exchange messages, with silent deliveries in between.
Nothing is asked of the calls: what a receiver can agree on with a sender is
fixed by the bytes and by its own state.
-/

set_option autoImplicit false

namespace EirnKcp.EndToEnd
open EirnKcp.CheckedCode EirnKcp.Params EirnKcp.Primitives EirnKcp.Kem EirnKcp.Zk EirnKcp.Prekey
open EirnKcp.Handshake EirnKcp.HandshakeSteps EirnKcp.WireFormat EirnKcp.ReceiverState
open EirnKcp.HonestHandshake EirnKcp.SessionBinding EirnKcp.CallRuns EirnKcp.Interleaving
open EirnKcp.OpenNetwork EirnKcp.NetworkKeys EirnKcp.Stuttering EirnKcp.WireEndpoint
open EirnKcp.OsRandom EirnKcp.SharedGenerator EirnKcp.FreshSessions EirnKcp.WireNetwork
open EirnKcp.IdealSuite

inductive ByteCall where
  | keygen (params : EirnParams)
  | generate (numOpk : ℕ) (params : EirnParams)
  | publish (index : ℕ)
  | consume (index : ℕ)
  | deliver (index : ℕ) (data : Bytes)
  | send (owner : ℕ) (mode : KcpMode) (index : ℕ)

def byteStep (L : Suite) (tape : ℕ → UInt8) : ByteCall → Process → OpenReply × Process
  | .keygen params, p => processStep L tape (.keygen params) p
  | .generate numOpk params, p => processStep L tape (.generate numOpk params) p
  | .publish index, p => processStep L tape (.receiver index .publicBundle) p
  | .consume index, p => processStep L tape (.receiver index .consume) p
  | .deliver index data, p =>
    let (reply, system) := wireStep L (.deliver index data) p.system
    (reply, { p with system := system })
  | .send owner mode index, p => processStep L tape (.send owner mode index) p

abbrev ByteEvent := Event Process ByteCall OpenReply

def parsedProcessCall (L : Suite) : ByteCall → Process → Option ProcessCall
  | .keygen params, _ => some (.keygen params)
  | .generate numOpk params, _ => some (.generate numOpk params)
  | .publish index, _ => some (.receiver index .publicBundle)
  | .consume index, _ => some (.receiver index .consume)
  | .deliver index data, p =>
    (parsedMessage L index data p.system).map (fun msg => .receiver index (.receive msg))
  | .send owner mode index, _ => some (.send owner mode index)

/-- Bytes that reached a receiver, with the receiver's state and its answer. -/
structure ByteReception where
  index : ℕ
  bundle : PrekeyBundle
  data : Bytes
  result : Result (FixedBytes 32)

def byteReception (e : ByteEvent) : List ByteReception :=
  match e.call with
  | .deliver index data =>
    match e.before.system.receivers[index]?, e.reply with
    | some b, .answered (.key r) => [⟨index, b, data, r⟩]
    | _, _ => []
  | _ => []

def byteReceptions (events : List ByteEvent) : List ByteReception := events.flatMap byteReception

def parsedReception (L : Suite) (r : ByteReception) : List Reception :=
  match Msg0Prime.fromBytesWithParams L r.data r.bundle.identityPk.params with
  | .ok msg => [⟨r.index, r.bundle, msg, r.result⟩]
  | .error _ => []

/-- What SHAKE256 hashes for the keys of the senders and of the answers. -/
def byteInputs (L : Suite) (log : List ByteReception) (sent : List Sent) : Set Bytes :=
  logInputs L (log.flatMap (parsedReception L)) sent

section Steps
variable {L : Suite} {tape : ℕ → UInt8}

theorem byteStep_cases (call : ByteCall) (p : Process) (h : ProcessInv L tape p) :
    (∃ c, parsedProcessCall L call p = some c ∧ ProcessAllowed c ∧
      byteStep L tape call p = processStep L tape c p) ∨
      (parsedProcessCall L call p = none ∧ (byteStep L tape call p).2 = p) := by
  cases call with
  | keygen params => exact Or.inl ⟨_, rfl, trivial, rfl⟩
  | generate numOpk params => exact Or.inl ⟨_, rfl, trivial, rfl⟩
  | publish index => exact Or.inl ⟨_, rfl, trivial, rfl⟩
  | consume index => exact Or.inl ⟨_, rfl, trivial, rfl⟩
  | send owner mode index => exact Or.inl ⟨_, rfl, trivial, rfl⟩
  | deliver index data =>
    simp only [parsedProcessCall, byteStep]
    cases hparse : parsedMessage L index data p.system with
    | none => exact Or.inr ⟨rfl, by rw [deliver_silent hparse]⟩
    | some msg =>
      refine Or.inl ⟨_, rfl, parsed_constructed h.receivers hparse, ?_⟩
      rw [deliver_parsed hparse]
      rfl

theorem byte_follows : Follows (byteStep L tape) (processStep L tape) (fun _ => True)
    (ProcessInv L tape) ProcessAllowed (fun p => p) (parsedProcessCall L) :=
  follows_of_cases processInv_step (fun call p _ h => byteStep_cases call p h)

theorem mem_byteReception (e : ByteEvent) (r : ByteReception) :
    r ∈ byteReception e ↔ e.call = .deliver r.index r.data ∧
      e.before.system.receivers[r.index]? = some r.bundle ∧
      e.reply = .answered (.key r.result) := by
  unfold byteReception
  constructor
  · intro h
    split at h
    · next index data hcall =>
      split at h
      · next b result hb hreply =>
        obtain rfl := List.mem_singleton.mp h
        exact ⟨hcall, hb, hreply⟩
      · cases h
    · cases h
  · rintro ⟨hcall, hb, hreply⟩
    simp only [hcall, hb, hreply, List.mem_singleton]

theorem deliver_reply (index : ℕ) (data : Bytes) (p : Process) (b : PrekeyBundle)
    (hb : p.system.receivers[index]? = some b) :
    (byteStep L tape (.deliver index data) p).1 =
      .answered (.key (receiveBytes L data b).1) := by
  simp only [byteStep, wireStep, hb]

theorem reception_parsed (call : ByteCall) (p : Process) :
    receptions (readEvent (processStep L tape) (fun p => p) (parsedProcessCall L)
        (event (byteStep L tape) call p)) =
      (byteReception (event (byteStep L tape) call p)).flatMap (parsedReception L) := by
  cases call with
  | keygen params => rfl
  | generate numOpk params => rfl
  | publish index => rfl
  | consume index => rfl
  | send owner mode index => rfl
  | deliver index data =>
    cases hb : p.system.receivers[index]? with
    | none =>
      simp [readEvent, event, parsedProcessCall, parsedMessage, byteReception, receptions, hb]
    | some b =>
      have hreply : (byteStep L tape (.deliver index data) p).1 =
          .answered (.key (receiveBytes L data b).1) := deliver_reply index data p b hb
      cases hparse : Msg0Prime.fromBytesWithParams L data b.identityPk.params with
      | error e =>
        simp [readEvent, event, parsedProcessCall, parsedMessage, byteReception, receptions, hb,
          parsedReception, hreply, hparse, Except.toOption]
      | ok msg =>
        simp [readEvent, event, parsedProcessCall, parsedMessage, byteReception, receptions, hb,
          parsedReception, reception, hreply, hparse, Except.toOption, processStep, openStep,
          receiverStep, receiveBytes]

end Steps

section Runs
variable {L : Suite} {tape : ℕ → UInt8} {calls : List ByteCall}

def parsedProcessCalls (L : Suite) (tape : ℕ → UInt8) (calls : List ByteCall) :
    List ProcessCall :=
  readCalls (byteStep L tape) (parsedProcessCall L) calls processStart

theorem parsed_allowed : ∀ c ∈ parsedProcessCalls L tape calls, ProcessAllowed c :=
  byte_follows.allowed_read calls _ (fun _ _ => trivial) processInv_start

theorem parsed_final : after (processStep L tape) (parsedProcessCalls L tape calls) processStart =
    after (byteStep L tape) calls processStart :=
  byte_follows.after_read calls _ (fun _ _ => trivial) processInv_start

theorem byte_event (e : ByteEvent) (he : e ∈ trace (byteStep L tape) calls processStart) :
    e = event (byteStep L tape) e.call e.before := by
  have hkeeps : ∀ call p, True → ProcessInv L tape p →
      ProcessInv L tape (byteStep L tape call p).2 := byte_follows.keeps
  exact (trace_invariant (byteStep L tape) (fun _ => True) (ProcessInv L tape) hkeeps calls _
    (fun _ _ => trivial) processInv_start e he).2.2

theorem parsed_received :
    receptions (trace (processStep L tape) (parsedProcessCalls L tape calls) processStart) =
      (byteReceptions (trace (byteStep L tape) calls processStart)).flatMap
        (parsedReception L) := by
  have htrace : trace (processStep L tape) (parsedProcessCalls L tape calls) processStart = _ :=
    byte_follows.trace_read calls _ (fun _ _ => trivial) processInv_start
  rw [htrace, receptions, byteReceptions, List.flatMap_assoc, List.flatMap_assoc]
  apply List.flatMap_congr
  intro e he
  rw [byte_event e he]
  exact reception_parsed e.call e.before

theorem answered_parsed (r : ByteReception)
    (hr : r ∈ byteReceptions (trace (byteStep L tape) calls processStart)) (k : FixedBytes 32)
    (hk : r.result = .ok k) :
    ∃ msg, Msg0Prime.fromBytesWithParams L r.data r.bundle.identityPk.params = .ok msg := by
  obtain ⟨e, he, hmem⟩ := List.mem_flatMap.mp hr
  obtain ⟨hcall, hb, hreply⟩ := (mem_byteReception e r).mp hmem
  rw [byte_event e he, event, hcall, deliver_reply r.index r.data e.before r.bundle hb, hk,
    receiveBytes] at hreply
  cases hparse : Msg0Prime.fromBytesWithParams L r.data r.bundle.identityPk.params with
  | error e => simp [hparse] at hreply
  | ok msg => exact ⟨msg, rfl⟩

theorem mem_parsedReception (r : ByteReception) (msg : Msg0Prime)
    (h : Msg0Prime.fromBytesWithParams L r.data r.bundle.identityPk.params = .ok msg) :
    ⟨r.index, r.bundle, msg, r.result⟩ ∈ parsedReception L r := by
  simp only [parsedReception, h, List.mem_singleton]

theorem byteRun_exists
    (hseeds : SeedsDiffer L tape (after (byteStep L tape) calls processStart).used)
    (hinj : Set.InjOn (fun x => L.shake256 x 32)
      (byteInputs L (byteReceptions (trace (byteStep L tape) calls processStart))
        (after (byteStep L tape) calls processStart).system.sent)) :
    ∃ start calls', FreshRun L tape (parsedProcessCalls L tape calls) start calls' := by
  apply freshRun_exists parsed_allowed
  · rw [parsed_final]
    exact hseeds
  · rw [parsed_received, parsed_final]
    exact hinj

theorem byte_key_iff (hl : L.Lawful) (hrej : L.Rejecting) {start : List PrekeyBundle}
    {calls' : List OpenCall} (run : FreshRun L tape (parsedProcessCalls L tape calls) start calls')
    (r : ByteReception) (hr : r ∈ byteReceptions (trace (byteStep L tape) calls processStart))
    (s : Sent) (hs : s ∈ (after (byteStep L tape) calls processStart).system.sent) :
    r.result = .ok s.key ↔
      ∃ msg, Msg0Prime.fromBytesWithParams L r.data r.bundle.identityPk.params = .ok msg ∧
        MatchingSession s r.bundle msg ∧ ProofAccepted L r.bundle msg := by
  rw [← parsed_final] at hs
  have hiff : ∀ msg, Msg0Prime.fromBytesWithParams L r.data r.bundle.identityPk.params = .ok msg →
      (r.result = .ok s.key ↔ MatchingSession s r.bundle msg ∧ ProofAccepted L r.bundle msg) := by
    intro msg hparse
    apply run.key_iff hl hrej ⟨r.index, r.bundle, msg, r.result⟩ _ s hs
    rw [parsed_received]
    exact List.mem_flatMap.mpr ⟨r, hr, mem_parsedReception r msg hparse⟩
  constructor
  · intro hk
    obtain ⟨msg, hparse⟩ := answered_parsed r hr s.key hk
    exact ⟨msg, hparse, (hiff msg hparse).mp hk⟩
  · rintro ⟨msg, hparse, haccepted⟩
    exact (hiff msg hparse).mpr haccepted

theorem byte_answered_once (hl : L.Lawful) (hrej : L.Rejecting) {start : List PrekeyBundle}
    {calls' : List OpenCall}
    (run : FreshRun L tape (parsedProcessCalls L tape calls) start calls') :
    (byteReceptions (trace (byteStep L tape) calls processStart)).Pairwise
      (fun r r' => ∀ s ∈ (after (byteStep L tape) calls processStart).system.sent,
        r.result = .ok s.key → r'.result ≠ .ok s.key) := by
  have honce := run.answered_once hl hrej
  rw [parsed_received, parsed_final] at honce
  apply (List.pairwise_flatMap.mp honce).2.imp_of_mem
  intro r r' hr hr' hne s hs hk hk'
  obtain ⟨msg, hparse⟩ := answered_parsed r hr s.key hk
  obtain ⟨msg', hparse'⟩ := answered_parsed r' hr' s.key hk'
  exact hne _ (mem_parsedReception r msg hparse) _ (mem_parsedReception r' msg' hparse') s hs hk hk'

end Runs

section Witness
variable {L : Suite} {tape : ℕ → UInt8} {b : PrekeyBundle} {pkA : PublicKey} {skA : SecretKey}
  {msg : Msg0Prime} {k : FixedBytes 32} {data : Bytes}

def byteOpening : List ByteCall :=
  [.keygen params768, .generate 1 params768, .publish 0, .send 0 .lite 0]

def byteSession (data : Bytes) : List ByteCall := byteOpening ++ [.deliver 0 data]

theorem byteSession_state (h : Opened L tape b pkA skA msg k) :
    after (byteStep L tape) byteOpening processStart =
      ⟨608, [(pkA, skA)], ⟨[b], [b.publicBundle],
        [⟨skA, pkA, b.publicBundle, .lite, drawsAt tape 384, msg, k⟩]⟩⟩ := by
  rw [← h.state]
  rfl

theorem byteSession_log (h : Opened L tape b pkA skA msg k)
    (hparse : Msg0Prime.fromBytesWithParams L data b.identityPk.params = .ok msg) :
    byteReceptions (trace (byteStep L tape) (byteSession data) processStart) =
      [⟨0, b, data, .ok k⟩] := by
  have hsilent : byteReceptions (trace (byteStep L tape) byteOpening processStart) = [] := rfl
  rw [byteReceptions] at hsilent
  rw [byteSession, trace_append, byteSession_state h, byteReceptions, List.flatMap_append, hsilent]
  simp [trace, event, byteReception, byteStep, wireStep, receiveBytes, hparse, h.receives]

end Witness

end EirnKcp.EndToEnd
