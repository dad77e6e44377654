import EirnKcp.NetworkKeys
import EirnKcp.Stuttering
import EirnKcp.WireEndpoint
import EirnKcp.WireTampering

/-!
# An open network of byte strings

The adversary delivers byte strings, and each receiver parses them for its own
profile. Bytes that do not parse are silent, so every run is a run of the open
network of messages. A receiver ends with a sender's key exactly on bytes that
keep the body of the sender's message and carry an accepted proof, at one
delivery of the run; in KCP-Lite these are the bytes that were sent.
-/

set_option autoImplicit false

namespace EirnKcp.WireNetwork
open EirnKcp.CheckedCode EirnKcp.Params EirnKcp.Primitives EirnKcp.Kem EirnKcp.Zk EirnKcp.Prekey
open EirnKcp.Handshake EirnKcp.HandshakeSteps EirnKcp.WireFormat EirnKcp.ReceiverState
open EirnKcp.HonestHandshake EirnKcp.SessionBinding EirnKcp.ModeBinding EirnKcp.CallRuns
open EirnKcp.Interleaving EirnKcp.OpenNetwork EirnKcp.NetworkKeys EirnKcp.Stuttering
open EirnKcp.WireEndpoint EirnKcp.WireTampering EirnKcp.IdealSuite

inductive WireCall where
  | publish (index : ℕ)
  | consume (index : ℕ)
  | deliver (index : ℕ) (data : Bytes)
  | send (skA : SecretKey) (pkA : PublicKey) (mode : KcpMode) (draws : SenderDraws) (index : ℕ)

def wireStep (L : Suite) : WireCall → System → OpenReply × System
  | .publish index, n => openStep L (.receiver index .publicBundle) n
  | .consume index, n => openStep L (.receiver index .consume) n
  | .deliver index data, n =>
    match n.receivers[index]? with
    | none => (.idle, n)
    | some b =>
      (.answered (.key (receiveBytes L data b).1),
        { n with receivers := n.receivers.set index (receiveBytes L data b).2 })
  | .send skA pkA mode draws index, n => openStep L (.send skA pkA mode draws index) n

abbrev WireEvent := Event System WireCall OpenReply

def WireAllowed (L : Suite) : WireCall → Prop
  | .send skA pkA _ _ _ => ∃ params, KeyPair L params pkA skA
  | _ => True

def parsedMessage (L : Suite) (index : ℕ) (data : Bytes) (n : System) : Option Msg0Prime :=
  match n.receivers[index]? with
  | none => none
  | some b => (Msg0Prime.fromBytesWithParams L data b.identityPk.params).toOption

/-- The call of the network of messages that a call is, in a given state. -/
def parsedCall (L : Suite) : WireCall → System → Option OpenCall
  | .publish index, _ => some (.receiver index .publicBundle)
  | .consume index, _ => some (.receiver index .consume)
  | .deliver index data, n =>
    (parsedMessage L index data n).map (fun msg => .receiver index (.receive msg))
  | .send skA pkA mode draws index, _ => some (.send skA pkA mode draws index)

structure WireDelivers (e : WireEvent) (index : ℕ) (b : PrekeyBundle) (data : Bytes) :
    Prop where
  call : e.call = .deliver index data
  state : e.before.receivers[index]? = some b

structure WireAccepts (e : WireEvent) (index : ℕ) (b : PrekeyBundle) (data : Bytes)
    (k : FixedBytes 32) : Prop extends WireDelivers e index b data where
  reply : e.reply = .answered (.key (.ok k))

section Steps
variable {L : Suite} {start : List PrekeyBundle}

theorem parsedMessage_iff (n : System) (index : ℕ) (data : Bytes) (msg : Msg0Prime) :
    parsedMessage L index data n = some msg ↔ ∃ b, n.receivers[index]? = some b ∧
      Msg0Prime.fromBytesWithParams L data b.identityPk.params = .ok msg := by
  unfold parsedMessage
  cases n.receivers[index]? with
  | none => simp
  | some b =>
    cases hparse : Msg0Prime.fromBytesWithParams L data b.identityPk.params with
    | error e => simp [hparse, Except.toOption]
    | ok m => simp [hparse, Except.toOption]

theorem parsed_constructed {n : System}
    (h : ∀ b ∈ n.receivers, ∃ params, BundleInv L params b) {index : ℕ} {data : Bytes}
    {msg : Msg0Prime} (hparse : parsedMessage L index data n = some msg) : Constructed msg := by
  obtain ⟨b, hb, hmsg⟩ := (parsedMessage_iff n index data msg).mp hparse
  obtain ⟨params, hinv⟩ := h b (List.mem_of_getElem? hb)
  have hs : IsSupportedParams b.identityPk.params := by
    rw [hinv.identity.generated.params_eq]
    exact hinv.identity.generated.supported
  obtain ⟨hw, _⟩ := (parse_ok_iff L _ hs data msg).mp hmsg
  exact (hw.constructed L _ hs).1

theorem deliver_parsed {n : System} {index : ℕ} {data : Bytes} {msg : Msg0Prime}
    (hparse : parsedMessage L index data n = some msg) :
    wireStep L (.deliver index data) n = openStep L (.receiver index (.receive msg)) n := by
  obtain ⟨b, hb, hmsg⟩ := (parsedMessage_iff n index data msg).mp hparse
  simp only [wireStep, openStep, hb, receiveBytes, hmsg, receiverStep, publishedBy,
    List.append_nil]

theorem deliver_unparsed {n : System} {index : ℕ} {b : PrekeyBundle}
    (hb : n.receivers[index]? = some b) {data : Bytes} {e : Failure EirnError}
    (hparse : Msg0Prime.fromBytesWithParams L data b.identityPk.params = .error e) :
    wireStep L (.deliver index data) n = (.answered (.key (.error e)), n) := by
  have hset : n.receivers.set index b = n.receivers := by
    obtain ⟨hlt, hget⟩ := List.getElem?_eq_some_iff.mp hb
    rw [← hget, List.set_getElem_self]
  simp only [wireStep, hb, receiveBytes, hparse, hset]

theorem deliver_silent {n : System} {index : ℕ} {data : Bytes}
    (hparse : parsedMessage L index data n = none) :
    (wireStep L (.deliver index data) n).2 = n := by
  cases hb : n.receivers[index]? with
  | none => simp only [wireStep, hb]
  | some b =>
    cases hmsg : Msg0Prime.fromBytesWithParams L data b.identityPk.params with
    | error e => rw [deliver_unparsed hb hmsg]
    | ok msg =>
      rw [(parsedMessage_iff n index data msg).mpr ⟨b, hb, hmsg⟩] at hparse
      cases hparse

/-- A call is a call of the network of messages, or leaves the system as it is. -/
theorem wireStep_cases (call : WireCall) (n : System) (ha : WireAllowed L call)
    (h : SystemInv L start n) :
    (∃ c, parsedCall L call n = some c ∧ OpenAllowed L c ∧ wireStep L call n = openStep L c n) ∨
      (parsedCall L call n = none ∧ (wireStep L call n).2 = n) := by
  cases call with
  | publish index => exact Or.inl ⟨_, rfl, trivial, rfl⟩
  | consume index => exact Or.inl ⟨_, rfl, trivial, rfl⟩
  | send skA pkA mode draws index => exact Or.inl ⟨_, rfl, ha, rfl⟩
  | deliver index data =>
    simp only [parsedCall]
    cases hparse : parsedMessage L index data n with
    | none => exact Or.inr ⟨rfl, deliver_silent hparse⟩
    | some msg =>
      exact Or.inl ⟨_, rfl, parsed_constructed h.receivers hparse, deliver_parsed hparse⟩

theorem wire_follows (hgen : Generates L start) :
    Follows (wireStep L) (openStep L) (WireAllowed L) (SystemInv L start) (OpenAllowed L)
      (fun n => n) (parsedCall L) :=
  follows_of_cases (systemInv_step (start_inv hgen)) wireStep_cases

theorem wireAccepts_iff (call : WireCall) (n : System) (index : ℕ) (b : PrekeyBundle)
    (data : Bytes) (k : FixedBytes 32)
    (hdel : WireDelivers (event (wireStep L) call n) index b data) :
    WireAccepts (event (wireStep L) call n) index b data k ↔
      ∃ msg, Msg0Prime.fromBytesWithParams L data b.identityPk.params = .ok msg ∧
        Accepts (event (openStep L) (.receiver index (.receive msg)) n) index b msg k := by
  obtain ⟨hcall, hb⟩ := hdel
  change call = _ at hcall
  change n.receivers[index]? = _ at hb
  subst hcall
  cases hparse : Msg0Prime.fromBytesWithParams L data b.identityPk.params with
  | error e =>
    have hstep := deliver_unparsed hb hparse
    constructor
    · intro hacc
      have hreply := hacc.reply
      simp only [event, hstep] at hreply
      cases hreply
    · rintro ⟨msg, hmsg, _⟩
      cases hmsg
  | ok msg =>
    have hstep := deliver_parsed ((parsedMessage_iff n index data msg).mpr ⟨b, hb, hparse⟩)
    constructor
    · intro hacc
      have hreply := hacc.reply
      simp only [event, hstep] at hreply
      exact ⟨msg, rfl, rfl, hb, hreply⟩
    · rintro ⟨msg', hmsg, hacc⟩
      cases hmsg
      refine ⟨⟨rfl, hb⟩, ?_⟩
      have hreply := hacc.reply
      simp only [event] at hreply
      simp only [event, hstep, hreply]

end Steps

/-- What SHAKE256 hashes for the session keys of a run, on either side. -/
def wireInputs (L : Suite) (events : List WireEvent) (sent : List Sent) : Set Bytes :=
  {x | (∃ s ∈ sent, ∃ ekA legs raw, SenderSession L s.skA s.pkA s.snapshot s.draws ekA legs raw ∧
      x = (senderFields s.pkA s.snapshot.identityPk ekA legs).input) ∨
    ∃ e ∈ events, ∃ index b data k msg secrets, WireAccepts e index b data k ∧
      Msg0Prime.fromBytesWithParams L data b.identityPk.params = .ok msg ∧
      ReceiverSession L b msg secrets ∧ x = (receiverFields L b msg secrets).input}

def parsedCalls (L : Suite) (calls : List WireCall) (start : List PrekeyBundle) :
    List OpenCall :=
  readCalls (wireStep L) (parsedCall L) calls (openStart start)

section Runs
variable {L : Suite} {start : List PrekeyBundle} {calls : List WireCall}

theorem wire_event (hgen : Generates L start) (hc : ∀ call ∈ calls, WireAllowed L call)
    (e : WireEvent) (he : e ∈ trace (wireStep L) calls (openStart start)) :
    SystemInv L start e.before ∧ e = event (wireStep L) e.call e.before := by
  obtain ⟨hinv, _, heq⟩ := trace_invariant (wireStep L) (WireAllowed L) (SystemInv L start)
    (wire_follows hgen).keeps calls _ hc (systemInv_start (start_inv hgen)) e he
  exact ⟨hinv, heq⟩

theorem wire_final (hgen : Generates L start) (hc : ∀ call ∈ calls, WireAllowed L call) :
    SystemInv L start (after (wireStep L) calls (openStart start)) :=
  after_invariant (wireStep L) (WireAllowed L) (SystemInv L start) (wire_follows hgen).keeps
    calls _ hc (systemInv_start (start_inv hgen))

theorem parsedCalls_allowed (hgen : Generates L start)
    (hc : ∀ call ∈ calls, WireAllowed L call) :
    ∀ c ∈ parsedCalls L calls start, OpenAllowed L c :=
  (wire_follows hgen).allowed_read calls _ hc (systemInv_start (start_inv hgen))

theorem parsed_after (hgen : Generates L start) (hc : ∀ call ∈ calls, WireAllowed L call) :
    after (openStep L) (parsedCalls L calls start) (openStart start) =
      after (wireStep L) calls (openStart start) :=
  (wire_follows hgen).after_read calls _ hc (systemInv_start (start_inv hgen))

theorem parsed_trace (hgen : Generates L start) (hc : ∀ call ∈ calls, WireAllowed L call) :
    trace (openStep L) (parsedCalls L calls start) (openStart start) =
      (trace (wireStep L) calls (openStart start)).flatMap
        (readEvent (openStep L) (fun n => n) (parsedCall L)) :=
  (wire_follows hgen).trace_read calls _ hc (systemInv_start (start_inv hgen))

theorem parsed_event (e : WireEvent) (index : ℕ) (b : PrekeyBundle) (data : Bytes)
    (msg : Msg0Prime) (hdel : WireDelivers e index b data)
    (hparse : Msg0Prime.fromBytesWithParams L data b.identityPk.params = .ok msg) :
    event (openStep L) (.receiver index (.receive msg)) e.before ∈
      readEvent (openStep L) (fun n => n) (parsedCall L) e := by
  apply mem_readEvent
  rw [hdel.call, parsedCall, (parsedMessage_iff _ index data msg).mpr ⟨b, hdel.state, hparse⟩]
  rfl

theorem accepted_event (hgen : Generates L start) (hc : ∀ call ∈ calls, WireAllowed L call)
    (e : WireEvent) (he : e ∈ trace (wireStep L) calls (openStart start)) (index : ℕ)
    (b : PrekeyBundle) (data : Bytes) (k : FixedBytes 32) (hacc : WireAccepts e index b data k) :
    ∃ msg, Msg0Prime.fromBytesWithParams L data b.identityPk.params = .ok msg ∧
      ∃ e' ∈ readEvent (openStep L) (fun n => n) (parsedCall L) e, Accepts e' index b msg k := by
  obtain ⟨_, heq⟩ := wire_event hgen hc e he
  have hdel := hacc.toWireDelivers
  rw [heq] at hacc
  obtain ⟨msg, hparse, hopen⟩ := (wireAccepts_iff e.call e.before index b data k
    hacc.toWireDelivers).mp hacc
  exact ⟨msg, hparse, _, parsed_event e index b data msg hdel hparse, hopen⟩

theorem parsedCall_receive {call : WireCall} {n : System} {index : ℕ} {msg : Msg0Prime}
    (h : parsedCall L call n = some (.receiver index (.receive msg))) :
    ∃ data b, call = .deliver index data ∧ n.receivers[index]? = some b ∧
      Msg0Prime.fromBytesWithParams L data b.identityPk.params = .ok msg := by
  cases call with
  | publish i => simp [parsedCall] at h
  | consume i => simp [parsedCall] at h
  | send skA pkA mode draws i => simp [parsedCall] at h
  | deliver i data =>
    simp only [parsedCall, Option.map_eq_some_iff, OpenCall.receiver.injEq,
      ReceiverCall.receive.injEq] at h
    obtain ⟨m, hparse, rfl, rfl⟩ := h
    obtain ⟨b, hb, hmsg⟩ := (parsedMessage_iff n i data m).mp hparse
    exact ⟨data, b, rfl, hb, hmsg⟩

theorem read_accepts (hgen : Generates L start) (hc : ∀ call ∈ calls, WireAllowed L call)
    (e : WireEvent) (he : e ∈ trace (wireStep L) calls (openStart start)) (e' : OpenEvent)
    (hread : e' ∈ readEvent (openStep L) (fun n => n) (parsedCall L) e) (index : ℕ)
    (b : PrekeyBundle) (msg : Msg0Prime) (k : FixedBytes 32) (hacc : Accepts e' index b msg k) :
    ∃ data, WireAccepts e index b data k ∧
      Msg0Prime.fromBytesWithParams L data b.identityPk.params = .ok msg := by
  obtain ⟨_, heq⟩ := wire_event hgen hc e he
  obtain ⟨c, hcall, rfl⟩ := List.mem_map.mp hread
  have hc' : c = .receiver index (.receive msg) := hacc.call
  subst hc'
  obtain ⟨data, b', hdeliver, hb', hparse⟩ := parsedCall_receive (Option.mem_toList.mp hcall)
  have hb : e.before.receivers[index]? = some b := hacc.state
  obtain rfl := Option.some.inj (hb'.symm.trans hb)
  refine ⟨data, ?_, hparse⟩
  have hdel : WireDelivers (event (wireStep L) e.call e.before) index b' data := ⟨hdeliver, hb⟩
  rw [heq]
  exact (wireAccepts_iff e.call e.before index b' data k hdel).mpr ⟨msg, hparse, hacc⟩

theorem parsed_inputs (hgen : Generates L start) (hc : ∀ call ∈ calls, WireAllowed L call) :
    runInputs L (trace (openStep L) (parsedCalls L calls start) (openStart start))
        (after (openStep L) (parsedCalls L calls start) (openStart start)).sent =
      wireInputs L (trace (wireStep L) calls (openStart start))
        (after (wireStep L) calls (openStart start)).sent := by
  rw [parsed_after hgen hc, parsed_trace hgen hc]
  apply Set.Subset.antisymm
  · rintro x (hx | ⟨e', he', index, b, msg, k, secrets, hacc, hsession, hx⟩)
    · exact Or.inl hx
    · obtain ⟨e, he, hread⟩ := List.mem_flatMap.mp he'
      obtain ⟨data, hwire, hparse⟩ := read_accepts hgen hc e he e' hread index b msg k hacc
      exact Or.inr ⟨e, he, index, b, data, k, msg, secrets, hwire, hparse, hsession, hx⟩
  · rintro x (hx | ⟨e, he, index, b, data, k, msg, secrets, hacc, hparse, hsession, hx⟩)
    · exact Or.inl hx
    · obtain ⟨msg', hparse', e', hread, hopen⟩ := accepted_event hgen hc e he index b data k hacc
      obtain rfl := Except.ok.inj (hparse.symm.trans hparse')
      exact Or.inr ⟨e', List.mem_flatMap.mpr ⟨e, he, hread⟩, index, b, msg, k, secrets, hopen,
        hsession, hx⟩

end Runs

structure SameTarget (s : Sent) (b : PrekeyBundle) : Prop where
  identity : b.identityPk = s.snapshot.identityPk
  prekey : firstKemKey b.identityPk.params b.oneTimePrekeys =
    firstKemKey b.identityPk.params s.snapshot.oneTimePrekeys

/-- Bytes and the key of a sender, whose message is `bytes`, at a receiver in
state `b`; `got` says that the bytes were answered with that key. -/
structure ExactBytes (L : Suite) (s : Sent) (b : PrekeyBundle) (bytes data : Bytes)
    (got : Prop) : Prop where
  body : got ↔ SameTarget s b ∧
    bodyOf b.identityPk.params data = bodyOf b.identityPk.params bytes ∧
    ∃ msg, Msg0Prime.fromBytesWithParams L data b.identityPk.params = .ok msg ∧
      ProofAccepted L b msg
  own : data = bytes → (got ↔ SameTarget s b)
  lite : L.DsaExact → s.mode = .lite → data.head? = some KcpMode.lite.byte → got → data = bytes

theorem matching_iff_target (s : Sent) (b : PrekeyBundle) (msg : Msg0Prime) :
    MatchingSession s b msg ↔ SameTarget s b ∧ SameSession s.msg msg := by
  constructor
  · intro h
    exact ⟨⟨h.identity, h.prekey⟩, matching_sameSession h⟩
  · rintro ⟨ht, hs⟩
    exact ⟨ht.identity, hs.pkA, hs.ekA, ⟨hs.ct1, hs.ct2, hs.ct3, hs.ct4⟩, ht.prekey⟩

section Bytes
variable {L : Suite} {start : List PrekeyBundle} {calls : List WireCall}

theorem sent_profile {params : EirnParams} {b₀ : PrekeyBundle} {s : Sent}
    (hb : BundleInv L params b₀) (h : GoodSent L params b₀ s) :
    s.snapshot.identityPk.params = params := by
  rw [h.snapshot.keys.identityPk, hb.identity.generated.params_eq]

theorem sent_encoded (hl : L.Lawful) {params : EirnParams} {b₀ : PrekeyBundle} {s : Sent}
    (hb : BundleInv L params b₀) (h : GoodSent L params b₀ s) :
    KeyPair L params s.pkA s.skA ∧ WellFormedMessage L params s.msg ∧
      ∃ bytes, s.msg.toBytes = .ok bytes := by
  obtain ⟨paramsA, hA⟩ := h.sender
  obtain ⟨_, _, _, _, _, _, _, _, _, run, _, _⟩ := h.run
  have hparams : paramsA = params := by
    rw [← hA.generated.params_eq, run.params, sent_profile hb h]
  subst hparams
  have hbuilt := h.built
  rw [senderCall_eq] at hbuilt
  obtain ⟨_, hw⟩ := sent_wellFormed hA.generated hl.keysValid hl.signaturesParse s.pkA s.snapshot
    s.mode s.draws s.msg s.key hbuilt
  obtain ⟨bytes, hbytes, _, _⟩ :=
    wellFormed_round_trip L paramsA hA.generated.supported s.msg hw
  exact ⟨hA, hw, bytes, hbytes⟩

theorem body_iff_session (hl : L.Lawful) {params : EirnParams} {b₀ : PrekeyBundle} {s : Sent}
    (hb : BundleInv L params b₀) (h : GoodSent L params b₀ s) {bytes data : Bytes}
    (hbytes : s.msg.toBytes = .ok bytes) {msg : Msg0Prime}
    (hparse : Msg0Prime.fromBytesWithParams L data params = .ok msg) :
    bodyOf params data = bodyOf params bytes ↔ SameSession s.msg msg := by
  obtain ⟨hA, hw, _⟩ := sent_encoded hl hb h
  have hs := hA.generated.supported
  obtain ⟨hw', hdata⟩ := (parse_ok_iff L params hs data msg).mp hparse
  exact bodyOf_eq_iff hs hw hw' hbytes hdata

theorem matching_iff_body (hl : L.Lawful) {params : EirnParams} {b₀ b : PrekeyBundle} {s : Sent}
    (hb : BundleInv L params b₀) (h : GoodSent L params b₀ s) {bytes data : Bytes}
    (hbytes : s.msg.toBytes = .ok bytes) :
    (∃ msg, Msg0Prime.fromBytesWithParams L data b.identityPk.params = .ok msg ∧
        MatchingSession s b msg ∧ ProofAccepted L b msg) ↔
      SameTarget s b ∧
        bodyOf b.identityPk.params data = bodyOf b.identityPk.params bytes ∧
        ∃ msg, Msg0Prime.fromBytesWithParams L data b.identityPk.params = .ok msg ∧
          ProofAccepted L b msg := by
  constructor
  · rintro ⟨msg, hparse, hmatch, hproof⟩
    obtain ⟨ht, hsame⟩ := (matching_iff_target s b msg).mp hmatch
    refine ⟨ht, ?_, msg, hparse, hproof⟩
    rw [ht.identity, sent_profile hb h] at hparse ⊢
    exact (body_iff_session hl hb h hbytes hparse).mpr hsame
  · rintro ⟨ht, hbody, msg, hparse, hproof⟩
    refine ⟨msg, hparse, ?_, hproof⟩
    rw [ht.identity, sent_profile hb h] at hparse hbody
    exact (matching_iff_target s b msg).mpr
      ⟨ht, (body_iff_session hl hb h hbytes hparse).mp hbody⟩

theorem lite_bytes (hl : L.Lawful) (he : L.DsaExact) {params : EirnParams} {b₀ b : PrekeyBundle}
    {s : Sent} (hb : BundleInv L params b₀) (h : GoodSent L params b₀ s) {bytes data : Bytes}
    (hbytes : s.msg.toBytes = .ok bytes) {msg : Msg0Prime}
    (hparse : Msg0Prime.fromBytesWithParams L data params = .ok msg) (hmode : s.mode = .lite)
    (hhead : data.head? = some KcpMode.lite.byte) (ht : SameTarget s b)
    (hsame : SameSession s.msg msg) (hproof : ProofAccepted L b msg) : data = bytes := by
  obtain ⟨hA, _, _⟩ := sent_encoded hl hb h
  obtain ⟨_, _, _, _, _, _, _, _, _, _, hmsg, _⟩ := h.run
  have hpk : s.msg.pkA = s.pkA := by
    rw [hmsg]
    rfl
  have hbuilt := h.built
  rw [senderCall_eq, hmode] at hbuilt
  rw [ProofAccepted, receiverContext, hsame.pkA, hsame.ekA, hpk, ht.identity] at hproof
  exact lite_bytes_sent hl.signaturesParse he hl.nonZero.signatures hA
    (sent_profile hb h) hbuilt hbytes hparse hhead hsame hproof

theorem own_bytes_accepted (hl : L.Lawful) {params : EirnParams} {b₀ b : PrekeyBundle} {s : Sent}
    (hb : BundleInv L params b₀) (h : GoodSent L params b₀ s) {bytes : Bytes}
    (hbytes : s.msg.toBytes = .ok bytes) (ht : SameTarget s b) :
    Msg0Prime.fromBytesWithParams L bytes b.identityPk.params = .ok s.msg ∧
      ProofAccepted L b s.msg := by
  obtain ⟨hA, hw, _⟩ := sent_encoded hl hb h
  obtain ⟨_, _, haccept⟩ := h.acceptable hl (runInv_start hb)
  constructor
  · rw [ht.identity, sent_profile hb h]
    exact (parse_ok_iff L params hA.generated.supported bytes s.msg).mpr ⟨hw, hbytes⟩
  · rw [ProofAccepted, receiverContext] at haccept ⊢
    rw [ht.identity, h.snapshot.keys.identityPk]
    exact haccept

theorem exact_bytes (hl : L.Lawful) {params : EirnParams} {b₀ b : PrekeyBundle} {s : Sent}
    (hb : BundleInv L params b₀) (h : GoodSent L params b₀ s) {bytes data : Bytes}
    (hbytes : s.msg.toBytes = .ok bytes) {got : Prop}
    (hgot : got ↔ ∃ msg, Msg0Prime.fromBytesWithParams L data b.identityPk.params = .ok msg ∧
      MatchingSession s b msg ∧ ProofAccepted L b msg) : ExactBytes L s b bytes data got where
  body := hgot.trans (matching_iff_body hl hb h hbytes)
  own := by
    rintro rfl
    rw [hgot, matching_iff_body hl hb h hbytes]
    constructor
    · exact fun hkept => hkept.1
    · intro ht
      exact ⟨ht, rfl, s.msg, own_bytes_accepted hl hb h hbytes ht⟩
  lite := by
    intro hexact hmode hhead hacc
    obtain ⟨msg, hparse, hmatch, hproof⟩ := hgot.mp hacc
    obtain ⟨ht, hsame⟩ := (matching_iff_target s b msg).mp hmatch
    rw [ht.identity, sent_profile hb h] at hparse
    exact lite_bytes hl hexact hb h hbytes hparse hmode hhead ht hsame hproof

theorem delivered_bytes_iff (hl : L.Lawful) (hrej : L.Rejecting) (hgen : Generates L start)
    (hdistinct : DistinctKeys start) (hc : ∀ call ∈ calls, WireAllowed L call)
    (hinj : Set.InjOn (fun x => L.shake256 x 32)
      (wireInputs L (trace (wireStep L) calls (openStart start))
        (after (wireStep L) calls (openStart start)).sent)) (e : WireEvent)
    (he : e ∈ trace (wireStep L) calls (openStart start)) (index : ℕ) (b : PrekeyBundle)
    (data : Bytes) (hdel : WireDelivers e index b data) (s : Sent)
    (hs : s ∈ (after (wireStep L) calls (openStart start)).sent) :
    WireAccepts e index b data s.key ↔
      ∃ msg, Msg0Prime.fromBytesWithParams L data b.identityPk.params = .ok msg ∧
        MatchingSession s b msg ∧ ProofAccepted L b msg := by
  obtain ⟨_, heq⟩ := wire_event hgen hc e he
  rw [← parsed_inputs hgen hc] at hinj
  rw [← parsed_after hgen hc] at hs
  have hopen : ∀ msg, Msg0Prime.fromBytesWithParams L data b.identityPk.params = .ok msg →
      (Accepts (event (openStep L) (.receiver index (.receive msg)) e.before) index b msg s.key ↔
        MatchingSession s b msg ∧ ProofAccepted L b msg) := by
    intro msg hparse
    apply delivered_key_iff hl hrej hgen hdistinct (parsedCalls_allowed hgen hc) hinj _ _ index b
      msg ⟨rfl, hdel.state⟩ s hs
    rw [parsed_trace hgen hc]
    exact List.mem_flatMap.mpr ⟨e, he, parsed_event e index b data msg hdel hparse⟩
  have hiff := wireAccepts_iff e.call e.before index b data s.key (heq ▸ hdel)
  rw [← heq] at hiff
  rw [hiff]
  apply exists_congr
  intro msg
  exact and_congr_right (hopen msg)

theorem accepted_bytes_distinct (hl : L.Lawful) (hrej : L.Rejecting) (hgen : Generates L start)
    (hdistinct : DistinctKeys start) (hc : ∀ call ∈ calls, WireAllowed L call)
    (hinj : Set.InjOn (fun x => L.shake256 x 32)
      (wireInputs L (trace (wireStep L) calls (openStart start))
        (after (wireStep L) calls (openStart start)).sent)) :
    (trace (wireStep L) calls (openStart start)).Pairwise (fun e e' => ∀ i j b b' data data',
      ∀ s ∈ (after (wireStep L) calls (openStart start)).sent,
      ∀ s' ∈ (after (wireStep L) calls (openStart start)).sent,
      WireAccepts e i b data s.key → WireAccepts e' j b' data' s'.key →
      ¬ SamePrekey s s' ∧ s.key ≠ s'.key) := by
  rw [← parsed_inputs hgen hc] at hinj
  have hpair := (wire_follows hgen).pairwise_read calls _ hc (systemInv_start (start_inv hgen)) _
    (run_accepted_distinct hl.keysValid hrej hgen hdistinct (parsedCalls_allowed hgen hc) hinj)
  apply hpair.imp_of_mem
  intro e e' he he' hne i j b b' data data' s hs s' hs' hacc hacc'
  obtain ⟨msg, _, x, hx, hopened⟩ := accepted_event hgen hc e he i b data s.key hacc
  obtain ⟨msg', _, x', hx', hopened'⟩ := accepted_event hgen hc e' he' j b' data' s'.key hacc'
  have hsame := congrArg System.sent (parsed_after hgen hc)
  rw [parsedCalls] at hsame
  rw [hsame] at hne
  exact hne x hx x' hx' i j b b' msg msg' s hs s' hs' hopened hopened'

end Bytes

/-- For all byte strings delivered in any order: a receiver of a run ends with a
sender's key exactly if it is the sender's receiver, still at the sender's
prekey, and the bytes keep the body of the sent ones and carry an accepted proof,
as the sent ones do; KCP-Lite bytes are then those of a KCP-Lite sender. No two
deliveries of a run lead to senders' keys of one prekey or to one sender's key. -/
theorem wire_network_agreement (L : Suite) (hl : L.Lawful) (hrej : L.Rejecting)
    (start : List PrekeyBundle) (hgen : Generates L start) (hdistinct : DistinctKeys start)
    (calls : List WireCall) (hc : ∀ call ∈ calls, WireAllowed L call)
    (hinj : Set.InjOn (fun x => L.shake256 x 32)
      (wireInputs L (trace (wireStep L) calls (openStart start))
        (after (wireStep L) calls (openStart start)).sent)) :
    let events := trace (wireStep L) calls (openStart start)
    let sent := (after (wireStep L) calls (openStart start)).sent
    (∀ e ∈ events, ∀ index b data, WireDelivers e index b data → ∀ s ∈ sent,
      ∃ bytes, s.msg.toBytes = .ok bytes ∧
        ExactBytes L s b bytes data (WireAccepts e index b data s.key)) ∧
    events.Pairwise (fun e e' => ∀ i j b b' data data', ∀ s ∈ sent, ∀ s' ∈ sent,
      WireAccepts e i b data s.key → WireAccepts e' j b' data' s'.key →
      ¬ SamePrekey s s' ∧ s.key ≠ s'.key) := by
  intro events sent
  constructor
  · intro e he index b data hdel s hs
    obtain ⟨b₀, _, params, hb₀, hgood⟩ := (wire_final hgen hc).sent s hs
    obtain ⟨_, _, bytes, hbytes⟩ := sent_encoded hl hb₀ hgood
    exact ⟨bytes, hbytes, exact_bytes hl hb₀ hgood hbytes
      (delivered_bytes_iff hl hrej hgen hdistinct hc hinj e he index b data hdel s hs)⟩
  · exact accepted_bytes_distinct hl hrej hgen hdistinct hc hinj

section Replayed
variable {b₀ c₀ : PrekeyBundle} {pk₁ pk₂ pkA : PublicKey} {skA : SecretKey} {msg : Msg0Prime}
  {k k' : FixedBytes 32}

def replayedBytes (skA : SecretKey) (pkA : PublicKey) (data : Bytes) : List WireCall :=
  [.publish 0, .send skA pkA .lite zeroDraws 0, .deliver 0 data, .deliver 0 data]

theorem replayed_data (r : ReplayedRun b₀ c₀ pk₁ pk₂ pkA skA msg k k') :
    ∃ data, msg.toBytes = .ok data ∧
      Msg0Prime.fromBytesWithParams idealSuite data b₀.identityPk.params = .ok msg := by
  have hgood : GoodSent idealSuite params768 b₀
      ⟨skA, pkA, b₀.publicBundle, .lite, zeroDraws, msg, k⟩ :=
    ⟨goodSnapshot_publicBundle (runInv_start r.bundle), ⟨_, r.sender⟩, r.sends⟩
  obtain ⟨_, hw, data, hdata⟩ := sent_encoded idealSuite_lawful r.bundle hgood
  refine ⟨data, hdata, ?_⟩
  rw [r.bundle.identity.generated.params_eq]
  exact (parse_ok_iff idealSuite params768 supported768 data msg).mpr ⟨hw, hdata⟩

theorem replayedBytes_parsed (r : ReplayedRun b₀ c₀ pk₁ pk₂ pkA skA msg k k') {data : Bytes}
    (hparse : Msg0Prime.fromBytesWithParams idealSuite data b₀.identityPk.params = .ok msg) :
    parsedCalls idealSuite (replayedBytes skA pkA data) [b₀, c₀] =
      replayed skA pkA zeroDraws msg := by
  have hpopped : (popped b₀).identityPk = b₀.identityPk := rfl
  simp [parsedCalls, replayedBytes, readCalls, parsedCall, parsedMessage, Except.toOption,
    wireStep, openStep, openStart, receiverStep, publishedBy, receiveBytes, replayed, r.sends,
    r.first, hpopped, hparse]

theorem replayedBytes_allowed (r : ReplayedRun b₀ c₀ pk₁ pk₂ pkA skA msg k k') (data : Bytes) :
    ∀ call ∈ replayedBytes skA pkA data, WireAllowed idealSuite call := by
  simp only [replayedBytes, List.forall_mem_cons, WireAllowed]
  exact ⟨trivial, ⟨_, r.sender⟩, trivial, trivial, by simp⟩

theorem replayedBytes_delivers (r : ReplayedRun b₀ c₀ pk₁ pk₂ pkA skA msg k k') (data : Bytes) :
    ∃ e ∈ trace (wireStep idealSuite) (replayedBytes skA pkA data) (openStart [b₀, c₀]),
      WireDelivers e 0 b₀ data := by
  refine ⟨_, List.mem_cons_of_mem _ (List.mem_cons_of_mem _ List.mem_cons_self), rfl, ?_⟩
  simp [event, wireStep, openStep, openStart, receiverStep, publishedBy, r.sends]

end Replayed

theorem wire_network_agreement_replayed :
    ∃ b₀ c₀ pkA skA msg k data, ∃ calls : List WireCall,
      calls = [.publish 0, .send skA pkA .lite zeroDraws 0, .deliver 0 data,
        .deliver 0 data] ∧
      Msg0Prime.toBytes msg = .ok data ∧
      (∃ s ∈ (after (wireStep idealSuite) calls (openStart [b₀, c₀])).sent, s.key = k) ∧
      (∃ e ∈ trace (wireStep idealSuite) calls (openStart [b₀, c₀]),
        WireAccepts e 0 b₀ data k) ∧
      (trace (wireStep idealSuite) calls (openStart [b₀, c₀])).Pairwise
        (fun e e' => ∀ i j b b' data data',
          ∀ s ∈ (after (wireStep idealSuite) calls (openStart [b₀, c₀])).sent,
          ∀ s' ∈ (after (wireStep idealSuite) calls (openStart [b₀, c₀])).sent,
          WireAccepts e i b data s.key → WireAccepts e' j b' data' s'.key →
          ¬ SamePrekey s s' ∧ s.key ≠ s'.key) := by
  obtain ⟨b₀, c₀, pk₁, pk₂, pkA, skA, msg, k, k', r⟩ := replayedRun_exists
  obtain ⟨data, hdata, hparse⟩ := replayed_data r
  have hc := replayedBytes_allowed r data
  have hinj := r.inputs_injOn
  rw [← replayedBytes_parsed r hparse, parsed_inputs r.generates hc] at hinj
  have hsent := congrArg System.sent (parsed_after r.generates hc)
  rw [replayedBytes_parsed r hparse, r.sent_eq] at hsent
  obtain ⟨hiff, hpair⟩ := wire_network_agreement idealSuite idealSuite_lawful idealSuite_rejecting
    [b₀, c₀] r.generates r.distinct (replayedBytes skA pkA data) hc hinj
  have hs : (⟨skA, pkA, b₀.publicBundle, .lite, zeroDraws, msg, k⟩ : Sent) ∈
      (after (wireStep idealSuite) (replayedBytes skA pkA data) (openStart [b₀, c₀])).sent := by
    rw [← hsent]
    exact List.mem_singleton_self _
  obtain ⟨e, he, hdel⟩ := replayedBytes_delivers r data
  obtain ⟨bytes, hbytes, hexact⟩ := hiff e he 0 b₀ data hdel _ hs
  obtain rfl := Except.ok.inj (hdata.symm.trans hbytes)
  exact ⟨b₀, c₀, pkA, skA, msg, k, data, replayedBytes skA pkA data, rfl, hdata, ⟨_, hs, rfl⟩,
    ⟨e, he, (hexact.own rfl).mpr ⟨rfl, rfl⟩⟩, hpair⟩

end EirnKcp.WireNetwork
