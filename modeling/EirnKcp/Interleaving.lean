import EirnKcp.SessionBinding

/-!
# Many senders and one receiver

Senders take snapshots of the public bundle at any time and build messages from
them; the network delivers each message at most once, in any order. A sender
uses the first one-time prekey of its snapshot, the receiver the first one it
still has, and nothing in the message ties the two together.
-/

set_option autoImplicit false

namespace EirnKcp.Interleaving
open EirnKcp.CheckedCode EirnKcp.ByteCodec EirnKcp.Params EirnKcp.Primitives EirnKcp.Kem
open EirnKcp.KeyLaws EirnKcp.Zk EirnKcp.Prekey EirnKcp.Handshake EirnKcp.HandshakeSteps
open EirnKcp.WireFormat EirnKcp.ReceiverState EirnKcp.HonestHandshake EirnKcp.SessionBinding
open EirnKcp.CallRuns EirnKcp.IdealSuite

structure Sent where
  skA : SecretKey
  pkA : PublicKey
  snapshot : PublicPrekeyBundle
  mode : KcpMode
  draws : SenderDraws
  msg : Msg0Prime
  key : FixedBytes 32

structure Network where
  bundle : PrekeyBundle
  snapshots : List PublicPrekeyBundle
  flight : List Sent

inductive NetCall where
  | snapshot
  | send (skA : SecretKey) (pkA : PublicKey) (mode : KcpMode) (draws : SenderDraws) (index : ℕ)
  | deliver (index : ℕ)
  | consume

inductive NetReply where
  | idle
  | delivered (sent : Sent) (result : Result (FixedBytes 32))

def netStep (L : Suite) : NetCall → Network → NetReply × Network
  | .snapshot, n => (.idle, { n with snapshots := n.snapshots ++ [n.bundle.publicBundle] })
  | .send skA pkA mode draws index, n =>
    match n.snapshots[index]? with
    | none => (.idle, n)
    | some snapshot =>
      match senderCall L mode skA pkA snapshot draws with
      | .ok (msg, key) =>
        (.idle, { n with flight := n.flight ++ [⟨skA, pkA, snapshot, mode, draws, msg, key⟩] })
      | .error _ => (.idle, n)
  | .deliver index, n =>
    match n.flight[index]? with
    | none => (.idle, n)
    | some sent =>
      (.delivered sent (receiverHandshake L n.bundle sent.msg).1,
        { n with
          bundle := (receiverHandshake L n.bundle sent.msg).2
          flight := n.flight.eraseIdx index })
  | .consume, n => (.idle, { n with bundle := n.bundle.consumeOpk.2 })

def startOf (b₀ : PrekeyBundle) : Network := ⟨b₀, [], []⟩

abbrev NetEvent := Event Network NetCall NetReply

/-- Senders hold key pairs from key generation, of any profile. -/
def Honest (L : Suite) : NetCall → Prop
  | .send skA pkA _ _ _ => ∃ params, KeyPair L params pkA skA
  | _ => True

section Invariant
variable {L : Suite} {params : EirnParams} {b₀ : PrekeyBundle}

structure GoodSnapshot (L : Suite) (params : EirnParams) (b₀ : PrekeyBundle)
    (snapshot : PublicPrekeyBundle) : Prop where
  keys : SnapshotOf b₀ snapshot
  pool : ∀ pk ∈ snapshot.oneTimePrekeys, ∃ sk, KeyPair L params pk sk

structure GoodSent (L : Suite) (params : EirnParams) (b₀ : PrekeyBundle) (sent : Sent) : Prop
    where
  snapshot : GoodSnapshot L params b₀ sent.snapshot
  sender : ∃ paramsA, KeyPair L paramsA sent.pkA sent.skA
  built : senderCall L sent.mode sent.skA sent.pkA sent.snapshot sent.draws =
    .ok (sent.msg, sent.key)

structure NetInv (L : Suite) (params : EirnParams) (b₀ : PrekeyBundle) (n : Network) : Prop where
  bundle : RunInv L params b₀ n.bundle
  snapshots : ∀ s ∈ n.snapshots, GoodSnapshot L params b₀ s
  flight : ∀ sent ∈ n.flight, GoodSent L params b₀ sent

theorem goodSnapshot_publicBundle {b : PrekeyBundle} (h : RunInv L params b₀ b) :
    GoodSnapshot L params b₀ b.publicBundle := by
  refine ⟨⟨h.keys.identityPk, h.keys.signedPrekeyPk⟩, ?_⟩
  intro pk hpk
  obtain ⟨i, hi, rfl⟩ := List.mem_iff_getElem.mp hpk
  have hlen := h.bundle.pool.length_eq
  exact ⟨_, h.bundle.pool.get hi (hlen ▸ hi)⟩

theorem GoodSent.run {sent : Sent} (h : GoodSent L params b₀ sent) :
    ∃ opkB opkSk ekA eskA legs raw proof,
      sent.snapshot.oneTimePrekeys.head? = some opkB ∧ KeyPair L params opkB opkSk ∧
      SenderRun L sent.skA sent.pkA sent.snapshot sent.mode sent.draws opkB ekA eskA legs raw
        proof ∧
      sent.msg = sentMessage sent.pkA ekA legs sent.mode proof ∧
      sent.key = sentKey L sent.pkA sent.snapshot.identityPk ekA legs := by
  have hbuilt := h.built
  rw [senderCall_eq, senderHandshake_ok_iff] at hbuilt
  obtain ⟨opkB, ekA, eskA, legs, raw, proof, run, hmsg, hkey⟩ := hbuilt
  obtain ⟨opkSk, hpair⟩ := h.snapshot.pool opkB (List.mem_of_mem_head? run.first)
  exact ⟨opkB, opkSk, ekA, eskA, legs, raw, proof, run.first, hpair, run, hmsg, hkey⟩

theorem snapshotOf_later {b : PrekeyBundle} {snapshot : PublicPrekeyBundle}
    (h : SnapshotOf b₀ snapshot) (hk : SameKeys b₀ b) : SnapshotOf b snapshot :=
  ⟨h.identityPk.trans hk.identityPk.symm, h.signedPrekeyPk.trans hk.signedPrekeyPk.symm⟩

theorem GoodSent.acceptable (hl : L.Lawful) {sent : Sent} (h : GoodSent L params b₀ sent)
    {b : PrekeyBundle} (hb : RunInv L params b₀ b) :
    Constructed sent.msg ∧ Acceptable L params b sent.msg := by
  obtain ⟨opkB, _, ekA, eskA, legs, raw, proof, _, _, run, hmsg, _⟩ := h.run
  obtain ⟨paramsA, hA⟩ := h.sender
  obtain ⟨hw, ha⟩ := sent_acceptable hl hA hb.bundle
    (snapshotOf_later h.snapshot.keys hb.keys) run
  rw [hmsg]
  exact ⟨(hw.constructed L params hb.bundle.identity.generated.supported).1, ha⟩

theorem netInv_start (h : BundleInv L params b₀) : NetInv L params b₀ (startOf b₀) :=
  ⟨runInv_start h, by simp [startOf], by simp [startOf]⟩

theorem netInv_step (hl : L.Lawful) (call : NetCall) (n : Network) (hc : Honest L call)
    (h : NetInv L params b₀ n) : NetInv L params b₀ (netStep L call n).2 := by
  cases call with
  | snapshot =>
    refine ⟨h.bundle, ?_, h.flight⟩
    intro s hs
    rcases List.mem_append.mp hs with hs | hs
    · exact h.snapshots s hs
    · rw [List.mem_singleton.mp hs]
      exact goodSnapshot_publicBundle h.bundle
  | send skA pkA mode draws index =>
    simp only [netStep]
    cases hi : n.snapshots[index]? with
    | none => exact h
    | some snapshot =>
      have hsnap := h.snapshots snapshot (List.mem_of_getElem? hi)
      dsimp only
      cases hcall : senderCall L mode skA pkA snapshot draws with
      | error e => exact h
      | ok r =>
        refine ⟨h.bundle, h.snapshots, ?_⟩
        intro sent hs
        rcases List.mem_append.mp hs with hs | hs
        · exact h.flight sent hs
        · rw [List.mem_singleton.mp hs]
          exact ⟨hsnap, hc, hcall⟩
  | deliver index =>
    simp only [netStep]
    cases hi : n.flight[index]? with
    | none => exact h
    | some sent =>
      have hsent := h.flight sent (List.mem_of_getElem? hi)
      refine ⟨?_, h.snapshots, fun s hs => h.flight s (List.mem_of_mem_eraseIdx hs)⟩
      exact runInv_step b₀ (.receive sent.msg) n.bundle (hsent.acceptable hl h.bundle).1 h.bundle
  | consume =>
    exact ⟨runInv_step b₀ .consume n.bundle trivial h.bundle, h.snapshots, h.flight⟩

def kemPart (params : EirnParams) (pk : PublicKey) : Bytes := pk.data.take params.kemPkBytes

/-- A delivery that returned a key: the two sessions differ in the third secret
at most, and that one depends on the first prekey. -/
structure DeliveryOf (L : Suite) (params : EirnParams) (sent : Sent) (b : PrekeyBundle)
    (pk opkB ekA : PublicKey) (legs : Legs) (raw k3 k : FixedBytes 32) : Prop where
  first : b.oneTimePrekeys.head? = some pk
  sentFirst : sent.snapshot.oneTimePrekeys.head? = some opkB
  accepted : (receiverHandshake L b sent.msg).1 = .ok k
  sender : SenderSession L sent.skA sent.pkA sent.snapshot sent.draws ekA legs raw
  receiver : ReceiverSession L b sent.msg ⟨legs.k1, legs.k2, k3, raw⟩
  receiverKey : k =
    L.shake256 (receiverFields L b sent.msg ⟨legs.k1, legs.k2, k3, raw⟩).input 32
  senderKey : sent.key =
    L.shake256 (senderFields sent.pkA sent.snapshot.identityPk ekA legs).input 32
  fields : receiverFields L b sent.msg ⟨legs.k1, legs.k2, k3, raw⟩ =
    { senderFields sent.pkA sent.snapshot.identityPk ekA legs with
      secrets := [legs.k1, legs.k2, k3, legs.k4] }
  senderSized : (senderFields sent.pkA sent.snapshot.identityPk ekA legs).Sized
  receiverSized : (receiverFields L b sent.msg ⟨legs.k1, legs.k2, k3, raw⟩).Sized
  same : kemPart params pk = kemPart params opkB → k3 = legs.k3
  different : L.Rejecting → kemPart params pk ≠ kemPart params opkB → k3 ≠ legs.k3

theorem deliver_cases (hl : L.Lawful) {sent : Sent} (h : GoodSent L params b₀ sent)
    {b : PrekeyBundle} (hb : RunInv L params b₀ b) :
    (b.oneTimePrekeys = [] ∧
        receiverHandshake L b sent.msg = (err .noOneTimePrekeys, b)) ∨
      ∃ pk opkB ekA legs raw k3 k, DeliveryOf L params sent b pk opkB ekA legs raw k3 k := by
  obtain ⟨hc, ha⟩ := h.acceptable hl hb
  rcases receive_acceptable hb.bundle sent.msg hc ha with
    ⟨hempty, hr⟩ | ⟨pk, pks, sk, sks, k, hpk, hsk, hpair, _, hr⟩
  · exact Or.inl ⟨hempty, hr⟩
  · obtain ⟨opkB, opkSk, ekA, eskA, legs, raw, proof, hfirst, hopk, run, hmsg, hsent⟩ := h.run
    obtain ⟨paramsA, hA⟩ := h.sender
    have hsnap := snapshotOf_later h.snapshot.keys hb.keys
    have hid := hb.bundle.identity.generated.wellFormed
    obtain ⟨k3, hsec, hnaxos, hsame, hdiff⟩ := secrets_sent hl.keysValid hl.kemCorrect hb.bundle
      hsnap run hopk hpair
    rw [← hmsg] at hsec hnaxos
    have hreceiver : ReceiverSession L b sent.msg ⟨legs.k1, legs.k2, k3, raw⟩ :=
      ⟨sk, by rw [hsk]; rfl, hsec⟩
    obtain ⟨secrets, hsession, hk⟩ := receiver_session hb.bundle sent.msg hc k (by rw [hr])
    obtain rfl := receiverSession_unique hreceiver hsession
    refine Or.inr ⟨pk, opkB, ekA, legs, raw, k3, k, by rw [hpk]; rfl, hfirst, by rw [hr],
      ⟨eskA, opkB, run.ephemeral, run.first, run.legs⟩, hreceiver, hk, hsent, ?_,
      senderFields_sized hA.generated (by rw [hsnap.identityPk]; exact hid) run,
      receiverFields_sized hid hc _, hsame, hdiff⟩
    rw [receiverFields, Secrets.list, hnaxos, hmsg, senderFields, hsnap.identityPk]
    rfl

namespace DeliveryOf
variable {sent : Sent} {b : PrekeyBundle} {pk opkB ekA : PublicKey} {legs : Legs}
  {raw k3 k : FixedBytes 32}

theorem agrees (d : DeliveryOf L params sent b pk opkB ekA legs raw k3 k)
    (hkem : kemPart params pk = kemPart params opkB) : k = sent.key := by
  rw [d.receiverKey, d.senderKey, d.fields, d.same hkem]
  rfl

theorem kemPart_eq (d : DeliveryOf L params sent b pk opkB ekA legs raw k3 k)
    (hrej : L.Rejecting) (hinj : Set.InjOn (fun x => L.shake256 x 32)
      (kdfInputs L sent.skA sent.pkA sent.snapshot sent.draws b sent.msg))
    (hk : k = sent.key) : kemPart params pk = kemPart params opkB := by
  have hinput := hinj (Or.inr ⟨_, d.receiver, rfl⟩) (Or.inl ⟨_, _, _, d.sender, rfl⟩)
    ((d.receiverKey.symm.trans hk).trans d.senderKey)
  have hfields := input_injective _ _ d.receiverSized d.senderSized hinput
  rw [d.fields] at hfields
  have hthird : k3 = legs.k3 := by
    have hs := congrArg Fields.secrets hfields
    simp only [senderFields, Legs.secrets, List.cons.injEq] at hs
    exact hs.2.2.1
  by_contra hne
  exact d.different hrej hne hthird

theorem inputs (d : DeliveryOf L params sent b pk opkB ekA legs raw k3 k) :
    kdfInputs L sent.skA sent.pkA sent.snapshot sent.draws b sent.msg ⊆
      {(senderFields sent.pkA sent.snapshot.identityPk ekA legs).input,
        (receiverFields L b sent.msg ⟨legs.k1, legs.k2, k3, raw⟩).input} := by
  rintro x (⟨ekA', legs', raw', h, rfl⟩ | ⟨secrets, h, rfl⟩)
  · obtain ⟨rfl, rfl, rfl⟩ := senderSession_unique d.sender h
    exact Or.inl rfl
  · obtain rfl := receiverSession_unique d.receiver h
    exact Or.inr rfl

theorem same_input (d : DeliveryOf L params sent b pk opkB ekA legs raw k3 k)
    (hkem : kemPart params pk = kemPart params opkB) :
    receiverFields L b sent.msg ⟨legs.k1, legs.k2, k3, raw⟩ =
      senderFields sent.pkA sent.snapshot.identityPk ekA legs := by
  rw [d.fields, d.same hkem]
  rfl

end DeliveryOf

end Invariant

def Agrees (e : NetEvent) : Prop :=
  ∀ sent k, e.reply = .delivered sent (.ok k) → k = sent.key

def StaleRefused (e : NetEvent) : Prop :=
  ∀ sent result, e.reply = .delivered sent result →
    e.before.bundle.oneTimePrekeys.head? ≠ sent.snapshot.oneTimePrekeys.head? → IsErr result

/-- A delivery finds the sender's one-time prekey first, or none at all. -/
def FindsOwnPrekey (e : NetEvent) : Prop :=
  ∀ sent result, e.reply = .delivered sent result →
    e.before.bundle.oneTimePrekeys = [] ∨
      e.before.bundle.oneTimePrekeys.head? = sent.snapshot.oneTimePrekeys.head?

def FindsOwnKemKey (params : EirnParams) (e : NetEvent) : Prop :=
  ∀ sent result, e.reply = .delivered sent result →
    e.before.bundle.oneTimePrekeys = [] ∨
      (e.before.bundle.oneTimePrekeys.head?).map (kemPart params) =
        (sent.snapshot.oneTimePrekeys.head?).map (kemPart params)

/-- What SHAKE256 hashes for the session keys of a run's deliveries. -/
def deliveredInputs (L : Suite) (events : List NetEvent) : Set Bytes :=
  {x | ∃ e ∈ events, ∃ sent result, e.reply = .delivered sent result ∧
    x ∈ kdfInputs L sent.skA sent.pkA sent.snapshot sent.draws e.before.bundle sent.msg}

section Events
variable {L : Suite} {params : EirnParams} {b₀ : PrekeyBundle}

theorem delivered_event (call : NetCall) (n : Network) (sent : Sent)
    (result : Result (FixedBytes 32)) (h : NetInv L params b₀ n)
    (hr : (event (netStep L) call n).reply = .delivered sent result) :
    GoodSent L params b₀ sent ∧ result = (receiverHandshake L n.bundle sent.msg).1 := by
  cases call with
  | snapshot => cases hr
  | consume => cases hr
  | send skA pkA mode draws index =>
    simp only [event, netStep] at hr
    cases hi : n.snapshots[index]? with
    | none =>
      rw [hi] at hr
      cases hr
    | some snapshot =>
      rw [hi] at hr
      dsimp only at hr
      cases hcall : senderCall L mode skA pkA snapshot draws with
      | error e =>
        rw [hcall] at hr
        cases hr
      | ok r =>
        rw [hcall] at hr
        cases hr
  | deliver index =>
    simp only [event, netStep] at hr
    cases hi : n.flight[index]? with
    | none =>
      rw [hi] at hr
      cases hr
    | some s =>
      rw [hi] at hr
      simp only [NetReply.delivered.injEq] at hr
      obtain ⟨rfl, rfl⟩ := hr
      exact ⟨h.flight s (List.mem_of_getElem? hi), rfl⟩

theorem event_agrees_and_refuses_iff (hl : L.Lawful) (call : NetCall) (n : Network)
    (h : NetInv L params b₀ n) :
    (Agrees (event (netStep L) call n) ∧ StaleRefused (event (netStep L) call n)) ↔
      FindsOwnPrekey (event (netStep L) call n) := by
  constructor
  · rintro ⟨_, hstale⟩ sent result hr
    obtain ⟨hsent, rfl⟩ := delivered_event call n sent result h hr
    rcases deliver_cases hl hsent h.bundle with
      ⟨hempty, _⟩ | ⟨pk, opkB, ekA, legs, raw, k3, k, d⟩
    · exact Or.inl hempty
    · refine Or.inr ?_
      by_contra hne
      have herr := hstale sent _ hr hne
      rw [d.accepted] at herr
      exact ok_not_err k herr
  · intro hown
    constructor
    · intro sent k hr
      obtain ⟨hsent, hk⟩ := delivered_event call n sent _ h hr
      rcases deliver_cases hl hsent h.bundle with
        ⟨_, herr⟩ | ⟨pk, opkB, ekA, legs, raw, k3, k', d⟩
      · rw [herr] at hk
        cases hk
      · rw [d.accepted] at hk
        cases hk
        apply d.agrees
        rcases hown sent _ hr with hempty | hfirst
        · exact absurd d.first (by rw [show n.bundle.oneTimePrekeys = [] from hempty]; simp)
        · rw [Option.some.inj ((d.first.symm.trans hfirst).trans d.sentFirst)]
    · intro sent result hr hne
      obtain ⟨hsent, rfl⟩ := delivered_event call n sent result h hr
      rcases hown sent _ hr with hempty | hfirst
      · rcases deliver_cases hl hsent h.bundle with ⟨_, herr⟩ | ⟨pk, opkB, ekA, legs, raw, k3, k, d⟩
        · exact ⟨_, by rw [herr]⟩
        · exact absurd d.first (by rw [show n.bundle.oneTimePrekeys = [] from hempty]; simp)
      · exact absurd hfirst hne

theorem event_agrees_iff (hl : L.Lawful) (hrej : L.Rejecting) (call : NetCall) (n : Network)
    (h : NetInv L params b₀ n)
    (hinj : ∀ sent result, (event (netStep L) call n).reply = .delivered sent result →
      Set.InjOn (fun x => L.shake256 x 32)
        (kdfInputs L sent.skA sent.pkA sent.snapshot sent.draws n.bundle sent.msg)) :
    Agrees (event (netStep L) call n) ↔ FindsOwnKemKey params (event (netStep L) call n) := by
  constructor
  · intro hagrees sent result hr
    obtain ⟨hsent, rfl⟩ := delivered_event call n sent result h hr
    rcases deliver_cases hl hsent h.bundle with
      ⟨hempty, _⟩ | ⟨pk, opkB, ekA, legs, raw, k3, k, d⟩
    · exact Or.inl hempty
    · refine Or.inr ?_
      have hk := hagrees sent k (by rw [hr, d.accepted])
      show (n.bundle.oneTimePrekeys.head?).map _ = _
      rw [d.first, d.sentFirst]
      exact congrArg some (d.kemPart_eq hrej (hinj sent _ hr) hk)
  · intro hown sent k hr
    obtain ⟨hsent, hk⟩ := delivered_event call n sent _ h hr
    rcases deliver_cases hl hsent h.bundle with
      ⟨_, herr⟩ | ⟨pk, opkB, ekA, legs, raw, k3, k', d⟩
    · rw [herr] at hk
      cases hk
    · rw [d.accepted] at hk
      cases hk
      apply d.agrees
      rcases hown sent _ hr with hempty | hfirst
      · exact absurd d.first (by rw [show n.bundle.oneTimePrekeys = [] from hempty]; simp)
      · have hmap : (n.bundle.oneTimePrekeys.head?).map (kemPart params) = _ := hfirst
        rw [d.first, d.sentFirst] at hmap
        exact Option.some.inj hmap

end Events

theorem ideal_key (a b c d : FixedBytes 32) (pkA pkB ekA : Bytes) (cts : List Bytes) :
    idealSuite.shake256 (Fields.input ⟨[a, b, c, d], pkA, pkB, ekA, cts⟩) 32 = c := by
  have hlabel : sessionLabel.length = 10 := by decide
  have hinputs : sessionInputs [a, b, c, d] pkA pkB ekA cts none =
      a.1 :: b.1 :: c.1 :: d.1 :: pkA :: pkB :: ekA :: (cts ++ []) := rfl
  have hsplit : Fields.input ⟨[a, b, c, d], pkA, pkB, ekA, cts⟩ =
      (beBytes 2 sessionLabel.length ++ sessionLabel ++
        beBytes 2 (sessionInputs [a, b, c, d] pkA pkB ekA cts none).length ++
        beBytes 4 a.1.length ++ a.1 ++ beBytes 4 b.1.length ++ b.1 ++ beBytes 4 c.1.length) ++
        (c.1 ++ fields (d.1 :: pkA :: pkB :: ekA :: (cts ++ []))) := by
    simp only [Fields.input, sessionInput, kdfEncode, hinputs, fields_cons, List.append_assoc]
  have htake : (Fields.input ⟨[a, b, c, d], pkA, pkB, ekA, cts⟩).take 2 =
      beBytes 2 sessionLabel.length := by
    rw [Fields.input, sessionInput, kdfEncode, List.take_left' (by simp)]
  have hne : beBytes 2 sessionLabel.length ≠ [0, 11] := by decide
  simp only [idealSuite, htake, if_neg hne]
  rw [hsplit, List.drop_left', fit_append 32 _ _ c.2]
  simp only [List.length_append, beBytes_length, hlabel, a.2, b.2]

def constantSeed (i : ℕ) : FixedBytes 96 :=
  ⟨List.replicate 96 (UInt8.ofNat i), List.length_replicate⟩

def constantCoins (i : ℕ) : FixedBytes 32 :=
  ⟨List.replicate 32 (UInt8.ofNat i), List.length_replicate⟩

def constantDraws (i : ℕ) : SenderDraws where
  ephemeral := constantSeed i
  coins1 := constantCoins i
  coins2 := constantCoins i
  coins3 := constantCoins i
  coins4 := constantCoins i

theorem constantSeed_kemPart (i : ℕ) :
    (ekBytes idealSuite params768 (kemSeedOf (constantSeed i))).head? = some (UInt8.ofNat i) := by
  rw [ekBytes, dispatch768]
  rfl

theorem two_prekeys :
    ∃ b₀ pk₁ pk₂, generatePrekeyBundleWithParams idealSuite constantSeed 2 params768 = .ok b₀ ∧
      BundleInv idealSuite params768 b₀ ∧ b₀.oneTimePrekeys = [pk₁, pk₂] ∧
      kemPart params768 pk₂ ≠ kemPart params768 pk₁ := by
  have hkey := fun i => keygen_generated idealSuite (constantSeed i) params768 supported768
  obtain ⟨pk, sk, hk, _⟩ := hkey 0
  obtain ⟨spk, ssk, hsk, _⟩ := hkey 1
  obtain ⟨pk₁, sk₁, hk₁, g₁, hs₁, _⟩ := hkey 2
  obtain ⟨pk₂, sk₂, hk₂, g₂, hs₂, _⟩ := hkey 3
  have hgen : ∃ c, generatePrekeyBundleWithParams idealSuite constantSeed 2 params768 =
      .ok ⟨pk, sk, spk, ssk, [pk₁, pk₂], [sk₁, sk₂], c⟩ := by
    simp only [generatePrekeyBundleWithParams, generateOneTime, keygenWithParams, hk, hsk, hk₁,
      hk₂, ok_bind, pure_ok]
    exact ⟨_, rfl⟩
  obtain ⟨c, hb⟩ := hgen
  refine ⟨_, pk₁, pk₂, hb, (generate_inv _ _ supported768 _ _ _ hb).1, rfl, ?_⟩
  intro h
  have hhead := congrArg List.head? ((g₂.kemPart.symm.trans h).trans g₁.kemPart)
  rw [hs₁, hs₂, constantSeed_kemPart, constantSeed_kemPart] at hhead
  exact absurd hhead (by decide)

theorem ideal_delivery {params : EirnParams} {sent : Sent} {b : PrekeyBundle}
    {pk opkB ekA : PublicKey} {legs : Legs} {raw k3 k : FixedBytes 32}
    (d : DeliveryOf idealSuite params sent b pk opkB ekA legs raw k3 k) :
    sent.key = sent.draws.coins3 ∧ (k = sent.draws.coins3 ∨ k = bump sent.draws.coins3) := by
  obtain ⟨eskA, opkB', _, _, hlegs⟩ := d.sender
  obtain ⟨sk, _, hsec⟩ := d.receiver
  have hct : sent.msg.ct3.data = legs.ct3.data := by
    have hcts := congrArg Fields.ciphertexts d.fields
    simp only [receiverFields, senderFields, Msg0Prime.ciphertexts, Legs.ciphertexts,
      List.cons.injEq] at hcts
    exact hcts.2.2.1
  obtain ⟨hss, hk3⟩ := ideal_leg _ _ _ _ _ _ _ hlegs.leg3 hct hsec.leg3
  have hsent : sent.key = legs.k3 := by
    rw [d.senderKey]
    exact ideal_key _ _ _ _ _ _ _ _
  have hreceived : k = k3 := by
    rw [d.receiverKey, d.fields]
    exact ideal_key _ _ _ _ _ _ _ _
  rw [hsent, hreceived]
  exact ⟨hss, hk3⟩

theorem other_prekey_other_key {b₀ b : PrekeyBundle} {sent : Sent} (pk opkB : PublicKey)
    (h : GoodSent idealSuite params768 b₀ sent) (hb : RunInv idealSuite params768 b₀ b)
    (hfirst : b.oneTimePrekeys.head? = some pk)
    (hown : sent.snapshot.oneTimePrekeys.head? = some opkB)
    (hne : kemPart params768 pk ≠ kemPart params768 opkB) :
    ∃ ekA legs raw k3 k,
      DeliveryOf idealSuite params768 sent b pk opkB ekA legs raw k3 k ∧
      sent.key = sent.draws.coins3 ∧ k = bump sent.draws.coins3 := by
  rcases deliver_cases idealSuite_lawful h hb with
    ⟨hempty, _⟩ | ⟨pk', opkB', ekA, legs, raw, k3, k, d⟩
  · rw [hempty] at hfirst
    cases hfirst
  · obtain rfl := Option.some.inj (hfirst.symm.trans d.first)
    obtain rfl := Option.some.inj (hown.symm.trans d.sentFirst)
    obtain ⟨hsent, hk⟩ := ideal_delivery d
    refine ⟨ekA, legs, raw, k3, k, d, hsent, hk.resolve_left ?_⟩
    intro heq
    have hkeys : sent.key = k := by rw [hsent, heq]
    rw [d.receiverKey, d.senderKey, d.fields] at hkeys
    simp only [senderFields, Legs.secrets, ideal_key] at hkeys
    exact d.different idealSuite_rejecting hne hkeys.symm

section ShortRuns
variable {L : Suite} {b₀ : PrekeyBundle}

theorem one_sender_inputs {skA : SecretKey} {pkA : PublicKey} {draws : SenderDraws}
    {m₁ : Msg0Prime} {k₁ : FixedBytes 32}
    (hsend : senderCall L .lite skA pkA b₀.publicBundle draws = .ok (m₁, k₁)) :
    deliveredInputs L (trace (netStep L) [.snapshot, .send skA pkA .lite draws 0, .deliver 0]
      (startOf b₀)) ⊆ kdfInputs L skA pkA b₀.publicBundle draws b₀ m₁ := by
  rintro x ⟨e, he, sent, result, hr, hx⟩
  simp only [trace, event, netStep, startOf, List.nil_append, List.getElem?_cons_zero, hsend,
    List.mem_cons, List.not_mem_nil, or_false] at he
  rcases he with rfl | rfl | rfl
  · cases hr
  · cases hr
  · cases hr
    exact hx

theorem injOn_union_of_ne {α β : Type} {f : α → β} {s t : Set α} (hs : Set.InjOn f s)
    (ht : Set.InjOn f t) (h : ∀ a ∈ s, ∀ b ∈ t, f a ≠ f b) : Set.InjOn f (s ∪ t) := by
  have hdisjoint : Disjoint s t := Set.disjoint_left.mpr fun a ha hb => h a ha a hb rfl
  exact (Set.injOn_union hdisjoint).mpr ⟨hs, ht, h⟩

variable {s₁ s₂ : Sent} {k : FixedBytes 32}

def sendOf (s : Sent) : NetCall := .send s.skA s.pkA s.mode s.draws 0

def crossing (s₁ s₂ : Sent) : List NetCall :=
  [.snapshot, sendOf s₁, sendOf s₂, .deliver 0, .deliver 0]

theorem send_current {s : Sent} (hsnap : s.snapshot = b₀.publicBundle)
    (hsend : senderCall L s.mode s.skA s.pkA s.snapshot s.draws = .ok (s.msg, s.key))
    (flight : List Sent) :
    netStep L (sendOf s) ⟨b₀, [b₀.publicBundle], flight⟩ =
      (.idle, ⟨b₀, [b₀.publicBundle], flight ++ [s]⟩) := by
  simp [sendOf, netStep, ← hsnap, hsend]

theorem crossing_trace (s₁ s₂ : Sent) (hsnap₁ : s₁.snapshot = b₀.publicBundle)
    (hsnap₂ : s₂.snapshot = b₀.publicBundle)
    (hsend₁ : senderCall L s₁.mode s₁.skA s₁.pkA s₁.snapshot s₁.draws = .ok (s₁.msg, s₁.key))
    (hsend₂ : senderCall L s₂.mode s₂.skA s₂.pkA s₂.snapshot s₂.draws = .ok (s₂.msg, s₂.key))
    (hr : receiverHandshake L b₀ s₁.msg = (.ok s₁.key, popped b₀)) :
    trace (netStep L) (crossing s₁ s₂) (startOf b₀) =
      [event (netStep L) .snapshot (startOf b₀),
        event (netStep L) (sendOf s₁) ⟨b₀, [b₀.publicBundle], []⟩,
        event (netStep L) (sendOf s₂) ⟨b₀, [b₀.publicBundle], [s₁]⟩,
        event (netStep L) (.deliver 0) ⟨b₀, [b₀.publicBundle], [s₁, s₂]⟩,
        event (netStep L) (.deliver 0) ⟨popped b₀, [b₀.publicBundle], [s₂]⟩] := by
  have hstart : (netStep L .snapshot (startOf b₀)).2 = ⟨b₀, [b₀.publicBundle], []⟩ := rfl
  have hdeliver : (netStep L (.deliver 0) ⟨b₀, [b₀.publicBundle], [s₁, s₂]⟩).2 =
      ⟨popped b₀, [b₀.publicBundle], [s₂]⟩ := by
    simp [netStep, hr]
  simp only [crossing, trace, hstart, send_current hsnap₁ hsend₁, send_current hsnap₂ hsend₂,
    List.nil_append, List.cons_append, hdeliver]

theorem crossing_inputs (s₁ s₂ : Sent) (hsnap₁ : s₁.snapshot = b₀.publicBundle)
    (hsnap₂ : s₂.snapshot = b₀.publicBundle)
    (hsend₁ : senderCall L s₁.mode s₁.skA s₁.pkA s₁.snapshot s₁.draws = .ok (s₁.msg, s₁.key))
    (hsend₂ : senderCall L s₂.mode s₂.skA s₂.pkA s₂.snapshot s₂.draws = .ok (s₂.msg, s₂.key))
    (hr : receiverHandshake L b₀ s₁.msg = (.ok s₁.key, popped b₀)) :
    deliveredInputs L (trace (netStep L) (crossing s₁ s₂) (startOf b₀)) ⊆
      kdfInputs L s₁.skA s₁.pkA s₁.snapshot s₁.draws b₀ s₁.msg ∪
        kdfInputs L s₂.skA s₂.pkA s₂.snapshot s₂.draws (popped b₀) s₂.msg := by
  rintro x ⟨e, he, sent, result, hreply, hx⟩
  rw [crossing_trace s₁ s₂ hsnap₁ hsnap₂ hsend₁ hsend₂ hr] at he
  simp only [List.mem_cons, List.not_mem_nil, or_false] at he
  rcases he with rfl | rfl | rfl | rfl | rfl
  · cases hreply
  · rw [event, send_current hsnap₁ hsend₁] at hreply
    cases hreply
  · rw [event, send_current hsnap₂ hsend₂] at hreply
    cases hreply
  · cases hreply
    exact Or.inl hx
  · cases hreply
    exact Or.inr hx

theorem first_delivery (hl : L.Lawful) {params : EirnParams} (hb : BundleInv L params b₀)
    (h : GoodSent L params b₀ s₁) (hsnap : s₁.snapshot = b₀.publicBundle)
    (hpool : b₀.oneTimePrekeys ≠ []) :
    ∃ pk ekA legs raw k3, DeliveryOf L params s₁ b₀ pk pk ekA legs raw k3 s₁.key := by
  rcases deliver_cases hl h (runInv_start hb) with
    ⟨hempty, _⟩ | ⟨pk, opkB, ekA, legs, raw, k3, k, d⟩
  · exact absurd hempty hpool
  · have hfirst := d.sentFirst
    rw [hsnap] at hfirst
    obtain rfl := Option.some.inj (d.first.symm.trans hfirst)
    obtain rfl := d.agrees rfl
    exact ⟨pk, ekA, legs, raw, k3, d⟩

theorem two_deliveries_injOn {params : EirnParams} {pk₁ pk₂ opkB₁ opkB₂ ekA₁ ekA₂ : PublicKey}
    {legs₁ legs₂ : Legs} {raw₁ raw₂ k3₁ k3₂ : FixedBytes 32} {b₁ b₂ : PrekeyBundle}
    (d₁ : DeliveryOf L params s₁ b₁ pk₁ opkB₁ ekA₁ legs₁ raw₁ k3₁ s₁.key)
    (d₂ : DeliveryOf L params s₂ b₂ pk₂ opkB₂ ekA₂ legs₂ raw₂ k3₂ k)
    (hkem : kemPart params pk₁ = kemPart params opkB₁) (hsent : s₁.key ≠ s₂.key)
    (hfirst : s₁.key ≠ k) (hsecond : s₂.key ≠ k) :
    Set.InjOn (fun x => L.shake256 x 32)
      (kdfInputs L s₁.skA s₁.pkA s₁.snapshot s₁.draws b₁ s₁.msg ∪
        kdfInputs L s₂.skA s₂.pkA s₂.snapshot s₂.draws b₂ s₂.msg) := by
  have hinputs₁ := d₁.inputs
  rw [d₁.same_input hkem, Set.pair_eq_singleton] at hinputs₁
  have hkey₁ := d₁.senderKey
  have hkey₂ := d₂.senderKey
  have hkey := d₂.receiverKey
  refine (injOn_union_of_ne (Set.injOn_singleton _ _) (injOn_union_of_ne
    (Set.injOn_singleton _ _) (Set.injOn_singleton _ _) ?_) ?_).mono
    (Set.union_subset_union hinputs₁ d₂.inputs)
  · rintro _ rfl _ rfl
    rw [← hkey₂, ← hkey]
    exact hsecond
  · rintro _ rfl _ (rfl | rfl)
    · rw [← hkey₁, ← hkey₂]
      exact hsent
    · rw [← hkey₁, ← hkey]
      exact hfirst

end ShortRuns

/-- Over every run, agreement and refusal of stale messages hold exactly when
each delivery finds its own one-time prekey first or the pool empty; agreement
alone, exactly when this holds of the ML-KEM keys. -/
theorem agreement_iff (L : Suite) (hl : L.Lawful) (params : EirnParams)
    (hs : IsSupportedParams params) (drawn : ℕ → FixedBytes 96) (numOpk : ℕ) (b₀ : PrekeyBundle)
    (hgen : generatePrekeyBundleWithParams L drawn numOpk params = .ok b₀)
    (calls : List NetCall) (hc : ∀ call ∈ calls, Honest L call) :
    ((∀ e ∈ trace (netStep L) calls (startOf b₀), Agrees e ∧ StaleRefused e) ↔
      ∀ e ∈ trace (netStep L) calls (startOf b₀), FindsOwnPrekey e) ∧
    (L.Rejecting → Set.InjOn (fun x => L.shake256 x 32)
        (deliveredInputs L (trace (netStep L) calls (startOf b₀))) →
      ((∀ e ∈ trace (netStep L) calls (startOf b₀), Agrees e) ↔
        ∀ e ∈ trace (netStep L) calls (startOf b₀), FindsOwnKemKey params e)) := by
  have hstart := netInv_start (generate_inv L params hs drawn numOpk b₀ hgen).1
  have hevent := trace_invariant (netStep L) (Honest L) (NetInv L params b₀) (netInv_step hl)
    calls (startOf b₀) hc hstart
  constructor
  · apply forall₂_congr
    intro e he
    obtain ⟨hinv, _, heq⟩ := hevent e he
    rw [heq]
    exact event_agrees_and_refuses_iff hl e.call e.before hinv
  · intro hrej hinj
    apply forall₂_congr
    intro e he
    obtain ⟨hinv, _, heq⟩ := hevent e he
    rw [heq]
    refine event_agrees_iff hl hrej e.call e.before hinv ?_
    intro sent result hr
    apply hinj.mono
    intro x hx
    exact ⟨e, he, sent, result, by rw [heq, hr], hx⟩

theorem agreement_iff_one_sender :
    ∃ b₀ pkA skA, ∃ calls : List NetCall,
      generatePrekeyBundleWithParams idealSuite constantSeed 2 params768 = .ok b₀ ∧
      calls = [.snapshot, .send skA pkA .lite zeroDraws 0, .deliver 0] ∧
      ((∀ e ∈ trace (netStep idealSuite) calls (startOf b₀), Agrees e ∧ StaleRefused e) ↔
        ∀ e ∈ trace (netStep idealSuite) calls (startOf b₀), FindsOwnPrekey e) ∧
      ((∀ e ∈ trace (netStep idealSuite) calls (startOf b₀), Agrees e) ↔
        ∀ e ∈ trace (netStep idealSuite) calls (startOf b₀), FindsOwnKemKey params768 e) := by
  obtain ⟨b₀, pk₁, pk₂, hgen, hinv, hpool, _⟩ := two_prekeys
  obtain ⟨pkA, skA, hA, _⟩ := keygen_generated idealSuite (constantSeed 4) params768 supported768
  generalize zeroDraws = draws
  obtain ⟨m, k, hsend, _⟩ := exchange_ok idealSuite_lawful ⟨_, hA⟩ hinv
    (hpool ▸ List.cons_ne_nil _ _) .lite draws
  have hinputs := (honest_inputs idealSuite_lawful.keysValid idealSuite_lawful.kemCorrect hinv
    hsend).1
  rw [← senderCall_eq] at hsend
  have hcalls : ∀ call ∈ ([.snapshot, .send skA pkA .lite draws 0, .deliver 0] : List NetCall),
      Honest idealSuite call := by
    simp only [List.forall_mem_cons, Honest]
    exact ⟨trivial, ⟨_, _, hA⟩, trivial, by simp⟩
  have h := agreement_iff idealSuite idealSuite_lawful params768 supported768 constantSeed 2 b₀
    hgen _ hcalls
  exact ⟨b₀, pkA, skA, _, hgen, rfl, h.1,
    h.2 idealSuite_rejecting ((hinputs.anti (one_sender_inputs hsend)).injOn _)⟩

/-- Two honest senders with other draws use one snapshot: the second message is
accepted with a key that its sender does not have, and no hashes collide. -/
theorem second_sender_other_key :
    ∃ b₀ pkA skA pkC skC, ∃ calls : List NetCall,
      generatePrekeyBundleWithParams idealSuite constantSeed 2 params768 = .ok b₀ ∧
      calls = [.snapshot, .send skA pkA .lite zeroDraws 0,
        .send skC pkC .strict (constantDraws 5) 0, .deliver 0, .deliver 0] ∧
      (∀ call ∈ calls, Honest idealSuite call) ∧
      Set.InjOn (fun x => idealSuite.shake256 x 32)
        (deliveredInputs idealSuite (trace (netStep idealSuite) calls (startOf b₀))) ∧
      (∃ e ∈ trace (netStep idealSuite) calls (startOf b₀), ∃ sent k,
        e.reply = .delivered sent (.ok k) ∧ k ≠ sent.key) ∧
      ¬ ∀ e ∈ trace (netStep idealSuite) calls (startOf b₀), Agrees e ∧ StaleRefused e := by
  obtain ⟨b₀, pk₁, pk₂, hgen, hinv, hpool, hne⟩ := two_prekeys
  obtain ⟨pkA, skA, hA, _⟩ := keygen_generated idealSuite (constantSeed 4) params768 supported768
  obtain ⟨pkC, skC, hC, _⟩ := keygen_generated idealSuite (constantSeed 5) params768 supported768
  have hne₀ : b₀.oneTimePrekeys ≠ [] := by
    rw [hpool]
    exact List.cons_ne_nil _ _
  obtain ⟨m₁, k₁, hsend₁, _, _, hr₁⟩ := exchange_ok idealSuite_lawful ⟨_, hA⟩ hinv hne₀ .lite
    zeroDraws
  obtain ⟨m₂, k₂, hsend₂, _⟩ := exchange_ok idealSuite_lawful ⟨_, hC⟩ hinv hne₀ .strict
    (constantDraws 5)
  rw [← senderCall_eq] at hsend₁ hsend₂
  have hsnapshot := goodSnapshot_publicBundle (runInv_start hinv)
  have hgood₁ : GoodSent idealSuite params768 b₀
      ⟨skA, pkA, b₀.publicBundle, .lite, zeroDraws, m₁, k₁⟩ := ⟨hsnapshot, ⟨_, _, hA⟩, hsend₁⟩
  have hgood₂ : GoodSent idealSuite params768 b₀
      ⟨skC, pkC, b₀.publicBundle, .strict, constantDraws 5, m₂, k₂⟩ :=
    ⟨hsnapshot, ⟨_, _, hC⟩, hsend₂⟩
  obtain ⟨_, _, _, _, _, d₁⟩ := first_delivery idealSuite_lawful hinv hgood₁ rfl hne₀
  obtain ⟨_, _, _, _, k, d₂, hkey₂, hkey⟩ := other_prekey_other_key pk₂ pk₁ hgood₂
    ⟨popped_inv hinv, rfl, rfl, rfl, rfl, rfl⟩ (by rw [popped, hpool]; rfl)
    (by rw [PrekeyBundle.publicBundle, hpool]; rfl) hne
  have hkey₁ : k₁ = zeros 32 := (ideal_delivery d₁).1
  change k₂ = constantCoins 5 at hkey₂
  change k = bump (constantCoins 5) at hkey
  have hdiff : k ≠ k₂ := by
    rw [hkey, hkey₂]
    exact bump_ne _
  have htrace := crossing_trace ⟨skA, pkA, b₀.publicBundle, .lite, zeroDraws, m₁, k₁⟩
    ⟨skC, pkC, b₀.publicBundle, .strict, constantDraws 5, m₂, k₂⟩ rfl rfl hsend₁ hsend₂ hr₁
  have hinputs := crossing_inputs ⟨skA, pkA, b₀.publicBundle, .lite, zeroDraws, m₁, k₁⟩
    ⟨skC, pkC, b₀.publicBundle, .strict, constantDraws 5, m₂, k₂⟩ rfl rfl hsend₁ hsend₂ hr₁
  have hmem := List.mem_of_getElem? (congrArg (fun events => events[4]?) htrace)
  refine ⟨b₀, pkA, skA, pkC, skC, _, hgen, rfl, ?_, ?_, ?_, ?_⟩
  · simp only [List.forall_mem_cons, Honest]
    exact ⟨trivial, ⟨_, _, hA⟩, ⟨_, _, hC⟩, trivial, trivial, by simp⟩
  · refine (two_deliveries_injOn d₁ d₂ rfl ?_ ?_ hdiff.symm).mono hinputs
    · show k₁ ≠ k₂
      rw [hkey₁, hkey₂]
      decide
    · show k₁ ≠ k
      rw [hkey₁, hkey]
      decide
  · exact ⟨_, hmem, _, k, congrArg _ d₂.accepted, hdiff⟩
  · intro h
    exact hdiff ((h _ hmem).1 _ k (congrArg _ d₂.accepted))

end EirnKcp.Interleaving
