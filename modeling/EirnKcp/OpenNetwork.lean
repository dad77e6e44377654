import EirnKcp.Interleaving

/-!
# Many receivers and an open network

Receivers answer their calls in any order, senders build messages from any
published bundle, and the network may deliver any message to any receiver any
number of times. An accepted key that some sender holds identifies the sender's
message, the receiver and the one-time prekey, and no second delivery accepts it.
-/

set_option autoImplicit false

namespace EirnKcp.OpenNetwork
open EirnKcp.CheckedCode EirnKcp.ByteCodec EirnKcp.Params EirnKcp.Primitives EirnKcp.Kem
open EirnKcp.KeyLaws EirnKcp.Zk EirnKcp.Prekey EirnKcp.Handshake EirnKcp.HandshakeSteps
open EirnKcp.ReceiverState EirnKcp.HonestHandshake EirnKcp.SessionBinding EirnKcp.CallRuns
open EirnKcp.Interleaving EirnKcp.IdealSuite

structure System where
  receivers : List PrekeyBundle
  published : List PublicPrekeyBundle
  sent : List Sent

inductive OpenCall where
  | receiver (index : ℕ) (call : ReceiverCall)
  | send (skA : SecretKey) (pkA : PublicKey) (mode : KcpMode) (draws : SenderDraws) (index : ℕ)

inductive OpenReply where
  | idle
  | answered (reply : ReceiverReply)

def publishedBy : ReceiverReply → List PublicPrekeyBundle
  | .bundle snapshot => [snapshot]
  | _ => []

def openStep (L : Suite) : OpenCall → System → OpenReply × System
  | .receiver index call, n =>
    match n.receivers[index]? with
    | none => (.idle, n)
    | some b =>
      (.answered (receiverStep L call b).1,
        { n with
          receivers := n.receivers.set index (receiverStep L call b).2
          published := n.published ++ publishedBy (receiverStep L call b).1 })
  | .send skA pkA mode draws index, n =>
    match n.published[index]? with
    | none => (.idle, n)
    | some snapshot =>
      match senderCall L mode skA pkA snapshot draws with
      | .ok (msg, key) =>
        (.idle, { n with sent := n.sent ++ [⟨skA, pkA, snapshot, mode, draws, msg, key⟩] })
      | .error _ => (.idle, n)

def openStart (start : List PrekeyBundle) : System := ⟨start, [], []⟩

abbrev OpenEvent := Event System OpenCall OpenReply

/-- Senders hold generated pairs; delivered messages are any that can be built. -/
def OpenAllowed (L : Suite) : OpenCall → Prop
  | .receiver _ call => Allowed call
  | .send skA pkA _ _ _ => ∃ params, KeyPair L params pkA skA

section Order

structure Later (b b' : PrekeyBundle) : Prop where
  keys : SameKeys b b'
  pool : b'.oneTimePrekeys <:+ b.oneTimePrekeys

theorem Later.refl (b : PrekeyBundle) : Later b b :=
  ⟨⟨rfl, rfl, rfl, rfl, rfl⟩, List.suffix_refl _⟩

theorem SameKeys.trans {a b c : PrekeyBundle} (h : SameKeys a b) (h' : SameKeys b c) :
    SameKeys a c where
  identityPk := h'.identityPk.trans h.identityPk
  identitySk := h'.identitySk.trans h.identitySk
  signedPrekeyPk := h'.signedPrekeyPk.trans h.signedPrekeyPk
  signedPrekeySk := h'.signedPrekeySk.trans h.signedPrekeySk
  commitment := h'.commitment.trans h.commitment

theorem Later.trans {a b c : PrekeyBundle} (h : Later a b) (h' : Later b c) : Later a c :=
  ⟨SameKeys.trans h.keys h'.keys, h'.pool.trans h.pool⟩

theorem popped_later (b : PrekeyBundle) : Later b (popped b) :=
  ⟨⟨rfl, rfl, rfl, rfl, rfl⟩, List.drop_suffix 1 b.oneTimePrekeys⟩

theorem receiverStep_later {L : Suite} {params : EirnParams} (call : ReceiverCall)
    (b : PrekeyBundle) (ha : Allowed call) (h : BundleInv L params b) :
    BundleInv L params (receiverStep L call b).2 ∧ Later b (receiverStep L call b).2 := by
  rcases receiverStep_cases call b ha h with ⟨_, hb⟩ | ⟨_, hb, _⟩
  · rw [hb]
    exact ⟨h, Later.refl b⟩
  · rw [hb]
    exact ⟨popped_inv h, popped_later b⟩

def LaterSystem (n n' : System) : Prop :=
  ∀ (i : ℕ) b', n'.receivers[i]? = some b' → ∃ b, n.receivers[i]? = some b ∧ Later b b'

theorem laterSystem_refl (n : System) : LaterSystem n n :=
  fun _ b hb => ⟨b, hb, Later.refl b⟩

theorem laterSystem_trans (a b c : System) (h : LaterSystem a b) (h' : LaterSystem b c) :
    LaterSystem a c := by
  intro i d hd
  obtain ⟨e, he, hed⟩ := h' i d hd
  obtain ⟨f, hf, hfe⟩ := h i e he
  exact ⟨f, hf, hfe.trans hed⟩

end Order

section Invariant
variable {L : Suite} {start : List PrekeyBundle}

structure SystemInv (L : Suite) (start : List PrekeyBundle) (n : System) : Prop where
  receivers : ∀ b ∈ n.receivers, ∃ params, BundleInv L params b
  later : LaterSystem (openStart start) n
  published : ∀ s ∈ n.published, ∃ b₀ ∈ start, ∃ params, BundleInv L params b₀ ∧
    GoodSnapshot L params b₀ s
  sent : ∀ x ∈ n.sent, ∃ b₀ ∈ start, ∃ params, BundleInv L params b₀ ∧ GoodSent L params b₀ x

theorem systemInv_start (h : ∀ b ∈ start, ∃ params, BundleInv L params b) :
    SystemInv L start (openStart start) :=
  ⟨h, laterSystem_refl _, by simp [openStart], by simp [openStart]⟩

theorem answered_later (n : System) (index : ℕ) (b b' : PrekeyBundle)
    (published : List PublicPrekeyBundle) (hb : n.receivers[index]? = some b) (h : Later b b') :
    LaterSystem n { n with receivers := n.receivers.set index b', published := published } := by
  intro i d hd
  by_cases hi : index = i
  · subst hi
    have hlt := (List.getElem?_eq_some_iff.mp hb).1
    have hset : (n.receivers.set index b')[index]? = some b' := List.getElem?_set_self hlt
    obtain rfl := Option.some.inj (hset.symm.trans hd)
    exact ⟨b, hb, h⟩
  · rw [List.getElem?_set_ne hi] at hd
    exact ⟨d, hd, Later.refl d⟩

theorem openStep_later (call : OpenCall) (n : System) (ha : OpenAllowed L call)
    (h : SystemInv L start n) : LaterSystem n (openStep L call n).2 := by
  cases call with
  | receiver index call =>
    simp only [openStep]
    cases hb : n.receivers[index]? with
    | none => exact laterSystem_refl n
    | some b =>
      obtain ⟨params, hinv⟩ := h.receivers b (List.mem_of_getElem? hb)
      exact answered_later n index b _ _ hb (receiverStep_later call b ha hinv).2
  | send skA pkA mode draws index =>
    simp only [openStep]
    cases n.published[index]? with
    | none => exact laterSystem_refl n
    | some snapshot =>
      dsimp only
      cases senderCall L mode skA pkA snapshot draws with
      | error e => exact laterSystem_refl n
      | ok r => exact laterSystem_refl n

theorem answered_inv (n : System) (index : ℕ) (call : ReceiverCall) (ha : Allowed call)
    (h : ∀ b ∈ n.receivers, ∃ params, BundleInv L params b) :
    ∀ b ∈ (openStep L (.receiver index call) n).2.receivers, ∃ params, BundleInv L params b := by
  simp only [openStep]
  cases hb : n.receivers[index]? with
  | none => exact h
  | some b =>
    obtain ⟨params, hinv⟩ := h b (List.mem_of_getElem? hb)
    intro d hd
    rcases List.mem_or_eq_of_mem_set hd with hd | rfl
    · exact h d hd
    · exact ⟨params, (receiverStep_later call b ha hinv).1⟩

theorem systemInv_step (hstart : ∀ b ∈ start, ∃ params, BundleInv L params b) (call : OpenCall)
    (n : System) (ha : OpenAllowed L call) (h : SystemInv L start n) :
    SystemInv L start (openStep L call n).2 := by
  have hlater := laterSystem_trans _ _ _ h.later (openStep_later call n ha h)
  cases call with
  | receiver index call =>
    have hkeep := answered_inv n index call ha h.receivers
    simp only [openStep] at hlater hkeep ⊢
    cases hb : n.receivers[index]? with
    | none => exact h
    | some b =>
      rw [hb] at hlater hkeep
      obtain ⟨params, hinv⟩ := h.receivers b (List.mem_of_getElem? hb)
      refine ⟨hkeep, hlater, ?_, h.sent⟩
      intro s hs
      rcases List.mem_append.mp hs with hs | hs
      · exact h.published s hs
      · cases call with
        | receive msg => cases hs
        | consume => cases hs
        | publicBundle =>
          obtain rfl := List.mem_singleton.mp hs
          obtain ⟨b₀, hb₀, hb₀later⟩ := h.later index b hb
          have hmem := List.mem_of_getElem? hb₀
          obtain ⟨params₀, hinv₀⟩ := hstart b₀ hmem
          have hp : params = params₀ := by
            rw [← hinv.identity.generated.params_eq, hb₀later.keys.identityPk,
              hinv₀.identity.generated.params_eq]
          subst hp
          exact ⟨b₀, hmem, params, hinv₀, goodSnapshot_publicBundle ⟨hinv, hb₀later.keys⟩⟩
  | send skA pkA mode draws index =>
    simp only [openStep]
    cases hi : n.published[index]? with
    | none => exact h
    | some snapshot =>
      obtain ⟨b₀, hmem, params, hinv₀, hsnap⟩ := h.published snapshot (List.mem_of_getElem? hi)
      dsimp only
      cases hcall : senderCall L mode skA pkA snapshot draws with
      | error e => exact h
      | ok r =>
        refine ⟨h.receivers, h.later, h.published, ?_⟩
        intro x hx
        rcases List.mem_append.mp hx with hx | hx
        · exact h.sent x hx
        · rw [List.mem_singleton.mp hx]
          exact ⟨b₀, hmem, params, hinv₀, hsnap, ha, hcall⟩

end Invariant

section Starts
variable {L : Suite} {start : List PrekeyBundle} {calls : List OpenCall}

def Generates (L : Suite) (start : List PrekeyBundle) : Prop :=
  ∀ b ∈ start, ∃ params drawn numOpk, IsSupportedParams params ∧
    generatePrekeyBundleWithParams L drawn numOpk params = .ok b

theorem start_inv (hgen : Generates L start) : ∀ b ∈ start, ∃ params, BundleInv L params b := by
  intro b hb
  obtain ⟨params, drawn, numOpk, hs, hok⟩ := hgen b hb
  exact ⟨params, (generate_inv L params hs drawn numOpk b hok).1⟩

theorem event_inv (hgen : Generates L start) (hc : ∀ call ∈ calls, OpenAllowed L call)
    (e : OpenEvent) (he : e ∈ trace (openStep L) calls (openStart start)) :
    SystemInv L start e.before ∧ OpenAllowed L e.call ∧
      e = event (openStep L) e.call e.before :=
  trace_invariant (openStep L) (OpenAllowed L) (SystemInv L start)
    (systemInv_step (start_inv hgen)) calls _ hc (systemInv_start (start_inv hgen)) e he

theorem final_inv (hgen : Generates L start) (hc : ∀ call ∈ calls, OpenAllowed L call) :
    SystemInv L start (after (openStep L) calls (openStart start)) :=
  after_invariant (openStep L) (OpenAllowed L) (SystemInv L start)
    (systemInv_step (start_inv hgen)) calls _ hc (systemInv_start (start_inv hgen))

theorem events_later (hgen : Generates L start) (hc : ∀ call ∈ calls, OpenAllowed L call) :
    (trace (openStep L) calls (openStart start)).Pairwise
      (fun e e' => LaterSystem e.after e'.before) :=
  (trace_pairwise_of_monotone (openStep L) (OpenAllowed L) (SystemInv L start)
    (systemInv_step (start_inv hgen)) LaterSystem laterSystem_refl laterSystem_trans openStep_later
    calls _ hc (systemInv_start (start_inv hgen))).1

end Starts

structure Accepts (e : OpenEvent) (index : ℕ) (b : PrekeyBundle) (msg : Msg0Prime)
    (k : FixedBytes 32) : Prop where
  call : e.call = .receiver index (.receive msg)
  state : e.before.receivers[index]? = some b
  reply : e.reply = .answered (.key (.ok k))

/-- What SHAKE256 hashes for the session keys of a run, on either side. -/
def runInputs (L : Suite) (events : List OpenEvent) (sent : List Sent) : Set Bytes :=
  {x | (∃ s ∈ sent, ∃ ekA legs raw, SenderSession L s.skA s.pkA s.snapshot s.draws ekA legs raw ∧
      x = (senderFields s.pkA s.snapshot.identityPk ekA legs).input) ∨
    ∃ e ∈ events, ∃ index b msg k secrets, Accepts e index b msg k ∧
      ReceiverSession L b msg secrets ∧ x = (receiverFields L b msg secrets).input}

/-- One-time prekeys are told apart by the receiver and the ML-KEM key. -/
def firstKemKey (params : EirnParams) (pool : List PublicKey) : Option Bytes :=
  pool.head?.map (kemPart params)

/-- The accepted message is the sender's but for the proof, and the receiver is
the one whose published bundle and whose one-time prekey the sender used. -/
structure MatchingSession (sent : Sent) (b : PrekeyBundle) (msg : Msg0Prime) : Prop where
  identity : b.identityPk = sent.snapshot.identityPk
  pkA : msg.pkA = sent.msg.pkA
  ekA : msg.ekA = sent.msg.ekA
  cts : msg.ct1 = sent.msg.ct1 ∧ msg.ct2 = sent.msg.ct2 ∧ msg.ct3 = sent.msg.ct3 ∧
    msg.ct4 = sent.msg.ct4
  prekey : firstKemKey b.identityPk.params b.oneTimePrekeys =
    firstKemKey b.identityPk.params sent.snapshot.oneTimePrekeys

section Sessions
variable {L : Suite} {params₀ params : EirnParams} {b₀ b : PrekeyBundle} {sent : Sent}
  {msg : Msg0Prime}

theorem accepted_matching (hv : L.KeysValid) (hrej : L.Rejecting)
    (hb₀ : BundleInv L params₀ b₀) (h : GoodSent L params₀ b₀ sent) (hb : BundleInv L params b)
    (hc : Constructed msg) (hrecv : (receiverHandshake L b msg).1 = .ok sent.key)
    (hshake : Set.InjOn (fun x => L.shake256 x 32)
      (kdfInputs L sent.skA sent.pkA sent.snapshot sent.draws b msg)) :
    MatchingSession sent b msg := by
  obtain ⟨opkB, opkSk, ekA, eskA, legs, raw, proof, hfirst, hopk, run, hmsg, hkey⟩ := h.run
  obtain ⟨paramsA, hA⟩ := h.sender
  have hid₀ := hb₀.identity.generated
  have hB : sent.snapshot.identityPk.WellFormed := by
    rw [h.snapshot.keys.identityPk]
    exact hid₀.wellFormed
  rw [hkey] at hrecv
  obtain ⟨secrets, ⟨sk, hsk, hsec⟩, hlist, hsame⟩ :=
    same_key_same_fields hA.generated hB run hb msg hc hrecv hshake
  -- one identity key has one profile
  have hparams : params₀ = params := by
    rw [← hid₀.params_eq, ← h.snapshot.keys.identityPk, ← hsame.pkB,
      hb.identity.generated.params_eq]
  subst hparams
  obtain ⟨sks, hsks⟩ := List.head?_eq_some_iff.mp hsk
  obtain ⟨pk, pks, hpair, _, hpks⟩ := List.forall₂_cons_right_iff.mp (hsks ▸ hb.pool)
  have hthird : secrets.k3 = legs.k3 := by
    have hl := hlist
    simp only [Secrets.list, Legs.secrets, List.cons.injEq] at hl
    exact hl.2.2.1
  obtain ⟨ss', hdec, _, hdiff⟩ := leg_other hv hopk.generated hpair.generated run.legs.leg3
  have hss : ss' = legs.k3 := by
    have hleg := hsec.leg3
    rw [hsame.cts.2.2.1, hdec] at hleg
    exact (Except.ok.inj hleg).trans hthird
  have hkem : kemPart params₀ pk = kemPart params₀ opkB := by
    by_contra hne
    exact hdiff hrej hne hss
  refine ⟨hsame.pkB, by rw [hsame.pkA, hmsg]; rfl, by rw [hsame.ekA, hmsg]; rfl,
    by rw [hmsg]; exact hsame.cts, ?_⟩
  rw [firstKemKey, firstKemKey, hpks, hfirst, hb.identity.generated.params_eq]
  exact congrArg some hkem

end Sessions

section Runs
variable {L : Suite} {start : List PrekeyBundle}

theorem accepts_step (call : OpenCall) (n : System) (ha : OpenAllowed L call)
    (h : SystemInv L start n) (index : ℕ) (b : PrekeyBundle) (msg : Msg0Prime) (k : FixedBytes 32)
    (hacc : Accepts (event (openStep L) call n) index b msg k) :
    ∃ params, BundleInv L params b ∧ Constructed msg ∧ b.oneTimePrekeys ≠ [] ∧
      (receiverHandshake L b msg).1 = .ok k ∧
      (openStep L call n).2.receivers[index]? = some (popped b) := by
  obtain ⟨hcall, hstate, hreply⟩ := hacc
  change call = _ at hcall
  change n.receivers[index]? = _ at hstate
  subst hcall
  obtain ⟨params, hinv⟩ := h.receivers b (List.mem_of_getElem? hstate)
  have hlt := (List.getElem?_eq_some_iff.mp hstate).1
  simp only [event, openStep, hstate, receiverStep, OpenReply.answered.injEq,
    ReceiverReply.key.injEq] at hreply ⊢
  refine ⟨params, hinv, ha, ((receive_ok_iff hinv msg ha).mp ⟨k, hreply⟩).1, hreply, ?_⟩
  rw [List.getElem?_set_self hlt]
  rcases receiverHandshake_cases hinv msg ha with
    ⟨⟨e, _, hr⟩, _⟩ | ⟨_, ⟨_, _, hr⟩ | ⟨_, _, _, _, _, _, _, _, _, hr⟩⟩
  · rw [hr] at hreply
    cases hreply
  · rw [hr] at hreply
    cases hreply
  · rw [hr]

theorem run_accepted_matching (hv : L.KeysValid) (hrej : L.Rejecting)
    (events : List OpenEvent) (final : System) (hfinal : SystemInv L start final)
    (hinj : Set.InjOn (fun x => L.shake256 x 32) (runInputs L events final.sent))
    (call : OpenCall) (n : System) (ha : OpenAllowed L call) (h : SystemInv L start n)
    (he : event (openStep L) call n ∈ events) (index : ℕ) (b : PrekeyBundle) (msg : Msg0Prime)
    (sent : Sent) (hsent : sent ∈ final.sent)
    (hacc : Accepts (event (openStep L) call n) index b msg sent.key) :
    MatchingSession sent b msg := by
  obtain ⟨params, hinv, hc, _, hrecv, _⟩ := accepts_step call n ha h index b msg _ hacc
  obtain ⟨b₀, _, params₀, hinv₀, hgood⟩ := hfinal.sent sent hsent
  refine accepted_matching hv hrej hinv₀ hgood hinv hc hrecv (hinj.mono ?_)
  rintro x (⟨ekA, legs, raw, hsession, hx⟩ | ⟨secrets, hsession, hx⟩)
  · exact Or.inl ⟨sent, hsent, ekA, legs, raw, hsession, hx⟩
  · exact Or.inr ⟨_, he, index, b, msg, _, secrets, hacc, hsession, hx⟩

end Runs

/-- Receivers have different identity keys, each a pool of different prekeys. -/
structure DistinctKeys (start : List PrekeyBundle) : Prop where
  identities : (start.map PrekeyBundle.identityPk).Nodup
  prekeys : ∀ b ∈ start, (b.oneTimePrekeys.map (kemPart b.identityPk.params)).Nodup

def SamePrekey (sent sent' : Sent) : Prop :=
  sent.snapshot.identityPk = sent'.snapshot.identityPk ∧
    firstKemKey sent.snapshot.identityPk.params sent.snapshot.oneTimePrekeys =
      firstKemKey sent.snapshot.identityPk.params sent'.snapshot.oneTimePrekeys

theorem firstKemKey_after_first (params : EirnParams) (pool rest : List PublicKey)
    (hnodup : (pool.map (kemPart params)).Nodup) (hpool : pool ≠ []) (hrest : rest ≠ [])
    (h : rest <:+ pool.drop 1) : firstKemKey params pool ≠ firstKemKey params rest := by
  obtain ⟨pk, pks, rfl⟩ := List.exists_cons_of_ne_nil hpool
  obtain ⟨pk', pks', rfl⟩ := List.exists_cons_of_ne_nil hrest
  intro heq
  have hmem : pk' ∈ pks := h.subset List.mem_cons_self
  have hkem : kemPart params pk = kemPart params pk' := Option.some.inj heq
  rw [List.map_cons, List.nodup_cons] at hnodup
  exact hnodup.1 (hkem ▸ List.mem_map_of_mem hmem)

section Injectivity
variable {L : Suite} {start : List PrekeyBundle}

theorem receiver_index_unique (hdistinct : DistinctKeys start) (n n' : System)
    (h : LaterSystem (openStart start) n) (h' : LaterSystem (openStart start) n') (i j : ℕ)
    (b b' : PrekeyBundle) (hb : n.receivers[i]? = some b) (hb' : n'.receivers[j]? = some b')
    (hid : b.identityPk = b'.identityPk) : i = j := by
  obtain ⟨c, hc, hlater⟩ := h i b hb
  obtain ⟨c', hc', hlater'⟩ := h' j b' hb'
  have hi : (start.map PrekeyBundle.identityPk)[i]? = some b.identityPk := by
    rw [List.getElem?_map, show start[i]? = some c from hc, hlater.keys.identityPk]
    rfl
  have hj : (start.map PrekeyBundle.identityPk)[j]? = some b.identityPk := by
    rw [List.getElem?_map, show start[j]? = some c' from hc', hid, hlater'.keys.identityPk]
    rfl
  exact (List.getElem?_inj (List.getElem?_eq_some_iff.mp hi).1 hdistinct.identities).mp
    (hi.trans hj.symm)

theorem accepted_once (hdistinct : DistinctKeys start) (call call' : OpenCall) (n n' : System)
    (ha : OpenAllowed L call) (ha' : OpenAllowed L call') (h : SystemInv L start n)
    (h' : SystemInv L start n') (hlater : LaterSystem (openStep L call n).2 n')
    (i j : ℕ) (b b' : PrekeyBundle) (msg msg' : Msg0Prime) (k k' : FixedBytes 32)
    (sent sent' : Sent) (hacc : Accepts (event (openStep L) call n) i b msg k)
    (hacc' : Accepts (event (openStep L) call' n') j b' msg' k')
    (hs : MatchingSession sent b msg) (hs' : MatchingSession sent' b' msg') :
    ¬ SamePrekey sent sent' := by
  rintro ⟨hid, hkem⟩
  obtain ⟨_, _, _, hne, _, hpopped⟩ := accepts_step call n ha h i b msg k hacc
  obtain ⟨_, _, _, hne', _, _⟩ := accepts_step call' n' ha' h' j b' msg' k' hacc'
  have hbb : b.identityPk = b'.identityPk := by rw [hs.identity, hs'.identity, hid]
  obtain rfl := receiver_index_unique hdistinct n n' h.later h'.later i j b b' hacc.state
    hacc'.state hbb
  obtain ⟨p, hp, hpool⟩ := hlater i b' hacc'.state
  obtain rfl := Option.some.inj (hpopped.symm.trans hp)
  obtain ⟨b₀, hb₀, hb₀later⟩ := h.later i b hacc.state
  have hnodup : (b.oneTimePrekeys.map (kemPart b.identityPk.params)).Nodup := by
    rw [hb₀later.keys.identityPk]
    exact (hdistinct.prekeys b₀ (List.mem_of_getElem? hb₀)).sublist
      (hb₀later.pool.sublist.map _)
  apply firstKemKey_after_first b.identityPk.params b.oneTimePrekeys b'.oneTimePrekeys hnodup hne
    hne' hpool.pool
  have hprekey' := hs'.prekey
  rw [← hs.identity] at hkem
  rw [← hbb] at hprekey'
  rw [hs.prekey, hkem, hprekey']

theorem run_accepted_once (hgen : Generates L start) (hdistinct : DistinctKeys start)
    {calls : List OpenCall} (hc : ∀ call ∈ calls, OpenAllowed L call) (e e' : OpenEvent)
    (he : e ∈ trace (openStep L) calls (openStart start))
    (he' : e' ∈ trace (openStep L) calls (openStart start))
    (hlater : LaterSystem e.after e'.before) (i j : ℕ) (b b' : PrekeyBundle)
    (msg msg' : Msg0Prime) (k k' : FixedBytes 32) (sent sent' : Sent)
    (hacc : Accepts e i b msg k) (hacc' : Accepts e' j b' msg' k')
    (hs : MatchingSession sent b msg) (hs' : MatchingSession sent' b' msg') :
    ¬ SamePrekey sent sent' := by
  obtain ⟨hinv, ha, heq⟩ := event_inv hgen hc e he
  obtain ⟨hinv', ha', heq'⟩ := event_inv hgen hc e' he'
  rw [heq] at hacc hlater
  rw [heq'] at hacc'
  exact accepted_once hdistinct e.call e'.call e.before e'.before ha ha' hinv hinv' hlater i j b
    b' msg msg' k k' sent sent' hacc hacc' hs hs'

end Injectivity

section Agreement
variable {L : Suite} {start : List PrekeyBundle} {calls : List OpenCall}

theorem event_matching (hv : L.KeysValid) (hrej : L.Rejecting) (hgen : Generates L start)
    (hc : ∀ call ∈ calls, OpenAllowed L call)
    (hinj : Set.InjOn (fun x => L.shake256 x 32)
      (runInputs L (trace (openStep L) calls (openStart start))
        (after (openStep L) calls (openStart start)).sent)) (e : OpenEvent)
    (he : e ∈ trace (openStep L) calls (openStart start)) (index : ℕ) (b : PrekeyBundle)
    (msg : Msg0Prime) (s : Sent) (hs : s ∈ (after (openStep L) calls (openStart start)).sent)
    (hacc : Accepts e index b msg s.key) : MatchingSession s b msg := by
  obtain ⟨hinv, ha, heq⟩ := event_inv hgen hc e he
  rw [heq] at hacc he
  exact run_accepted_matching hv hrej _ _ (final_inv hgen hc) hinj e.call e.before ha hinv he
    index b msg s hs hacc

theorem run_accepted_distinct (hv : L.KeysValid) (hrej : L.Rejecting) (hgen : Generates L start)
    (hdistinct : DistinctKeys start) (hc : ∀ call ∈ calls, OpenAllowed L call)
    (hinj : Set.InjOn (fun x => L.shake256 x 32)
      (runInputs L (trace (openStep L) calls (openStart start))
        (after (openStep L) calls (openStart start)).sent)) :
    (trace (openStep L) calls (openStart start)).Pairwise (fun e e' => ∀ i j b b' msg msg',
      ∀ s ∈ (after (openStep L) calls (openStart start)).sent,
      ∀ s' ∈ (after (openStep L) calls (openStart start)).sent,
      Accepts e i b msg s.key → Accepts e' j b' msg' s'.key →
      ¬ SamePrekey s s' ∧ s.key ≠ s'.key) := by
  apply (events_later hgen hc).imp_of_mem
  intro e e' he he' hlater i j b b' msg msg' s hs s' hs' hacc hacc'
  have hmatch := event_matching hv hrej hgen hc hinj e he i b msg s hs hacc
  have hne : ∀ t ∈ (after (openStep L) calls (openStart start)).sent,
      Accepts e' j b' msg' t.key → ¬ SamePrekey s t := by
    intro t ht hacct
    exact run_accepted_once hgen hdistinct hc e e' he he' hlater i j b b' msg msg' _ _ s t hacc
      hacct hmatch (event_matching hv hrej hgen hc hinj e' he' j b' msg' t ht hacct)
  refine ⟨hne s' hs' hacc', ?_⟩
  -- the second acceptance would be of the first sender's session
  intro hkey
  exact hne s hs (hkey ▸ hacc') ⟨rfl, rfl⟩

end Agreement

section Replayed
variable {b₀ c₀ : PrekeyBundle} {skA : SecretKey} {pkA : PublicKey} {draws : SenderDraws}
  {msg : Msg0Prime} {k k' : FixedBytes 32}

def replayed (skA : SecretKey) (pkA : PublicKey) (draws : SenderDraws) (msg : Msg0Prime) :
    List OpenCall :=
  [.receiver 0 .publicBundle, .send skA pkA .lite draws 0, .receiver 0 (.receive msg),
    .receiver 0 (.receive msg)]

theorem replayed_run {L : Suite}
    (hsend : senderCall L .lite skA pkA b₀.publicBundle draws = .ok (msg, k))
    (hr : receiverHandshake L b₀ msg = (.ok k, popped b₀)) :
    let sent : Sent := ⟨skA, pkA, b₀.publicBundle, .lite, draws, msg, k⟩
    (after (openStep L) (replayed skA pkA draws msg) (openStart [b₀, c₀])).sent = [sent] ∧
      trace (openStep L) (replayed skA pkA draws msg) (openStart [b₀, c₀]) =
        [event (openStep L) (.receiver 0 .publicBundle) (openStart [b₀, c₀]),
          event (openStep L) (.send skA pkA .lite draws 0) ⟨[b₀, c₀], [b₀.publicBundle], []⟩,
          event (openStep L) (.receiver 0 (.receive msg))
            ⟨[b₀, c₀], [b₀.publicBundle], [sent]⟩,
          event (openStep L) (.receiver 0 (.receive msg))
            ⟨[popped b₀, c₀], [b₀.publicBundle], [sent]⟩] := by
  simp [replayed, after, trace, event, openStep, openStart, receiverStep, publishedBy, hsend, hr]

theorem replayed_inputs {L : Suite}
    (hsend : senderCall L .lite skA pkA b₀.publicBundle draws = .ok (msg, k))
    (hr : receiverHandshake L b₀ msg = (.ok k, popped b₀)) :
    runInputs L (trace (openStep L) (replayed skA pkA draws msg) (openStart [b₀, c₀]))
        (after (openStep L) (replayed skA pkA draws msg) (openStart [b₀, c₀])).sent ⊆
      kdfInputs L skA pkA b₀.publicBundle draws b₀ msg ∪
        {x | ∃ secrets, ReceiverSession L (popped b₀) msg secrets ∧
          x = (receiverFields L (popped b₀) msg secrets).input} := by
  obtain ⟨hsent, htrace⟩ := replayed_run hsend hr
  rw [hsent, htrace]
  rintro x (⟨s, hs, ekA, legs, raw, hsession, hx⟩ |
    ⟨e, he, i, b, m, kk, secrets, hacc, hsession, hx⟩)
  · obtain rfl := List.mem_singleton.mp hs
    exact Or.inl (Or.inl ⟨ekA, legs, raw, hsession, hx⟩)
  · obtain ⟨hcall, hstate, _⟩ := hacc
    simp only [List.mem_cons, List.not_mem_nil, or_false] at he
    rcases he with rfl | rfl | rfl | rfl
    · cases hcall
    · cases hcall
    · cases hcall
      obtain rfl := Option.some.inj hstate
      exact Or.inl (Or.inr ⟨secrets, hsession, hx⟩)
    · cases hcall
      obtain rfl := Option.some.inj hstate
      exact Or.inr ⟨secrets, hsession, hx⟩

end Replayed

theorem identity_kemPart (i n : ℕ) (b : PrekeyBundle)
    (h : generatePrekeyBundleWithParams idealSuite (fun j => constantSeed (j+i)) n params768 =
      .ok b) : (kemPart params768 b.identityPk).head? = some (UInt8.ofNat i) := by
  obtain ⟨pk, sk, hk, g, hs, _⟩ := keygen_generated idealSuite (constantSeed (0+i)) params768
    supported768
  simp only [generatePrekeyBundleWithParams, keygenWithParams, hk, ok_bind, bind_ok_iff,
    pure_ok, Except.ok.injEq] at h
  obtain ⟨_, _, _, _, rfl⟩ := h
  show (pk.data.take params768.kemPkBytes).head? = _
  rw [g.kemPart, hs, constantSeed_kemPart, Nat.zero_add]

theorem replayed_injOn {b : PrekeyBundle} {skA : SecretKey} {pkA : PublicKey}
    {draws : SenderDraws} {msg : Msg0Prime} {k k' : FixedBytes 32} {L : Suite}
    {params : EirnParams} (hinv : BundleInv L params b) (hc : Constructed msg)
    (hsub : (kdfInputs L skA pkA b.publicBundle draws b msg).Subsingleton)
    (hk : (receiverHandshake L b msg).1 = .ok k)
    (hk' : (receiverHandshake L (popped b) msg).1 = .ok k') (hdiff : k' ≠ k) :
    Set.InjOn (fun x => L.shake256 x 32)
      (kdfInputs L skA pkA b.publicBundle draws b msg ∪
        {x | ∃ secrets, ReceiverSession L (popped b) msg secrets ∧
          x = (receiverFields L (popped b) msg secrets).input}) := by
  obtain ⟨s₁, hs₁, hkey₁⟩ := receiver_session hinv msg hc k hk
  obtain ⟨s₂, hs₂, hkey₂⟩ := receiver_session (popped_inv hinv) msg hc k' hk'
  have hsub' : Set.Subsingleton {x | ∃ secrets, ReceiverSession L (popped b) msg secrets ∧
      x = (receiverFields L (popped b) msg secrets).input} := by
    rintro x ⟨s, hs, rfl⟩ y ⟨t, ht, rfl⟩
    rw [receiverSession_unique hs ht]
  refine injOn_union_of_ne (hsub.injOn _) (hsub'.injOn _) ?_
  rintro x hx y ⟨t, ht, rfl⟩ heq
  rw [hsub hx (Or.inr ⟨s₁, hs₁, rfl⟩), receiverSession_unique ht hs₂] at heq
  exact hdiff (hkey₂.trans (heq.symm.trans hkey₁.symm))

theorem replayed_distinct {b c : PrekeyBundle} {pk₁ pk₂ : PublicKey}
    (hgen : generatePrekeyBundleWithParams idealSuite constantSeed 2 params768 = .ok b)
    (hgen' : generatePrekeyBundleWithParams idealSuite (fun j => constantSeed (j+6)) 0 params768 =
      .ok c) (hinv : BundleInv idealSuite params768 b) (hpool : b.oneTimePrekeys = [pk₁, pk₂])
    (hpool' : c.oneTimePrekeys.length = 0) (hne : kemPart params768 pk₂ ≠ kemPart params768 pk₁) :
    DistinctKeys [b, c] := by
  have hid : b.identityPk.params = params768 := hinv.identity.generated.params_eq
  constructor
  · have hids : b.identityPk ≠ c.identityPk := by
      intro heq
      have h0 := identity_kemPart 0 2 b hgen
      rw [heq, identity_kemPart 6 0 c hgen'] at h0
      exact absurd h0 (by decide)
    simp [hids]
  · have hkem : kemPart b.identityPk.params pk₁ ≠ kemPart b.identityPk.params pk₂ := by
      rw [hid]
      exact hne.symm
    simp [hpool, List.eq_nil_of_length_eq_zero hpool', hkem]

section ReplayedRuns

structure ReplayedRun (b₀ c₀ : PrekeyBundle) (pk₁ pk₂ pkA : PublicKey) (skA : SecretKey)
    (msg : Msg0Prime) (k k' : FixedBytes 32) : Prop where
  generates : Generates idealSuite [b₀, c₀]
  bundle : BundleInv idealSuite params768 b₀
  pool : b₀.oneTimePrekeys = [pk₁, pk₂]
  otherPool : c₀.oneTimePrekeys = []
  prekeys : kemPart params768 pk₂ ≠ kemPart params768 pk₁
  distinct : DistinctKeys [b₀, c₀]
  sender : KeyPair idealSuite params768 pkA skA
  sends : senderCall idealSuite .lite skA pkA b₀.publicBundle zeroDraws = .ok (msg, k)
  constructed : Constructed msg
  proof : ProofAccepted idealSuite b₀ msg
  first : receiverHandshake idealSuite b₀ msg = (.ok k, popped b₀)
  second : (receiverHandshake idealSuite (popped b₀) msg).1 = .ok k'
  key : k = zeros 32
  otherKey : k' = bump (zeros 32)

theorem replayedRun_exists :
    ∃ b₀ c₀ pk₁ pk₂ pkA skA msg k k', ReplayedRun b₀ c₀ pk₁ pk₂ pkA skA msg k k' := by
  obtain ⟨b₀, pk₁, pk₂, hgen, hinv, hpool, hne⟩ := two_prekeys
  obtain ⟨c₀, hgen', _, hpool'⟩ := generate_ok idealSuite params768 supported768
    (fun j => constantSeed (j+6)) 0
  obtain ⟨pkA, skA, hA, _⟩ := keygen_generated idealSuite (constantSeed 4) params768 supported768
  obtain ⟨msg, k, hsend, hw, ha, hr⟩ := exchange_ok idealSuite_lawful ⟨_, hA⟩ hinv
    (hpool ▸ List.cons_ne_nil _ _) .lite zeroDraws
  obtain ⟨hc, _⟩ := hw.constructed _ _ supported768
  rw [← senderCall_eq] at hsend
  have hgood : GoodSent idealSuite params768 b₀
      ⟨skA, pkA, b₀.publicBundle, .lite, zeroDraws, msg, k⟩ :=
    ⟨goodSnapshot_publicBundle (runInv_start hinv), ⟨_, _, hA⟩, hsend⟩
  have hlater : RunInv idealSuite params768 b₀ (popped b₀) :=
    ⟨popped_inv hinv, rfl, rfl, rfl, rfl, rfl⟩
  obtain ⟨_, _, _, _, k', d, hkey, hkey'⟩ := other_prekey_other_key pk₂ pk₁ hgood hlater
    (by rw [popped, hpool]; rfl) (by rw [PrekeyBundle.publicBundle, hpool]; rfl) hne
  have hgenerates : Generates idealSuite [b₀, c₀] := by
    simp only [Generates, List.forall_mem_cons]
    exact ⟨⟨_, _, _, supported768, hgen⟩, ⟨_, _, _, supported768, hgen'⟩, by simp⟩
  exact ⟨b₀, c₀, pk₁, pk₂, pkA, skA, msg, k, k', hgenerates, hinv, hpool,
    List.eq_nil_of_length_eq_zero hpool', hne,
    replayed_distinct hgen hgen' hinv hpool hpool' hne, ⟨_, hA⟩, hsend, hc, ha.2, hr, d.accepted,
    hkey, hkey'⟩

variable {b₀ c₀ : PrekeyBundle} {pk₁ pk₂ pkA : PublicKey} {skA : SecretKey} {msg : Msg0Prime}
  {k k' : FixedBytes 32}

namespace ReplayedRun

theorem keys (r : ReplayedRun b₀ c₀ pk₁ pk₂ pkA skA msg k k') : k' ≠ k := by
  rw [r.otherKey, r.key]
  exact bump_ne _

theorem allowed (r : ReplayedRun b₀ c₀ pk₁ pk₂ pkA skA msg k k') :
    ∀ call ∈ replayed skA pkA zeroDraws msg, OpenAllowed idealSuite call := by
  simp only [replayed, List.forall_mem_cons, OpenAllowed, Allowed]
  exact ⟨trivial, ⟨_, r.sender⟩, r.constructed, r.constructed, by simp⟩

theorem inputs_injOn (r : ReplayedRun b₀ c₀ pk₁ pk₂ pkA skA msg k k') :
    Set.InjOn (fun x => idealSuite.shake256 x 32)
      (runInputs idealSuite
        (trace (openStep idealSuite) (replayed skA pkA zeroDraws msg) (openStart [b₀, c₀]))
        (after (openStep idealSuite) (replayed skA pkA zeroDraws msg)
          (openStart [b₀, c₀])).sent) := by
  have hsend := r.sends
  rw [senderCall_eq] at hsend
  have hsub := (honest_inputs idealSuite_lawful.keysValid idealSuite_lawful.kemCorrect r.bundle
    hsend).1
  have hinj := replayed_injOn r.bundle r.constructed hsub (by rw [r.first]) r.second r.keys
  exact hinj.mono (replayed_inputs r.sends r.first)

theorem accepts_first (r : ReplayedRun b₀ c₀ pk₁ pk₂ pkA skA msg k k') :
    ∃ e ∈ trace (openStep idealSuite) (replayed skA pkA zeroDraws msg) (openStart [b₀, c₀]),
      Accepts e 0 b₀ msg k := by
  rw [(replayed_run r.sends r.first).2]
  refine ⟨_, List.mem_cons_of_mem _ (List.mem_cons_of_mem _ List.mem_cons_self), rfl, rfl, ?_⟩
  simp [event, openStep, receiverStep, r.first]

theorem accepts_second (r : ReplayedRun b₀ c₀ pk₁ pk₂ pkA skA msg k k') :
    ∃ e ∈ trace (openStep idealSuite) (replayed skA pkA zeroDraws msg) (openStart [b₀, c₀]),
      Accepts e 0 (popped b₀) msg k' := by
  rw [(replayed_run r.sends r.first).2]
  refine ⟨_, List.mem_cons_of_mem _ (List.mem_cons_of_mem _ (List.mem_cons_of_mem _
    List.mem_cons_self)), rfl, rfl, ?_⟩
  simp [event, openStep, receiverStep, r.second]

theorem sent_eq (r : ReplayedRun b₀ c₀ pk₁ pk₂ pkA skA msg k k') :
    (after (openStep idealSuite) (replayed skA pkA zeroDraws msg) (openStart [b₀, c₀])).sent =
      [⟨skA, pkA, b₀.publicBundle, .lite, zeroDraws, msg, k⟩] :=
  (replayed_run r.sends r.first).1

theorem accepted_message (r : ReplayedRun b₀ c₀ pk₁ pk₂ pkA skA msg k k') (e : OpenEvent)
    (he : e ∈ trace (openStep idealSuite) (replayed skA pkA zeroDraws msg) (openStart [b₀, c₀]))
    (index : ℕ) (b : PrekeyBundle) (m : Msg0Prime) (key : FixedBytes 32)
    (hacc : Accepts e index b m key) :
    m = msg ∧ (b = b₀ ∧ key = k ∨ b = popped b₀ ∧ key = k') := by
  rw [(replayed_run r.sends r.first).2] at he
  obtain ⟨hcall, hstate, hreply⟩ := hacc
  simp only [List.mem_cons, List.not_mem_nil, or_false] at he
  rcases he with rfl | rfl | rfl | rfl
  · cases hcall
  · cases hcall
  · cases hcall
    obtain rfl := Option.some.inj hstate
    simp only [event, openStep, receiverStep, r.first, List.getElem?_cons_zero,
      OpenReply.answered.injEq, ReceiverReply.key.injEq, Except.ok.injEq] at hreply
    exact ⟨rfl, Or.inl ⟨rfl, hreply.symm⟩⟩
  · cases hcall
    obtain rfl := Option.some.inj hstate
    simp only [event, openStep, receiverStep, r.second, List.getElem?_cons_zero,
      OpenReply.answered.injEq, ReceiverReply.key.injEq, Except.ok.injEq] at hreply
    exact ⟨rfl, Or.inr ⟨rfl, hreply.symm⟩⟩

theorem hashed_key (r : ReplayedRun b₀ c₀ pk₁ pk₂ pkA skA msg k k') (x : Bytes)
    (hx : x ∈ runInputs idealSuite
      (trace (openStep idealSuite) (replayed skA pkA zeroDraws msg) (openStart [b₀, c₀]))
      (after (openStep idealSuite) (replayed skA pkA zeroDraws msg) (openStart [b₀, c₀])).sent) :
    idealSuite.shake256 x 32 = k ∨ idealSuite.shake256 x 32 = k' := by
  have hsend := r.sends
  rw [senderCall_eq] at hsend
  have hsub := (honest_inputs idealSuite_lawful.keysValid idealSuite_lawful.kemCorrect r.bundle
    hsend).1
  obtain ⟨s₁, hs₁, hkey₁⟩ := receiver_session r.bundle msg r.constructed k (by rw [r.first])
  obtain ⟨s₂, hs₂, hkey₂⟩ := receiver_session (popped_inv r.bundle) msg r.constructed k' r.second
  rcases replayed_inputs r.sends r.first hx with hx | ⟨secrets, h, rfl⟩
  · rw [hsub hx (Or.inr ⟨s₁, hs₁, rfl⟩)]
    exact Or.inl hkey₁.symm
  · rw [receiverSession_unique h hs₂]
    exact Or.inr hkey₂.symm

end ReplayedRun

end ReplayedRuns

/-- In every run over an open network, an accepted key that some sender holds
belongs to that sender's session with this receiver and its first prekey, and
two acceptances of such keys are of sessions with different prekeys. -/
theorem open_network_agreement (L : Suite) (hv : L.KeysValid) (hrej : L.Rejecting)
    (start : List PrekeyBundle)
    (hgen : ∀ b ∈ start, ∃ params drawn numOpk, IsSupportedParams params ∧
      generatePrekeyBundleWithParams L drawn numOpk params = .ok b)
    (hdistinct : DistinctKeys start) (calls : List OpenCall)
    (hc : ∀ call ∈ calls, OpenAllowed L call)
    (hinj : Set.InjOn (fun x => L.shake256 x 32)
      (runInputs L (trace (openStep L) calls (openStart start))
        (after (openStep L) calls (openStart start)).sent)) :
    let events := trace (openStep L) calls (openStart start)
    let sent := (after (openStep L) calls (openStart start)).sent
    (∀ e ∈ events, ∀ index b msg, ∀ s ∈ sent, Accepts e index b msg s.key →
      MatchingSession s b msg) ∧
    events.Pairwise (fun e e' => ∀ i j b b' msg msg', ∀ s ∈ sent, ∀ s' ∈ sent,
      Accepts e i b msg s.key → Accepts e' j b' msg' s'.key →
      ¬ SamePrekey s s' ∧ s.key ≠ s'.key) := by
  constructor
  · intro e he index b msg s hs hacc
    exact event_matching hv hrej hgen hc hinj e he index b msg s hs hacc
  · exact run_accepted_distinct hv hrej hgen hdistinct hc hinj

theorem open_network_agreement_replayed :
    ∃ b₀ c₀ pkA skA msg k k', ∃ calls : List OpenCall,
      calls = [.receiver 0 .publicBundle, .send skA pkA .lite zeroDraws 0,
        .receiver 0 (.receive msg), .receiver 0 (.receive msg)] ∧
      (∃ e ∈ trace (openStep idealSuite) calls (openStart [b₀, c₀]), Accepts e 0 b₀ msg k) ∧
      (∃ e ∈ trace (openStep idealSuite) calls (openStart [b₀, c₀]),
        Accepts e 0 (popped b₀) msg k') ∧
      (∃ s ∈ (after (openStep idealSuite) calls (openStart [b₀, c₀])).sent, s.key = k) ∧
      (trace (openStep idealSuite) calls (openStart [b₀, c₀])).Pairwise
        (fun e e' => ∀ i j b b' msg msg',
          ∀ s ∈ (after (openStep idealSuite) calls (openStart [b₀, c₀])).sent,
          ∀ s' ∈ (after (openStep idealSuite) calls (openStart [b₀, c₀])).sent,
          Accepts e i b msg s.key → Accepts e' j b' msg' s'.key →
          ¬ SamePrekey s s' ∧ s.key ≠ s'.key) := by
  obtain ⟨b₀, c₀, pk₁, pk₂, pkA, skA, msg, k, k', r⟩ := replayedRun_exists
  have h := open_network_agreement idealSuite idealSuite_lawful.keysValid idealSuite_rejecting
    [b₀, c₀] r.generates r.distinct (replayed skA pkA zeroDraws msg) r.allowed r.inputs_injOn
  refine ⟨b₀, c₀, pkA, skA, msg, k, k', replayed skA pkA zeroDraws msg, rfl, r.accepts_first,
    r.accepts_second, ?_, h.2⟩
  rw [r.sent_eq]
  exact ⟨_, List.mem_singleton_self _, rfl⟩

end EirnKcp.OpenNetwork
