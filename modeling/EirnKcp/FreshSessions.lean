import EirnKcp.SharedGenerator

/-!
# Sessions of one generator

If the seeds that the generator gives at different places lead to different
ML-KEM keys, the parties that share it never meet a key twice. Then a receiver
and a sender hold one session key exactly for the session they both took part
in, and sessions and acceptances of them are matched one to one.
-/

set_option autoImplicit false

namespace EirnKcp.FreshSessions
open EirnKcp.CheckedCode EirnKcp.Params EirnKcp.Primitives EirnKcp.Kem EirnKcp.KeyLaws EirnKcp.Zk
open EirnKcp.Prekey EirnKcp.Handshake EirnKcp.HandshakeSteps EirnKcp.ReceiverState
open EirnKcp.HonestHandshake EirnKcp.SessionBinding EirnKcp.CallRuns EirnKcp.Interleaving
open EirnKcp.OpenNetwork EirnKcp.NetworkKeys EirnKcp.OsRandom EirnKcp.SharedGenerator
open EirnKcp.IdealSuite

/-- The seeds at places of the tape that do not overlap give different ML-KEM keys. -/
def SeedsDiffer (L : Suite) (tape : ℕ → UInt8) (used : ℕ) : Prop :=
  ∀ params, IsSupportedParams params → ∀ pos pos', pos+96 ≤ pos' → pos'+96 ≤ used →
    ekBytes L params (kemSeedOf (bytesAt 96 tape pos)) ≠
      ekBytes L params (kemSeedOf (bytesAt 96 tape pos'))

section Keys
variable {L : Suite} {tape : ℕ → UInt8} {used : ℕ}

theorem generatedAt_keys {pos next numOpk : ℕ} {params : EirnParams} {b : PrekeyBundle}
    (h : GeneratedAt L tape pos next b numOpk params) :
    b.identityPk.params = params ∧
      kemPart params b.identityPk = ekBytes L params (kemSeedOf (bytesAt 96 tape pos)) ∧
      b.oneTimePrekeys.map (kemPart params) = (List.range numOpk).map
        (fun i => ekBytes L params (kemSeedOf (bytesAt 96 tape (pos+96*(2+i))))) := by
  have hpool := oneTime_kemParts _ params 2 numOpk _ _ (generated_oneTime h.generated)
  have hgen := h.generated
  simp only [generatePrekeyBundleWithParams, bind_ok_iff, Prod.exists] at hgen
  obtain ⟨pk, sk, hkey, spk, ssk, _, pks, sks, _, hb⟩ := hgen
  have hid : b.identityPk = pk := by
    cases hb
    rfl
  rw [hid]
  exact ⟨(generated_of_keygen L _ params pk sk hkey).params_eq, seed_kemPart hkey, hpool⟩

theorem generatedAt_pool {pos next numOpk : ℕ} {params : EirnParams} {b : PrekeyBundle}
    (h : GeneratedAt L tape pos next b numOpk params) (hnext : next ≤ used)
    (hseeds : SeedsDiffer L tape used) :
    (b.oneTimePrekeys.map (kemPart b.identityPk.params)).Nodup := by
  obtain ⟨hparams, _, hpool⟩ := generatedAt_keys h
  have hend := h.next
  rw [hparams, hpool]
  apply List.Nodup.map_on _ List.nodup_range
  intro i hi j hj heq
  have hi := List.mem_range.mp hi
  have hj := List.mem_range.mp hj
  rcases Nat.lt_trichotomy i j with hlt | heq' | hlt
  · exact absurd heq (hseeds params h.supported _ _ (by omega) (by omega))
  · exact heq'
  · exact absurd heq.symm (hseeds params h.supported _ _ (by omega) (by omega))

theorem generatedAt_identities {pos next pos' next' numOpk numOpk' : ℕ}
    {params params' : EirnParams} {b b' : PrekeyBundle}
    (h : GeneratedAt L tape pos next b numOpk params)
    (h' : GeneratedAt L tape pos' next' b' numOpk' params') (hpos : next ≤ pos')
    (hnext : next' ≤ used) (hseeds : SeedsDiffer L tape used) :
    b.identityPk ≠ b'.identityPk := by
  intro heq
  obtain ⟨hparams, hkey, _⟩ := generatedAt_keys h
  obtain ⟨hparams', hkey', _⟩ := generatedAt_keys h'
  obtain rfl : params = params' := by rw [← hparams, ← hparams', heq]
  have hend := h.next
  have hend' := h'.next
  apply hseeds params h.supported pos pos' (by omega) (by omega)
  rw [← hkey, ← hkey', heq]

theorem scheduled_distinct (pos last : ℕ) (bs : List PrekeyBundle)
    (h : Scheduled L tape pos last bs) (hlast : last ≤ used) (hseeds : SeedsDiffer L tape used) :
    DistinctKeys bs := by
  induction bs generalizing pos with
  | nil => exact ⟨List.nodup_nil, by simp⟩
  | cons b bs ih =>
    obtain ⟨first, next, numOpk, params, hfirst, hgen, hrest⟩ := h
    have hle := scheduled_le next last bs hrest
    have hbs := ih next hrest
    constructor
    · rw [List.map_cons, List.nodup_cons]
      refine ⟨?_, hbs.identities⟩
      intro hmem
      obtain ⟨c, hc, heq⟩ := List.mem_map.mp hmem
      obtain ⟨first', next', numOpk', params', hfirst', hnext', hgen'⟩ :=
        scheduled_mem next last bs hrest c hc
      exact generatedAt_identities hgen hgen' hfirst' (Nat.le_trans hnext' hlast) hseeds heq.symm
    · intro c hc
      rcases List.mem_cons.mp hc with rfl | hc
      · exact generatedAt_pool hgen (Nat.le_trans hle hlast) hseeds
      · exact hbs.prekeys c hc

end Keys

section Senders
variable {L : Suite} {tape : ℕ → UInt8} {used : ℕ}

theorem ephemeral_keys_differ {params params' : EirnParams} {b b' : PrekeyBundle} {s s' : Sent}
    (h : GoodSent L params b s) (h' : GoodSent L params' b' s') (pos pos' : ℕ)
    (hs : s.draws = drawsAt tape pos) (hs' : s'.draws = drawsAt tape pos')
    (hpos : pos+224 ≤ pos') (hused : pos'+224 ≤ used) (hseeds : SeedsDiffer L tape used) :
    s.msg.ekA ≠ s'.msg.ekA := by
  obtain ⟨_, _, ekA, eskA, _, _, _, _, _, run, hmsg, _⟩ := h.run
  obtain ⟨_, _, ekA', eskA', _, _, _, _, _, run', hmsg', _⟩ := h'.run
  have hkey := run.ephemeral
  have hkey' := run'.ephemeral
  rw [hs] at hkey
  rw [hs'] at hkey'
  have g := generated_of_keygen L _ _ ekA eskA hkey
  have g' := generated_of_keygen L _ _ ekA' eskA' hkey'
  rw [hmsg, hmsg']
  intro heq
  change ekA = ekA' at heq
  have hparams : s.snapshot.identityPk.params = s'.snapshot.identityPk.params := by
    rw [← g.params_eq, ← g'.params_eq, heq]
  apply hseeds _ g.supported pos pos' (by omega) (by omega)
  have hpart := seed_kemPart hkey
  have hpart' := seed_kemPart hkey'
  rw [← hparams, ← heq, hpart] at hpart'
  exact hpart'

theorem sent_ephemerals {sent : List Sent} (h : SentFrom tape used sent)
    (hgood : ∀ s ∈ sent, ∃ b params, GoodSent L params b s) (hseeds : SeedsDiffer L tape used) :
    sent.Pairwise (fun s s' => s.msg.ekA ≠ s'.msg.ekA) := by
  obtain ⟨starts, hdraws, hpair, hlast⟩ := h
  have hplaces : starts.Pairwise (fun pos pos' => pos+224 ≤ pos' ∧ pos'+224 ≤ used) :=
    hpair.imp_of_mem fun _ hpos' hle => ⟨hle, hlast _ hpos'⟩
  have hwindows : (starts.map (drawsAt tape)).Pairwise (fun d d' => ∃ pos pos',
      d = drawsAt tape pos ∧ d' = drawsAt tape pos' ∧ pos+224 ≤ pos' ∧ pos'+224 ≤ used) :=
    List.pairwise_map.mpr (hplaces.imp fun hle => ⟨_, _, rfl, rfl, hle⟩)
  rw [← hdraws, List.pairwise_map] at hwindows
  apply hwindows.imp_of_mem
  rintro s s' hs hs' ⟨pos, pos', hd, hd', hpos, hused⟩
  obtain ⟨b, params, hgs⟩ := hgood s hs
  obtain ⟨b', params', hgs'⟩ := hgood s' hs'
  exact ephemeral_keys_differ hgs hgs' pos pos' hd hd' hpos hused hseeds

/-- What SHAKE256 hashes for the keys of the senders and of the answers. -/
def logInputs (L : Suite) (log : List Reception) (sent : List Sent) : Set Bytes :=
  {x | (∃ s ∈ sent, ∃ ekA legs raw, SenderSession L s.skA s.pkA s.snapshot s.draws ekA legs raw ∧
      x = (senderFields s.pkA s.snapshot.identityPk ekA legs).input) ∨
    ∃ r ∈ log, ∃ k secrets, r.result = .ok k ∧ ReceiverSession L r.bundle r.msg secrets ∧
      x = (receiverFields L r.bundle r.msg secrets).input}

theorem sent_keys_differ {params params' : EirnParams} {b b' : PrekeyBundle} {s s' : Sent}
    {log : List Reception} {sent : List Sent} (hb : BundleInv L params b)
    (hb' : BundleInv L params' b') (h : GoodSent L params b s) (h' : GoodSent L params' b' s')
    (hs : s ∈ sent) (hs' : s' ∈ sent)
    (hinj : Set.InjOn (fun x => L.shake256 x 32) (logInputs L log sent))
    (hek : s.msg.ekA ≠ s'.msg.ekA) : s.key ≠ s'.key := by
  obtain ⟨opkB, _, ekA, eskA, legs, raw, _, _, _, run, hmsg, hkey⟩ := h.run
  obtain ⟨opkB', _, ekA', eskA', legs', raw', _, _, _, run', hmsg', hkey'⟩ := h'.run
  obtain ⟨_, g⟩ := h.sender
  obtain ⟨_, g'⟩ := h'.sender
  have hid : s.snapshot.identityPk.WellFormed := by
    rw [h.snapshot.keys.identityPk]
    exact hb.identity.generated.wellFormed
  have hid' : s'.snapshot.identityPk.WellFormed := by
    rw [h'.snapshot.keys.identityPk]
    exact hb'.identity.generated.wellFormed
  have hmem : (senderFields s.pkA s.snapshot.identityPk ekA legs).input ∈ logInputs L log sent :=
    Or.inl ⟨s, hs, ekA, legs, raw, ⟨eskA, opkB, run.ephemeral, run.first, run.legs⟩, rfl⟩
  have hmem' : (senderFields s'.pkA s'.snapshot.identityPk ekA' legs').input ∈
      logInputs L log sent :=
    Or.inl ⟨s', hs', ekA', legs', raw', ⟨eskA', opkB', run'.ephemeral, run'.first, run'.legs⟩,
      rfl⟩
  intro heq
  rw [hkey, hkey'] at heq
  have hfields := input_injective _ _ (senderFields_sized g.generated hid run)
    (senderFields_sized g'.generated hid' run') (hinj hmem hmem' heq)
  apply hek
  rw [hmsg, hmsg']
  exact publicKey_ext _ _ (sender_wellFormed g.generated run).2.1
    (sender_wellFormed g'.generated run').2.1 (congrArg Fields.ekA hfields)

theorem sent_sessions_differ {log : List Reception} {sent : List Sent}
    (h : SentFrom tape used sent)
    (hgood : ∀ s ∈ sent, ∃ b params, BundleInv L params b ∧ GoodSent L params b s)
    (hseeds : SeedsDiffer L tape used)
    (hinj : Set.InjOn (fun x => L.shake256 x 32) (logInputs L log sent)) :
    sent.Pairwise (fun s s' => s.msg.ekA ≠ s'.msg.ekA ∧ s.key ≠ s'.key) := by
  have hek : sent.Pairwise (fun s s' => s.msg.ekA ≠ s'.msg.ekA) := by
    apply sent_ephemerals h _ hseeds
    intro s hs
    obtain ⟨b, params, _, hgs⟩ := hgood s hs
    exact ⟨b, params, hgs⟩
  apply hek.imp_of_mem
  intro s s' hs hs' hne
  obtain ⟨b, params, hb, hgs⟩ := hgood s hs
  obtain ⟨b', params', hb', hgs'⟩ := hgood s' hs'
  exact ⟨hne, sent_keys_differ hb hb' hgs hgs' hs hs' hinj hne⟩

end Senders

section Logs
variable {L : Suite}

theorem mem_openReception (e : OpenEvent) (r : Reception) :
    r ∈ openReception e ↔ e.call = .receiver r.index (.receive r.msg) ∧
      e.before.receivers[r.index]? = some r.bundle ∧ e.reply = .answered (.key r.result) := by
  unfold openReception reception
  constructor
  · intro h
    split at h
    · split at h
      · next msg b result hb hreply hcall =>
        obtain rfl := List.mem_singleton.mp h
        exact ⟨hcall, hb, hreply⟩
      · cases h
    · cases h
  · rintro ⟨hcall, hb, hreply⟩
    simp only [hcall, hb, hreply, List.mem_singleton]

theorem openReception_pairwise (e : OpenEvent) (R : Reception → Reception → Prop) :
    (openReception e).Pairwise R := by
  unfold openReception reception
  split
  · split
    · exact List.pairwise_singleton _ _
    · exact List.Pairwise.nil
  · exact List.Pairwise.nil

theorem accepts_of_reception (e : OpenEvent) (r : Reception) (h : r ∈ openReception e)
    (k : FixedBytes 32) (hk : r.result = .ok k) : Accepts e r.index r.bundle r.msg k := by
  obtain ⟨hcall, hb, hreply⟩ := (mem_openReception e r).mp h
  rw [hk] at hreply
  exact ⟨hcall, hb, hreply⟩

theorem runInputs_subset (events : List OpenEvent) (sent : List Sent) :
    runInputs L events sent ⊆ logInputs L (openReceptions events) sent := by
  rintro x (hx | ⟨e, he, index, b, msg, k, secrets, hacc, hsession, hx⟩)
  · exact Or.inl hx
  · refine Or.inr ⟨⟨index, b, msg, .ok k⟩, List.mem_flatMap.mpr ⟨e, he, ?_⟩, k, secrets, rfl,
      hsession, hx⟩
    exact (mem_openReception e _).mpr ⟨hacc.call, hacc.state, hacc.reply⟩

theorem openReceptions_pairwise (events : List OpenEvent) (R : Reception → Reception → Prop)
    (h : events.Pairwise (fun e e' => ∀ r ∈ openReception e, ∀ r' ∈ openReception e', R r r')) :
    (openReceptions events).Pairwise R :=
  List.pairwise_flatMap.mpr ⟨fun e _ => openReception_pairwise e R, h⟩

end Logs

section Runs
variable {L : Suite} {tape : ℕ → UInt8} {calls : List ProcessCall} {start : List PrekeyBundle}
  {calls' : List OpenCall}

/-- A run of the open network with keys that differ, hashed without collisions. -/
structure FreshRun (L : Suite) (tape : ℕ → UInt8) (calls : List ProcessCall)
    (start : List PrekeyBundle) (calls' : List OpenCall) : Prop extends
    NetworkRun L tape calls start calls' where
  generates : Generates L start
  distinct : DistinctKeys start
  inputs : Set.InjOn (fun x => L.shake256 x 32)
    (runInputs L (trace (openStep L) calls' (openStart start))
      (after (openStep L) calls' (openStart start)).sent)

theorem freshRun_exists (hc : ∀ call ∈ calls, ProcessAllowed call)
    (hseeds : SeedsDiffer L tape (after (processStep L tape) calls processStart).used)
    (hinj : Set.InjOn (fun x => L.shake256 x 32)
      (logInputs L (receptions (trace (processStep L tape) calls processStart))
        (after (processStep L tape) calls processStart).system.sent)) :
    ∃ start calls', FreshRun L tape calls start calls' := by
  have hrun : ∃ start calls', NetworkRun L tape calls start calls' := networkRun_exists calls hc
  obtain ⟨start, calls', run⟩ := hrun
  refine ⟨start, calls', run, scheduled_generates 0 _ start run.schedule,
    scheduled_distinct 0 _ start run.schedule (Nat.le_refl _) hseeds, ?_⟩
  apply hinj.mono
  rw [run.received, run.final]
  exact runInputs_subset _ _

namespace FreshRun

theorem good (run : FreshRun L tape calls start calls') :
    ∀ s ∈ (after (processStep L tape) calls processStart).system.sent,
      ∃ b params, BundleInv L params b ∧ GoodSent L params b s := by
  intro s hs
  rw [run.final] at hs
  obtain ⟨b, _, params, hb, hgood⟩ := (final_inv run.generates run.allowed).sent s hs
  exact ⟨b, params, hb, hgood⟩

theorem session_iff (run : FreshRun L tape calls start calls') (hl : L.Lawful)
    (hrej : L.Rejecting) (r : Reception)
    (hr : r ∈ receptions (trace (processStep L tape) calls processStart)) (k : FixedBytes 32)
    (hk : r.result = .ok k) (s : Sent)
    (hs : s ∈ (after (processStep L tape) calls processStart).system.sent) :
    s.key = k ↔ MatchingSession s r.bundle r.msg := by
  rw [run.received] at hr
  rw [run.final] at hs
  obtain ⟨e, he, hmem⟩ := List.mem_flatMap.mp hr
  exact accepted_key_iff hl hrej run.generates run.distinct run.allowed run.inputs e he r.index
    r.bundle r.msg k (accepts_of_reception e r hmem k hk) s hs

theorem key_iff (run : FreshRun L tape calls start calls') (hl : L.Lawful) (hrej : L.Rejecting)
    (r : Reception) (hr : r ∈ receptions (trace (processStep L tape) calls processStart))
    (s : Sent) (hs : s ∈ (after (processStep L tape) calls processStart).system.sent) :
    r.result = .ok s.key ↔ MatchingSession s r.bundle r.msg ∧ ProofAccepted L r.bundle r.msg := by
  rw [run.received] at hr
  rw [run.final] at hs
  obtain ⟨e, he, hmem⟩ := List.mem_flatMap.mp hr
  obtain ⟨hcall, hb, hreply⟩ := (mem_openReception e r).mp hmem
  rw [← delivered_key_iff hl hrej run.generates run.distinct run.allowed run.inputs e he r.index
    r.bundle r.msg ⟨hcall, hb⟩ s hs]
  constructor
  · exact accepts_of_reception e r hmem s.key
  · intro hacc
    exact ReceiverReply.key.inj (OpenReply.answered.inj (hreply.symm.trans hacc.reply))

theorem answered_once (run : FreshRun L tape calls start calls') (hl : L.Lawful)
    (hrej : L.Rejecting) :
    (receptions (trace (processStep L tape) calls processStart)).Pairwise
      (fun r r' => ∀ s ∈ (after (processStep L tape) calls processStart).system.sent,
        r.result = .ok s.key → r'.result ≠ .ok s.key) := by
  rw [run.received, run.final]
  apply openReceptions_pairwise
  apply (run_accepted_distinct hl.keysValid hrej run.generates run.distinct run.allowed
    run.inputs).imp
  intro e e' hne r hr r' hr' s hs hk hk'
  have hacc := accepts_of_reception e r hr s.key hk
  have hacc' := accepts_of_reception e' r' hr' s.key hk'
  exact (hne _ _ _ _ _ _ s hs s hs hacc hacc').2 rfl

end FreshRun

end Runs

/-- In every run of parties that share a generator whose seeds give different
keys, a receiver's answer is a sender's key exactly if it is about that sender's
session; sessions differ in ephemeral and session key, and each is answered once. -/
theorem shared_generator_agreement (L : Suite) (hl : L.Lawful) (hrej : L.Rejecting)
    (tape : ℕ → UInt8) (calls : List ProcessCall) (hc : ∀ call ∈ calls, ProcessAllowed call)
    (hseeds : SeedsDiffer L tape (after (processStep L tape) calls processStart).used)
    (hinj : Set.InjOn (fun x => L.shake256 x 32)
      (logInputs L (receptions (trace (processStep L tape) calls processStart))
        (after (processStep L tape) calls processStart).system.sent)) :
    let log := receptions (trace (processStep L tape) calls processStart)
    let sent := (after (processStep L tape) calls processStart).system.sent
    (∀ r ∈ log, ∀ k, r.result = .ok k → ∀ s ∈ sent,
      (s.key = k ↔ MatchingSession s r.bundle r.msg)) ∧
    sent.Pairwise (fun s s' => s.msg.ekA ≠ s'.msg.ekA ∧ s.key ≠ s'.key) ∧
    log.Pairwise (fun r r' => ∀ s ∈ sent, r.result = .ok s.key → r'.result ≠ .ok s.key) := by
  intro log sent
  have hrun : ∃ start calls', FreshRun L tape calls start calls' :=
    freshRun_exists hc hseeds hinj
  obtain ⟨start, calls', run⟩ := hrun
  exact ⟨run.session_iff hl hrej, sent_sessions_differ run.sent run.good hseeds hinj,
    run.answered_once hl hrej⟩

section Witness

/-- A tape whose places differ in their first byte for a while. -/
def slowTape (i : ℕ) : UInt8 := UInt8.ofNat (i/8)

theorem ideal_ekBytes_head (params : EirnParams) (hs : IsSupportedParams params)
    (tape : ℕ → UInt8) (pos : ℕ) :
    (ekBytes idealSuite params (kemSeedOf (bytesAt 96 tape pos))).head? = some (tape pos) := by
  rcases hs with rfl | rfl
  · rw [ekBytes, dispatch768]
    rfl
  · rw [ekBytes, dispatch1024]
    rfl

theorem slowTape_seeds : SeedsDiffer idealSuite slowTape 608 := by
  intro params hs pos pos' hpos hused heq
  have hhead := congrArg List.head? heq
  rw [ideal_ekBytes_head params hs, ideal_ekBytes_head params hs] at hhead
  have hbyte := congrArg UInt8.toNat (Option.some.inj hhead)
  simp only [slowTape, UInt8.toNat_ofNat'] at hbyte
  omega

theorem session_inputs {L : Suite} {b : PrekeyBundle} {pkA : PublicKey} {skA : SecretKey}
    {draws : SenderDraws} {msg : Msg0Prime} {k : FixedBytes 32} (hl : L.Lawful)
    (hb : BundleInv L params768 b)
    (hsends : senderCall L .lite skA pkA b.publicBundle draws = .ok (msg, k)) :
    (logInputs L [⟨0, b, msg, .ok k⟩]
      [⟨skA, pkA, b.publicBundle, .lite, draws, msg, k⟩]).Subsingleton := by
  rw [senderCall_eq] at hsends
  apply (honest_inputs hl.keysValid hl.kemCorrect hb hsends).1.anti
  rintro x (⟨s, hs, hx⟩ | ⟨r, hr, k', secrets, _, hsession, hx⟩)
  · obtain rfl := List.mem_singleton.mp hs
    exact Or.inl hx
  · obtain rfl := List.mem_singleton.mp hr
    exact Or.inr ⟨secrets, hsession, hx⟩

end Witness

theorem shared_generator_agreement_one_session :
    ∃ b pkA skA msg k, OneSession idealSuite slowTape b pkA skA msg k ∧
      let log := receptions (trace (processStep idealSuite slowTape) (oneSession msg) processStart)
      let sent := (after (processStep idealSuite slowTape) (oneSession msg)
        processStart).system.sent
      (∀ r ∈ log, ∀ k, r.result = .ok k → ∀ s ∈ sent,
        (s.key = k ↔ MatchingSession s r.bundle r.msg)) ∧
      sent.Pairwise (fun s s' => s.msg.ekA ≠ s'.msg.ekA ∧ s.key ≠ s'.key) ∧
      log.Pairwise (fun r r' => ∀ s ∈ sent, r.result = .ok s.key → r'.result ≠ .ok s.key) := by
  have hrun : ∃ b pkA skA msg k, OneSession idealSuite slowTape b pkA skA msg k :=
    oneSession_exists idealSuite_lawful
  obtain ⟨b, pkA, skA, msg, k, r⟩ := hrun
  refine ⟨b, pkA, skA, msg, k, r, shared_generator_agreement idealSuite idealSuite_lawful
    idealSuite_rejecting slowTape (oneSession msg) (oneSession_allowed r.constructed) ?_ ?_⟩
  · rw [r.used]
    exact slowTape_seeds
  · rw [r.received, r.sent]
    exact (session_inputs idealSuite_lawful r.bundle r.sends).injOn _

end EirnKcp.FreshSessions
