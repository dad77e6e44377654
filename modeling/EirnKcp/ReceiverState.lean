import EirnKcp.CallRuns
import EirnKcp.HandshakeSteps

/-!
# The receiver's state over a run of calls

A bundle hands out its one-time pairs in order. Every call keeps the keys and
the pairing of the two pools; a call either changes nothing or removes the
first pair. Acceptance of a message depends on the unchanging part only, so a
message that was accepted once is accepted again while pairs remain.
-/

set_option autoImplicit false

namespace EirnKcp.ReceiverState
open EirnKcp.CheckedCode EirnKcp.ByteCodec EirnKcp.Params EirnKcp.Primitives
open EirnKcp.Kem EirnKcp.KeyLaws EirnKcp.Zk EirnKcp.Prekey EirnKcp.Handshake
open EirnKcp.HandshakeSteps EirnKcp.CallRuns

def KeyPair (L : Suite) (params : EirnParams) (pk : PublicKey) (sk : SecretKey) : Prop :=
  ∃ seed, keygenFromSeed L seed params = .ok (pk, sk)

theorem KeyPair.generated {L : Suite} {params : EirnParams} {pk : PublicKey} {sk : SecretKey}
    (h : KeyPair L params pk sk) : Generated L params pk sk := by
  obtain ⟨seed, hk⟩ := h
  exact generated_of_keygen L seed params pk sk hk

/-- What every reachable receiver state satisfies. -/
structure BundleInv (L : Suite) (params : EirnParams) (bundle : PrekeyBundle) : Prop where
  identity : KeyPair L params bundle.identityPk bundle.identitySk
  signedPrekey : KeyPair L params bundle.signedPrekeyPk bundle.signedPrekeySk
  pool : List.Forall₂ (KeyPair L params) bundle.oneTimePrekeys bundle.oneTimeSecretKeys

section Generation
variable (L : Suite) (params : EirnParams) (hs : IsSupportedParams params)
  (drawn : ℕ → FixedBytes 96)
include hs

theorem keygen_isOk (seed : FixedBytes 96) :
    ∃ pk sk, keygenWithParams L seed params = .ok (pk, sk) ∧ KeyPair L params pk sk := by
  obtain ⟨pk, sk, hk, _⟩ := keygen_generated L seed params hs
  exact ⟨pk, sk, hk, seed, hk⟩

theorem generateOneTime_ok (first count : ℕ) :
    ∃ pks sks, generateOneTime L drawn params first count = .ok (pks, sks) ∧
      List.Forall₂ (KeyPair L params) pks sks ∧ pks.length = count := by
  induction count generalizing first with
  | zero => exact ⟨[], [], rfl, List.Forall₂.nil, rfl⟩
  | succ count ih =>
    obtain ⟨pk, sk, hk, hpair⟩ := keygen_isOk L params hs (drawn first)
    obtain ⟨pks, sks, hrest, hpool, hl⟩ := ih (first+1)
    refine ⟨pk::pks, sk::sks, ?_, List.Forall₂.cons hpair hpool, by rw [List.length_cons, hl]⟩
    simp only [generateOneTime, hk, hrest, ok_bind, pure_ok]

theorem generate_ok (numOpk : ℕ) :
    ∃ bundle, generatePrekeyBundleWithParams L drawn numOpk params = .ok bundle ∧
      BundleInv L params bundle ∧ bundle.oneTimePrekeys.length = numOpk := by
  obtain ⟨pk, sk, hk, hid⟩ := keygen_isOk L params hs (drawn 0)
  obtain ⟨spk, ssk, hsk, hspk⟩ := keygen_isOk L params hs (drawn 1)
  obtain ⟨pks, sks, hpool, hpairs, hl⟩ := generateOneTime_ok L params hs drawn 2 numOpk
  simp only [generatePrekeyBundleWithParams, hk, hsk, hpool, ok_bind, pure_ok]
  exact ⟨_, rfl, ⟨hid, hspk, hpairs⟩, hl⟩

theorem generate_inv (numOpk : ℕ) (bundle : PrekeyBundle)
    (h : generatePrekeyBundleWithParams L drawn numOpk params = .ok bundle) :
    BundleInv L params bundle ∧ bundle.oneTimePrekeys.length = numOpk := by
  obtain ⟨b, hb, hinv⟩ := generate_ok L params hs drawn numOpk
  rw [hb] at h
  cases h
  exact hinv

end Generation

section Steps
variable {L : Suite} {params : EirnParams} {bundle : PrekeyBundle}

def popped (bundle : PrekeyBundle) : PrekeyBundle :=
  { bundle with
    oneTimePrekeys := bundle.oneTimePrekeys.drop 1
    oneTimeSecretKeys := bundle.oneTimeSecretKeys.drop 1 }

theorem consumeOpk_cases (h : BundleInv L params bundle) :
    (bundle.oneTimePrekeys = [] ∧ bundle.oneTimeSecretKeys = [] ∧
        bundle.consumeOpk = (err .noOneTimePrekeys, bundle)) ∨
      ∃ pk pks sk sks, bundle.oneTimePrekeys = pk::pks ∧ bundle.oneTimeSecretKeys = sk::sks ∧
        KeyPair L params pk sk ∧ bundle.consumeOpk = (.ok (pk, sk), popped bundle) := by
  have hpool := h.pool
  unfold PrekeyBundle.consumeOpk popped
  generalize bundle.oneTimePrekeys = pks at hpool ⊢
  generalize bundle.oneTimeSecretKeys = sks at hpool ⊢
  cases hpool with
  | nil => exact Or.inl ⟨rfl, rfl, rfl⟩
  | cons hpair hrest => exact Or.inr ⟨_, _, _, _, rfl, rfl, hpair, rfl⟩

theorem popped_inv (h : BundleInv L params bundle) : BundleInv L params (popped bundle) := by
  refine ⟨h.identity, h.signedPrekey, ?_⟩
  exact List.forall₂_drop 1 h.pool

theorem receiverHandshake_cases (h : BundleInv L params bundle) (msg : Msg0Prime)
    (hc : Constructed msg) :
    ((∃ e, (e = .keyMismatch ∨ e = .authenticationFailed) ∧
          receiverHandshake L bundle msg = (err e, bundle)) ∧
        ¬ (OfProfile params msg ∧ ProofAccepted L bundle msg)) ∨
      ((OfProfile params msg ∧ ProofAccepted L bundle msg) ∧
        ((bundle.oneTimePrekeys = [] ∧ bundle.oneTimeSecretKeys = [] ∧
            receiverHandshake L bundle msg = (err .noOneTimePrekeys, bundle)) ∨
          ∃ pk pks sk sks k, bundle.oneTimePrekeys = pk::pks ∧
            bundle.oneTimeSecretKeys = sk::sks ∧ KeyPair L params pk sk ∧
            receiverKey L bundle sk msg = .ok k ∧
            receiverHandshake L bundle msg = (.ok k, popped bundle))) := by
  have hid := h.identity.generated
  have hspk := h.signedPrekey.generated
  have hparams := hid.params_eq
  rcases receiverChecks_cases L bundle msg hc with ⟨hok, hp, ha⟩ | ⟨herr, hn⟩
  · rw [hparams] at hp
    refine Or.inr ⟨⟨hp, ha⟩, ?_⟩
    rcases consumeOpk_cases h with ⟨hpk, hsk, hcons⟩ | ⟨pk, pks, sk, sks, hpk, hsk, hpair, hcons⟩
    · refine Or.inl ⟨hpk, hsk, ?_⟩
      rw [receiverHandshake, hok, hcons]
      rfl
    · have hopk := hpair.generated
      obtain ⟨k, hk⟩ := receiverKey_isOk L bundle msg sk hc (by rw [hparams]; exact hp)
        (by rw [hid.secretParams, hparams]) (by rw [hspk.secretParams, hparams])
        (by rw [hopk.secretParams, hparams])
      refine Or.inr ⟨pk, pks, sk, sks, k, hpk, hsk, hpair, hk, ?_⟩
      rw [receiverHandshake, hok, hcons]
      exact congrArg (·, popped bundle) hk
  · rw [hparams] at hn
    refine Or.inl ⟨?_, hn⟩
    rcases herr with herr | herr
    · refine ⟨_, Or.inl rfl, ?_⟩
      rw [receiverHandshake, herr]
      rfl
    · refine ⟨_, Or.inr rfl, ?_⟩
      rw [receiverHandshake, herr]
      rfl

end Steps

inductive ReceiverCall where
  | receive (msg : Msg0Prime)
  | consume
  | publicBundle

inductive ReceiverReply where
  | key (result : Result (FixedBytes 32))
  | pair (result : Result (PublicKey × SecretKey))
  | bundle (published : PublicPrekeyBundle)

def receiverStep (L : Suite) : ReceiverCall → PrekeyBundle → ReceiverReply × PrekeyBundle
  | .receive msg, b => (.key (receiverHandshake L b msg).1, (receiverHandshake L b msg).2)
  | .consume, b => (.pair b.consumeOpk.1, b.consumeOpk.2)
  | .publicBundle, b => (.bundle b.publicBundle, b)

def succeeded : ReceiverReply → Bool
  | .key (.ok _) => true
  | .pair (.ok _) => true
  | _ => false

def Allowed : ReceiverCall → Prop
  | .receive msg => Constructed msg
  | _ => True

structure SameKeys (b b' : PrekeyBundle) : Prop where
  identityPk : b'.identityPk = b.identityPk
  identitySk : b'.identitySk = b.identitySk
  signedPrekeyPk : b'.signedPrekeyPk = b.signedPrekeyPk
  signedPrekeySk : b'.signedPrekeySk = b.signedPrekeySk
  commitment : b'.commitment = b.commitment

section Runs
variable {L : Suite} {params : EirnParams}

theorem receiverStep_cases (call : ReceiverCall) (b : PrekeyBundle) (ha : Allowed call)
    (h : BundleInv L params b) :
    (succeeded (receiverStep L call b).1 = false ∧ (receiverStep L call b).2 = b) ∨
      (succeeded (receiverStep L call b).1 = true ∧ (receiverStep L call b).2 = popped b ∧
        b.oneTimePrekeys ≠ [] ∧ b.oneTimeSecretKeys ≠ []) := by
  cases call with
  | receive msg =>
    simp only [receiverStep]
    rcases receiverHandshake_cases h msg ha with
      ⟨⟨e, _, hr⟩, _⟩ | ⟨_, ⟨_, _, hr⟩ | ⟨pk, pks, sk, sks, k, hpk, hsk, _, _, hr⟩⟩
    · rw [hr]
      exact Or.inl ⟨rfl, rfl⟩
    · rw [hr]
      exact Or.inl ⟨rfl, rfl⟩
    · rw [hr, hpk, hsk]
      exact Or.inr ⟨rfl, rfl, List.cons_ne_nil _ _, List.cons_ne_nil _ _⟩
  | consume =>
    simp only [receiverStep]
    rcases consumeOpk_cases h with ⟨_, _, hr⟩ | ⟨pk, pks, sk, sks, hpk, hsk, _, hr⟩
    · rw [hr]
      exact Or.inl ⟨rfl, rfl⟩
    · rw [hr, hpk, hsk]
      exact Or.inr ⟨rfl, rfl, List.cons_ne_nil _ _, List.cons_ne_nil _ _⟩
  | publicBundle => exact Or.inl ⟨rfl, rfl⟩

structure RunInv (L : Suite) (params : EirnParams) (b₀ b : PrekeyBundle) : Prop where
  bundle : BundleInv L params b
  keys : SameKeys b₀ b

theorem runInv_start {b₀ : PrekeyBundle} (h : BundleInv L params b₀) : RunInv L params b₀ b₀ :=
  ⟨h, rfl, rfl, rfl, rfl, rfl⟩

theorem runInv_step (b₀ : PrekeyBundle) (call : ReceiverCall) (b : PrekeyBundle)
    (ha : Allowed call) (h : RunInv L params b₀ b) :
    RunInv L params b₀ (receiverStep L call b).2 := by
  rcases receiverStep_cases call b ha h.bundle with ⟨_, hb⟩ | ⟨_, hb, _⟩
  · rw [hb]
    exact h
  · rw [hb]
    exact ⟨popped_inv h.bundle, h.keys.identityPk, h.keys.identitySk, h.keys.signedPrekeyPk,
      h.keys.signedPrekeySk, h.keys.commitment⟩

section Pools
variable (b₀ : PrekeyBundle) (calls : List ReceiverCall) (hc : ∀ call ∈ calls, Allowed call)
  (h : BundleInv L params b₀)
include hc h

theorem run_invariant : RunInv L params b₀ (after (receiverStep L) calls b₀) :=
  after_invariant (receiverStep L) Allowed (RunInv L params b₀) (runInv_step b₀) calls b₀ hc
    (runInv_start h)

/-- Either pool splits into what the run's successful calls took, in order, and
what is left. -/
theorem run_pool {α : Type} (items : PrekeyBundle → List α)
    (hpop : ∀ b, items (popped b) = (items b).drop 1)
    (hne : ∀ b, b.oneTimePrekeys ≠ [] → b.oneTimeSecretKeys ≠ [] → items b ≠ []) :
    let n := (trace (receiverStep L) calls b₀).countP (fun e => succeeded e.reply)
    spent items succeeded (trace (receiverStep L) calls b₀) = (items b₀).take n ∧
      items (after (receiverStep L) calls b₀) = (items b₀).drop n ∧ n ≤ (items b₀).length := by
  have hsplit := spent_append_rest (receiverStep L) items succeeded Allowed (RunInv L params b₀)
    (runInv_step b₀) (fun call b ha hb => by
      rcases receiverStep_cases call b ha hb.bundle with ⟨hs, hn⟩ | ⟨hs, hn, _⟩
      · rw [hs, hn]
        rfl
      · rw [hs, hn, hpop]
        rfl) calls b₀ hc (runInv_start h)
  have hlen := spent_length (receiverStep L) items succeeded Allowed (RunInv L params b₀)
    (runInv_step b₀) (fun call b ha hb hs => by
      rcases receiverStep_cases call b ha hb.bundle with ⟨hf, _⟩ | ⟨_, _, hpk, hsk⟩
      · rw [hf] at hs
        cases hs
      · exact hne b hpk hsk) calls b₀ hc (runInv_start h)
  refine ⟨?_, ?_, ?_⟩
  · rw [← hsplit, List.take_left' hlen]
  · rw [← hsplit, List.drop_left' hlen]
  · rw [← hsplit, List.length_append, hlen]
    exact Nat.le_add_right _ _

end Pools

end Runs

def successes (L : Suite) (calls : List ReceiverCall) (b₀ : PrekeyBundle) : ℕ :=
  (trace (receiverStep L) calls b₀).countP (fun e => succeeded e.reply)

/-- What a call on a bundle may do besides returning a value. -/
structure Atomic {α : Type} (b : PrekeyBundle) (r : Result α × PrekeyBundle) : Prop where
  noPanic : ¬ Panics r.1
  errUnchanged : IsErr r.1 → r.2 = b
  onlyWhenEmpty : r.1 = err .noOneTimePrekeys → b.oneTimePrekeys = []

section NextCall
variable {L : Suite} {params : EirnParams} {b : PrekeyBundle} (h : BundleInv L params b)
include h

theorem consume_atomic : Atomic b b.consumeOpk := by
  rcases consumeOpk_cases h with ⟨hempty, _, hr⟩ | ⟨pk, pks, sk, sks, _, _, _, hr⟩
  · rw [hr]
    exact ⟨err_not_panics _, fun _ => rfl, fun _ => hempty⟩
  · rw [hr]
    exact ⟨ok_not_panics _, fun he => absurd he (ok_not_err _), fun he => by cases he⟩

theorem consume_first (pk : PublicKey) (sk : SecretKey) (hok : b.consumeOpk.1 = .ok (pk, sk)) :
    b.oneTimePrekeys.head? = some pk ∧ b.oneTimeSecretKeys.head? = some sk := by
  rcases consumeOpk_cases h with ⟨_, _, hr⟩ | ⟨pk, pks, sk, sks, hpk, hsk, _, hr⟩
  · rw [hr] at hok
    cases hok
  · rw [hr] at hok
    cases hok
    rw [hpk, hsk]
    exact ⟨rfl, rfl⟩

theorem receive_atomic (msg : Msg0Prime) (hm : Constructed msg) :
    Atomic b (receiverHandshake L b msg) := by
  rcases receiverHandshake_cases h msg hm with
    ⟨⟨e, he, hr⟩, _⟩ | ⟨_, ⟨hempty, _, hr⟩ | ⟨pk, pks, sk, sks, k, _, _, _, _, hr⟩⟩
  · rw [hr]
    refine ⟨err_not_panics _, fun _ => rfl, ?_⟩
    rcases he with rfl | rfl
    · intro h
      cases h
    · intro h
      cases h
  · rw [hr]
    exact ⟨err_not_panics _, fun _ => rfl, fun _ => hempty⟩
  · rw [hr]
    exact ⟨ok_not_panics _, fun he => absurd he (ok_not_err _), fun he => by cases he⟩

theorem receive_first (msg : Msg0Prime) (k : FixedBytes 32) (hm : Constructed msg)
    (hok : (receiverHandshake L b msg).1 = .ok k) :
    ∃ sk, b.oneTimeSecretKeys.head? = some sk ∧ receiverKey L b sk msg = .ok k := by
  rcases receiverHandshake_cases h msg hm with
    ⟨⟨e, _, hr⟩, _⟩ | ⟨_, ⟨_, _, hr⟩ | ⟨pk, pks, sk, sks, k', _, hsk, _, hk, hr⟩⟩
  · rw [hr] at hok
    cases hok
  · rw [hr] at hok
    cases hok
  · rw [hr] at hok
    cases hok
    rw [hsk]
    exact ⟨sk, rfl, hk⟩

end NextCall

end EirnKcp.ReceiverState
