import EirnKcp.HonestHandshake

/-!
# Every reachable state of a receiver

Whatever a receiver was asked so far, its pools are the rests of the generated
ones, its keys are the first ones, and its next call returns, changes nothing
when it fails and takes the first pair when it succeeds.
-/

set_option autoImplicit false

namespace EirnKcp.ReceiverSafety
open EirnKcp.CheckedCode EirnKcp.Params EirnKcp.Primitives EirnKcp.KeyLaws EirnKcp.Zk
open EirnKcp.Kem EirnKcp.Prekey EirnKcp.Handshake EirnKcp.HandshakeSteps EirnKcp.ReceiverState
open EirnKcp.HonestHandshake EirnKcp.CallRuns EirnKcp.IdealSuite

section Refused
variable {L : Suite} {params : EirnParams} {b : PrekeyBundle}

def unproved (msg : Msg0Prime) : Msg0Prime :=
  { msg with kcpMode := .strict, kcpStrictProof := none }

theorem unproved_constructed (msg : Msg0Prime) (h : Constructed msg) :
    Constructed (unproved msg) :=
  ⟨h.pkA, h.ekA, h.ct1, h.ct2, h.ct3, h.ct4⟩

theorem unproved_checks (h : BundleInv L params b) (msg : Msg0Prime)
    (hp : OfProfile params msg) :
    receiverChecks L b (unproved msg) = err .authenticationFailed := by
  rw [← h.identity.generated.params_eq] at hp
  rw [receiverChecks, if_neg ((ofProfile_iff (unproved msg) _).mpr
    ⟨hp.pkA, hp.ekA, hp.ct1, hp.ct2, hp.ct3, hp.ct4⟩)]
  rfl

theorem refused_handshake {msg : Msg0Prime} {e : EirnError}
    (h : receiverChecks L b msg = err e) : receiverHandshake L b msg = (err e, b) := by
  rw [receiverHandshake, h]
  rfl

theorem accepted_checks {msg : Msg0Prime} {k : FixedBytes 32}
    (h : (receiverHandshake L b msg).1 = .ok k) : receiverChecks L b msg = .ok () := by
  rw [receiverHandshake] at h
  cases hchecks : receiverChecks L b msg with
  | error e =>
    rw [hchecks] at h
    cases h
  | ok u => rfl

end Refused

section Exchange
variable {drawn : ℕ → FixedBytes 96} {numOpk : ℕ} {b₀ : PrekeyBundle} {msg : Msg0Prime}
  {k : FixedBytes 32}

structure Exchange (drawn : ℕ → FixedBytes 96) (numOpk : ℕ) (b₀ : PrekeyBundle)
    (msg : Msg0Prime) (k : FixedBytes 32) : Prop where
  generated : generatePrekeyBundleWithParams idealSuite drawn numOpk params768 = .ok b₀
  constructed : Constructed msg
  refusedChecks : receiverChecks idealSuite b₀ (unproved msg) = err .authenticationFailed
  accepted : receiverHandshake idealSuite b₀ msg = (.ok k, popped b₀)

theorem exchange_exists (drawn : ℕ → FixedBytes 96) (numOpk : ℕ) (hpos : 0 < numOpk) :
    ∃ b₀ msg k, Exchange drawn numOpk b₀ msg k := by
  obtain ⟨b₀, hgen, hinv, hlen⟩ := generate_ok idealSuite params768 supported768 drawn numOpk
  obtain ⟨pkA, skA, hA, _⟩ := keygen_generated idealSuite (zeros 96) params768 supported768
  have hpool : b₀.oneTimePrekeys ≠ [] := List.ne_nil_of_length_pos (by omega)
  obtain ⟨msg, k, _, hw, ha, hr⟩ := exchange_ok idealSuite_lawful ⟨_, hA⟩ hinv hpool .lite
    zeroDraws
  exact ⟨b₀, msg, k, hgen, (hw.constructed _ _ supported768).1, unproved_checks hinv msg ha.1, hr⟩

def deliveries (msg : Msg0Prime) : List ReceiverCall :=
  [.receive (unproved msg), .receive msg]

theorem deliveries_allowed (h : Exchange drawn numOpk b₀ msg k) :
    ∀ call ∈ deliveries msg, Allowed call := by
  simp only [deliveries, List.forall_mem_cons, Allowed]
  exact ⟨unproved_constructed msg h.constructed, h.constructed, by simp⟩

theorem Exchange.refused (h : Exchange drawn numOpk b₀ msg k) :
    receiverHandshake idealSuite b₀ (unproved msg) = (err .authenticationFailed, b₀) :=
  refused_handshake h.refusedChecks

theorem Exchange.acceptedChecks (h : Exchange drawn numOpk b₀ msg k) :
    receiverChecks idealSuite b₀ msg = .ok () :=
  accepted_checks (congrArg Prod.fst h.accepted)

theorem deliveries_replies (h : Exchange drawn numOpk b₀ msg k) :
    (trace (receiverStep idealSuite) (deliveries msg) b₀).map Event.reply =
      [.key (err .authenticationFailed), .key (.ok k)] := by
  simp [deliveries, trace, event, receiverStep, h.refused, h.accepted]

theorem deliveries_successes (h : Exchange drawn numOpk b₀ msg k) :
    successes idealSuite (deliveries msg) b₀ = 1 := by
  simp [successes, deliveries, trace, event, receiverStep, h.refused, h.accepted, succeeded, err]

end Exchange

/-- The state after a run from `b₀`, and what its next call does. -/
structure ReceiverSafe (L : Suite) (params : EirnParams) (b₀ : PrekeyBundle)
    (calls : List ReceiverCall) (b : PrekeyBundle) : Prop where
  paired : List.Forall₂ (KeyPair L params) b.oneTimePrekeys b.oneTimeSecretKeys
  publicRest : b.oneTimePrekeys = b₀.oneTimePrekeys.drop (successes L calls b₀)
  secretRest : b.oneTimeSecretKeys = b₀.oneTimeSecretKeys.drop (successes L calls b₀)
  used : spent PrekeyBundle.oneTimeSecretKeys succeeded (trace (receiverStep L) calls b₀) =
    b₀.oneTimeSecretKeys.take (successes L calls b₀)
  keys : SameKeys b₀ b
  consume : Atomic b b.consumeOpk
  consumeFirst : ∀ pk sk, b.consumeOpk.1 = .ok (pk, sk) →
    b.oneTimePrekeys.head? = some pk ∧ b.oneTimeSecretKeys.head? = some sk
  receive : ∀ msg, Constructed msg → Atomic b (receiverHandshake L b msg)
  receiveFirst : ∀ msg k, Constructed msg → (receiverHandshake L b msg).1 = .ok k →
    ∃ sk, b.oneTimeSecretKeys.head? = some sk ∧ receiverKey L b sk msg = .ok k

theorem receiver_state_invariant (L : Suite) (params : EirnParams) (hs : IsSupportedParams params)
    (drawn : ℕ → FixedBytes 96) (numOpk : ℕ) (b₀ : PrekeyBundle)
    (hgen : generatePrekeyBundleWithParams L drawn numOpk params = .ok b₀)
    (calls : List ReceiverCall) (hc : ∀ call ∈ calls, Allowed call) :
    b₀.oneTimePrekeys.length = numOpk ∧
      List.Forall₂ (KeyPair L params) b₀.oneTimePrekeys b₀.oneTimeSecretKeys ∧
      successes L calls b₀ ≤ numOpk ∧
      ReceiverSafe L params b₀ calls (after (receiverStep L) calls b₀) := by
  obtain ⟨hinv, hlen⟩ := generate_inv L params hs drawn numOpk b₀ hgen
  have hrun := run_invariant b₀ calls hc hinv
  obtain ⟨_, hpk, hn⟩ := run_pool b₀ calls hc hinv PrekeyBundle.oneTimePrekeys (fun _ => rfl)
    (fun _ h _ => h)
  obtain ⟨hspent, hsk, _⟩ := run_pool b₀ calls hc hinv PrekeyBundle.oneTimeSecretKeys
    (fun _ => rfl) (fun _ _ h => h)
  exact ⟨hlen, hinv.pool, hlen ▸ hn, hrun.bundle.pool, hpk, hsk, hspent, hrun.keys,
    consume_atomic hrun.bundle, consume_first hrun.bundle, receive_atomic hrun.bundle,
    receive_first hrun.bundle⟩

theorem receiver_state_invariant_two :
    ∃ b₀ msg k, ∃ calls : List ReceiverCall,
      generatePrekeyBundleWithParams idealSuite (fun _ => zeros 96) 2 params768 = .ok b₀ ∧
      calls = [.receive (unproved msg), .receive msg] ∧
      (trace (receiverStep idealSuite) calls b₀).map Event.reply =
        [.key (err .authenticationFailed), .key (.ok k)] ∧
      successes idealSuite calls b₀ = 1 ∧
      ReceiverSafe idealSuite params768 b₀ calls (after (receiverStep idealSuite) calls b₀) := by
  obtain ⟨b₀, msg, k, h⟩ := exchange_exists (fun _ => zeros 96) 2 (by decide)
  exact ⟨b₀, msg, k, deliveries msg, h.generated, rfl, deliveries_replies h,
    deliveries_successes h, (receiver_state_invariant idealSuite params768 supported768
      (fun _ => zeros 96) 2 b₀ h.generated (deliveries msg) (deliveries_allowed h)).2.2.2⟩

end EirnKcp.ReceiverSafety
