import EirnKcp.Dispenser
import EirnKcp.ReceiverSafety

/-!
# The receiver as a dispenser of one-time pairs

What a receiver does with a call is fixed by its long-term keys: a message that
passes the checks and a direct consumption take the first pair, all other calls
only look. The state after a run and every reply of it are therefore given by the
number of takers before, in whatever order they came.
-/

set_option autoImplicit false

namespace EirnKcp.ReceiverDispenser
open EirnKcp.CheckedCode EirnKcp.Params EirnKcp.Primitives EirnKcp.Kem EirnKcp.KeyLaws
open EirnKcp.Prekey EirnKcp.Handshake EirnKcp.HandshakeSteps EirnKcp.ReceiverState
open EirnKcp.ReceiverSafety EirnKcp.CallRuns EirnKcp.Dispenser EirnKcp.IdealSuite

def pairs (b : PrekeyBundle) : List (PublicKey × SecretKey) :=
  b.oneTimePrekeys.zip b.oneTimeSecretKeys

/-- What a receiver with the long-term keys of `b₀` does with a call. -/
def receiverBehaviour (L : Suite) (b₀ : PrekeyBundle) :
    ReceiverCall → Behaviour ReceiverReply (PublicKey × SecretKey)
  | .receive msg =>
    match receiverChecks L b₀ msg with
    | .error e => .look (fun _ => .key (.error e))
    | .ok () => .take (fun pair => .key (receiverKey L b₀ pair.2 msg))
        (.key (err .noOneTimePrekeys))
  | .consume => .take (fun pair => .pair (.ok pair)) (.pair (err .noOneTimePrekeys))
  | .publicBundle => .look (fun left =>
      .bundle { b₀.publicBundle with oneTimePrekeys := left.map Prod.fst })

section SameKeys
variable {L : Suite} {b₀ b : PrekeyBundle} (h : SameKeys b₀ b)
include h

theorem checks_same (msg : Msg0Prime) : receiverChecks L b msg = receiverChecks L b₀ msg := by
  unfold receiverChecks
  rw [h.identityPk]

theorem key_same (sk : SecretKey) (msg : Msg0Prime) :
    receiverKey L b sk msg = receiverKey L b₀ sk msg := by
  unfold receiverKey receiverSecrets
  rw [h.identityPk, h.identitySk, h.signedPrekeySk]

end SameKeys

section Simulation
variable {L : Suite} {params : EirnParams} {b₀ b : PrekeyBundle}

theorem map_fst_pairs (h : BundleInv L params b) :
    (pairs b).map Prod.fst = b.oneTimePrekeys := by
  rw [pairs, List.map_fst_zip h.pool.length_eq.le]

theorem map_snd_pairs (h : BundleInv L params b) :
    (pairs b).map Prod.snd = b.oneTimeSecretKeys := by
  rw [pairs, List.map_snd_zip h.pool.length_eq.ge]

theorem pairs_popped (b : PrekeyBundle) : pairs (popped b) = (pairs b).drop 1 := by
  simp only [pairs, popped, List.zip, List.drop_zipWith]

theorem receive_simulated (h : RunInv L params b₀ b) (msg : Msg0Prime) :
    (receiverStep L (.receive msg) b).1 =
        (receiverBehaviour L b₀ (.receive msg)).reply (pairs b) ∧
      pairs (receiverStep L (.receive msg) b).2 =
        (receiverBehaviour L b₀ (.receive msg)).rest (pairs b) := by
  rw [receiverStep, receiverHandshake, checks_same h.keys, receiverBehaviour]
  cases receiverChecks L b₀ msg with
  | error e => exact ⟨rfl, rfl⟩
  | ok u =>
    rcases consumeOpk_cases h.bundle with ⟨hpk, hsk, hr⟩ | ⟨pk, pks, sk, sks, hpk, hsk, _, hr⟩
    · have hempty : pairs b = [] := by rw [pairs, hpk, hsk, List.zip_nil_left]
      rw [hr, hempty]
      exact ⟨rfl, hempty⟩
    · have hcons : pairs b = (pk, sk)::pks.zip sks := by rw [pairs, hpk, hsk, List.zip_cons_cons]
      have hkeys : SameKeys b₀ (popped b) := ⟨h.keys.identityPk, h.keys.identitySk,
        h.keys.signedPrekeyPk, h.keys.signedPrekeySk, h.keys.commitment⟩
      rw [hr]
      dsimp only
      rw [key_same hkeys, pairs_popped, hcons]
      exact ⟨rfl, rfl⟩

theorem consume_simulated (h : RunInv L params b₀ b) :
    (receiverStep L .consume b).1 = (receiverBehaviour L b₀ .consume).reply (pairs b) ∧
      pairs (receiverStep L .consume b).2 =
        (receiverBehaviour L b₀ .consume).rest (pairs b) := by
  rw [receiverStep, receiverBehaviour]
  rcases consumeOpk_cases h.bundle with ⟨hpk, hsk, hr⟩ | ⟨pk, pks, sk, sks, hpk, hsk, _, hr⟩
  · have hempty : pairs b = [] := by rw [pairs, hpk, hsk, List.zip_nil_left]
    rw [hr, hempty]
    exact ⟨rfl, rfl⟩
  · have hcons : pairs b = (pk, sk)::pks.zip sks := by rw [pairs, hpk, hsk, List.zip_cons_cons]
    rw [hr]
    dsimp only
    rw [pairs_popped, hcons]
    exact ⟨rfl, rfl⟩

theorem publicBundle_simulated (h : RunInv L params b₀ b) :
    (receiverStep L .publicBundle b).1 =
      (receiverBehaviour L b₀ .publicBundle).reply (pairs b) := by
  simp only [receiverStep, receiverBehaviour, Behaviour.reply, PrekeyBundle.publicBundle,
    map_fst_pairs h.bundle, h.keys.identityPk, h.keys.signedPrekeyPk, h.keys.commitment]

theorem receiver_refines (L : Suite) (params : EirnParams) (b₀ : PrekeyBundle) :
    Refines (receiverStep L) Allowed (RunInv L params b₀) pairs (receiverBehaviour L b₀) where
  keeps call b ha h := runInv_step b₀ call b ha h
  answers call b ha h := by
    cases call with
    | receive msg => exact (receive_simulated h msg).1
    | consume => exact (consume_simulated h).1
    | publicBundle => exact publicBundle_simulated h
  moves call b ha h := by
    cases call with
    | receive msg => exact (receive_simulated h msg).2
    | consume => exact (consume_simulated h).2
    | publicBundle => rfl

theorem drop_one_eq_iff {α : Type} (items : List α) : items.drop 1 = items ↔ items = [] := by
  cases items with
  | nil => simp
  | cons item rest => simp

theorem succeeded_iff_takes (call : ReceiverCall) (b : PrekeyBundle) (ha : Allowed call)
    (h : RunInv L params b₀ b) :
    succeeded (receiverStep L call b).1 =
      ((receiverBehaviour L b₀ call).takes && !(pairs b).isEmpty) := by
  have hmoves := (receiver_refines L params b₀).moves call b ha h
  rw [Behaviour.rest] at hmoves
  rcases receiverStep_cases call b ha h.bundle with ⟨hs, hb⟩ | ⟨hs, hb, hpk, hsk⟩
  · rw [hs]
    rw [hb] at hmoves
    by_cases ht : (receiverBehaviour L b₀ call).takes = true
    · rw [if_pos ht] at hmoves
      rw [(drop_one_eq_iff (pairs b)).mp hmoves.symm]
      simp
    · simp [ht]
  · have hne : pairs b ≠ [] := by
      rw [pairs, Ne, List.zip_eq_nil_iff]
      tauto
    rw [hs]
    rw [hb, pairs_popped] at hmoves
    by_cases ht : (receiverBehaviour L b₀ call).takes = true
    · simp [ht, hne]
    · rw [if_neg ht] at hmoves
      exact absurd ((drop_one_eq_iff (pairs b)).mp hmoves) hne

theorem state_of_pairs (h₀ : BundleInv L params b₀) (h : RunInv L params b₀ b) (n : ℕ)
    (hp : pairs b = (pairs b₀).drop n) :
    b = { b₀ with
      oneTimePrekeys := b₀.oneTimePrekeys.drop n
      oneTimeSecretKeys := b₀.oneTimeSecretKeys.drop n } := by
  have hpk : b.oneTimePrekeys = b₀.oneTimePrekeys.drop n := by
    rw [← map_fst_pairs h.bundle, hp, List.map_drop, map_fst_pairs h₀]
  have hsk : b.oneTimeSecretKeys = b₀.oneTimeSecretKeys.drop n := by
    rw [← map_snd_pairs h.bundle, hp, List.map_drop, map_snd_pairs h₀]
  obtain ⟨_, h1, h2, h3, h4, h5⟩ := h
  cases b with
  | mk identityPk identitySk signedPrekeyPk signedPrekeySk pks sks commitment =>
    simp only at h1 h2 h3 h4 h5 hpk hsk
    rw [h1, h2, h3, h4, h5, hpk, hsk]

end Simulation

/-- Every run of a generated bundle answers as the dispenser of its pairs, and so
does every call after it: what it finds is fixed by the number of takers before. -/
theorem receiver_refines_dispenser (L : Suite) (params : EirnParams)
    (hs : IsSupportedParams params) (drawn : ℕ → FixedBytes 96) (numOpk : ℕ) (b₀ : PrekeyBundle)
    (hgen : generatePrekeyBundleWithParams L drawn numOpk params = .ok b₀)
    (calls : List ReceiverCall) (hc : ∀ call ∈ calls, Allowed call) :
    (trace (receiverStep L) calls b₀).map Event.reply =
      (trace (dispense (receiverBehaviour L b₀)) calls (pairs b₀)).map Event.reply ∧
    ∀ call, Allowed call → (receiverStep L call (after (receiverStep L) calls b₀)).1 =
      (receiverBehaviour L b₀ call).reply
        ((pairs b₀).drop (takers (receiverBehaviour L b₀) calls)) := by
  have hstart := runInv_start (generate_inv L params hs drawn numOpk b₀ hgen).1
  have href := receiver_refines L params b₀
  exact ⟨href.replies calls b₀ hc hstart, href.reply_after calls b₀ hc hstart⟩

theorem receiver_refines_dispenser_two :
    ∃ b₀ msg k, ∃ calls : List ReceiverCall,
      generatePrekeyBundleWithParams idealSuite (fun _ => zeros 96) 1 params768 = .ok b₀ ∧
      calls = [.receive (unproved msg), .receive msg] ∧
      (trace (dispense (receiverBehaviour idealSuite b₀)) calls (pairs b₀)).map Event.reply =
        [.key (err .authenticationFailed), .key (.ok k)] ∧
      (receiverStep idealSuite (.receive msg) (after (receiverStep idealSuite) calls b₀)).1 =
        .key (err .noOneTimePrekeys) := by
  obtain ⟨b₀, msg, k, h⟩ := exchange_exists (fun _ => zeros 96) 1 (by decide)
  obtain ⟨hreplies, hnext⟩ := receiver_refines_dispenser idealSuite params768 supported768
    (fun _ => zeros 96) 1 b₀ h.generated (deliveries msg) (deliveries_allowed h)
  refine ⟨b₀, msg, k, deliveries msg, h.generated, rfl, ?_, ?_⟩
  · rw [← hreplies, deliveries_replies h]
  · obtain ⟨hinv, hl⟩ := generate_inv _ _ supported768 _ _ _ h.generated
    have hlen : (pairs b₀).length = 1 := by
      rw [pairs, List.length_zip, ← hinv.pool.length_eq, hl, min_self]
    have htakers : takers (receiverBehaviour idealSuite b₀) (deliveries msg) = 1 := by
      simp [takers, deliveries, receiverBehaviour, h.refusedChecks, h.acceptedChecks, err,
        Behaviour.takes]
    rw [hnext (.receive msg) h.constructed, htakers, List.drop_eq_nil_of_le hlen.le]
    simp only [receiverBehaviour, h.acceptedChecks, Behaviour.reply]

/-- The order of the calls has no influence on the state after them nor on the
number of those that succeed. -/
theorem receiver_order_independent (L : Suite) (params : EirnParams)
    (hs : IsSupportedParams params) (drawn : ℕ → FixedBytes 96) (numOpk : ℕ) (b₀ : PrekeyBundle)
    (hgen : generatePrekeyBundleWithParams L drawn numOpk params = .ok b₀)
    (calls calls' : List ReceiverCall) (hc : ∀ call ∈ calls, Allowed call)
    (hperm : calls'.Perm calls) :
    after (receiverStep L) calls' b₀ = after (receiverStep L) calls b₀ ∧
      successes L calls' b₀ = successes L calls b₀ ∧
      successes L calls b₀ = min numOpk (takers (receiverBehaviour L b₀) calls) ∧
      after (receiverStep L) calls b₀ =
        { b₀ with
          oneTimePrekeys := b₀.oneTimePrekeys.drop (takers (receiverBehaviour L b₀) calls)
          oneTimeSecretKeys :=
            b₀.oneTimeSecretKeys.drop (takers (receiverBehaviour L b₀) calls) } := by
  obtain ⟨hinv, hl⟩ := generate_inv L params hs drawn numOpk b₀ hgen
  have hstart := runInv_start hinv
  have href := receiver_refines L params b₀
  have hlen : (pairs b₀).length = numOpk := by
    rw [pairs, List.length_zip, ← hinv.pool.length_eq, hl, min_self]
  have hc' : ∀ call ∈ calls', Allowed call := fun call hm => hc call (hperm.mem_iff.mp hm)
  have htakers := takers_perm (receiverBehaviour L b₀) calls' calls hperm
  have hstate : ∀ cs, (∀ call ∈ cs, Allowed call) → after (receiverStep L) cs b₀ = _ :=
    fun cs hcs => state_of_pairs hinv (run_invariant b₀ cs hcs hinv) _
      (href.after_items cs b₀ hcs hstart)
  have hcount : ∀ cs, (∀ call ∈ cs, Allowed call) →
      successes L cs b₀ = min numOpk (takers (receiverBehaviour L b₀) cs) := by
    intro cs hcs
    rw [← hlen]
    exact href.successes succeeded (fun call b ha h => succeeded_iff_takes call b ha h) cs b₀ hcs
      hstart
  refine ⟨?_, ?_, hcount calls hc, hstate calls hc⟩
  · rw [hstate calls hc, hstate calls' hc', htakers]
  · rw [hcount calls hc, hcount calls' hc', htakers]

theorem receiver_order_independent_two :
    ∃ b₀ msg k, ∃ calls calls' : List ReceiverCall,
      generatePrekeyBundleWithParams idealSuite (fun _ => zeros 96) 2 params768 = .ok b₀ ∧
      calls = [.receive (unproved msg), .receive msg, .consume] ∧
      calls' = [.consume, .receive (unproved msg), .receive msg] ∧
      receiverHandshake idealSuite b₀ (unproved msg) = (err .authenticationFailed, b₀) ∧
      receiverHandshake idealSuite b₀ msg = (.ok k, popped b₀) ∧
      after (receiverStep idealSuite) calls' b₀ = after (receiverStep idealSuite) calls b₀ ∧
      successes idealSuite calls' b₀ = 2 ∧ successes idealSuite calls b₀ = 2 := by
  obtain ⟨b₀, msg, k, h⟩ := exchange_exists (fun _ => zeros 96) 2 (by decide)
  have hcalls : ∀ call ∈ deliveries msg ++ [.consume], Allowed call := by
    intro call hcall
    rcases List.mem_append.mp hcall with hcall | hcall
    · exact deliveries_allowed h call hcall
    · rw [List.mem_singleton.mp hcall]
      trivial
  have htakers : takers (receiverBehaviour idealSuite b₀) (deliveries msg ++ [.consume]) = 2 := by
    simp [takers, deliveries, receiverBehaviour, h.refusedChecks, h.acceptedChecks, err,
      Behaviour.takes]
  obtain ⟨hstate, hsame, hcount, _⟩ := receiver_order_independent idealSuite params768
    supported768 (fun _ => zeros 96) 2 b₀ h.generated (deliveries msg ++ [.consume])
    ([.consume] ++ deliveries msg) hcalls List.perm_append_comm
  rw [htakers] at hcount
  exact ⟨b₀, msg, k, _, _, h.generated, rfl, rfl, h.refused, h.accepted, hstate,
    hsame.trans hcount, hcount⟩

end EirnKcp.ReceiverDispenser
