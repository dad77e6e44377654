import EirnKcp.NetworkKeys
import EirnKcp.ReceiverDispenser

/-!
# Consumed one-time prekeys are forgotten

Two bundles are generated from the same draws but for the seeds of some one-time
pairs, and get the same calls. Once these pairs are consumed the two states are
one state: nothing that the receiver still holds depends on a consumed pair.
-/

set_option autoImplicit false

namespace EirnKcp.ForgottenPrekeys
open EirnKcp.CheckedCode EirnKcp.Params EirnKcp.Primitives EirnKcp.Kem EirnKcp.Prekey
open EirnKcp.ReceiverState EirnKcp.CallRuns EirnKcp.Dispenser EirnKcp.ReceiverDispenser
open EirnKcp.Handshake EirnKcp.ReceiverSafety EirnKcp.Interleaving EirnKcp.NetworkKeys
open EirnKcp.IdealSuite

section Generation
variable {L : Suite} {params : EirnParams} {drawn drawn' : ℕ → FixedBytes 96}

theorem generateOneTime_drop (first count m : ℕ) (pks pks' : List PublicKey)
    (sks sks' : List SecretKey) (hsame : ∀ i, first+m ≤ i → drawn' i = drawn i)
    (h : generateOneTime L drawn params first count = .ok (pks, sks))
    (h' : generateOneTime L drawn' params first count = .ok (pks', sks')) :
    pks'.drop m = pks.drop m ∧ sks'.drop m = sks.drop m := by
  induction count generalizing first m pks pks' sks sks' with
  | zero =>
    cases h
    cases h'
    exact ⟨rfl, rfl⟩
  | succ count ih =>
    rw [generateOneTime, bind_ok_iff] at h h'
    obtain ⟨⟨pk, sk⟩, hkey, h⟩ := h
    obtain ⟨⟨pk', sk'⟩, hkey', h'⟩ := h'
    dsimp only at h h'
    rw [bind_ok_iff] at h h'
    obtain ⟨⟨rest, restSk⟩, hrest, h⟩ := h
    obtain ⟨⟨rest', restSk'⟩, hrest', h'⟩ := h'
    cases h
    cases h'
    cases m with
    | zero =>
      obtain ⟨hpks, hsks⟩ := ih (first+1) 0 rest rest' restSk restSk'
        (fun i hi => hsame i (by omega)) hrest hrest'
      rw [hsame first (by omega), hkey] at hkey'
      cases hkey'
      rw [List.drop_zero, List.drop_zero] at hpks hsks
      rw [hpks, hsks]
      exact ⟨rfl, rfl⟩
    | succ m =>
      simp only [List.drop_succ_cons]
      exact ih (first+1) m rest rest' restSk restSk' (fun i hi => hsame i (by omega)) hrest hrest'

theorem generate_drop (numOpk m : ℕ) (b b' : PrekeyBundle)
    (hsame : ∀ i, i < 2 ∨ 2+m ≤ i → drawn' i = drawn i)
    (h : generatePrekeyBundleWithParams L drawn numOpk params = .ok b)
    (h' : generatePrekeyBundleWithParams L drawn' numOpk params = .ok b') :
    SameKeys b b' ∧ b'.oneTimePrekeys.drop m = b.oneTimePrekeys.drop m ∧
      b'.oneTimeSecretKeys.drop m = b.oneTimeSecretKeys.drop m := by
  simp only [generatePrekeyBundleWithParams, bind_ok_iff, Prod.exists] at h h'
  obtain ⟨pk, sk, hkey, spk, ssk, hspk, pks, sks, hpool, h⟩ := h
  obtain ⟨pk', sk', hkey', spk', ssk', hspk', pks', sks', hpool', h'⟩ := h'
  rw [hsame 0 (by omega), hkey] at hkey'
  rw [hsame 1 (by omega), hspk] at hspk'
  cases hkey'
  cases hspk'
  cases h
  cases h'
  exact ⟨⟨rfl, rfl, rfl, rfl, rfl⟩, generateOneTime_drop 2 numOpk m pks pks' sks sks'
    (fun i hi => hsame i (Or.inr hi)) hpool hpool'⟩

end Generation

section Runs
variable {L : Suite} {params : EirnParams} {b₀ b₀' : PrekeyBundle}

theorem takers_same (h : SameKeys b₀ b₀') (calls : List ReceiverCall) :
    takers (receiverBehaviour L b₀') calls = takers (receiverBehaviour L b₀) calls := by
  have htakes : ∀ call, (receiverBehaviour L b₀' call).takes =
      (receiverBehaviour L b₀ call).takes := by
    intro call
    cases call with
    | receive msg =>
      rw [receiverBehaviour, receiverBehaviour, checks_same h]
      cases receiverChecks L b₀ msg with
      | error e => rfl
      | ok u => rfl
    | consume => rfl
    | publicBundle => rfl
  simp only [takers, htakes]

theorem successes_same (hinv : BundleInv L params b₀) (hinv' : BundleInv L params b₀')
    (h : SameKeys b₀ b₀') (hlen : (pairs b₀').length = (pairs b₀).length)
    (calls : List ReceiverCall) (hc : ∀ call ∈ calls, Allowed call) :
    successes L calls b₀' = successes L calls b₀ := by
  have hcount := (receiver_refines L params b₀).successes succeeded
    (fun call b ha h => succeeded_iff_takes call b ha h) calls b₀ hc (runInv_start hinv)
  have hcount' := (receiver_refines L params b₀').successes succeeded
    (fun call b ha h => succeeded_iff_takes call b ha h) calls b₀' hc (runInv_start hinv')
  rw [successes, successes, hcount, hcount', takers_same h, hlen]

theorem after_successes (hinv : BundleInv L params b₀) (calls : List ReceiverCall)
    (hc : ∀ call ∈ calls, Allowed call) :
    after (receiverStep L) calls b₀ = { b₀ with
      oneTimePrekeys := b₀.oneTimePrekeys.drop (successes L calls b₀)
      oneTimeSecretKeys := b₀.oneTimeSecretKeys.drop (successes L calls b₀) } := by
  apply state_of_pairs hinv (run_invariant b₀ calls hc hinv)
  apply (run_pool b₀ calls hc hinv pairs pairs_popped _).2.1
  intro b hpk hsk
  rw [pairs, Ne, List.zip_eq_nil_iff]
  tauto

end Runs

/-- Whatever seeds the consumed pairs had, the state after the run is the same:
it is given by the seeds of the long-term keys and of the pairs that are left. -/
theorem consumed_prekeys_forgotten (L : Suite) (params : EirnParams)
    (hs : IsSupportedParams params) (drawn drawn' : ℕ → FixedBytes 96) (numOpk : ℕ)
    (b₀ b₀' : PrekeyBundle)
    (hgen : generatePrekeyBundleWithParams L drawn numOpk params = .ok b₀)
    (hgen' : generatePrekeyBundleWithParams L drawn' numOpk params = .ok b₀')
    (calls : List ReceiverCall) (hc : ∀ call ∈ calls, Allowed call)
    (hsame : ∀ i, i < 2 ∨ 2+successes L calls b₀ ≤ i → drawn' i = drawn i) :
    after (receiverStep L) calls b₀' = after (receiverStep L) calls b₀ ∧
      successes L calls b₀' = successes L calls b₀ := by
  obtain ⟨hinv, hlen⟩ := generate_inv L params hs drawn numOpk b₀ hgen
  obtain ⟨hinv', hlen'⟩ := generate_inv L params hs drawn' numOpk b₀' hgen'
  obtain ⟨hkeys, hpks, hsks⟩ := generate_drop numOpk _ b₀ b₀' hsame hgen hgen'
  have hpairs : (pairs b₀').length = (pairs b₀).length := by
    rw [pairs, pairs, List.length_zip, List.length_zip, ← hinv.pool.length_eq,
      ← hinv'.pool.length_eq, hlen, hlen']
  have hcount := successes_same hinv hinv' hkeys hpairs calls hc
  refine ⟨?_, hcount⟩
  rw [after_successes hinv calls hc, after_successes hinv' calls hc, hcount, hpks, hsks]
  obtain ⟨h1, h2, h3, h4, h5⟩ := hkeys
  cases b₀'
  simp only at h1 h2 h3 h4 h5
  rw [h1, h2, h3, h4, h5]

theorem consumed_prekeys_forgotten_first :
    ∃ b₀ b₀' : PrekeyBundle, ∃ msg k, ∃ calls : List ReceiverCall,
      b₀'.oneTimePrekeys ≠ b₀.oneTimePrekeys ∧
      calls = [.receive (unproved msg), .receive msg] ∧
      (trace (receiverStep idealSuite) calls b₀).map Event.reply =
        [.key (err .authenticationFailed), .key (.ok k)] ∧
      after (receiverStep idealSuite) calls b₀' = after (receiverStep idealSuite) calls b₀ ∧
      successes idealSuite calls b₀' = 1 := by
  let drawn' : ℕ → FixedBytes 96 := fun i => constantSeed (if i = 2 then 7 else i)
  obtain ⟨b₀, msg, k, h⟩ := exchange_exists constantSeed 2 (by decide)
  obtain ⟨b₀', hgen', _⟩ := generate_ok idealSuite params768 supported768 drawn' 2
  have hcount := deliveries_successes h
  have hsame : ∀ i, i < 2 ∨ 2+successes idealSuite (deliveries msg) b₀ ≤ i →
      drawn' i = constantSeed i := by
    intro i hi
    rw [hcount] at hi
    show constantSeed (if i = 2 then 7 else i) = constantSeed i
    rw [if_neg (by omega)]
  obtain ⟨hstate, hcount'⟩ := consumed_prekeys_forgotten idealSuite params768 supported768
    constantSeed drawn' 2 b₀ b₀' h.generated hgen' (deliveries msg) (deliveries_allowed h) hsame
  refine ⟨b₀, b₀', msg, k, deliveries msg, ?_, rfl, deliveries_replies h, hstate,
    hcount'.trans hcount⟩
  intro heq
  have hhead := congrArg (fun pks => (pks.map (kemPart params768)).head?) heq
  rw [oneTime_kemParts _ params768 2 2 _ _ (generated_oneTime h.generated),
    oneTime_kemParts _ params768 2 2 _ _ (generated_oneTime hgen')] at hhead
  have hbyte := congrArg List.head? (Option.some.inj hhead)
  rw [constantSeed_kemPart, constantSeed_kemPart] at hbyte
  exact absurd hbyte (by decide)

end EirnKcp.ForgottenPrekeys
