import EirnKcp.SessionBinding

/-!
# The proof mode and the session key

The receiver checks the proof of the message's mode, then derives the key from
the other fields. Two messages that differ in mode and proof lead to one hash
input as soon as both are accepted, and an honest sender can make such a pair.
-/

set_option autoImplicit false

namespace EirnKcp.ModeBinding
open EirnKcp.CheckedCode EirnKcp.ByteCodec EirnKcp.Params EirnKcp.Primitives EirnKcp.Kem
open EirnKcp.KeyLaws EirnKcp.Zk EirnKcp.Prekey EirnKcp.Handshake EirnKcp.HandshakeSteps
open EirnKcp.WireFormat EirnKcp.ReceiverState EirnKcp.HonestHandshake EirnKcp.CallRuns
open EirnKcp.SessionBinding EirnKcp.IdealSuite

structure SameSession (msg msg' : Msg0Prime) : Prop where
  pkA : msg'.pkA = msg.pkA
  ekA : msg'.ekA = msg.ekA
  ct1 : msg'.ct1 = msg.ct1
  ct2 : msg'.ct2 = msg.ct2
  ct3 : msg'.ct3 = msg.ct3
  ct4 : msg'.ct4 = msg.ct4

theorem sameSession_constructed {msg msg' : Msg0Prime} (h : SameSession msg msg')
    (hc : Constructed msg) : Constructed msg' := by
  refine ⟨?_, ?_, ?_, ?_, ?_, ?_⟩
  · rw [h.pkA]; exact hc.pkA
  · rw [h.ekA]; exact hc.ekA
  · rw [h.ct1]; exact hc.ct1
  · rw [h.ct2]; exact hc.ct2
  · rw [h.ct3]; exact hc.ct3
  · rw [h.ct4]; exact hc.ct4

def HashedFor (L : Suite) (b : PrekeyBundle) (msg : Msg0Prime) (x : Bytes) : Prop :=
  ∃ secrets, ReceiverSession L b msg secrets ∧ x = (receiverFields L b msg secrets).input

theorem sameSession_fields (L : Suite) (b : PrekeyBundle) {msg msg' : Msg0Prime}
    (h : SameSession msg msg') (secrets : Secrets) :
    receiverFields L b msg' secrets = receiverFields L b msg secrets := by
  rw [receiverFields, receiverFields, Secrets.list, Secrets.list, receiverNaxos, receiverNaxos,
    receiverContext, receiverContext, Msg0Prime.ciphertexts, Msg0Prime.ciphertexts, h.pkA,
    h.ekA, h.ct1, h.ct2, h.ct3, h.ct4]

theorem sameSession_session {L : Suite} {b : PrekeyBundle} {msg msg' : Msg0Prime}
    (h : SameSession msg msg') {secrets : Secrets} (hs : ReceiverSession L b msg secrets) :
    ReceiverSession L b msg' secrets := by
  obtain ⟨sk, hsk, h1, h2, h3, h4⟩ := hs
  rw [← h.ct1] at h1
  rw [← h.ct2] at h2
  rw [← h.ct3] at h3
  rw [← h.ct4] at h4
  exact ⟨sk, hsk, h1, h2, h3, h4⟩

theorem sameSession_hashed {L : Suite} {b : PrekeyBundle} {msg msg' : Msg0Prime}
    (h : SameSession msg msg') {x : Bytes} (hx : HashedFor L b msg x) :
    HashedFor L b msg' x := by
  obtain ⟨secrets, hs, rfl⟩ := hx
  exact ⟨secrets, sameSession_session h hs, by rw [sameSession_fields L b h]⟩

/-- If both messages are accepted from one state, their keys come from different
hash inputs. -/
def SeparatesModes (L : Suite) (b : PrekeyBundle) (msg msg' : Msg0Prime) : Prop :=
  ∀ k k', (receiverHandshake L b msg).1 = .ok k → (receiverHandshake L b msg').1 = .ok k' →
    ∀ x x', HashedFor L b msg x → HashedFor L b msg' x' → x ≠ x'

theorem sender_modes_sameSession {L : Suite} {skA : SecretKey} {pkA : PublicKey}
    {bundleB : PublicPrekeyBundle} {draws : SenderDraws} {mode mode' : KcpMode}
    {msg msg' : Msg0Prime} {k k' : FixedBytes 32}
    (h : senderHandshakeWithMode L skA pkA bundleB mode draws = .ok (msg, k))
    (h' : senderHandshakeWithMode L skA pkA bundleB mode' draws = .ok (msg', k')) :
    SameSession msg msg' ∧ msg.kcpMode = mode ∧ msg'.kcpMode = mode' ∧ k = k' := by
  obtain ⟨opkB, ekA, eskA, legs, raw, proof, run, rfl, rfl⟩ :=
    (senderHandshake_ok_iff L skA pkA bundleB mode draws msg k).mp h
  obtain ⟨opkB', ekA', eskA', legs', raw', proof', run', rfl, rfl⟩ :=
    (senderHandshake_ok_iff L skA pkA bundleB mode' draws msg' k').mp h'
  have hsession : SenderSession L skA pkA bundleB draws ekA legs raw :=
    ⟨eskA, opkB, run.ephemeral, run.first, run.legs⟩
  have hsession' : SenderSession L skA pkA bundleB draws ekA' legs' raw' :=
    ⟨eskA', opkB', run'.ephemeral, run'.first, run'.legs⟩
  obtain ⟨rfl, rfl, rfl⟩ := senderSession_unique hsession hsession'
  exact ⟨⟨rfl, rfl, rfl, rfl, rfl, rfl⟩, rfl, rfl, rfl⟩

theorem sameSession_key {L : Suite} {params : EirnParams} {b : PrekeyBundle}
    (hb : BundleInv L params b) {msg msg' : Msg0Prime} (hc : Constructed msg)
    (h : SameSession msg msg') {k k' : FixedBytes 32}
    (hk : (receiverHandshake L b msg).1 = .ok k) (hk' : (receiverHandshake L b msg').1 = .ok k') :
    ∃ x, HashedFor L b msg x ∧ HashedFor L b msg' x ∧ k = k' := by
  obtain ⟨secrets, hsecrets, rfl⟩ := receiver_session hb msg hc k hk
  obtain ⟨secrets', hsecrets', rfl⟩ :=
    receiver_session hb msg' (sameSession_constructed h hc) k' hk'
  have hx : HashedFor L b msg (receiverFields L b msg secrets).input := ⟨secrets, hsecrets, rfl⟩
  obtain ⟨other, hother, heq⟩ := sameSession_hashed h hx
  obtain rfl := receiverSession_unique hother hsecrets'
  exact ⟨_, hx, ⟨other, hother, heq⟩, by rw [heq]⟩

theorem honest_mode_pair :
    ∃ pkA skA b msg msg' k,
      keygenFromSeed idealSuite (zeros 96) params768 = .ok (pkA, skA) ∧
      generatePrekeyBundleWithParams idealSuite (fun _ => zeros 96) 1 params768 = .ok b ∧
      senderCall idealSuite .lite skA pkA b.publicBundle zeroDraws = .ok (msg, k) ∧
      senderCall idealSuite .strict skA pkA b.publicBundle zeroDraws = .ok (msg', k) ∧
      Constructed msg ∧ SameSession msg msg' ∧ msg.kcpMode ≠ msg'.kcpMode ∧
      (receiverHandshake idealSuite b msg).1 = .ok k ∧
      (receiverHandshake idealSuite b msg').1 = .ok k := by
  obtain ⟨pkA, skA, hA, _⟩ := keygen_generated idealSuite (zeros 96) params768 supported768
  obtain ⟨b, hgen, hinv, hl⟩ := generate_ok idealSuite params768 supported768
    (fun _ => zeros 96) 1
  have hpool : b.oneTimePrekeys ≠ [] := List.ne_nil_of_length_eq_add_one hl
  obtain ⟨msg, k, hsend, hw, _, hr⟩ :=
    exchange_ok idealSuite_lawful ⟨zeros 96, hA⟩ hinv hpool .lite zeroDraws
  obtain ⟨msg', k', hsend', _, _, hr'⟩ :=
    exchange_ok idealSuite_lawful ⟨zeros 96, hA⟩ hinv hpool .strict zeroDraws
  obtain ⟨hsame, hlite, hstrict, rfl⟩ := sender_modes_sameSession hsend hsend'
  refine ⟨pkA, skA, b, msg, msg', k, hA, hgen, ?_, ?_,
    (hw.constructed idealSuite params768 supported768).1, hsame, ?_, by rw [hr], by rw [hr']⟩
  · rw [senderCall_eq, hsend]
  · rw [senderCall_eq, hsend']
  · rw [hlite, hstrict]
    decide

/-- Messages that differ in mode and proof get different hash inputs exactly
when they are not both accepted: the pool is empty, or one is not acceptable. If
both are accepted they get the same key. -/
theorem mode_separation_iff (L : Suite) (params : EirnParams) (hs : IsSupportedParams params)
    (drawn : ℕ → FixedBytes 96) (numOpk : ℕ) (b₀ : PrekeyBundle)
    (hgen : generatePrekeyBundleWithParams L drawn numOpk params = .ok b₀)
    (calls : List ReceiverCall) (hcalls : ∀ call ∈ calls, Allowed call) (b : PrekeyBundle)
    (hb : b = after (receiverStep L) calls b₀) (msg msg' : Msg0Prime) (hc : Constructed msg)
    (hsame : SameSession msg msg') :
    (SeparatesModes L b msg msg' ↔
      b.oneTimePrekeys = [] ∨ ¬ Acceptable L params b msg ∨ ¬ Acceptable L params b msg') ∧
      ∀ k k', (receiverHandshake L b msg).1 = .ok k →
        (receiverHandshake L b msg').1 = .ok k' → k = k' := by
  have hinv := (run_invariant b₀ calls hcalls
    (generate_inv L params hs drawn numOpk b₀ hgen).1).bundle
  rw [← hb] at hinv
  have hok := receive_ok_iff hinv msg hc
  have hok' := receive_ok_iff hinv msg' (sameSession_constructed hsame hc)
  refine ⟨?_, ?_⟩
  · constructor
    · intro hsep
      by_contra hn
      simp only [not_or, not_not] at hn
      obtain ⟨k, hk⟩ := hok.mpr ⟨hn.1, hn.2.1⟩
      obtain ⟨k', hk'⟩ := hok'.mpr ⟨hn.1, hn.2.2⟩
      obtain ⟨x, hx, hx', _⟩ := sameSession_key hinv hc hsame hk hk'
      exact hsep k k' hk hk' x x hx hx' rfl
    · intro hn k k' hk hk'
      have ha := hok.mp ⟨k, hk⟩
      have ha' := hok'.mp ⟨k', hk'⟩
      rcases hn with hempty | hrejected | hrejected
      · exact absurd hempty ha.1
      · exact absurd ha.2 hrejected
      · exact absurd ha'.2 hrejected
  · intro k k' hk hk'
    obtain ⟨_, _, _, hkey⟩ := sameSession_key hinv hc hsame hk hk'
    exact hkey

theorem mode_separation_iff_honest :
    ∃ b msg msg',
      generatePrekeyBundleWithParams idealSuite (fun _ => zeros 96) 1 params768 = .ok b ∧
      SameSession msg msg' ∧ msg.kcpMode ≠ msg'.kcpMode ∧
      (SeparatesModes idealSuite b msg msg' ↔
        b.oneTimePrekeys = [] ∨ ¬ Acceptable idealSuite params768 b msg ∨
          ¬ Acceptable idealSuite params768 b msg') := by
  obtain ⟨pkA, skA, b, msg, msg', k, _, hgen, _, _, hc, hsame, hmode, _⟩ := honest_mode_pair
  exact ⟨b, msg, msg', hgen, hsame, hmode, (mode_separation_iff idealSuite params768 supported768
    (fun _ => zeros 96) 1 b hgen [] (by simp) b rfl msg msg' hc hsame).1⟩

theorem mode_swap_same_key :
    ∃ pkA skA b msg msg' k,
      keygenFromSeed idealSuite (zeros 96) params768 = .ok (pkA, skA) ∧
      generatePrekeyBundleWithParams idealSuite (fun _ => zeros 96) 1 params768 = .ok b ∧
      senderCall idealSuite .lite skA pkA b.publicBundle zeroDraws = .ok (msg, k) ∧
      senderCall idealSuite .strict skA pkA b.publicBundle zeroDraws = .ok (msg', k) ∧
      SameSession msg msg' ∧ msg.kcpMode ≠ msg'.kcpMode ∧
      (receiverHandshake idealSuite b msg).1 = .ok k ∧
      (receiverHandshake idealSuite b msg').1 = .ok k ∧
      ¬ SeparatesModes idealSuite b msg msg' := by
  obtain ⟨pkA, skA, b, msg, msg', k, hA, hgen, hsend, hsend', hc, hsame, hmode, hr, hr'⟩ :=
    honest_mode_pair
  have hinv := (generate_inv idealSuite params768 supported768 _ 1 b hgen).1
  refine ⟨pkA, skA, b, msg, msg', k, hA, hgen, hsend, hsend', hsame, hmode, hr, hr', ?_⟩
  intro hsep
  obtain ⟨x, hx, hx', _⟩ := sameSession_key hinv hc hsame hr hr'
  exact hsep k k hr hr' x x hx hx' rfl

end EirnKcp.ModeBinding
