import EirnKcp.HashUses
import EirnKcp.NetworkKeys

/-!
# Message keys of an open network

Every party that holds a session key derives message keys for its counters. In
any run two such keys are equal only for one counter of one session, and none is
a session key. The counter is hashed behind its length with the session key.
-/

set_option autoImplicit false

namespace EirnKcp.MessageKeys
open EirnKcp.CheckedCode EirnKcp.ByteCodec EirnKcp.Params EirnKcp.Primitives EirnKcp.Kem
open EirnKcp.KeyLaws EirnKcp.Zk EirnKcp.Prekey EirnKcp.Handshake EirnKcp.HandshakeSteps
open EirnKcp.ReceiverState EirnKcp.HonestHandshake EirnKcp.KdfEncoding EirnKcp.SessionBinding
open EirnKcp.HashUses
open EirnKcp.CallRuns EirnKcp.Interleaving EirnKcp.OpenNetwork EirnKcp.NetworkKeys
open EirnKcp.IdealSuite

section Encoding

theorem messageInput_ne_session (k : FixedBytes 32) (c : UInt64) (fields : Fields) :
    messageInput k c ≠ fields.input := by
  intro h
  have hlen := label_length_eq messageLabel sessionLabel _ _ (by decide) (by decide) h
  exact absurd hlen (by decide)

end Encoding

section Held
variable {L : Suite} {start : List PrekeyBundle}

def heldKeys (events : List OpenEvent) (sent : List Sent) : Set (FixedBytes 32) :=
  {k | (∃ s ∈ sent, s.key = k) ∨ ∃ e ∈ events, ∃ index b msg, Accepts e index b msg k}

/-- What SHAKE256 hashes for the session keys of a run and for their message keys. -/
def keyInputs (L : Suite) (events : List OpenEvent) (sent : List Sent) : Set Bytes :=
  runInputs L events sent ∪ {x | ∃ k ∈ heldKeys events sent, ∃ c, x = messageInput k c}

theorem held_of_sent {events : List OpenEvent} {sent : List Sent} {s : Sent} (hs : s ∈ sent) :
    s.key ∈ heldKeys events sent :=
  Or.inl ⟨s, hs, rfl⟩

theorem held_of_accepts {events : List OpenEvent} {sent : List Sent} {e : OpenEvent}
    (he : e ∈ events) {index : ℕ} {b : PrekeyBundle} {msg : Msg0Prime} {k : FixedBytes 32}
    (h : Accepts e index b msg k) : k ∈ heldKeys events sent :=
  Or.inr ⟨e, he, index, b, msg, h⟩

theorem message_key_eq_iff {events : List OpenEvent} {sent : List Sent}
    (hinj : Set.InjOn (fun x => L.shake256 x 32) (keyInputs L events sent)) {k k' : FixedBytes 32}
    (hk : k ∈ heldKeys events sent) (hk' : k' ∈ heldKeys events sent) (c c' : UInt64) :
    deriveMessageKey L k c = deriveMessageKey L k' c' ↔ c = c' ∧ k = k' := by
  constructor
  · intro h
    obtain ⟨hkeys, hcounters⟩ := messageInput_injective k k' c c'
      (hinj (Or.inr ⟨k, hk, c, rfl⟩) (Or.inr ⟨k', hk', c', rfl⟩) h)
    exact ⟨hcounters, hkeys⟩
  · rintro ⟨rfl, rfl⟩
    rfl

theorem held_hashed (hgen : Generates L start) {calls : List OpenCall}
    (hc : ∀ call ∈ calls, OpenAllowed L call) (k : FixedBytes 32)
    (hk : k ∈ heldKeys (trace (openStep L) calls (openStart start))
      (after (openStep L) calls (openStart start)).sent) :
    ∃ fields : Fields, k = L.shake256 fields.input 32 ∧
      fields.input ∈ runInputs L (trace (openStep L) calls (openStart start))
        (after (openStep L) calls (openStart start)).sent := by
  rcases hk with ⟨s, hs, rfl⟩ | ⟨e, he, index, b, msg, hacc⟩
  · obtain ⟨b₀, _, params, _, hgood⟩ := (final_inv hgen hc).sent s hs
    obtain ⟨opkB, _, ekA, eskA, legs, raw, proof, _, _, run, _, hkey⟩ := hgood.run
    refine ⟨senderFields s.pkA s.snapshot.identityPk ekA legs, hkey, ?_⟩
    exact Or.inl ⟨s, hs, ekA, legs, raw, ⟨eskA, opkB, run.ephemeral, run.first, run.legs⟩, rfl⟩
  · obtain ⟨hinv, ha, heq⟩ := event_inv hgen hc e he
    obtain ⟨params, pk, sk, secrets, session⟩ :=
      accepted_session e.call e.before ha hinv index b msg k (heq ▸ hacc)
    exact ⟨receiverFields L b msg secrets, session.key,
      Or.inr ⟨e, he, index, b, msg, k, secrets, hacc, session.session, rfl⟩⟩

theorem message_key_ne_session (hgen : Generates L start) {calls : List OpenCall}
    (hc : ∀ call ∈ calls, OpenAllowed L call)
    (hinj : Set.InjOn (fun x => L.shake256 x 32)
      (keyInputs L (trace (openStep L) calls (openStart start))
        (after (openStep L) calls (openStart start)).sent)) (k k' : FixedBytes 32)
    (hk : k ∈ heldKeys (trace (openStep L) calls (openStart start))
      (after (openStep L) calls (openStart start)).sent)
    (hk' : k' ∈ heldKeys (trace (openStep L) calls (openStart start))
      (after (openStep L) calls (openStart start)).sent) (c : UInt64) :
    deriveMessageKey L k c ≠ k' := by
  intro h
  obtain ⟨fields, hkey, hmem⟩ := held_hashed hgen hc k' hk'
  apply messageInput_ne_session k c fields
  exact hinj (Or.inr ⟨k, hk, c, rfl⟩) (Or.inl hmem) (h.trans hkey)

end Held

/-- In every run of an open network a sender's message key is a receiver's
exactly for one counter of one session, receivers never derive a message key
twice, and no message key is a session key. -/
theorem message_keys_separate (L : Suite) (hl : L.Lawful) (hrej : L.Rejecting)
    (start : List PrekeyBundle) (hgen : Generates L start) (hdistinct : DistinctKeys start)
    (calls : List OpenCall) (hc : ∀ call ∈ calls, OpenAllowed L call)
    (hinj : Set.InjOn (fun x => L.shake256 x 32)
      (keyInputs L (trace (openStep L) calls (openStart start))
        (after (openStep L) calls (openStart start)).sent))
    (hdiff : SecretsDiffer L start
      (oneTimeCiphertexts (trace (openStep L) calls (openStart start)))) :
    let events := trace (openStep L) calls (openStart start)
    let sent := (after (openStep L) calls (openStart start)).sent
    (∀ s ∈ sent, ∀ e ∈ events, ∀ index b msg k, Accepts e index b msg k → ∀ c c',
      deriveMessageKey L s.key c = deriveMessageKey L k c' ↔
        c = c' ∧ MatchingSession s b msg) ∧
    events.Pairwise (fun e e' => ∀ i j b b' msg msg' k k', Accepts e i b msg k →
      Accepts e' j b' msg' k' → ∀ c c', deriveMessageKey L k c ≠ deriveMessageKey L k' c') ∧
    ∀ k ∈ heldKeys events sent, ∀ k' ∈ heldKeys events sent, ∀ c,
      deriveMessageKey L k c ≠ k' := by
  intro events sent
  have hrun : Set.InjOn (fun x => L.shake256 x 32) (runInputs L events sent) :=
    hinj.mono Set.subset_union_left
  refine ⟨?_, ?_, fun k hk k' hk' c => message_key_ne_session hgen hc hinj k k' hk hk' c⟩
  · intro s hs e he index b msg k hacc c c'
    rw [message_key_eq_iff hinj (held_of_sent hs) (held_of_accepts he hacc), and_congr_right_iff]
    intro _
    exact accepted_key_iff hl hrej hgen hdistinct hc hrun e he index b msg k hacc s hs
  · refine (events_later hgen hc).imp_of_mem ?_
    intro e e' he he' hlater i j b b' msg msg' k k' hacc hacc' c c' h
    have hne := accepted_keys_ne hgen hdistinct hc (hrun.mono (acceptedInputs_subset _ _)) hdiff
      e e' he he' hlater i j b b' msg msg' k k' hacc hacc'
    have heq := (message_key_eq_iff hinj (held_of_accepts he hacc) (held_of_accepts he' hacc')
      c c').mp h
    exact hne heq.2

section Replayed

theorem ideal_message_key (k : FixedBytes 32) (c : UInt64) :
    idealSuite.shake256 (messageInput k c) 32 = fit 32 (7 :: (beBytes 8 c.toNat ++ k.1)) := by
  have hfirst : (beBytes 2 messageLabel.length ++ (messageLabel ++ (beBytes 2 2 ++
      beBytes 4 32))).length = 19 := by
    simp only [List.length_append, beBytes_length]
    decide
  have hsecond : (k.1 ++ beBytes 4 8).length = 36 := by
    rw [List.length_append, beBytes_length, k.2]
  have hsplit : messageInput k c = (beBytes 2 messageLabel.length ++ (messageLabel ++
      (beBytes 2 2 ++ beBytes 4 32))) ++ ((k.1 ++ beBytes 4 8) ++ beBytes 8 c.toNat) := by
    simp [messageInput, kdfEncode, fields, field, k.2]
  have hlabel : (messageInput k c).take 2 = [0, 11] := by
    rw [messageInput, kdfEncode, List.take_left' (by simp)]
    decide
  have hkey : ((messageInput k c).drop 19).take 32 = k.1 := by
    rw [hsplit, List.drop_left' hfirst, List.append_assoc, List.take_left' k.2]
  have hcounter : (messageInput k c).drop 55 = beBytes 8 c.toNat := by
    rw [hsplit, ← List.append_assoc, List.drop_left' (by rw [List.length_append, hfirst, hsecond])]
  simp only [idealSuite, hlabel, if_true, hkey, hcounter]

theorem ideal_message_parts (k : FixedBytes 32) (c : UInt64) :
    (idealSuite.shake256 (messageInput k c) 32).1 =
      7 :: (beBytes 8 c.toNat ++ k.1.take 23) := by
  rw [ideal_message_key, fit_val, List.cons_append, List.take_succ_cons, List.append_assoc,
    List.take_append, beBytes_length, List.take_of_length_le (by simp),
    List.take_append_of_le_length (by rw [k.2]; decide)]

variable {b₀ c₀ : PrekeyBundle} {pk₁ pk₂ pkA : PublicKey} {skA : SecretKey} {msg : Msg0Prime}
  {k k' : FixedBytes 32}

theorem replayed_held (r : ReplayedRun b₀ c₀ pk₁ pk₂ pkA skA msg k k') (key : FixedBytes 32)
    (h : key ∈ heldKeys
      (trace (openStep idealSuite) (replayed skA pkA zeroDraws msg) (openStart [b₀, c₀]))
      (after (openStep idealSuite) (replayed skA pkA zeroDraws msg) (openStart [b₀, c₀])).sent) :
    key = k ∨ key = k' := by
  rcases h with ⟨s, hs, rfl⟩ | ⟨e, he, index, b, m, hacc⟩
  · rw [r.sent_eq] at hs
    rw [List.mem_singleton.mp hs]
    exact Or.inl rfl
  · rcases (r.accepted_message e he index b m key hacc).2 with ⟨_, h⟩ | ⟨_, h⟩
    · exact Or.inl h
    · exact Or.inr h

theorem replayed_keys_head (r : ReplayedRun b₀ c₀ pk₁ pk₂ pkA skA msg k k')
    {key : FixedBytes 32} (h : key = k ∨ key = k') : key.1.head? ≠ some 7 := by
  rcases h with rfl | rfl
  · rw [r.key]
    decide
  · rw [r.otherKey]
    decide

theorem replayed_keys_take (r : ReplayedRun b₀ c₀ pk₁ pk₂ pkA skA msg k k')
    {key key' : FixedBytes 32} (h : key = k ∨ key = k') (h' : key' = k ∨ key' = k')
    (htake : key.1.take 23 = key'.1.take 23) : key = key' := by
  have hne : k.1.take 23 ≠ k'.1.take 23 := by
    rw [r.key, r.otherKey]
    decide
  rcases h with rfl | rfl <;> rcases h' with rfl | rfl
  · rfl
  · exact absurd htake hne
  · exact absurd htake.symm hne
  · rfl

theorem replayed_keyInputs (r : ReplayedRun b₀ c₀ pk₁ pk₂ pkA skA msg k k') :
    Set.InjOn (fun x => idealSuite.shake256 x 32)
      (keyInputs idealSuite
        (trace (openStep idealSuite) (replayed skA pkA zeroDraws msg) (openStart [b₀, c₀]))
        (after (openStep idealSuite) (replayed skA pkA zeroDraws msg)
          (openStart [b₀, c₀])).sent) := by
  refine injOn_union_of_ne r.inputs_injOn ?_ ?_
  · rintro x ⟨key, hkey, c, rfl⟩ y ⟨key', hkey', c', rfl⟩ hxy
    have hval := congrArg Subtype.val hxy
    dsimp only at hval
    rw [ideal_message_parts, ideal_message_parts, List.cons.injEq] at hval
    obtain ⟨hcounter, htake⟩ := List.append_inj hval.2 (by simp)
    rw [UInt64.toNat_inj.mp (beBytes_injective 8 _ _ c.toNat_lt c'.toNat_lt hcounter),
      replayed_keys_take r (replayed_held r key hkey) (replayed_held r key' hkey') htake]
  · rintro x hx y ⟨key, hkey, c, rfl⟩ hxy
    have hhead := replayed_keys_head r (r.hashed_key x hx)
    rw [show idealSuite.shake256 x 32 = _ from hxy, ideal_message_parts] at hhead
    exact hhead rfl

end Replayed

theorem message_keys_separate_replayed :
    ∃ b₀ c₀ pkA skA msg k k', ∃ calls : List OpenCall,
      calls = [.receiver 0 .publicBundle, .send skA pkA .lite zeroDraws 0,
        .receiver 0 (.receive msg), .receiver 0 (.receive msg)] ∧
      let events := trace (openStep idealSuite) calls (openStart [b₀, c₀])
      let sent := (after (openStep idealSuite) calls (openStart [b₀, c₀])).sent
      (∃ s ∈ sent, s.key = k) ∧ (∃ e ∈ events, Accepts e 0 b₀ msg k) ∧
      (∃ e ∈ events, Accepts e 0 (popped b₀) msg k') ∧
      (∀ s ∈ sent, ∀ e ∈ events, ∀ index b msg k, Accepts e index b msg k → ∀ c c',
        deriveMessageKey idealSuite s.key c = deriveMessageKey idealSuite k c' ↔
          c = c' ∧ MatchingSession s b msg) ∧
      events.Pairwise (fun e e' => ∀ i j b b' msg msg' k k', Accepts e i b msg k →
        Accepts e' j b' msg' k' → ∀ c c',
          deriveMessageKey idealSuite k c ≠ deriveMessageKey idealSuite k' c') ∧
      ∀ k ∈ heldKeys events sent, ∀ k' ∈ heldKeys events sent, ∀ c,
        deriveMessageKey idealSuite k c ≠ k' := by
  obtain ⟨b₀, c₀, pk₁, pk₂, pkA, skA, msg, k, k', r⟩ := replayedRun_exists
  refine ⟨b₀, c₀, pkA, skA, msg, k, k', replayed skA pkA zeroDraws msg, rfl, ?_, r.accepts_first,
    r.accepts_second, message_keys_separate idealSuite idealSuite_lawful idealSuite_rejecting
      [b₀, c₀] r.generates r.distinct _ r.allowed (replayed_keyInputs r)
      (replayed_secretsDiffer r)⟩
  rw [r.sent_eq]
  exact ⟨_, List.mem_singleton_self _, rfl⟩

end EirnKcp.MessageKeys
