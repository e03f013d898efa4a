import MinecraftNetwork.Foundations.XorMap
import MinecraftNetwork.Endpoint.Handshake

/-!
# The answers to a challenge

`Connection::Encrypt` swaps the nibbles of every byte between two xors with constants, so
it is a map `σ x ^^^ key` with one key for each kind of owner (`encrypt_keyed`). What the
handshake rests on follows from facts about the two keys: no key is fixed by the swap, and
the keys differ.

`challengeResponse` puts this to the checks of `ReadValidation2` and `ReadValidation3` in
every run: the server that waits for the answer, and the client that waits for the
server's proof, accept one value each, and none that the other side could only have
repeated or that a peer-to-peer node would compute.
-/

namespace MinecraftNetwork

open LittleEndian XorMap

/-! ## The swap of the nibbles -/

/-- `swapNibbles` on the bits of the word. -/
def swapBits (x : BitVec 64) : BitVec 64 := (swapNibbles ⟨x⟩).toBitVec

/-- The mask of the high nibbles, bit by bit. -/
theorem getLsbD_high (i : Nat) :
    (0xF0F0F0F0F0F0F0F0#64).getLsbD i = decide (i < 64 ∧ 4 ≤ i % 8) := by
  by_cases hi : i < 64
  · have hAll : ∀ j : Fin 64, (0xF0F0F0F0F0F0F0F0#64).getLsbD j = decide (4 ≤ j.val % 8) := by
      decide
    simpa [hi] using hAll ⟨i, hi⟩
  · rw [BitVec.getLsbD_of_ge _ _ (by omega)]
    simp [hi]

/-- The mask of the low nibbles, bit by bit. -/
theorem getLsbD_low (i : Nat) :
    (0x0F0F0F0F0F0F0F0F#64).getLsbD i = decide (i < 64 ∧ i % 8 < 4) := by
  by_cases hi : i < 64
  · have hAll : ∀ j : Fin 64, (0x0F0F0F0F0F0F0F0F#64).getLsbD j = decide (j.val % 8 < 4) := by
      decide
    simpa [hi] using hAll ⟨i, hi⟩
  · rw [BitVec.getLsbD_of_ge _ _ (by omega)]
    simp [hi]

/-- Every bit comes from the same place in the other nibble of its byte. -/
theorem getLsbD_swapBits (x : BitVec 64) {i : Nat} (hi : i < 64) :
    (swapBits x).getLsbD i = x.getLsbD (if i % 8 < 4 then i + 4 else i - 4) := by
  have hBits : swapBits x = ((x &&& 0xF0F0F0F0F0F0F0F0#64) >>> 4) |||
      ((x &&& 0x0F0F0F0F0F0F0F0F#64) <<< 4) := rfl
  rw [hBits, BitVec.getLsbD_or, BitVec.getLsbD_ushiftRight, BitVec.getLsbD_and,
    BitVec.getLsbD_shiftLeft, BitVec.getLsbD_and, getLsbD_high, getLsbD_low]
  by_cases hLow : i % 8 < 4
  · have hHigh : 4 + i < 64 ∧ 4 ≤ (4 + i) % 8 := by omega
    have hNone : ¬ (4 ≤ i ∧ i - 4 < 64 ∧ (i - 4) % 8 < 4) := by omega
    rw [decide_eq_true hHigh, if_pos hLow, Bool.and_true, Nat.add_comm 4 i]
    by_cases hFour : 4 ≤ i
    · have hMask : ¬ (i - 4 < 64 ∧ (i - 4) % 8 < 4) := fun h => hNone ⟨hFour, h⟩
      rw [decide_eq_false hMask, Bool.and_false, Bool.and_false, Bool.or_false]
    · have hLess : i < 4 := by omega
      simp [hLess]
  · have hNone : ¬ (4 + i < 64 ∧ 4 ≤ (4 + i) % 8) := by omega
    have hMask : i - 4 < 64 ∧ (i - 4) % 8 < 4 := by omega
    have hFour : ¬ i < 4 := by omega
    rw [decide_eq_false hNone, decide_eq_true hMask, if_neg hLow, decide_eq_true hi,
      decide_eq_false hFour]
    simp

/-- The swap of the nibbles is a permutation of the bits in pairs. -/
def nibbles : Involution 64 where
  toFun := swapBits
  map_xor x y := by
    apply BitVec.eq_of_getLsbD_eq
    intro i hi
    rw [BitVec.getLsbD_xor, getLsbD_swapBits _ hi, getLsbD_swapBits _ hi, getLsbD_swapBits _ hi,
      BitVec.getLsbD_xor]
  involutive x := by
    apply BitVec.eq_of_getLsbD_eq
    intro i hi
    rw [getLsbD_swapBits _ hi]
    by_cases hLow : i % 8 < 4
    · have hHigh : ¬ (i + 4) % 8 < 4 := by omega
      rw [if_pos hLow, getLsbD_swapBits _ (by omega), if_neg hHigh, Nat.add_sub_cancel]
    · have hHigh : (i - 4) % 8 < 4 := by omega
      rw [if_neg hLow, getLsbD_swapBits _ (by omega), if_pos hHigh, Nat.sub_add_cancel (by omega)]

/-! ## The keys -/

/-- The key of `Encrypt`: the second constant, and the first one as the swap leaves it. -/
def ConnectionOwner.key : ConnectionOwner → BitVec 64
  | .dedicatedServer | .dedicatedClient => 0x2D0411301ED9FA97#64
  | .peerToPeerNode => 0x1ED9FA972D041130#64

theorem encrypt_keyed (owner : ConnectionOwner) (data : UInt64) :
    (encrypt owner data).toBitVec = nibbles.keyed owner.key data.toBitVec := by
  have hSwap : ∀ a b : BitVec 64, swapBits (data.toBitVec ^^^ a) ^^^ b =
      nibbles.keyed (swapBits a ^^^ b) data.toBitVec := by
    intro a b
    rw [Involution.keyed, ← BitVec.xor_assoc]
    exact congrArg (· ^^^ b) (nibbles.map_xor _ _)
  cases owner with
  | dedicatedServer | dedicatedClient =>
    exact hSwap 0xDEADBEEFC0DECAFE#64 0xC0DEFACE12345678#64
  | peerToPeerNode => exact hSwap 0xC0DECAFEDEADBEEF#64 0x12345678C0DEFACE#64

/-- No key is fixed by the swap. -/
theorem key_moved (owner : ConnectionOwner) : nibbles owner.key ≠ owner.key := by
  cases owner <;> decide

/-! ## What `Encrypt` computes -/

/-- **Encryption is a bijection** for each kind of owner. -/
theorem encrypt_bijective (owner : ConnectionOwner) : Function.Bijective (encrypt owner) := by
  obtain ⟨hInjective, hSurjective⟩ := nibbles.keyed_bijective owner.key
  refine ⟨fun x y hSame => ?_, fun y => ?_⟩
  · apply UInt64.toBitVec_inj.mp
    apply hInjective
    rw [← encrypt_keyed, ← encrypt_keyed, hSame]
  · obtain ⟨x, hx⟩ := hSurjective y.toBitVec
    refine ⟨⟨x⟩, UInt64.toBitVec_inj.mp ?_⟩
    rw [encrypt_keyed]
    exact hx

/-- No value is its own encryption. -/
theorem encrypt_ne_self (owner : ConnectionOwner) (x : UInt64) : encrypt owner x ≠ x := by
  intro hSame
  apply nibbles.keyed_ne_self (key_moved owner) x.toBitVec
  rw [← encrypt_keyed, hSame]

theorem encrypt_encrypt_keyed (owner owner' : ConnectionOwner) (x : UInt64) :
    (encrypt owner (encrypt owner' x)).toBitVec =
      nibbles.keyed owner.key (nibbles.keyed owner'.key x.toBitVec) := by
  rw [encrypt_keyed, encrypt_keyed]

/-- Encryption is nowhere its own inverse. -/
theorem encrypt_encrypt_ne_self (owner : ConnectionOwner) (x : UInt64) :
    encrypt owner (encrypt owner x) ≠ x := by
  intro hSame
  apply nibbles.keyed_keyed_ne_self (key_moved owner) x.toBitVec
  rw [← encrypt_encrypt_keyed, hSame]

/-- No value is encrypted by one owner as another one encrypts it twice. -/
theorem encrypt_ne_encrypt_encrypt (owner owner' : ConnectionOwner) (x : UInt64) :
    encrypt owner x ≠ encrypt owner' (encrypt owner' x) := by
  intro hSame
  have hBits : nibbles.keyed owner.key x.toBitVec =
      nibbles.keyed owner'.key (nibbles.keyed owner'.key x.toBitVec) := by
    rw [← encrypt_keyed, ← encrypt_encrypt_keyed, hSame]
  exact nibbles.keyed_ne_keyed_keyed (key_moved owner) x.toBitVec hBits

/-- Owners of two kinds: their keys differ, and differ from their images by different words. -/
structure ConnectionOwner.Strange (owner owner' : ConnectionOwner) : Prop where
  key : owner.key ≠ owner'.key
  twice : nibbles owner.key ^^^ owner.key ≠ nibbles owner'.key ^^^ owner'.key

namespace ConnectionOwner.Strange

variable {owner owner' : ConnectionOwner}

theorem encrypt_ne (h : owner.Strange owner') (x : UInt64) :
    encrypt owner x ≠ encrypt owner' x := by
  intro hSame
  apply nibbles.keyed_ne_keyed h.key x.toBitVec
  rw [← encrypt_keyed, ← encrypt_keyed, hSame]

theorem encrypt_encrypt_ne (h : owner.Strange owner') (x : UInt64) :
    encrypt owner (encrypt owner x) ≠ encrypt owner' (encrypt owner' x) := by
  intro hSame
  apply nibbles.keyed_keyed_ne_keyed_keyed h.twice x.toBitVec
  rw [← encrypt_encrypt_keyed, ← encrypt_encrypt_keyed, hSame]

end ConnectionOwner.Strange

/-- What an owner of another kind makes of the challenge, and of the answer to it. -/
def foreign (owner owner' : ConnectionOwner) (challenge : UInt64) : List UInt64 :=
  [encrypt owner' challenge, encrypt owner' (encrypt owner' challenge),
    encrypt owner' (encrypt owner challenge)]

/-- The answer to a challenge is not the challenge, and foreign to no other owner. -/
theorem answer_fresh {owner owner' : ConnectionOwner} (h : owner.Strange owner')
    (challenge : UInt64) :
    encrypt owner challenge ∉ challenge :: foreign owner owner' challenge := by
  simp only [foreign, List.mem_cons, List.not_mem_nil, or_false, not_or]
  exact ⟨encrypt_ne_self owner challenge, h.encrypt_ne challenge,
    encrypt_ne_encrypt_encrypt owner owner' challenge, (encrypt_ne_self owner' _).symm⟩

/-- Nor is the answer to the answer, which is not the answer either. -/
theorem proof_fresh {owner owner' : ConnectionOwner} (h : owner.Strange owner')
    (challenge : UInt64) : encrypt owner (encrypt owner challenge) ∉
      challenge :: encrypt owner challenge :: foreign owner owner' challenge := by
  simp only [foreign, List.mem_cons, List.not_mem_nil, or_false, not_or]
  exact ⟨encrypt_encrypt_ne_self owner challenge, encrypt_ne_self owner _,
    (encrypt_ne_encrypt_encrypt owner' owner challenge).symm, h.encrypt_encrypt_ne challenge,
    h.encrypt_ne _⟩

/-! ## The two checks -/

namespace Connection

/-- `ReadValidation2` has read the eight bytes of a value, and does not reject the peer. -/
def acceptsAnswer (c : Connection) (reply : UInt64) : Prop :=
  .onInvalidate ∉ (c.readValidation2Done (encode64 reply)).2

/-- `ReadValidation3` has read the eight bytes of a value, and does not reject the peer. -/
def acceptsProof (c : Connection) (reply : UInt64) : Prop :=
  .onInvalidate ∉ (c.readValidation3Done (encode64 reply)).2

theorem acceptsAnswer_iff (c : Connection) (reply : UInt64) :
    c.acceptsAnswer reply ↔ reply = c.validationCheck := by
  unfold acceptsAnswer readValidation2Done
  rw [decode64_encode64]
  by_cases hCheck : reply = c.validationCheck
  · simp [hCheck, writeValidation3, writeValidation]
  · simp [hCheck]

theorem acceptsProof_iff (c : Connection) (reply : UInt64) :
    c.acceptsProof reply ↔ reply = c.validationCheck := by
  unfold acceptsProof readValidation3Done
  rw [decode64_encode64]
  by_cases hCheck : reply = c.validationCheck
  · simp [hCheck, readValidation4, readValidation]
  · simp [hCheck]

end Connection

/-- A check passes exactly one reply, and none of some other values. -/
structure Admits (passes : UInt64 → Prop) (answer : UInt64) (others : List UInt64) : Prop where
  answer : passes answer
  unique : ∃! reply, passes reply
  rejects : ∀ reply ∈ others, ¬ passes reply

theorem Admits.of_iff {passes : UInt64 → Prop} {answer check : UInt64} {others : List UInt64}
    (hPasses : ∀ reply, passes reply ↔ reply = check) (hCheck : check = answer)
    (hFresh : answer ∉ others) : Admits passes answer others := by
  subst hCheck
  have hCheck : passes check := (hPasses check).mpr rfl
  refine ⟨hCheck, ⟨check, hCheck, fun reply hReply => (hPasses reply).mp hReply⟩, ?_⟩
  intro reply hMem hReply
  rw [(hPasses reply).mp hReply] at hMem
  exact hFresh hMem

namespace Endpoint

open Runs

/-- The operation a chain waits for is the read that is outstanding. -/
theorem Waits.of_reading {e : Endpoint} {k : Option Pending} (h : e.Waits k) {op : ReadOp}
    {n : Nat} (hReading : (op, n) ∈ e.reading) : k = some (.read op n) := by
  rw [h.reading, Option.mem_toList] at hReading
  obtain ⟨pending, hPending, hRead⟩ := Option.bind_eq_some_iff.mp hReading
  cases pending with
  | read =>
    cases hRead
    exact hPending
  | connect | write => cases hRead

/-- What the handshake promises about replies, in every run of a connection of the server
and of one of the client. -/
structure ChallengeResponse : Prop where
  bijective : ∀ owner, Function.Bijective (encrypt owner)
  /-- The server at clock value `now`, waiting for the answer. -/
  server : ∀ now id e, Reach (system (.server now id)) Free e → (.validation2, 8) ∈ e.reading →
    Admits e.connection.acceptsAnswer (encrypt .dedicatedServer now)
      (now :: foreign .dedicatedServer .peerToPeerNode now)
  /-- The client that has read and answered a challenge, waiting for the proof. -/
  client : ∀ opened e, Reach (system (.client opened)) Free e → (.validation3, 8) ∈ e.reading →
    ∃ challenge, e.consumed = encode64 challenge ∧
      Admits e.connection.acceptsProof
        (encrypt .dedicatedClient (encrypt .dedicatedClient challenge))
        (challenge :: encrypt .dedicatedClient challenge ::
          foreign .dedicatedClient .peerToPeerNode challenge)
  /-- The same checks, made by a peer-to-peer node on what its own `Encrypt` computes. -/
  peerAnswer : ∀ (c : Connection) challenge, c.owner = .peerToPeerNode →
    c.validationCheck = c.encrypt challenge →
    Admits c.acceptsAnswer (encrypt .peerToPeerNode challenge)
      (challenge :: foreign .peerToPeerNode .dedicatedServer challenge)
  peerProof : ∀ (c : Connection) challenge, c.owner = .peerToPeerNode →
    Admits (c.readValidation1Done (encode64 challenge)).1.acceptsProof
      (encrypt .peerToPeerNode (encrypt .peerToPeerNode challenge))
      (challenge :: encrypt .peerToPeerNode challenge ::
        foreign .peerToPeerNode .dedicatedClient challenge)

/-- The server's check, as `ConnectToClient` leaves it. -/
theorem check_of_answer {now id : UInt64} {e : Endpoint}
    (h : Reach (system (.server now id)) Free e) (hReading : (.validation2, 8) ∈ e.reading) :
    e.connection.validationCheck = encrypt .dedicatedServer now := by
  obtain ⟨k, hWaits, hStage⟩ := exists_stage h
  rw [hWaits.of_reading hReading] at hStage
  cases hStage with
  | answer _ _ hCheck => exact hCheck

/-- The client's check, as `ReadValidation1` leaves it. -/
theorem check_of_proof {opened : Bool} {e : Endpoint}
    (h : Reach (system (.client opened)) Free e) (hReading : (.validation3, 8) ∈ e.reading) :
    ∃ challenge, e.consumed = encode64 challenge ∧ e.connection.validationCheck =
      encrypt .dedicatedClient (encrypt .dedicatedClient challenge) := by
  obtain ⟨k, hWaits, hStage⟩ := exists_stage h
  rw [hWaits.of_reading hReading] at hStage
  cases hStage with
  | @replied _ b _ _ _ hLength hCheck hShows =>
    refine ⟨decode64 b, ?_, hCheck⟩
    rw [encode64_decode64 hLength]
    exact hShows.consumed

/-- **One answer and no echo**: whatever the challenge, each check passes one value, which
the other side cannot have seen and no owner of another kind computes. -/
theorem challengeResponse : ChallengeResponse where
  bijective := encrypt_bijective
  server now id e h hReading := by
    refine .of_iff e.connection.acceptsAnswer_iff (check_of_answer h hReading) ?_
    exact answer_fresh ⟨by decide, by decide⟩ now
  client opened e h hReading := by
    obtain ⟨challenge, hConsumed, hCheck⟩ := check_of_proof h hReading
    refine ⟨challenge, hConsumed, .of_iff e.connection.acceptsProof_iff hCheck ?_⟩
    exact proof_fresh ⟨by decide, by decide⟩ challenge
  peerAnswer c challenge hOwner hCheck := by
    refine .of_iff c.acceptsAnswer_iff ?_ (answer_fresh ⟨by decide, by decide⟩ challenge)
    rw [hCheck, Connection.encrypt, hOwner]
  peerProof c challenge hOwner := by
    refine .of_iff (Connection.acceptsProof_iff _) ?_
      (proof_fresh ⟨by decide, by decide⟩ challenge)
    simp only [Connection.readValidation1Done, Connection.encrypt, decode64_encode64, hOwner]

/-- A server waits for the answer to the challenge 7, and a client that has answered it
for the proof. -/
theorem challengeResponse_seven :
    (∃ e, Reach (system (.server 7 1)) Free e ∧
      Admits e.connection.acceptsAnswer (encrypt .dedicatedServer 7)
        (7 :: foreign .dedicatedServer .peerToPeerNode 7)) ∧
    ∃ e challenge, Reach (system (.client true)) Free e ∧ e.consumed = encode64 challenge ∧
      ¬ e.connection.acceptsProof challenge := by
  obtain ⟨e, hReach, hEnd⟩ := Reach.exists_of_free (M := system (.server 7 1)) ⟨[], rfl⟩
    [.transfer .validation1 8, .complete (.written .validation1)]
    (fun e => e.reading.contains (.validation2, 8)) (by decide)
  obtain ⟨e', hReach', hEnd'⟩ := Reach.exists_of_free (M := system (.client true)) ⟨[], rfl⟩
    [.complete .connected, .complete (.read .validation1 [7, 0, 0, 0, 0, 0, 0, 0]),
      .transfer .validation2 8, .complete (.written .validation2)]
    (fun e => e.reading.contains (.validation3, 8)) (by decide)
  have hServer := challengeResponse.server 7 1 e hReach (List.contains_iff_mem.mp hEnd)
  obtain ⟨challenge, hConsumed, hClient⟩ :=
    challengeResponse.client true e' hReach' (List.contains_iff_mem.mp hEnd')
  exact ⟨⟨e, hReach, hServer⟩, e', challenge, hReach', hConsumed,
    hClient.rejects _ (List.mem_cons_self ..)⟩

end Endpoint

end MinecraftNetwork
