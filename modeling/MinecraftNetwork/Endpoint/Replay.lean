import MinecraftNetwork.Endpoint.Challenge
import MinecraftNetwork.Endpoint.Opening

/-!
# What an earlier conversation is worth

`Encrypt` is a map `σ x ^^^ key` of the challenge, and the key cancels in the difference of
two of its values: who has seen one challenge with its answer can answer every other one
(`encrypt_forge`), without the constants of `Encrypt`. `imposture` says what follows for
the handshake. An answer replayed as it is passes only the challenge it was made for, but
an answer forged from it passes any other. A client chooses no challenge of its own, so its
verdict follows the bytes it reads: what one client has accepted, every later one accepts,
and a server that it has answered can prove itself from that answer alone.
-/

namespace MinecraftNetwork

open LittleEndian XorMap

/-- An answer to the challenge `now`, made of another challenge and its answer. -/
def forge (challenge answer now : UInt64) : UInt64 := answer ^^^ swapNibbles (challenge ^^^ now)

/-- **The keys are not needed** to answer a second challenge. -/
theorem encrypt_forge (owner : ConnectionOwner) (challenge now : UInt64) :
    forge challenge (encrypt owner challenge) now = encrypt owner now := by
  apply UInt64.toBitVec_inj.mp
  rw [encrypt_keyed owner now, nibbles.keyed_eq_xor challenge.toBitVec, ← encrypt_keyed]
  rfl

theorem encode64_injective : Function.Injective encode64 := by
  intro x y hSame
  rw [← decode64_encode64 x, hSame, decode64_encode64]

/-- Streams that begin with the same bytes begin with the same value. -/
theorem eq_of_encode64_prefix {x y : UInt64} {bytes : List UInt8} (hx : encode64 x <+: bytes)
    (hy : encode64 y <+: bytes) : x = y := by
  apply encode64_injective
  exact (List.prefix_of_prefix_length_le hx hy (by simp)).eq_of_length (by simp)

namespace Endpoint

open Runs

/-- A challenge and its answer, as they can be overheard: on a connection of a server that
has accepted the answer, or on one of a client, whoever has challenged it. -/
inductive Overheard (challenge answer : UInt64) : Prop
  | server {now id i : UInt64} {e : Endpoint} (hReach : Reach (system (.server now id)) LateLambda e)
      (hAccepted : .onValidate i ∈ e.reports) (hAsked : encode64 challenge <+: e.wire)
      (hAnswered : encode64 answer <+: e.consumed)
  | client {opened : Bool} {e : Endpoint} (hReach : Reach (system (.client opened)) LateLambda e)
      (hAsked : encode64 challenge <+: e.consumed) (hAnswered : encode64 answer <+: e.wire)

theorem operational_of_reach {s : Start} {e : Endpoint} (h : Reach (system s) LateLambda e) :
    Operational s e := by
  refine h.invariant ?_ ?_
  · rintro _ ⟨lambdas, rfl⟩
    exact .start lambdas s
  · intro e event e' hOp hOk hStep
    exact hOp.step hOk hStep

theorem free_of_late {s : Start} {e : Endpoint} (h : Reach (system s) LateLambda e) :
    Reach (system s) Free e := h.mono fun _ _ _ => trivial

/-- The owner is told what the bytes read ask for. -/
theorem reports_of_consumed {s : Start} {e : Endpoint} (h : Reach (system s) Free e) :
    e.reports = s.reports e.consumed := by
  obtain ⟨k, -, hStage⟩ := exists_stage h
  rw [← dialogue_reports]
  exact hStage.reports_eq

/-- A server accepts the answer to its challenge. -/
theorem answer_of_validated {now id i : UInt64} {bytes : List UInt8}
    (h : .onValidate i ∈ Start.reports (.server now id) bytes) :
    encode64 (respond now) <+: bytes := by
  simp only [Start.reports] at h
  split at h
  · cases h
  · rename_i hLong
    split at h
    · simp at h
    · rename_i hAnswer
      rw [← not_not.mp hAnswer, encode64_decode64 (by simp; omega)]
      exact List.take_prefix 8 bytes

/-- **What is overheard is a challenge with its answer.** -/
theorem Overheard.answer_eq {challenge answer : UInt64} (h : Overheard challenge answer) :
    answer = respond challenge := by
  cases h with
  | @server now id i e hReach hAccepted hAsked hAnswered =>
    have hScript : encode64 now <+: Start.script (.server now id) e.consumed ++ frames e.sent := by
      simp only [Start.script, List.append_assoc]
      exact List.prefix_append _ _
    have hOp := operational_of_reach hReach
    have hWire := hAsked.trans hOp.wire_prefix
    have hChallenge : challenge = now := eq_of_encode64_prefix hWire hScript
    rw [reports_of_consumed (free_of_late hReach)] at hAccepted
    rw [hChallenge]
    exact eq_of_encode64_prefix hAnswered (answer_of_validated hAccepted)
  | @client opened e hReach hAsked hAnswered =>
    have hFirst : decode64 (e.consumed.take 8) = challenge := by
      obtain ⟨rest, hRest⟩ := hAsked
      rw [← hRest, List.take_left' (length_encode64 _), decode64_encode64]
    have hScript : encode64 (respond challenge) <+:
        Start.script (.client opened) e.consumed ++ frames e.sent := by
      simp only [Start.script, hFirst]
      exact List.prefix_append _ _
    have hOp := operational_of_reach hReach
    have hWire := hAnswered.trans hOp.wire_prefix
    exact eq_of_encode64_prefix hWire hScript

/-- An endpoint that waits for its peer early in the handshake has put all of it on the
wire: no frame comes before the handshake is written. -/
theorem Operational.wire_shows {s : Start} {e : Endpoint} {op : ReadOp} {n : Nat}
    {consumed handed : List UInt8} {reports : List Effect} (h : Operational s e)
    (hWaits : e.Waits (some (.read op n)))
    (hShows : e.dialogue.Shows consumed reports handed false false) : e.wire = handed := by
  have hSent : e.handshakeSent = false := by
    by_contra hNot
    obtain ⟨hOpening, -⟩ := (handshakeSent_iff hWaits).mp (by simpa using hNot)
    rw [hShows.opening] at hOpening
    cases hOpening
  have hFailed : e.writeFailed = false := by
    obtain ⟨done, hChain⟩ := h.orderly.chain
    by_contra hNot
    exact hChain.failed_queue (by simpa using hNot) (h.orderly.queue hSent)
  have hEnded : e.ended = false := hShows.ended
  rw [h.wire_waiting hWaits hSent hEnded hFailed, hShows.handed]

/-- The server that waits for the answer has sent its challenge and nothing else. -/
theorem wire_of_answer {now id : UInt64} {e : Endpoint}
    (h : Reach (system (.server now id)) LateLambda e) (hReading : (.validation2, 8) ∈ e.reading) :
    e.wire = encode64 now := by
  have hOp := operational_of_reach h
  obtain ⟨k, hWaits, hStage⟩ := hOp.orderly.stage
  obtain rfl := hWaits.of_reading hReading
  cases hStage with
  | answer _ _ _ _ hShows => exact hOp.wire_shows hWaits hShows

/-- The client that waits for the proof has read a challenge, and has sent its answer and
nothing else. -/
theorem wire_of_proof {opened : Bool} {e : Endpoint}
    (h : Reach (system (.client opened)) LateLambda e) (hReading : (.validation3, 8) ∈ e.reading) :
    ∃ challenge, e.consumed = encode64 challenge ∧ e.wire = encode64 (respond challenge) ∧
      e.connection.validationCheck = respond (respond challenge) := by
  have hOp := operational_of_reach h
  obtain ⟨k, hWaits, hStage⟩ := hOp.orderly.stage
  obtain rfl := hWaits.of_reading hReading
  cases hStage with
  | @replied _ b _ _ _ hLength hCheck hShows =>
    refine ⟨decode64 b, ?_, hOp.wire_shows hWaits hShows, hCheck⟩
    rw [encode64_decode64 hLength]
    exact hShows.consumed

/-- What the handshake does not promise about a peer that has overheard a conversation. -/
structure Imposture : Prop where
  /-- A replayed answer passes the challenge it was made for, and no other. -/
  stale : ∀ challenge answer now id e, Overheard challenge answer →
    Reach (system (.server now id)) LateLambda e → (.validation2, 8) ∈ e.reading →
    (e.connection.acceptsAnswer answer ↔ e.wire = encode64 challenge)
  /-- The answer forged from it passes whatever challenge the server has sent. -/
  forged : ∀ challenge answer now id e, Overheard challenge answer →
    Reach (system (.server now id)) LateLambda e → (.validation2, 8) ∈ e.reading →
    ∃ asked, e.wire = encode64 asked ∧
      e.connection.acceptsAnswer (forge challenge answer asked)
  /-- The proof forged from the client's own answer passes, without anything overheard. -/
  mirrored : ∀ opened e, Reach (system (.client opened)) LateLambda e →
    (.validation3, 8) ∈ e.reading →
    ∃ asked answered, e.consumed = encode64 asked ∧ e.wire = encode64 answered ∧
      e.connection.acceptsProof (forge asked answered answered)
  /-- A client that reads what another one has read tells its owner the same. -/
  recorded : ∀ opened opened' e e', Reach (system (.client opened)) Free e →
    Reach (system (.client opened')) Free e' → e.consumed <+: e'.consumed →
    e.reports <+: e'.reports

/-- **One conversation overheard is enough**: for a server from then on, and a client gives
itself away with its answer. -/
theorem imposture : Imposture where
  stale challenge answer now id e hHeard hReach hReading := by
    rw [Connection.acceptsAnswer_iff, check_of_answer (free_of_late hReach) hReading,
      wire_of_answer hReach hReading, hHeard.answer_eq]
    constructor
    · intro hSame
      rw [(encrypt_bijective .dedicatedServer).1 hSame]
    · intro hSame
      rw [encode64_injective hSame]
      rfl
  forged challenge answer now id e hHeard hReach hReading := by
    refine ⟨now, wire_of_answer hReach hReading, ?_⟩
    rw [Connection.acceptsAnswer_iff, check_of_answer (free_of_late hReach) hReading,
      hHeard.answer_eq]
    exact encrypt_forge .dedicatedServer challenge now
  mirrored opened e hReach hReading := by
    obtain ⟨challenge, hConsumed, hWire, hCheck⟩ := wire_of_proof hReach hReading
    refine ⟨challenge, respond challenge, hConsumed, hWire, ?_⟩
    rw [Connection.acceptsProof_iff, hCheck]
    exact encrypt_forge .dedicatedServer challenge (respond challenge)
  recorded opened opened' e e' hReach hReach' hPrefix := by
    obtain ⟨rest, hRest⟩ := hPrefix
    obtain ⟨k, -, hStage⟩ := exists_stage hReach
    have hSoFar := hStage.reports_prefix rest
    rw [dialogue_reports] at hSoFar
    rw [reports_of_consumed hReach', ← hRest]
    exact hSoFar

/-- The answer to the challenge 0 is overheard, and answers the challenge 7. -/
theorem imposture_seven : ∃ e answer, Reach (system (.server 7 2)) LateLambda e ∧
    Overheard 0 answer ∧ ¬ e.connection.acceptsAnswer answer ∧
      e.connection.acceptsAnswer (forge 0 answer 7) := by
  have hOk : ∀ (e : Endpoint) (event : Event),
      decide (event ≠ .complete .lambda) = true → LateLambda e event := by
    intro e event hNot hLambda
    exact absurd hLambda (of_decide_eq_true hNot)
  obtain ⟨e₀, hReach₀, hEnd₀⟩ := Reach.exists_of_replay (M := system (.server 0 1)) hOk ⟨[], rfl⟩
    [.transfer .validation1 8, .complete (.written .validation1),
      .complete (.read .validation2 (encode64 (respond 0)))]
    (fun e => e.reports.contains (.onValidate 1) && e.wire == encode64 0 &&
      e.consumed == encode64 (respond 0)) (by decide)
  obtain ⟨e, hReach, hEnd⟩ := Reach.exists_of_replay (M := system (.server 7 2)) hOk ⟨[], rfl⟩
    [.transfer .validation1 8, .complete (.written .validation1)]
    (fun e => e.reading.contains (.validation2, 8)) (by decide)
  simp only [Bool.and_eq_true, beq_iff_eq, List.contains_iff_mem] at hEnd₀ hEnd
  obtain ⟨⟨hAccepted, hAsked⟩, hAnswered⟩ := hEnd₀
  have hHeard : Overheard 0 (respond 0) :=
    .server hReach₀ hAccepted (hAsked ▸ List.prefix_rfl) (hAnswered ▸ List.prefix_rfl)
  have hWire := wire_of_answer hReach hEnd
  refine ⟨e, respond 0, hReach, hHeard, fun hPasses => ?_, ?_⟩
  · have hSame := (imposture.stale 0 _ 7 2 e hHeard hReach hEnd).mp hPasses
    rw [hWire] at hSame
    exact absurd (encode64_injective hSame) (by decide)
  · obtain ⟨asked, hAsked, hPasses⟩ := imposture.forged 0 _ 7 2 e hHeard hReach hEnd
    rw [hWire] at hAsked
    rwa [← encode64_injective hAsked] at hPasses

end Endpoint

end MinecraftNetwork
