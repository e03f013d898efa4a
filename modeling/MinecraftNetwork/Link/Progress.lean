import MinecraftNetwork.Link.Agreement
import MinecraftNetwork.Endpoint.Progress
import MinecraftNetwork.Foundations.Convergence

/-!
# What is sent arrives

A link in which no operation fails does not only keep what is sent in order: it delivers it.
The work of the network and of the two contexts, bytes that leave and handlers that run, is
bounded from every state of every run, and when there is none left to do the handshake is
complete and every message that was given to `Send` is in the queue of the other side
(`delivered_of_reach`). The threads that poll and the other connections that feed the queues
take their steps in between, as often as they like.

The measure is the load of the two endpoints (`remaining`). That a link at rest has delivered
everything is where the two sides are seen never to wait for each other.
-/

namespace MinecraftNetwork

open Runs LittleEndian

namespace Endpoint

/-- Who has not ended by a completion has accepted what it has read. -/
theorem ends_of_ended {e e' : Endpoint} {c : Completion} (h : e.step (.complete c) = some e')
    (hEnded : e'.ended = false) : c.ends e.connection = false := by
  by_cases hMain : c.isMain = true
  · simp only [step, Option.map_eq_some_iff] at h
    obtain ⟨⟨e₁, effects⟩, hHandle, rfl⟩ := h
    obtain ⟨-, -, -, hEnds⟩ := handle_resume hMain hHandle
    rw [performAll_ended, hEnds] at hEnded
    exact (Bool.or_eq_false_iff.mp hEnded).2
  · cases c with
    | lambda => rfl
    | written => rfl
    | writeFailed => simpa [Completion.isMain, Completion.ends] using hMain
    | connected | connectFailed | read | readFailed => exact absurd rfl hMain

end Endpoint

namespace Link

variable {κ : Type}

/-- The network takes some bytes, or a context runs a handler that has not failed. -/
def Work (l : Link κ) : Side × Peer.Event κ → Prop
  | (side, .endpoint (.transfer op k)) =>
    ∃ bytes rest, (l side).endpoint.writing op = bytes :: rest ∧ bytes.take k ≠ []
  | (_, .endpoint (.complete c)) => c.fails = false
  | (_, .endpoint (.send _)) | (_, .endpoint .disconnect) | (_, .foreign _ _) | (_, .poll _) =>
    False

/-- Other connections feed the queues, and the queues are polled. -/
def Idle (_ : Link κ) : Side × Peer.Event κ → Prop
  | (_, .foreign _ _) | (_, .poll _) => True
  | (_, .endpoint _) => False

/-- Each side sends after its handshake, and no operation fails. -/
def Untroubled (l : Link κ) (event : Side × Peer.Event κ) : Prop :=
  LateSend l event ∧ Unfailing l event

instance (l : Link κ) : (event : Side × Peer.Event κ) → Decidable (Unfailing l event)
  | (_, .endpoint (.complete c)) => inferInstanceAs (Decidable (c.fails = false))
  | (_, .endpoint (.send _)) | (_, .endpoint .disconnect) | (_, .endpoint (.transfer _ _))
  | (_, .foreign _ _) | (_, .poll _) => inferInstanceAs (Decidable True)

instance (l : Link κ) (event : Side × Peer.Event κ) : Decidable (Untroubled l event) :=
  inferInstanceAs (Decidable (LateSend l event ∧ Unfailing l event))

/-- What a side is to write in all, if nothing more is sent. -/
def volume (now id : UInt64) (l : Link κ) (side : Side) : Nat :=
  (greeting now id side).length + (frames (l side).endpoint.sent).length

/-- What is left to do for a side. -/
def due (now id : UInt64) (l : Link κ) (side : Side) : Nat :=
  (l side).endpoint.load (volume now id l side) (volume now id l side.other)

def remaining (now id : UInt64) (l : Link κ) : Nat := due now id l .server + due now id l .client

/-- All that was sent to a side is in its queue, or was taken from it, once and in order. -/
structure Delivered (l : Link κ) (side : Side) : Prop where
  completed : (l side).endpoint.completed = true
  enqueued : Peer.own (l side).incoming.enqueued = (l side.other).endpoint.sent
  /-- When the queue is polled empty, `OnMessage` has got all of it. -/
  processed : (l side).incoming.incomingMessages = [] →
    (l side).received = (l side.other).endpoint.sent

variable {now id : UInt64} {opened : Bool} {l l' : Link κ}

/-! ## The invariants of a run -/

/-- A run from the start of the connections is one with nothing posted before. -/
theorem smooth_of_untroubled (h : Reach (system κ now id opened) Untroubled l) :
    Sound (begins now id opened) l ∧ Reach (handshakes κ now id opened) Smooth l := by
  refine h.invariant (I := fun l => Sound (begins now id opened) l ∧
    Reach (handshakes κ now id opened) Smooth l) ?_ ?_
  · rintro _ rfl
    exact ⟨fun side => Peer.sound_start _ _, .init ⟨fun _ => [], rfl⟩⟩
  · rintro l ⟨side, event⟩ l' ⟨hSound, hReach⟩ ⟨hLate, hUnfailing⟩ hStep
    refine ⟨hSound.step hLate hStep, hReach.step ⟨?_, hUnfailing⟩ hStep⟩
    cases event with
    | endpoint event =>
      exact (hSound side).late.lateLambda (hSound side).operational.orderly.chain event
    | foreign | poll => trivial

theorem length_script_greeting (now id : UInt64) (opened : Bool) (side : Side) (b : List UInt8) :
    ((begins now id opened side).script b).length = (greeting now id side).length := by
  cases side <;> simp [begins, Endpoint.Start.script, greeting]

/-- Nobody hands more to its socket than it is to write, or reads more than that. -/
theorem Greets.within (h : Greets (begins now id opened) l) (side : Side) :
    (l side).endpoint.handed.length ≤ volume now id l side ∧
      (l side).endpoint.wire.length ≤ volume now id l side ∧
      (l side).endpoint.consumed.length ≤ volume now id l side.other := by
  have hHanded := (h side).operational.orderly.separate.order.length_le
  rw [List.length_append, length_script_greeting] at hHanded
  have hWire := (wire_greeting h side).length_le
  have hConsumed := (consumed_greeting h side).length_le
  rw [List.length_append] at hWire hConsumed
  exact ⟨hHanded, hWire, hConsumed⟩

/-- The invariant: a run without trouble, whose reads are not empty. -/
structure Running (now id : UInt64) (opened : Bool) (l : Link κ) : Prop where
  reach : Reach (system κ now id opened) Untroubled l
  reads : ∀ side, (l side).endpoint.Reads

theorem Running.greets (h : Running now id opened l) : Greets (begins now id opened) l :=
  greets_of_reach ((smooth_of_untroubled h.reach).2.mono fun _ _ hOk => hOk.1)

theorem Running.sound (h : Running now id opened l) (side : Side) :
    (l side).endpoint.ended = false ∧ (l side).endpoint.writeFailed = false :=
  smooth_sound (smooth_of_untroubled h.reach).2 side

/-! ## Every step of the work is work done -/

theorem volume_congr (now id : UInt64)
    (hSent : ∀ side, (l' side).endpoint.sent = (l side).endpoint.sent)
    (side : Side) : volume now id l' side = volume now id l side := by
  rw [volume, hSent, volume]

/-- If a step lowers the load of one side, and leaves the other side and what was sent as they
are, then there is less to do. -/
theorem remaining_lt {side : Side} {p : Peer κ} (hSent : p.endpoint.sent = (l side).endpoint.sent)
    (hLess : p.endpoint.load (volume now id l side) (volume now id l side.other) < due now id l side) :
    remaining now id (Function.update l side p) < remaining now id l := by
  have hSame : ∀ side', (Function.update l side p side').endpoint.sent = (l side').endpoint.sent := by
    intro side'
    by_cases hHere : side' = side
    · subst hHere
      rw [Function.update_self]
      exact hSent
    · rw [Function.update_of_ne hHere]
  have hVolume := volume_congr now id hSame
  cases side with
  | server =>
    simp only [remaining, due, hVolume, Function.update_self, Side.other] at hLess ⊢
    rw [Function.update_of_ne (by decide)]
    omega
  | client =>
    simp only [remaining, due, hVolume, Function.update_self, Side.other] at hLess ⊢
    rw [Function.update_of_ne (by decide)]
    omega

theorem sent_transfer {e e' : Endpoint} {op : WriteOp} {k : Nat} (h : e.transfer op k = some e') :
    e'.sent = e.sent := (Endpoint.transfer_frame h).2.1

theorem sent_complete {e e' : Endpoint} {c : Completion} (h : e.step (.complete c) = some e') :
    e'.sent = e.sent := by
  simp only [Endpoint.step, Option.map_eq_some_iff] at h
  obtain ⟨⟨e₁, effects⟩, hHandle, rfl⟩ := h
  rw [Endpoint.performAll_sent, (Endpoint.handle_keeps hHandle).1]

/-- A step of one side, seen from its endpoint. -/
theorem step_update {side : Side} {event : Endpoint.Event}
    (hStep : l.step (side, .endpoint event) = some l') : ∃ p, l' = Function.update l side p ∧
      (l side).endpoint.step event = some p.endpoint := by
  simp only [Link.step, Option.map_eq_some_iff] at hStep
  obtain ⟨p, hPeer, rfl⟩ := hStep
  refine ⟨p, rfl, ?_⟩
  cases Peer.step_cases hPeer with
  | complete _ hHandle => rw [Endpoint.step, hHandle, Option.map_some]
  | outside _ hEndpoint => exact hEndpoint

/-- **The work lowers what remains.** -/
theorem Running.work {event : Side × Peer.Event κ} (h : Running now id opened l)
    (hWork : Work l event) (hStep : l.step event = some l') :
    Running now id opened l' ∧ remaining now id l' < remaining now id l := by
  obtain ⟨side, event⟩ := event
  cases event with
  | foreign | poll => cases hWork
  | endpoint event =>
    have hReach : Reach (system κ now id opened) Untroubled l' := by
      refine h.reach.step ⟨?_, ?_⟩ hStep
      · cases event with
        | send | disconnect => cases hWork
        | transfer | complete => trivial
      · cases event with
        | send | disconnect | transfer => trivial
        | complete => exact hWork
    obtain ⟨hSound', hSmooth'⟩ := smooth_of_untroubled hReach
    have hWithin := (greets_of_reach (hSmooth'.mono fun _ _ hOk => hOk.1)).within side
    have hEnded := (smooth_sound hSmooth' side).1
    obtain ⟨p, rfl, hEndpoint⟩ := step_update hStep
    rw [Function.update_self] at hEnded
    have hSent : p.endpoint.sent = (l side).endpoint.sent := by
      cases event with
      | send | disconnect => cases hWork
      | transfer => exact sent_transfer hEndpoint
      | complete => exact sent_complete hEndpoint
    have hBounds : p.endpoint.handed.length ≤ volume now id l side ∧
        p.endpoint.wire.length ≤ volume now id l side ∧
        p.endpoint.consumed.length ≤ volume now id l side.other := by
      have hOther : side.other ≠ side := by cases side <;> decide
      simpa only [volume, Function.update_self, Function.update_of_ne hOther, hSent] using hWithin
    have hLess : p.endpoint.load (volume now id l side) (volume now id l side.other) <
        due now id l side ∧ p.endpoint.Reads := by
      cases event with
      | send | disconnect => cases hWork
      | transfer op k =>
        obtain ⟨bytes, rest, hWriting, hBytes⟩ := hWork
        obtain ⟨hLess, hReading⟩ := Endpoint.load_transfer hWriting hBytes hEndpoint hBounds.2.1
        refine ⟨hLess, ?_⟩
        rw [Endpoint.Reads, hReading]
        exact h.reads side
      | complete c =>
        exact Endpoint.load_complete hWork (Endpoint.ends_of_ended hEndpoint hEnded) (h.reads side)
          hEndpoint hBounds.1 hBounds.2.2
    refine ⟨⟨hReach, fun side' => ?_⟩, remaining_lt hSent hLess.1⟩
    by_cases hHere : side' = side
    · subst hHere
      rw [Function.update_self]
      exact hLess.2
    · rw [Function.update_of_ne hHere]
      exact h.reads side'

/-- The queues have no part in what remains. -/
theorem Running.idle {event : Side × Peer.Event κ} (h : Running now id opened l)
    (hIdle : Idle l event) (hStep : l.step event = some l') :
    Running now id opened l' ∧ remaining now id l' ≤ remaining now id l := by
  have hEndpoints : ∀ side, (l' side).endpoint = (l side).endpoint := by
    obtain ⟨side, event⟩ := event
    simp only [Link.step, Option.map_eq_some_iff] at hStep
    obtain ⟨p, hPeer, rfl⟩ := hStep
    have hSame : p.endpoint = (l side).endpoint := by
      cases event with
      | endpoint => cases hIdle
      | foreign | poll =>
      cases Peer.step_cases hPeer
      rfl
    intro side'
    by_cases hHere : side' = side
    · subst hHere
      rw [Function.update_self]
      exact hSame
    · rw [Function.update_of_ne hHere]
  refine ⟨⟨h.reach.step ⟨?_, ?_⟩ hStep, fun side => ?_⟩, ?_⟩
  · obtain ⟨side, event⟩ := event
    cases event with
    | endpoint => cases hIdle
    | foreign | poll => trivial
  · obtain ⟨side, event⟩ := event
    cases event with
    | endpoint => cases hIdle
    | foreign | poll => trivial
  · rw [hEndpoints]
    exact h.reads side
  · simp only [remaining, due, volume, hEndpoints]
    exact Nat.le_refl _

/-! ## Rest -/

/-- The link is at rest. -/
abbrev Resting (now id : UInt64) (opened : Bool) (l : Link κ) : Prop :=
  AtRest (system κ now id opened) Work l

theorem rest_complete (h : Resting now id opened l) (side : Side) (c : Completion)
    (hFails : c.fails = false) : ¬ (l.step (side, .endpoint (.complete c))).isSome = true := by
  have hNone : l.step (side, .endpoint (.complete c)) = none := h _ hFails
  rw [hNone]
  exact Bool.false_ne_true

/-- No write is outstanding: it would move bytes, or complete. -/
theorem rest_writing (h : Resting now id opened l) (hGreets : Greets (begins now id opened) l)
    (side : Side) (op : WriteOp) : (l side).endpoint.writing op = [] := by
  cases hWriting : (l side).endpoint.writing op with
  | nil => rfl
  | cons bytes rest =>
    by_cases hBytes : bytes = []
    · subst hBytes
      refine absurd (isSome_step ?_ ?_) (rest_complete h side (.written op) rfl)
      · rw [show (Completion.written op).bytes = [] from rfl, List.append_nil]
        exact (hGreets side).stream
      · simp [Endpoint.handle, hWriting]
    · have hNone : l.step (side, .endpoint (.transfer op bytes.length)) = none := by
        apply h
        exact ⟨bytes, rest, hWriting, by rwa [List.take_length]⟩
      simp [Link.step, Peer.step, Endpoint.step, Endpoint.transfer, hWriting] at hNone

/-- No lambda is posted: it would run. -/
theorem rest_posted (h : Resting now id opened l) (hGreets : Greets (begins now id opened) l)
    (side : Side) : (l side).endpoint.posted = [] := by
  cases hPosted : (l side).endpoint.posted with
  | nil => rfl
  | cons lambda rest =>
    refine absurd (isSome_step ?_ ?_) (rest_complete h side .lambda rfl)
    · rw [show Completion.lambda.bytes = [] from rfl, List.append_nil]
      exact (hGreets side).stream
    · cases lambda <;> simp [Endpoint.handle, hPosted]

/-- An outstanding read waits for bytes that are not there. -/
theorem rest_reading (h : Resting now id opened l) (hGreets : Greets (begins now id opened) l)
    {side : Side} {op : ReadOp} {n : Nat} (hReading : (op, n) ∈ (l side).endpoint.reading) :
    (l side.other).endpoint.wire.length < (l side).endpoint.consumed.length + n := by
  by_contra hThere
  obtain ⟨rest, hRest⟩ := (hGreets side).stream
  have hLong : n ≤ rest.length := by
    rw [← hRest, List.length_append] at hThere
    omega
  have hLength : (rest.take n).length = n := by simpa using hLong
  refine absurd (isSome_step ?_ ?_) (rest_complete h side (.read op (rest.take n)) rfl)
  · rw [← hRest]
    exact (List.prefix_append_right_inj _).mpr (List.take_prefix _ _)
  · simp only [Endpoint.handle, hLength, if_pos hReading, Option.isSome_some]

/-- The handshake cannot go on only if it is complete. -/
theorem rest_completed (h : Resting now id opened l) (hRunning : Running now id opened l)
    (side : Side) : (l side).endpoint.completed = true := by
  have hGreets := hRunning.greets
  by_contra hNot
  obtain ⟨side', c, -, hFails, hNow | ⟨op, n, l₁, hTransfer, -⟩⟩ :=
    advances hGreets hRunning.sound ⟨side, by simpa using hNot⟩
  · exact rest_complete h side' c hFails hNow
  · simp [Link.step, Peer.step, Endpoint.step, Endpoint.transfer,
      rest_writing h hGreets side' op] at hTransfer

/-- **A link at rest has delivered all that was sent.** -/
theorem Running.delivered (h : Running now id opened l) (hRest : Resting now id opened l)
    (side : Side) : Delivered l side := by
  have hGreets := h.greets
  have hSound := (smooth_of_untroubled h.reach).1
  obtain ⟨hOperational, hLate, hIncoming, hOwn, rest, hStream⟩ := hSound side
  have hCompleted := rest_completed hRest h
  have hSender := hSound side.other
  have hWire := hSender.operational.wire_eq (hCompleted side.other) (h.sound side.other).2
    (rest_posted hRest hGreets side.other) (rest_writing hRest hGreets side.other)
  obtain ⟨k, hWaits, hStage⟩ := hOperational.orderly.stage
  obtain ⟨op, n, rfl⟩ := (hStage.completed (hCompleted side)).reading (h.sound side).1
  have hBlocked : (l side.other).endpoint.wire.length < (l side).endpoint.consumed.length + n := by
    have hReading : (op, n) ∈ (l side).endpoint.reading := by
      rw [hWaits.reading]
      exact List.mem_cons_self
    exact rest_reading hRest hGreets hReading
  have hShort : rest.length < n := by
    rw [← hStream, List.length_append] at hBlocked
    omega
  have hAll : Peer.own (l side).incoming.enqueued = (l side.other).endpoint.sent := by
    rw [hOwn, Endpoint.received_eq]
    exact hStage.received_all (hCompleted side)
      (length_script now id opened side (l side.other).endpoint.consumed) hSender.late.announces
      (hStream.trans hWire) hShort
  refine ⟨hCompleted side, hAll, fun hEmpty => ?_⟩
  rw [← hAll, Peer.received, ← hIncoming.queue, hEmpty, List.append_nil]

/-! ## The runs -/

theorem reads_start (s : Endpoint.Start) : (Endpoint.start [] s).Reads := by
  have hNone : (Endpoint.start [] s).reading = [] := by
    cases s <;> rfl
  rw [Endpoint.Reads, hNone]
  intro read hMem
  cases hMem

/-- In every run without trouble no read is empty. -/
theorem running_of_reach (h : Reach (system κ now id opened) Untroubled l) :
    Running now id opened l := by
  induction h with
  | init hInit =>
    obtain rfl := hInit
    exact ⟨.init rfl, fun side => reads_start _⟩
  | @step l l' event prior hOk hStep ih =>
    obtain ⟨side, event⟩ := event
    cases event with
    | foreign k m =>
      have hIdle : Idle l (side, .foreign k m) := trivial
      exact (ih.idle hIdle hStep).1
    | poll event =>
      have hIdle : Idle l (side, .poll event) := trivial
      exact (ih.idle hIdle hStep).1
    | endpoint event =>
      cases event with
      | complete c =>
        have hWork : Work l (side, .endpoint (.complete c)) := hOk.2
        exact (ih.work hWork hStep).1
      | send | disconnect | transfer =>
        refine ⟨prior.step hOk hStep, fun side' => ?_⟩
        simp only [system] at hStep
        obtain ⟨p, rfl, hEndpoint⟩ := step_update hStep
        by_cases hHere : side' = side
        · subst hHere
          rw [Function.update_self, Endpoint.Reads, Endpoint.outside_reading (by simp) hEndpoint]
          exact ih.reads side'
        · rw [Function.update_of_ne hHere]
          exact ih.reads side'

theorem converges (κ : Type) (now id : UInt64) (opened : Bool) :
    Converges (system κ now id opened) Work Idle (Running now id opened) (remaining now id)
      (fun l => ∀ side, Delivered l side) :=
  ⟨Running.work, Running.idle, fun hRunning hRest side => hRunning.delivered hRest side⟩

end Link

end MinecraftNetwork
