import MinecraftNetwork.Endpoint.WriteOrder

/-!
# What leaves an endpoint

An endpoint that runs the lambdas of `Send` only after it has called `ReadHeader`
(`LateLambda`) puts a prefix of its handshake and of the frames it is given on the wire,
through any failure: up to a failed write the bytes on the wire and those of the
outstanding write are all the bytes handed to the socket, and after it nothing is written
any more (`Wire`).
-/

namespace MinecraftNetwork

namespace Endpoint

/-- The handshake of the endpoint is complete: it has called `ReadHeader`. -/
def completed (e : Endpoint) : Bool := e.dialogue.completed

/-- The lambdas of `Send` run after the handshake. -/
def LateLambda (e : Endpoint) (event : Event) : Prop :=
  event = .complete .lambda → ∀ m rest, e.posted = .send m :: rest → e.completed = true

/-- The bytes of the outstanding writes that have not left. -/
def inFlight (e : Endpoint) : List UInt8 := WriteOp.all.flatMap fun op => (e.writing op).flatten

/-! ## Counting the writes -/

theorem writes_eq_zero {e : Endpoint} : e.writes = 0 ↔ ∀ op, e.writing op = [] := by
  have hAll : ∀ op : WriteOp, op ∈ WriteOp.all := by
    intro op
    cases op <;> decide
  rw [writes, List.sum_eq_zero_iff]
  constructor
  · intro h op
    exact List.eq_nil_of_length_eq_zero (h _ (List.mem_map_of_mem (hAll op)))
  · intro h n hn
    obtain ⟨op, -, rfl⟩ := List.mem_map.mp hn
    rw [outstanding, h op, List.length_nil]

theorem inFlight_nil {e : Endpoint} (h : e.writes = 0) : e.inFlight = [] := by
  rw [inFlight, List.flatMap_eq_nil_iff]
  intro op _
  rw [writes_eq_zero.mp h op, List.flatten_nil]

theorem writes_congr {e e' : Endpoint} (h : ∀ op, e'.outstanding op = e.outstanding op) :
    e'.writes = e.writes := by
  simp only [writes_eq, h]

theorem inFlight_congr {e e' : Endpoint} (h : e'.writing = e.writing) :
    e'.inFlight = e.inFlight := by
  simp only [inFlight, h]

/-- A write is counted once, under its continuation. -/
theorem writes_perform (e : Endpoint) (op : WriteOp) (bytes : List UInt8) :
    (e.perform (.asyncWrite op bytes)).writes = e.writes + 1 ∧
      (e.writes = 0 → (e.perform (.asyncWrite op bytes)).inFlight = bytes) := by
  constructor
  · cases op <;> simp [writes_eq, perform, outstanding] <;> omega
  · intro hZero
    have hNone := writes_eq_zero.mp hZero
    cases op <;> simp [inFlight, WriteOp.all, perform, hNone]

theorem writes_le_performAll (e : Endpoint) (effects : List Effect) :
    e.writes ≤ (e.performAll effects).writes := by
  induction effects generalizing e with
  | nil => exact Nat.le_refl _
  | cons effect effects ih =>
    rw [performAll_cons]
    refine Nat.le_trans ?_ (ih _)
    cases effect with
    | asyncWrite op bytes =>
      rw [(writes_perform e op bytes).1]
      omega
    | _ => exact Nat.le_of_eq (writes_congr fun _ => rfl)

/-- Effects that leave at most one write outstanding add their bytes to those in flight. -/
theorem inFlight_performAll {e : Endpoint} {effects : List Effect}
    (h : (e.performAll effects).writes ≤ 1) :
    (e.performAll effects).inFlight = e.inFlight ++ effects.flatMap Effect.bytes := by
  induction effects generalizing e with
  | nil => simp [performAll]
  | cons effect effects ih =>
    rw [performAll_cons] at h ⊢
    rw [ih h, List.flatMap_cons, ← List.append_assoc]
    congr 1
    cases effect with
    | asyncWrite op bytes =>
      obtain ⟨hCount, hFlight⟩ := writes_perform e op bytes
      have hLe := writes_le_performAll (e.perform (.asyncWrite op bytes)) effects
      have hZero : e.writes = 0 := by omega
      rw [hFlight hZero, inFlight_nil hZero]
      rfl
    | _ => exact (inFlight_congr rfl).trans (List.append_nil _).symm

/-! ## The invariant -/

/-- What is on the wire: all that was handed to the socket but the bytes of the outstanding
write, or, after a failed write, a prefix of it to which nothing is added. -/
inductive Wire (e : Endpoint) : Prop
  | sound (hWire : e.wire ++ e.inFlight = e.handed)
  | dead (hWire : e.wire <+: e.handed) (hNone : e.writes = 0)
      (hDead : e.writeFailed = true ∨ e.ended = true ∧ e.completed = false)

/-- The invariant of an endpoint that runs the lambdas of `Send` late. -/
structure Operational (s : Start) (e : Endpoint) : Prop where
  orderly : Orderly s e
  wire : Wire e

theorem handle_keeps {e e' : Endpoint} {effects : List Effect} {c : Completion}
    (h : e.handle c = some (e', effects)) :
    e'.sent = e.sent ∧ e'.wire = e.wire ∧ e'.history = e.history := by
  cases c with
  | lambda =>
    simp only [handle] at h
    split at h <;> cases h <;> exact ⟨rfl, rfl, rfl⟩
  | connected | connectFailed | read | readFailed | written | writeFailed =>
    simp only [handle] at h
    split at h <;> cases h
    exact ⟨rfl, rfl, rfl⟩

theorem handle_consumed {e e' : Endpoint} {effects : List Effect} {c : Completion}
    (h : e.handle c = some (e', effects)) : e'.consumed = e.consumed ++ c.bytes := by
  by_cases hMain : c.isMain = true
  · exact (handle_resume hMain h).2.2.1
  · obtain ⟨-, -, -, -, -, hConsumed, -⟩ := handle_frame (by simpa using hMain) h
    have hNone : c.bytes = [] := by
      cases c with
      | read => exact absurd rfl hMain
      | _ => rfl
    rw [hConsumed, hNone, List.append_nil]

/-- The bytes of a completed write are no longer in flight, and no other completion but a
failure touches them. -/
theorem handle_inFlight {e e' : Endpoint} {effects : List Effect} {c : Completion}
    (hWritten : ∀ op, c ≠ .writeFailed op) (h : e.handle c = some (e', effects)) :
    e'.inFlight = e.inFlight := by
  cases c with
  | lambda =>
    simp only [handle] at h
    split at h <;> cases h <;> rfl
  | connected | connectFailed | read | readFailed =>
    simp only [handle] at h
    split at h <;> cases h
    rfl
  | written op =>
    simp only [handle] at h
    split at h
    · rename_i hWriting
      cases h
      cases op <;> simp [inFlight, WriteOp.all, hWriting]
    · cases h
  | writeFailed op => exact absurd rfl (hWritten op)

theorem completed_step {e e' : Endpoint} {event : Event} {k : Option Pending} (hWaits : e.Waits k)
    (hCompleted : e.completed = true) (hStep : e.step event = some e') : e'.completed = true := by
  by_cases hFrame : event.isFrame = true
  · rw [completed, (step_frame hFrame hStep).1]
    exact hCompleted
  · cases event with
    | complete c =>
      obtain ⟨-, hDialogue, -⟩ := step_main hWaits (by simpa [Event.isFrame] using hFrame) hStep
      simp only [completed, Dialogue.completed] at hCompleted
      simp [completed, hDialogue, Dialogue.completed, Dialogue.next, hCompleted]
    | send | disconnect | transfer => exact absurd rfl hFrame

/-! ## Steps that hand bytes to the socket -/

theorem Wire.complete {s : Start} {e e' : Endpoint} {c : Completion}
    (hWire : e.wire ++ e.inFlight = e.handed) (hWritten : ∀ op, c ≠ .writeFailed op)
    (hOrderly : Orderly s e') (hStep : e.step (.complete c) = some e') : Wire e' := by
  simp only [step, Option.map_eq_some_iff] at hStep
  obtain ⟨⟨e₁, effects⟩, hHandle, rfl⟩ := hStep
  obtain ⟨-, hSame, hHistory⟩ := handle_keeps hHandle
  refine .sound ?_
  rw [inFlight_performAll hOrderly.single, handle_inFlight hWritten hHandle, performAll_wire, hSame,
    ← List.append_assoc, hWire]
  simp [handed, hHistory]

theorem writes_disconnect (e : Endpoint) (c : Connection) :
    (e.performAll c.disconnect).writes = e.writes := by
  refine writes_congr fun op => ?_
  have hNone : c.disconnect.filterMap (Effect.write? op) = [] := by
    unfold Connection.disconnect
    split
    · split <;> rfl
    · rfl
  rw [outstanding, performAll_writing, hNone, List.append_nil, outstanding]

theorem writes_update {e e' : Endpoint} {op : WriteOp} {bytes : List UInt8}
    {rest : List (List UInt8)} (h : e.writing op = bytes :: rest)
    (h' : e'.writing = Function.update e.writing op rest) : e'.writes + 1 = e.writes := by
  cases op <;> simp [writes_eq, outstanding, h, h'] <;> omega

/-- A failed write of the handshake ends the chain before the handshake is complete. -/
theorem completed_writeFailed {s : Start} {e e' : Endpoint} {op : WriteOp}
    (hStage : InStage s e) (hOp : op.sendsFrame = false)
    (hStep : e.step (.complete (.writeFailed op)) = some e') :
    e'.ended = true ∧ e'.completed = false := by
  obtain ⟨k, hWaits, hStage⟩ := hStage
  obtain ⟨rfl, hDialogue, -⟩ := step_main hWaits (by simp [Completion.isMain, hOp]) hStep
  have hNot : e.dialogue.completed = false := by
    by_contra hCompleted
    exact (hStage.completed (by simpa using hCompleted)).unwritten op rfl
  have hTalk : talk (Connection.failed e.dialogue.connection).2 = [] :=
    e.dialogue.connection.disconnect_talk
  refine ⟨?_, ?_⟩
  · have hEnded : e'.ended = (e.dialogue.next (.writeFailed op)).ended :=
      congrArg Dialogue.ended hDialogue
    rw [hEnded]
    simp [Dialogue.next, Completion.ends, hOp]
  · simp only [Dialogue.completed] at hNot
    rw [completed, hDialogue]
    simp [Dialogue.completed, Dialogue.next, Completion.resume, hTalk, hNot]

/-- The write that fails was the only one. -/
theorem Wire.writeFailed {s : Start} {e e' : Endpoint} {op : WriteOp} (hOrderly : Orderly s e)
    (hWire : e.wire ++ e.inFlight = e.handed)
    (hStep : e.step (.complete (.writeFailed op)) = some e') : Wire e' := by
  have hDead : op.sendsFrame = false → e'.ended = true ∧ e'.completed = false :=
    fun hOp => completed_writeFailed hOrderly.stage hOp hStep
  have hSingle := hOrderly.single
  simp only [step, handle] at hStep
  split at hStep
  · rename_i bytes rest hWriting
    cases hStep
    refine .dead ?_ ?_ ?_
    · have hPrefix : e.wire <+: e.handed := ⟨e.inFlight, hWire⟩
      simp only [resume, Connection.failed, performAll_wire, handed, performAll_history,
        List.flatMap_append]
      exact hPrefix.trans (List.prefix_append _ _)
    · have hLess : Endpoint.writes { e with writing := Function.update e.writing op rest } + 1 =
          e.writes := writes_update hWriting rfl
      simp only [resume, Connection.failed]
      rw [writes_disconnect]
      change Endpoint.writes { e with writing := Function.update e.writing op rest } = 0
      omega
    · cases hOp : op.sendsFrame with
      | true => left; simp [resume]
      | false => exact Or.inr (by simpa [hOp] using hDead hOp)
  · cases hStep

/-- Bytes of the only outstanding write move from the flight to the wire. -/
theorem Wire.transfer {s : Start} {e e' : Endpoint} {op : WriteOp} {n : Nat}
    (hOrderly : Orderly s e) (hWire : e.wire ++ e.inFlight = e.handed)
    (hStep : e.transfer op n = some e') : Wire e' := by
  obtain ⟨-, -, -, hHistory, -⟩ := transfer_frame hStep
  have hSingle := hOrderly.single
  simp only [Endpoint.transfer] at hStep
  split at hStep
  · rename_i bytes rest hWriting
    have hLess : Endpoint.writes { e with writing := Function.update e.writing op rest } + 1 =
        e.writes := writes_update hWriting rfl
    have hZero : Endpoint.writes { e with writing := Function.update e.writing op rest } = 0 := by
      omega
    have hNone := writes_eq_zero.mp hZero
    obtain rfl : rest = [] := by simpa using hNone op
    have hOthers : ∀ op', op' ≠ op → e.writing op' = [] := fun op' hNe => by
      simpa [hNe] using hNone op'
    have hFlight : e.inFlight = bytes ∧ e'.inFlight = bytes.drop n := by
      cases hStep
      cases op <;> simp [inFlight, WriteOp.all, hWriting, hOthers]
    refine .sound ?_
    rw [hFlight.2, handed, hHistory, ← handed, ← hWire, hFlight.1]
    cases hStep
    rw [List.append_assoc, List.take_append_drop]
  · cases hStep

/-! ## After the end of the writes -/

/-- A completion of the read chain adds no write once the handshake is written. -/
theorem Orderly.writes_main {s : Start} {e e' : Endpoint} {c : Completion} (h : Orderly s e)
    (hSent : e.handshakeSent = true) (hMain : c.isMain = true)
    (hStep : e.step (.complete c) = some e') : e'.writes = e.writes := by
  rw [writes_handshakeSent h.stage hSent,
    writes_handshakeSent (h.stage.step hStep) (handshakeSent_step h.stage hSent hStep)]
  simp only [Endpoint.step, Option.map_eq_some_iff] at hStep
  obtain ⟨⟨e₁, effects⟩, hHandle, rfl⟩ := hStep
  obtain ⟨hEffects, -, -, -, -, -, -, hWriting⟩ := handle_main hMain hHandle
  rw [performAll_outstanding_main _ hEffects rfl, performAll_outstanding_main _ hEffects rfl,
    outstanding, outstanding, hWriting _ rfl, hWriting _ rfl, outstanding, outstanding]

/-- After a failed write of a frame the queue is never empty again. -/
theorem WriteChain.failed_queue {e : Endpoint} {done : List Message} (h : WriteChain e done)
    (hFailed : e.writeFailed = true) : e.connection.outgoingMessages ≠ [] := by
  cases h.state with
  | failed hQueue =>
    rw [hQueue]
    exact List.cons_ne_nil _ _
  | idle _ hSound | header _ hSound | body _ hSound =>
    rw [hSound] at hFailed
    cases hFailed

/-- What has stopped writing writes nothing more. -/
theorem Operational.writes_dead {s : Start} {e e' : Endpoint} {c : Completion}
    (h : Operational s e) (hOk : LateLambda e (.complete c)) (hNone : e.writes = 0)
    (hDead : e.writeFailed = true ∨ e.ended = true ∧ e.completed = false)
    (hStep : e.step (.complete c) = some e') :
    e'.writes = 0 ∧ (e'.writeFailed = true ∨ e'.ended = true ∧ e'.completed = false) := by
  obtain ⟨done, hChain⟩ := h.orderly.chain
  by_cases hMain : c.isMain = true
  · rcases hDead with hFailed | ⟨hEnded, -⟩
    · have hSent : e.handshakeSent = true := by
        by_contra hNot
        exact hChain.failed_queue hFailed (h.orderly.queue (by simpa using hNot))
      refine ⟨(h.orderly.writes_main hSent hMain hStep).trans hNone, .inl ?_⟩
      simp only [Endpoint.step, Option.map_eq_some_iff] at hStep
      obtain ⟨⟨e₁, effects⟩, hHandle, rfl⟩ := hStep
      obtain ⟨-, -, -, -, -, -, hSame, -⟩ := handle_main hMain hHandle
      rw [performAll_writeFailed, hSame, hFailed]
    · obtain ⟨k, hWaits, hStage⟩ := h.orderly.stage
      obtain ⟨hPending, -, -⟩ := step_main hWaits hMain hStep
      rw [hStage.ended_none hEnded] at hPending
      cases c with
      | lambda => cases hMain
      | _ => cases hPending
  · have hFrame : (Event.complete c).isFrame = true := by simpa [Event.isFrame] using hMain
    obtain ⟨hDialogue, -⟩ := step_frame hFrame hStep
    have hKeep : e'.ended = e.ended ∧ e'.completed = e.completed :=
      ⟨congrArg Dialogue.ended hDialogue, congrArg Dialogue.completed hDialogue⟩
    rw [hKeep.1, hKeep.2]
    have hWriting := writes_eq_zero.mp hNone
    simp only [Endpoint.step, Option.map_eq_some_iff] at hStep
    obtain ⟨⟨e₁, effects⟩, hHandle, rfl⟩ := hStep
    cases c with
    | lambda =>
      simp only [handle] at hHandle
      split at hHandle
      · rename_i m rest hPosted
        cases hHandle
        have hFailed : e.writeFailed = true := by
          simpa [hOk rfl m rest hPosted] using hDead
        have hQueue := hChain.failed_queue hFailed
        simp only [Connection.runSend, List.isEmpty_eq_false_iff.mpr hQueue]
        exact ⟨hNone, .inl hFailed⟩
      · cases hHandle
        exact ⟨hNone, hDead⟩
      · cases hHandle
    | written op | writeFailed op =>
      simp only [handle, hWriting op] at hHandle
      cases hHandle
    | connected | connectFailed | read | readFailed => exact absurd rfl hMain

theorem Operational.wire_step {s : Start} {e e' : Endpoint} {event : Event} (h : Operational s e)
    (hOk : LateLambda e event) (hOrderly : Orderly s e') (hStep : e.step event = some e') :
    Wire e' := by
  cases event with
  | send m =>
    cases hStep
    cases h.wire with
    | sound hWire => exact .sound hWire
    | dead hWire hNone hDead => exact .dead hWire hNone hDead
  | disconnect =>
    cases hStep
    cases h.wire with
    | sound hWire => exact .sound hWire
    | dead hWire hNone hDead => exact .dead hWire hNone hDead
  | transfer op n =>
    cases h.wire with
    | sound hWire => exact .transfer h.orderly hWire hStep
    | dead _ hNone _ =>
      simp only [Endpoint.step, Endpoint.transfer, writes_eq_zero.mp hNone op] at hStep
      cases hStep
  | complete c =>
    cases h.wire with
    | sound hWire =>
      by_cases hWritten : ∀ op, c ≠ .writeFailed op
      · exact .complete hWire hWritten hOrderly hStep
      · push Not at hWritten
        obtain ⟨op, rfl⟩ := hWritten
        exact .writeFailed h.orderly hWire hStep
    | dead hWire hNone hDead =>
      obtain ⟨hNone', hDead'⟩ := h.writes_dead hOk hNone hDead hStep
      refine .dead ?_ hNone' hDead'
      simp only [Endpoint.step, Option.map_eq_some_iff] at hStep
      obtain ⟨⟨e₁, effects⟩, hHandle, rfl⟩ := hStep
      obtain ⟨-, hSame, hHistory⟩ := handle_keeps hHandle
      simp only [performAll_wire, hSame, handed, performAll_history, hHistory, List.flatMap_append]
      exact hWire.trans (List.prefix_append _ _)

/-! ## Runs -/

/-- A complete handshake is written. -/
theorem InStage.handshakeSent {s : Start} {e : Endpoint} (h : InStage s e)
    (hCompleted : e.completed = true) : e.handshakeSent = true := by
  obtain ⟨k, hWaits, hStage⟩ := h
  obtain ⟨-, hOpening, hUnwritten, -⟩ := hStage.completed hCompleted
  exact (handshakeSent_iff hWaits).mpr ⟨hOpening, hUnwritten _⟩

/-- A late lambda of `Send` runs after the writes of the handshake. -/
theorem InStage.afterHandshake {s : Start} {e : Endpoint} {event : Event} (h : InStage s e)
    (hOk : LateLambda e event) : AfterHandshake e event := by
  unfold AfterHandshake runsEarly
  split
  · split
    · rename_i m rest hPosted
      rw [h.handshakeSent (hOk rfl m rest hPosted)]
      rfl
    · rfl
  · rfl

theorem Operational.step {s : Start} {e e' : Endpoint} {event : Event} (h : Operational s e)
    (hOk : LateLambda e event) (hStep : e.step event = some e') : Operational s e' := by
  have hOrderly := h.orderly.step (h.orderly.stage.afterHandshake hOk) hStep
  exact ⟨hOrderly, h.wire_step hOk hOrderly hStep⟩

theorem Operational.start (lambdas : List Lambda) (s : Start) :
    Operational s (start lambdas s) := by
  refine ⟨Orderly.start lambdas s, .sound ?_⟩
  cases s with
  | created | client => rfl
  | server now id =>
    simp [Endpoint.start, run, postAll, create, Connection.connectToClient,
      Connection.isConnected, Connection.writeValidation1, Connection.writeValidation,
      performAll, perform, inFlight, WriteOp.all, handed, Effect.bytes]

/-! ## What the peer gets -/

/-- **The wire carries the handshake and the frames, in order.** -/
theorem Operational.wire_prefix {s : Start} {e : Endpoint} (h : Operational s e) :
    e.wire <+: s.script e.consumed ++ frames e.sent := by
  have hHanded : e.wire <+: e.handed := by
    cases h.wire with
    | sound hWire => exact ⟨_, hWire⟩
    | dead hWire => exact hWire
  exact hHanded.trans h.orderly.separate.order

/-- **Without an error, and when nothing is left to be written, it carries all of them.** -/
theorem Operational.wire_eq {s : Start} {e : Endpoint} (h : Operational s e)
    (hCompleted : e.completed = true) (hFailed : e.writeFailed = false)
    (hPosted : e.posted = []) (hWriting : ∀ op, e.writing op = []) :
    e.wire = s.script e.consumed ++ frames e.sent := by
  have hNone := writes_eq_zero.mpr hWriting
  obtain ⟨done, hChain⟩ := h.orderly.chain
  obtain ⟨k, -, hStage⟩ := h.orderly.stage
  have hScript : e.dialogue.handed = s.script e.consumed :=
    (hStage.opened (hStage.completed hCompleted).opening).1
  have hFrames : e.frameHanded = frames e.sent := by
    have hHeader : e.outstanding .header = 0 := by rw [outstanding, hWriting]; rfl
    have hBody : e.outstanding .body = 0 := by rw [outstanding, hWriting]; rfl
    cases hChain.state with
    | idle hQueue _ hHanded _ _ =>
      rw [hHanded, hChain.sent, hQueue, hPosted]
      simp
    | header _ _ _ hOne _ => omega
    | body _ _ _ _ hOne => omega
    | failed _ hYes =>
      rw [hFailed] at hYes
      cases hYes
  have hWire : e.wire = e.handed := by
    cases h.wire with
    | sound hWire => rw [← hWire, inFlight_nil hNone, List.append_nil]
    | dead _ _ hDead => simp [hFailed, hCompleted] at hDead
  rw [hWire, h.orderly.order, hScript, hFrames]

/-! ## Late messages -/

/-- The owner sends after the handshake, and messages whose header announces the body. -/
def LateSend (e : Endpoint) : Event → Prop
  | .send m => e.completed = true ∧ m.Announces
  | .disconnect | .transfer _ _ | .complete _ => True

instance (e : Endpoint) (event : Event) : Decidable (LateSend e event) := by
  unfold LateSend
  cases event <;> infer_instance

/-- What an owner that sends late has sent. -/
structure Late (e : Endpoint) : Prop where
  late : e.sent ≠ [] → e.completed = true
  announces : ∀ m ∈ e.sent, m.Announces

theorem Late.lateLambda {e : Endpoint} (h : Late e) (hChain : ∃ done, WriteChain e done)
    (event : Event) : LateLambda e event := by
  rintro - m rest hPosted
  obtain ⟨done, hChain⟩ := hChain
  refine h.late ?_
  rw [hChain.sent, hPosted]
  simp [Lambda.message?]

theorem Late.step {s : Start} {e e' : Endpoint} {event : Event} (h : Late e) (hStage : InStage s e)
    (hOk : LateSend e event) (hStep : e.step event = some e') : Late e' := by
  obtain ⟨k, hWaits, -⟩ := hStage
  have hKeep : e.completed = true → e'.completed = true :=
    fun hCompleted => completed_step hWaits hCompleted hStep
  have hSame : e'.sent = e.sent → Late e' := by
    intro hSame
    refine ⟨?_, ?_⟩
    · rw [hSame]
      exact fun hSome => hKeep (h.late hSome)
    · rw [hSame]
      exact h.announces
  cases event with
  | send m =>
    cases hStep
    refine ⟨fun _ => hKeep hOk.1, fun m' hm => ?_⟩
    rcases List.mem_append.mp hm with hm | hm
    · exact h.announces m' hm
    · rw [List.mem_singleton.mp hm]
      exact hOk.2
  | disconnect =>
    cases hStep
    exact hSame rfl
  | transfer op n => exact hSame (transfer_frame hStep).2.1
  | complete c =>
    simp only [Endpoint.step, Option.map_eq_some_iff] at hStep
    obtain ⟨⟨e₁, effects⟩, hHandle, rfl⟩ := hStep
    exact hSame ((performAll_sent _ _).trans (handle_keeps hHandle).1)

theorem Late.start (s : Start) : Late (start [] s) := by
  have hNone : (Endpoint.start [] s).sent = [] := by
    cases s <;> simp [Endpoint.start, run, postAll, create]
  exact ⟨fun h => absurd hNone h, by simp [hNone]⟩

end Endpoint

end MinecraftNetwork
