import MinecraftNetwork.Endpoint.Handshake

/-!
# The order of the bytes on the socket

The handshake writes and the write chain of the messages share a socket and know nothing
of each other: a lambda of `Send` that runs before the handshake is through starts the
write of a header beside, or before, the writes of the handshake
(`frame_before_handshake`). The two chains are kept apart exactly by the handshake being
through when the lambdas run: in every run in which they are posted late enough
(`AfterHandshake`), there is one write at a time, the handshake comes first, and no frame
goes to a peer that has not been validated (`separate_of_afterHandshake`).
-/

namespace MinecraftNetwork

open Runs

def WriteOp.all : List WriteOp :=
  [.header, .body, .validation1, .validation2, .validation3, .validation4]

namespace Endpoint

/-- The bytes handed to the socket, in the order in which the writes were started. -/
def handed (e : Endpoint) : List UInt8 := e.history.flatMap Effect.bytes

/-- The number of outstanding writes. -/
def writes (e : Endpoint) : Nat := (WriteOp.all.map e.outstanding).sum

/-- The writes of the handshake are over: `WriteValidation4` has completed on a server,
`ReadValidation4` has been called on a client. -/
def handshakeSent (e : Endpoint) : Bool :=
  e.history.any Effect.opens && (e.writing .validation4).isEmpty

/-- A lambda of `Send` is run while the writes of the handshake are not over. -/
def runsEarly (e : Endpoint) : Event → Bool
  | .complete .lambda =>
    match e.posted with
    | .send _ :: _ => !e.handshakeSent
    | _ => false
  | _ => false

/-- The lambdas of `Send` run after the writes of the handshake. -/
def AfterHandshake (e : Endpoint) (event : Event) : Prop := e.runsEarly event = false

/-- The peer has given the answer that is asked of it. -/
def Start.Validates : Start → List UInt8 → Prop
  | .created _ _, _ => False
  | .server now _, b => 8 ≤ b.length ∧ LittleEndian.decode64 (b.take 8) = respond now
  | .client _, b => 16 ≤ b.length ∧ LittleEndian.decode64 ((b.drop 8).take 8) =
      respond (respond (LittleEndian.decode64 (b.take 8)))

/-- The peer's part of the handshake that the endpoint must have before it writes. -/
def Start.Challenged : Start → List UInt8 → Prop
  | .client _, b => 8 ≤ b.length
  | _, _ => True

/-- The handshake and the frames do not mix on the socket. -/
structure Separate (s : Start) (e : Endpoint) : Prop where
  single : e.writes ≤ 1
  order : e.handed <+: s.script e.consumed ++ frames e.sent
  challenged : e.handed ≠ [] → s.Challenged e.consumed
  validated : ∀ op bytes, op.sendsFrame = true → .asyncWrite op bytes ∈ e.history →
    s.Validates e.consumed

/-! ## What the stages say about the writes -/

theorem Start.Accepts.validates {s : Start} {p : List UInt8} {id : UInt64} (h : s.Accepts p id)
    (rest : List UInt8) : s.Validates (p ++ rest) := by
  cases s with
  | created => exact h.elim
  | server now id =>
    refine ⟨by simp [h.1], ?_⟩
    rw [List.take_left' h.1]
    exact h.2.1
  | client opened =>
    obtain ⟨hLength, hAnswer, -⟩ := h
    refine ⟨by simp only [List.length_append]; omega, ?_⟩
    rw [List.drop_append_of_le_length (by omega), List.take_append_of_le_length (by simp [hLength]),
      List.take_append_of_le_length (by omega)]
    exact hAnswer

theorem Start.challenged_of_validates {s : Start} {b : List UInt8} (h : s.Validates b) :
    s.Challenged b := by
  cases s with
  | created | server => trivial
  | client opened =>
    have := h.1
    simp only [Start.Challenged]
    omega

theorem Start.script_append {s : Start} {b : List UInt8} (h : s.Challenged b)
    (rest : List UInt8) : s.script (b ++ rest) = s.script b := by
  cases s with
  | created | server => rfl
  | client opened => rw [Start.script, Start.script, List.take_append_of_le_length h]

theorem Start.Accepts.script {s : Start} {p : List UInt8} {id : UInt64} (h : s.Accepts p id)
    (rest : List UInt8) : s.script (p ++ rest) = s.script p := by
  have hValidates := h.validates []
  rw [List.append_nil] at hValidates
  exact Start.script_append (Start.challenged_of_validates hValidates) rest

/-- Once the last exchange has begun, the handshake is written and the peer validated. -/
theorem Stage.opened {s : Start} {k : Option Pending} {d : Dialogue} (h : Stage s k d)
    (hOpening : d.opening = true) :
    d.handed = s.script d.consumed ∧ s.Validates d.consumed := by
  induction h with
  | created hShows | challenge _ _ _ _ hShows | answer _ _ _ _ hShows | reply _ _ _ _ hShows
  | connect _ _ hShows | challenged _ _ hShows | answering _ _ _ _ hShows
  | replied _ _ _ _ hShows =>
    rw [hShows.opening] at hOpening
    cases hOpening
  | name _ _ hAccepts hShows =>
    rw [hShows.handed, hShows.consumed]
    have hValidates := hAccepts.validates []
    rw [List.append_nil] at hValidates
    exact ⟨rfl, hValidates⟩
  | @named _ b b' _ _ _ hLength hLength' hCheck hShows =>
    rw [hShows.handed, hShows.consumed]
    refine ⟨by rw [Start.script, List.take_left' hLength], by simp [hLength, hLength'], ?_⟩
    rw [List.drop_left' hLength, List.take_left' hLength, ← hLength', List.take_length]
    exact hCheck
  | header _ _ hAccepts _ hShows =>
    rw [hShows.handed, hShows.consumed, hAccepts.script]
    exact ⟨rfl, hAccepts.validates _⟩
  | body _ hAccepts _ _ hShows =>
    rw [hShows.handed, hShows.consumed, List.append_assoc, hAccepts.script]
    exact ⟨rfl, hAccepts.validates _⟩
  | rejected _ _ _ hNot _ _ =>
    rw [hNot] at hOpening
    cases hOpening
  | broken _ hAfter ih =>
    subst hAfter
    exact ih hOpening

theorem Start.challenged_of_reports {s : Start} {b : List UInt8} (h : s.reports b ≠ []) :
    s.Challenged b := by
  cases s with
  | created | server => trivial
  | client opened =>
    simp only [Start.Challenged]
    by_contra hShort
    exact h (by rw [Start.reports, if_pos (by omega)])

/-- The writes of the handshake are a prefix of the whole handshake. -/
theorem Stage.handed_prefix {s : Start} {k : Option Pending} {d : Dialogue} (h : Stage s k d) :
    d.handed <+: s.script d.consumed ∧ (d.handed ≠ [] → s.Challenged d.consumed) := by
  by_cases hOpening : d.opening = true
  · obtain ⟨hScript, hValidates⟩ := h.opened hOpening
    exact ⟨hScript ▸ List.prefix_rfl, fun _ => Start.challenged_of_validates hValidates⟩
  induction h with
  | created hShows | connect _ _ hShows | challenged _ _ hShows =>
    rw [hShows.handed]
    exact ⟨List.nil_prefix, fun h => absurd rfl h⟩
  | challenge _ _ _ _ hShows | answer _ _ _ _ hShows =>
    rw [hShows.handed]
    exact ⟨by simp [Start.script], fun _ => trivial⟩
  | reply _ _ _ _ hShows =>
    rw [hShows.handed]
    exact ⟨by simp only [Start.script]; exact List.prefix_append _ _, fun _ => trivial⟩
  | answering _ _ hLength _ hShows | replied _ _ hLength _ hShows =>
    rw [hShows.handed, hShows.consumed]
    refine ⟨?_, fun _ => hLength.ge⟩
    rw [Start.script, ← hLength, List.take_length]
  | name _ _ _ hShows | named _ _ _ _ _ hShows | header _ _ _ _ hShows | body _ _ _ _ hShows =>
    exact absurd hShows.opening hOpening
  | rejected _ hRejects hHanded _ _ _ =>
    refine ⟨hHanded, fun _ => Start.challenged_of_reports ?_⟩
    have hNow := hRejects []
    rw [List.append_nil] at hNow
    simp [hNow]
  | broken _ hAfter ih =>
    subst hAfter
    exact ih hOpening

/-! ## The invariant -/

/-- What the late lambdas buy: the writes are those of the handshake and then those of the
frames, and before the handshake is through nothing has been sent or queued. -/
structure Orderly (s : Start) (e : Endpoint) : Prop where
  stage : InStage s e
  chain : ∃ done, WriteChain e done
  order : e.handed = e.dialogue.handed ++ e.frameHanded
  queue : e.handshakeSent = false → e.connection.outgoingMessages = []
  writing : e.handshakeSent = false → ∀ op, op.sendsFrame = true → e.writing op = []
  history : e.handshakeSent = false → ∀ x ∈ e.history, x.isMain = true

theorem opening_eq (e : Endpoint) : e.dialogue.opening = e.history.any Effect.opens := by
  have hTalk : ∀ x : Effect, (x.isTalk && x.opens) = x.opens := by
    intro x
    cases x with
    | asyncWrite op bytes => cases op <;> rfl
    | asyncRead op n => cases op <;> rfl
    | _ => rfl
  simp only [Dialogue.opening, dialogue, talk, List.any_filter, hTalk]

theorem bytes_main {effects : List Effect} (h : ∀ x ∈ effects, x.isMain = true) :
    effects.flatMap Effect.bytes = (talk effects).flatMap Effect.bytes := by
  induction effects with
  | nil => rfl
  | cons x effects ih =>
    obtain ⟨hx, hRest⟩ := List.forall_mem_cons.mp h
    have hTail := ih hRest
    simp only [talk] at hTail
    cases x with
    | asyncWrite op bytes =>
      have hTalk : (Effect.asyncWrite op bytes).isTalk = true := hx
      simp [talk, hTalk, hTail]
    | _ => simp [talk, List.filter_cons, Effect.isTalk, Effect.bytes, hTail]

theorem bytes_not_talk {effects : List Effect} (h : ∀ x ∈ effects, x.isTalk = false) :
    effects.flatMap Effect.bytes = effects.flatMap Effect.frameBytes := by
  simp only [List.flatMap]
  congr 1
  refine List.map_congr_left fun x hx => ?_
  have hTalk := h x hx
  cases x with
  | asyncWrite op bytes => simp_all [Effect.isTalk, Effect.bytes, Effect.frameBytes]
  | _ => rfl

theorem handshakeSent_iff {e : Endpoint} {k : Option Pending} (hWaits : e.Waits k) :
    e.handshakeSent = true ↔ e.dialogue.opening = true ∧ k ≠ some (.write .validation4) := by
  have hWriting := hWaits.writing .validation4 rfl
  rw [outstanding] at hWriting
  rw [handshakeSent, ← opening_eq, Bool.and_eq_true, List.isEmpty_iff, ← List.length_eq_zero_iff,
    hWriting]
  simp

/-- The handshake stays through. -/
theorem handshakeSent_step {s : Start} {e e' : Endpoint} {event : Event} (hStage : InStage s e)
    (hSent : e.handshakeSent = true) (hStep : e.step event = some e') :
    e'.handshakeSent = true := by
  obtain ⟨k, hWaits, hIn⟩ := hStage
  obtain ⟨k', hWaits', -, hKeep⟩ := hIn.step hWaits hStep
  obtain ⟨hOpening, hNe⟩ := (handshakeSent_iff hWaits).mp hSent
  exact (handshakeSent_iff hWaits').mpr (hKeep hOpening hNe)

/-- A completion of the handshake and read chain adds no byte behind a frame. -/
theorem Orderly.main_order {s : Start} {e e' : Endpoint} {c : Completion} (h : Orderly s e)
    (hMain : c.isMain = true) (hStep : e.step (.complete c) = some e') :
    e'.handed = e'.dialogue.handed ++ e'.frameHanded := by
  have hStage' := h.stage.step hStep
  have hKeep : e.handshakeSent = true → e'.handshakeSent = true :=
    fun hSent => handshakeSent_step h.stage hSent hStep
  simp only [step, Option.map_eq_some_iff] at hStep
  obtain ⟨⟨e₁, effects⟩, hHandle, rfl⟩ := hStep
  obtain ⟨hEffects, -, -, -, hHistory, -⟩ := handle_main hMain hHandle
  have hHanded : (e₁.performAll effects).handed = e.handed ++ effects.flatMap Effect.bytes := by
    simp [handed, hHistory]
  have hDialogue : (e₁.performAll effects).dialogue.handed =
      e.dialogue.handed ++ effects.flatMap Effect.bytes := by
    simp [Dialogue.handed, dialogue, hHistory, bytes_main hEffects]
  have hFrame : (e₁.performAll effects).frameHanded = e.frameHanded := by
    rw [performAll_frameHanded_main _ hEffects, frameHanded, hHistory, frameHanded]
  rw [hHanded, hDialogue, hFrame, h.order]
  cases hSent : e.handshakeSent with
  | false =>
    have hNone : e.frameHanded = [] := frameBytes_main (h.history hSent)
    simp [hNone]
  | true =>
    have hNone : effects.flatMap Effect.bytes = [] := by
      obtain ⟨k, hWaits, hIn⟩ := h.stage
      obtain ⟨k', hWaits', hIn'⟩ := hStage'
      obtain ⟨hScript, hValidates⟩ := hIn.opened ((handshakeSent_iff hWaits).mp hSent).1
      have hScript' := (hIn'.opened ((handshakeSent_iff hWaits').mp (hKeep hSent)).1).1
      have hConsumed : (e₁.performAll effects).dialogue.consumed =
          e.dialogue.consumed ++ c.bytes := by
        simp [dialogue, (handle_resume hMain hHandle).2.2.1]
      rw [hDialogue, hConsumed, Start.script_append (Start.challenged_of_validates hValidates),
        hScript] at hScript'
      exact List.append_right_eq_self.mp hScript'
    simp [hNone]

/-- A lambda, or a completion of the write chain, adds its bytes behind the frames. -/
theorem Orderly.frame_order {s : Start} {e e' : Endpoint} {event : Event} (h : Orderly s e)
    (hFrame : event.isFrame = true) (hStep : e.step event = some e') :
    e'.handed = e'.dialogue.handed ++ e'.frameHanded := by
  have hDialogue := (step_frame hFrame hStep).1
  rw [hDialogue]
  cases event with
  | send m =>
    cases hStep
    exact h.order
  | disconnect =>
    cases hStep
    exact h.order
  | transfer op k =>
    obtain ⟨-, -, -, hHistory, -⟩ := transfer_frame hStep
    rw [handed, frameHanded, hHistory]
    exact h.order
  | complete c =>
    have hMain : c.isMain = false := by simpa [Event.isFrame] using hFrame
    simp only [step, Option.map_eq_some_iff] at hStep
    obtain ⟨⟨e₁, effects⟩, hHandle, rfl⟩ := hStep
    obtain ⟨hEffects, -, hHistory, -⟩ := handle_frame hMain hHandle
    have hOrder := h.order
    simp only [handed, frameHanded] at hOrder
    simp only [handed, frameHanded, performAll_history, hHistory, List.flatMap_append, hOrder,
      bytes_not_talk hEffects, List.append_assoc]

/-- Before the handshake is through, only the handshake and read chain runs. -/
theorem Orderly.quiet_step {s : Start} {e e' : Endpoint} {event : Event} (h : Orderly s e)
    (hOk : AfterHandshake e event) (hSent : e.handshakeSent = false)
    (hStep : e.step event = some e') : e'.connection.outgoingMessages = [] ∧
      (∀ op, op.sendsFrame = true → e'.writing op = []) ∧ ∀ x ∈ e'.history, x.isMain = true := by
  have hQueue := h.queue hSent
  have hWriting := h.writing hSent
  have hHistory := h.history hSent
  cases event with
  | send m =>
    cases hStep
    exact ⟨hQueue, hWriting, hHistory⟩
  | disconnect =>
    cases hStep
    exact ⟨hQueue, hWriting, hHistory⟩
  | transfer op k =>
    obtain ⟨hConnection, -, -, hSame, -⟩ := transfer_frame hStep
    refine ⟨by rw [hConnection, hQueue], fun op' hOp' => ?_, by rw [hSame]; exact hHistory⟩
    have hLength := transfer_outstanding hStep op'
    rw [outstanding, outstanding, hWriting op' hOp'] at hLength
    exact List.eq_nil_of_length_eq_zero hLength
  | complete c =>
    simp only [step, Option.map_eq_some_iff] at hStep
    obtain ⟨⟨e₁, effects⟩, hHandle, rfl⟩ := hStep
    by_cases hMain : c.isMain = true
    · obtain ⟨hEffects, hSame, -, -, hSameHistory, -, -, hSameWriting⟩ :=
        handle_main hMain hHandle
      refine ⟨by rw [performAll_connection, hSame, hQueue], fun op hOp => ?_, fun x hx => ?_⟩
      · rw [performAll_writing, hSameWriting op hOp, hWriting op hOp, write?_main hEffects hOp]
        rfl
      · rw [performAll_history, hSameHistory] at hx
        rcases List.mem_append.mp hx with hx | hx
        · exact hHistory x hx
        · exact hEffects x hx
    · cases c with
      | written op | writeFailed op =>
        have hOp : op.sendsFrame = true := by simpa [Completion.isMain] using hMain
        simp only [handle, hWriting op hOp] at hHandle
        cases hHandle
      | lambda =>
        simp only [handle] at hHandle
        split at hHandle
        · rename_i hPosted
          simp [AfterHandshake, runsEarly, hPosted, hSent] at hOk
        · cases hHandle
          exact ⟨hQueue, hWriting, by simpa [resume, Connection.runClose, performAll] using hHistory⟩
        · cases hHandle
      | connected | connectFailed | read | readFailed => exact absurd rfl hMain

theorem Orderly.step {s : Start} {e e' : Endpoint} {event : Event} (h : Orderly s e)
    (hOk : AfterHandshake e event) (hStep : e.step event = some e') : Orderly s e' := by
  have hOrder : e'.handed = e'.dialogue.handed ++ e'.frameHanded := by
    by_cases hFrame : event.isFrame = true
    · exact h.frame_order hFrame hStep
    · cases event with
      | complete c => exact h.main_order (by simpa [Event.isFrame] using hFrame) hStep
      | send | disconnect | transfer => exact absurd rfl hFrame
  have hQuiet : e'.handshakeSent = false → e.handshakeSent = false := by
    intro hNot
    by_contra hSent
    rw [handshakeSent_step h.stage (by simpa using hSent) hStep] at hNot
    cases hNot
  obtain ⟨done, hChain⟩ := h.chain
  exact ⟨h.stage.step hStep, hChain.step hStep, hOrder,
    fun hNot => (h.quiet_step hOk (hQuiet hNot) hStep).1,
    fun hNot => (h.quiet_step hOk (hQuiet hNot) hStep).2.1,
    fun hNot => (h.quiet_step hOk (hQuiet hNot) hStep).2.2⟩

theorem Orderly.start (lambdas : List Lambda) (s : Start) : Orderly s (start lambdas s) := by
  refine ⟨inStage_start lambdas s, ⟨[], WriteChain.start lambdas s⟩, ?_, ?_, ?_, ?_⟩
  · cases s <;> rfl
  · cases s <;> exact fun _ => rfl
  · intro _ op hOp
    cases s <;> cases op <;> first | rfl | cases hOp
  · intro _ x hx
    cases s with
    | created => cases hx
    | server | client => rw [List.mem_singleton.mp hx]; rfl

theorem orderly_of_reach {s : Start} {e : Endpoint} (h : Reach (system s) AfterHandshake e) :
    Orderly s e := by
  refine h.invariant ?_ fun e event e' hOrderly hOk hStep => hOrderly.step hOk hStep
  rintro _ ⟨lambdas, rfl⟩
  exact Orderly.start lambdas s

/-! ## The writes of a run -/

/-- The frames begun are those of the first messages given to `Send`. -/
theorem WriteChain.frames_prefix {e : Endpoint} {done : List Message} (h : WriteChain e done) :
    e.frameHanded <+: frames e.sent := by
  rw [h.sent]
  cases h.state with
  | idle hQueue _ hHanded _ _ =>
    rw [hHanded]
    simp
  | header hQueue _ hHanded _ _ =>
    rw [hHanded, hQueue]
    simp [frames_cons, Message.frame]
  | body hQueue _ hHanded _ _ =>
    rw [hHanded, hQueue]
    simp [frames_cons]
  | failed hQueue _ hHanded _ _ =>
    rcases hHanded with hHanded | hHanded
    · rw [hHanded, hQueue]
      simp [frames_cons, Message.frame]
    · rw [hHanded, hQueue]
      simp [frames_cons]

theorem WriteChain.outstanding_le {e : Endpoint} {done : List Message} (h : WriteChain e done) :
    e.outstanding .header + e.outstanding .body ≤ 1 := by
  cases h.state <;> omega

/-- After the last exchange has begun, no other write of the handshake is outstanding. -/
theorem Stage.write_opening {s : Start} {op : WriteOp} {d : Dialogue}
    (h : Stage s (some (.write op)) d) (hOpening : d.opening = true) : op = .validation4 := by
  cases h with
  | challenge _ _ _ _ hShows | reply _ _ _ _ hShows | answering _ _ _ _ hShows =>
    rw [hShows.opening] at hOpening
    cases hOpening
  | name => rfl

/-- At most one write of the handshake is outstanding, and none when it is through. -/
theorem Waits.sum_handshake {e : Endpoint} {k : Option Pending} (h : e.Waits k) :
    e.outstanding .validation1 + e.outstanding .validation2 + e.outstanding .validation3 +
      e.outstanding .validation4 ≤ 1 ∧
    ((∀ op, k ≠ some (.write op)) → e.outstanding .validation1 + e.outstanding .validation2 +
      e.outstanding .validation3 + e.outstanding .validation4 = 0) := by
  rw [h.writing .validation1 rfl, h.writing .validation2 rfl, h.writing .validation3 rfl,
    h.writing .validation4 rfl]
  refine ⟨?_, fun hNone => by simp [hNone]⟩
  rcases k with _ | _ | _ | op
  · decide
  · decide
  · simp
  · cases op <;> decide

theorem writes_eq (e : Endpoint) : e.writes = e.outstanding .header + e.outstanding .body +
    (e.outstanding .validation1 + e.outstanding .validation2 + e.outstanding .validation3 +
      e.outstanding .validation4) := by
  simp only [writes, WriteOp.all, List.map_cons, List.map_nil, List.sum_cons, List.sum_nil]
  omega

/-- When the writes of the handshake are over, the others are those of the write chain. -/
theorem writes_handshakeSent {s : Start} {e : Endpoint} (hStage : InStage s e)
    (hSent : e.handshakeSent = true) : e.writes = e.outstanding .header + e.outstanding .body := by
  obtain ⟨k, hWaits, hStage⟩ := hStage
  obtain ⟨hOpening, hNe⟩ := (handshakeSent_iff hWaits).mp hSent
  have hZero := hWaits.sum_handshake.2 fun op hk => by
    subst hk
    exact hNe (by rw [hStage.write_opening hOpening])
  rw [writes_eq, hZero, Nat.add_zero]

theorem Orderly.single {s : Start} {e : Endpoint} (h : Orderly s e) : e.writes ≤ 1 := by
  cases hSent : e.handshakeSent with
  | false =>
    obtain ⟨k, hWaits, -⟩ := h.stage
    have hSum := hWaits.sum_handshake.1
    have hHeader : e.outstanding .header = 0 := by rw [outstanding, h.writing hSent _ rfl]; rfl
    have hBody : e.outstanding .body = 0 := by rw [outstanding, h.writing hSent _ rfl]; rfl
    rw [writes_eq]
    omega
  | true =>
    obtain ⟨done, hChain⟩ := h.chain
    rw [writes_handshakeSent h.stage hSent]
    exact hChain.outstanding_le

/-- The bytes handed to the socket are the handshake and then the frames, and the frames
wait for the peer's answer. -/
theorem Orderly.separate {s : Start} {e : Endpoint} (h : Orderly s e) : Separate s e := by
  obtain ⟨k, hWaits, hStage⟩ := h.stage
  obtain ⟨done, hChain⟩ := h.chain
  obtain ⟨hPrefix, hChallenged⟩ := hStage.handed_prefix
  cases hSent : e.handshakeSent with
  | false =>
    have hHanded : e.handed = e.dialogue.handed := by
      rw [h.order, frameHanded, frameBytes_main (h.history hSent), List.append_nil]
    refine ⟨h.single, ?_, ?_, fun op bytes hOp hMem => ?_⟩
    · rw [hHanded]
      exact hPrefix.trans (List.prefix_append _ _)
    · rw [hHanded]
      exact hChallenged
    · have hMain := h.history hSent _ hMem
      simp [Effect.isMain, hOp] at hMain
  | true =>
    obtain ⟨hOpening, -⟩ := (handshakeSent_iff hWaits).mp hSent
    obtain ⟨hScript, hValidates⟩ := hStage.opened hOpening
    refine ⟨h.single, ?_, fun _ => Start.challenged_of_validates hValidates,
      fun _ _ _ _ => hValidates⟩
    rw [h.order, hScript]
    exact (List.prefix_append_right_inj _).mpr hChain.frames_prefix

/-- **In a run whose lambdas of `Send` run after the handshake, the two chains share the
socket in order.** -/
theorem separate_of_afterHandshake {s : Start} {e : Endpoint}
    (h : Reach (system s) AfterHandshake e) : Separate s e := (orderly_of_reach h).separate

/-! ## A frame before the handshake -/

/-- A server that sends as soon as the connection exists, while its challenge is written. -/
def earlySend : List Event := [.send (Message.new none), .complete .lambda]

/-- **A frame before the handshake**: the challenge and a header are written at once, and
the header goes to a peer that has said nothing. -/
theorem frame_before_handshake :
    ∃ e, Reach (system (.server 0 1)) Free e ∧ ¬ Separate (.server 0 1) e := by
  obtain ⟨e, hReach, hEnd⟩ := Reach.exists_of_free (M := system (.server 0 1)) ⟨[], rfl⟩ earlySend
    (fun e => decide (1 < e.writes)) (by decide)
  exact ⟨e, hReach, fun h => absurd h.single (by simpa using hEnd)⟩

/-- A server whose handshake has succeeded, and which then sends. -/
def lateSend : List Event :=
  [.transfer .validation1 8, .complete (.written .validation1),
    .complete (.read .validation2 (LittleEndian.encode64 (respond 0))),
    .transfer .validation3 8, .complete (.written .validation3),
    .transfer .validation4 8, .complete (.written .validation4),
    .send (Message.new none), .complete .lambda]

theorem separate_of_lateSend :
    ∃ e, Reach (system (.server 0 1)) AfterHandshake e ∧ e.outstanding .header = 1 ∧
      Separate (.server 0 1) e := by
  have hOk : ∀ e event, (!runsEarly e event) = true → AfterHandshake e event :=
    fun e event h => by simpa [AfterHandshake] using h
  obtain ⟨e, hReach, hEnd⟩ := Reach.exists_of_replay (M := system (.server 0 1)) hOk
    ⟨[], rfl⟩ lateSend
    (fun e => e.outstanding .header == 1) (by decide)
  exact ⟨e, hReach, by simpa using hEnd, separate_of_afterHandshake hReach⟩

end Endpoint

end MinecraftNetwork
