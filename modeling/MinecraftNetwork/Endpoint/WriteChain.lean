import MinecraftNetwork.Endpoint.Basic

/-!
# The write chain of the outgoing messages

`performAll_eq` says once what performing a list of effects changes; nothing below unfolds
`perform` again.

`WriteChain` is the invariant of `Send`, `WriteHeader` and `WriteBody` under every order of
lambdas and completions, during the handshake as after it: the messages given to `Send` are
those sent completely, then those in the outgoing queue, then those whose lambda has not
run; and exactly one write of a header or a body is outstanding, that of the front message,
unless the queue is empty or a write has failed (`WriteState`).
-/

namespace MinecraftNetwork

/-- The read an effect starts. -/
def Effect.read? : Effect → Option (ReadOp × Nat)
  | .asyncRead op n => some (op, n)
  | _ => none

/-- The write with a given continuation an effect starts. -/
def Effect.write? (op : WriteOp) : Effect → Option (List UInt8)
  | .asyncWrite op' bytes => if op = op' then some bytes else none
  | _ => none

/-- The bytes an effect hands to the socket. -/
def Effect.bytes : Effect → List UInt8
  | .asyncWrite _ bytes => bytes
  | _ => []

/-- The bytes of a header or a body an effect hands to the socket. -/
def Effect.frameBytes : Effect → List UInt8
  | .asyncWrite op bytes => if op.sendsFrame then bytes else []
  | _ => []

/-- An effect of the handshake and read chain: it starts no write of a header or a body. -/
def Effect.isMain : Effect → Bool
  | .asyncWrite op _ => !op.sendsFrame
  | _ => true

/-- The completions of the handshake and read chain. -/
def Completion.isMain : Completion → Bool
  | .written op | .writeFailed op => !op.sendsFrame
  | .lambda => false
  | _ => true

namespace Endpoint

theorem performAll_cons (e : Endpoint) (effect : Effect) (effects : List Effect) :
    e.performAll (effect :: effects) = (e.perform effect).performAll effects := rfl

/-- What performing a list of effects changes. -/
theorem performAll_eq (e : Endpoint) (effects : List Effect) :
    e.performAll effects = { e with
      connecting := e.connecting || effects.contains .asyncConnect
      reading := e.reading ++ effects.filterMap Effect.read?
      writing := fun op => e.writing op ++ effects.filterMap (Effect.write? op)
      posted := e.posted ++ effects.filterMap Effect.post?
      history := e.history ++ effects } := by
  induction effects generalizing e with
  | nil => simp [performAll]
  | cons effect effects ih =>
    rw [performAll_cons, ih]
    cases effect with
    | asyncWrite op bytes =>
      have hWriting : (fun op' => Function.update e.writing op (e.writing op ++ [bytes]) op' ++
          effects.filterMap (Effect.write? op')) = fun op' => e.writing op' ++
          (Effect.asyncWrite op bytes :: effects).filterMap (Effect.write? op') := by
        funext op'
        by_cases hOp : op' = op
        · subst hOp
          simp [Effect.write?]
        · simp [Effect.write?, hOp]
      simp [perform, hWriting, List.filterMap_cons, Effect.read?, Effect.post?]
    | _ => simp [perform, List.filterMap_cons, Effect.read?, Effect.write?, Effect.post?]

section

variable (e : Endpoint) (effects : List Effect)

@[simp] theorem performAll_connection : (e.performAll effects).connection = e.connection := by
  rw [performAll_eq]

@[simp] theorem performAll_sent : (e.performAll effects).sent = e.sent := by
  rw [performAll_eq]

@[simp] theorem performAll_wire : (e.performAll effects).wire = e.wire := by
  rw [performAll_eq]

@[simp] theorem performAll_consumed : (e.performAll effects).consumed = e.consumed := by
  rw [performAll_eq]

@[simp] theorem performAll_ended : (e.performAll effects).ended = e.ended := by
  rw [performAll_eq]

@[simp] theorem performAll_writeFailed : (e.performAll effects).writeFailed = e.writeFailed := by
  rw [performAll_eq]

@[simp] theorem performAll_history : (e.performAll effects).history = e.history ++ effects := by
  rw [performAll_eq]

@[simp] theorem performAll_reading :
    (e.performAll effects).reading = e.reading ++ effects.filterMap Effect.read? := by
  rw [performAll_eq]

@[simp] theorem performAll_writing (op : WriteOp) :
    (e.performAll effects).writing op = e.writing op ++ effects.filterMap (Effect.write? op) := by
  rw [performAll_eq]

@[simp] theorem performAll_posted :
    (e.performAll effects).posted = e.posted ++ effects.filterMap Effect.post? := by
  rw [performAll_eq]

@[simp] theorem performAll_connecting :
    (e.performAll effects).connecting = (e.connecting || effects.contains .asyncConnect) := by
  rw [performAll_eq]

end

/-! ## The invariant -/

/-- The bytes of headers and bodies handed to the socket. -/
def frameHanded (e : Endpoint) : List UInt8 := e.history.flatMap Effect.frameBytes

/-- The number of outstanding writes of a continuation. -/
def outstanding (e : Endpoint) (op : WriteOp) : Nat := (e.writing op).length

/-- What the write chain is doing, when the messages `done` are sent completely. -/
inductive WriteState (e : Endpoint) (done : List Message) : Prop
  | idle (hQueue : e.connection.outgoingMessages = []) (hFailed : e.writeFailed = false)
      (hHanded : e.frameHanded = frames done)
      (hHeader : e.outstanding .header = 0) (hBody : e.outstanding .body = 0)
  | header {m : Message} {rest : List Message}
      (hQueue : e.connection.outgoingMessages = m :: rest) (hFailed : e.writeFailed = false)
      (hHanded : e.frameHanded = frames done ++ m.header.bytes)
      (hHeader : e.outstanding .header = 1) (hBody : e.outstanding .body = 0)
  | body {m : Message} {rest : List Message}
      (hQueue : e.connection.outgoingMessages = m :: rest) (hFailed : e.writeFailed = false)
      (hHanded : e.frameHanded = frames done ++ m.frame)
      (hHeader : e.outstanding .header = 0) (hBody : e.outstanding .body = 1)
  | failed {m : Message} {rest : List Message}
      (hQueue : e.connection.outgoingMessages = m :: rest) (hFailed : e.writeFailed = true)
      (hHanded : e.frameHanded = frames done ++ m.header.bytes ∨
        e.frameHanded = frames done ++ m.frame)
      (hHeader : e.outstanding .header = 0) (hBody : e.outstanding .body = 0)

/-- Every message given to `Send` is sent, queued, or waits for its lambda. -/
structure WriteChain (e : Endpoint) (done : List Message) : Prop where
  sent : e.sent = done ++ e.connection.outgoingMessages ++ e.posted.filterMap Lambda.message?
  state : WriteState e done

/-- The write chain does not notice a step that leaves its part of the endpoint alone. -/
theorem WriteChain.congr {e e' : Endpoint} {done : List Message} (h : WriteChain e done)
    (hQueue : e'.connection.outgoingMessages = e.connection.outgoingMessages)
    (hSent : e'.sent = e.sent)
    (hPosted : e'.posted.filterMap Lambda.message? = e.posted.filterMap Lambda.message?)
    (hFailed : e'.writeFailed = e.writeFailed) (hHanded : e'.frameHanded = e.frameHanded)
    (hHeader : e'.outstanding .header = e.outstanding .header)
    (hBody : e'.outstanding .body = e.outstanding .body) : WriteChain e' done := by
  refine ⟨by rw [hSent, hQueue, hPosted]; exact h.sent, ?_⟩
  cases h.state with
  | idle h₁ h₂ h₃ h₄ h₅ =>
    exact .idle (hQueue ▸ h₁) (hFailed ▸ h₂) (hHanded ▸ h₃) (hHeader ▸ h₄) (hBody ▸ h₅)
  | header h₁ h₂ h₃ h₄ h₅ =>
    exact .header (hQueue ▸ h₁) (hFailed ▸ h₂) (hHanded ▸ h₃) (hHeader ▸ h₄) (hBody ▸ h₅)
  | body h₁ h₂ h₃ h₄ h₅ =>
    exact .body (hQueue ▸ h₁) (hFailed ▸ h₂) (hHanded ▸ h₃) (hHeader ▸ h₄) (hBody ▸ h₅)
  | failed h₁ h₂ h₃ h₄ h₅ =>
    exact .failed (hQueue ▸ h₁) (hFailed ▸ h₂) (hHanded ▸ h₃) (hHeader ▸ h₄) (hBody ▸ h₅)

/-! ## The handshake and read chain leaves the write chain alone -/

theorem frameBytes_main {effects : List Effect} (h : ∀ x ∈ effects, x.isMain = true) :
    effects.flatMap Effect.frameBytes = [] := by
  rw [List.flatMap_eq_nil_iff]
  intro x hx
  have hMain := h x hx
  cases x <;> simp_all [Effect.isMain, Effect.frameBytes]

theorem write?_main {effects : List Effect} (h : ∀ x ∈ effects, x.isMain = true) {op : WriteOp}
    (hOp : op.sendsFrame = true) : effects.filterMap (Effect.write? op) = [] := by
  rw [List.filterMap_eq_nil_iff]
  intro x hx
  have hMain := h x hx
  cases x with
  | asyncWrite op' bytes =>
    have hNe : op ≠ op' := by
      rintro rfl
      simp [Effect.isMain, hOp] at hMain
    simp [Effect.write?, hNe]
  | _ => rfl

@[simp] theorem messages_post? (effects : List Effect) :
    (effects.filterMap Effect.post?).filterMap Lambda.message? = [] := by
  rw [List.filterMap_filterMap, List.filterMap_eq_nil_iff]
  intro x _
  cases x <;> rfl

theorem performAll_frameHanded_main (e : Endpoint) {effects : List Effect}
    (h : ∀ x ∈ effects, x.isMain = true) :
    (e.performAll effects).frameHanded = e.frameHanded := by
  simp [frameHanded, frameBytes_main h]

theorem performAll_outstanding_main (e : Endpoint) {effects : List Effect}
    (h : ∀ x ∈ effects, x.isMain = true) {op : WriteOp} (hOp : op.sendsFrame = true) :
    (e.performAll effects).outstanding op = e.outstanding op := by
  rw [outstanding, performAll_writing, write?_main h hOp, List.append_nil]
  rfl

end Endpoint

namespace Connection

theorem disconnect_main (c : Connection) : ∀ x ∈ c.disconnect, x.isMain = true := by
  unfold disconnect
  split
  · split <;> simp [Effect.isMain]
  · simp

theorem readValidation_main (owner : ConnectionOwner) (op : ReadOp) (c : Connection) :
    ∀ x ∈ readValidation owner op c, x.isMain = true := by
  unfold readValidation
  split <;> simp [Effect.isMain]

theorem writeValidation_main (owner : ConnectionOwner) {op : WriteOp} (hOp : op.sendsFrame = false)
    (field : Connection → UInt64) (c : Connection) :
    ∀ x ∈ writeValidation owner op field c, x.isMain = true := by
  unfold writeValidation
  split <;> simp [Effect.isMain, hOp]

theorem addToIncomingMessageQueue_main (c : Connection) :
    (∀ x ∈ c.addToIncomingMessageQueue.2, x.isMain = true) ∧
      c.addToIncomingMessageQueue.1.outgoingMessages = c.outgoingMessages := by
  simp [addToIncomingMessageQueue, readHeader, Effect.isMain]

/-- No continuation of a read starts a write of a frame or touches the outgoing queue. -/
theorem readDone_main (c : Connection) (op : ReadOp) (bytes : List UInt8) :
    (∀ x ∈ (c.readDone op bytes).2, x.isMain = true) ∧
      (c.readDone op bytes).1.outgoingMessages = c.outgoingMessages := by
  cases op with
  | header =>
    simp only [readDone, readHeaderDone]
    split
    · simp [readBody, Effect.isMain]
    · exact addToIncomingMessageQueue_main _
  | body => exact addToIncomingMessageQueue_main _
  | validation1 => exact ⟨writeValidation_main _ rfl _ _, rfl⟩
  | validation2 =>
    simp only [readDone, readValidation2Done]
    split
    · exact ⟨List.forall_mem_cons.mpr ⟨rfl, writeValidation_main _ rfl _ _⟩, rfl⟩
    · exact ⟨List.forall_mem_cons.mpr ⟨rfl, disconnect_main _⟩, rfl⟩
  | validation3 =>
    simp only [readDone, readValidation3Done]
    split
    · exact ⟨readValidation_main _ _ _, rfl⟩
    · exact ⟨List.forall_mem_cons.mpr ⟨rfl, disconnect_main _⟩, rfl⟩
  | validation4 =>
    simp [readDone, readValidation4Done, readHeader, Effect.isMain]

theorem writeDone_main (c : Connection) {op : WriteOp} (hOp : op.sendsFrame = false) :
    (∀ x ∈ (c.writeDone op).2, x.isMain = true) ∧
      (c.writeDone op).1.outgoingMessages = c.outgoingMessages := by
  cases op with
  | header | body => cases hOp
  | validation1 | validation2 => exact ⟨readValidation_main _ _ _, rfl⟩
  | validation3 => exact ⟨writeValidation_main _ rfl _ _, rfl⟩
  | validation4 => simp [writeDone, readHeader, Effect.isMain]

end Connection

namespace Endpoint

/-! ## Every step keeps the write chain -/

theorem WriteChain.perform_main {e : Endpoint} {done : List Message} (h : WriteChain e done)
    {result : Connection × List Effect} (hMain : ∀ x ∈ result.2, x.isMain = true)
    (hQueue : result.1.outgoingMessages = e.connection.outgoingMessages) :
    WriteChain ({ e with connection := result.1 }.performAll result.2) done := by
  refine h.congr ?_ (performAll_sent _ _) ?_ (performAll_writeFailed _ _)
    (performAll_frameHanded_main _ hMain) (performAll_outstanding_main _ hMain rfl)
    (performAll_outstanding_main _ hMain rfl)
  · rw [performAll_connection, hQueue]
  · simp

theorem WriteChain.send {e : Endpoint} {done : List Message} (h : WriteChain e done)
    (m : Message) : WriteChain (e.send m) done := by
  refine ⟨by simp [Endpoint.send, h.sent, Lambda.message?], ?_⟩
  cases h.state with
  | idle h₁ h₂ h₃ h₄ h₅ => exact .idle h₁ h₂ h₃ h₄ h₅
  | header h₁ h₂ h₃ h₄ h₅ => exact .header h₁ h₂ h₃ h₄ h₅
  | body h₁ h₂ h₃ h₄ h₅ => exact .body h₁ h₂ h₃ h₄ h₅
  | failed h₁ h₂ h₃ h₄ h₅ => exact .failed h₁ h₂ h₃ h₄ h₅

/-- The bytes of an outstanding write may leave, but the write stays outstanding. -/
theorem transfer_outstanding {e e' : Endpoint} {op : WriteOp} {k : Nat}
    (h : e.transfer op k = some e') (op' : WriteOp) : e'.outstanding op' = e.outstanding op' := by
  unfold Endpoint.transfer at h
  split at h
  · rename_i bytes rest hWriting
    cases h
    by_cases hOp : op' = op
    · subst hOp
      simp [outstanding, hWriting]
    · simp [outstanding, hOp]
  · cases h

theorem transfer_frame {e e' : Endpoint} {op : WriteOp} {k : Nat}
    (h : e.transfer op k = some e') : e'.connection = e.connection ∧ e'.sent = e.sent ∧
      e'.posted = e.posted ∧ e'.history = e.history ∧ e'.connecting = e.connecting ∧
      e'.reading = e.reading ∧ e'.consumed = e.consumed ∧ e'.ended = e.ended ∧
      e'.writeFailed = e.writeFailed := by
  unfold Endpoint.transfer at h
  split at h
  · cases h
    simp
  · cases h

theorem transfer_wire {e e' : Endpoint} {op : WriteOp} {k : Nat}
    (h : e.transfer op k = some e') : e.wire <+: e'.wire := by
  unfold Endpoint.transfer at h
  split at h
  · cases h
    exact List.prefix_append _ _
  · cases h

/-- What the application and the network leave alone in an endpoint. -/
structure Outside (e e' : Endpoint) : Prop where
  connection : e'.connection = e.connection
  history : e'.history = e.history
  consumed : e'.consumed = e.consumed
  ended : e'.ended = e.ended
  writeFailed : e'.writeFailed = e.writeFailed
  wire : e.wire <+: e'.wire

theorem outside_frame {e e' : Endpoint} {event : Event} (hOutside : ∀ c, event ≠ .complete c)
    (h : e.step event = some e') : Outside e e' := by
  cases event with
  | send m | disconnect =>
    cases h
    exact ⟨rfl, rfl, rfl, rfl, rfl, List.prefix_rfl⟩
  | transfer op k =>
    obtain ⟨hConnection, -, -, hHistory, -, -, hConsumed, hEnded, hFailed⟩ := transfer_frame h
    exact ⟨hConnection, hHistory, hConsumed, hEnded, hFailed, transfer_wire h⟩
  | complete c => exact absurd rfl (hOutside c)

theorem transfer_writing {e e' : Endpoint} {op : WriteOp} {k : Nat}
    (h : e.transfer op k = some e') : ∃ bytes rest, e.writing op = bytes :: rest ∧
      e'.writing = Function.update e.writing op (bytes.drop k :: rest) := by
  simp only [transfer] at h
  split at h
  · rename_i bytes rest hWriting
    cases h
    exact ⟨bytes, rest, hWriting, rfl⟩
  · cases h

theorem WriteChain.transfer {e e' : Endpoint} {done : List Message} {op : WriteOp} {k : Nat}
    (h : WriteChain e done) (hStep : e.transfer op k = some e') : WriteChain e' done := by
  obtain ⟨hConnection, hSent, hPosted, hHistory, -, -, -, -, hFailed⟩ := transfer_frame hStep
  refine h.congr ?_ hSent ?_ hFailed ?_ (transfer_outstanding hStep _)
    (transfer_outstanding hStep _)
  · rw [hConnection]
  · rw [hPosted]
  · rw [frameHanded, hHistory, frameHanded]

theorem WriteChain.disconnect {e : Endpoint} {done : List Message} (h : WriteChain e done) :
    WriteChain e.disconnect done :=
  h.congr rfl rfl (by simp [Endpoint.disconnect]) rfl rfl rfl rfl

/-- The write of the next header, at the end of a message or at the first message. -/
theorem writeState_next {e : Endpoint} {done rest : List Message}
    (hQueue : e.connection.outgoingMessages = rest) (hFailed : e.writeFailed = false)
    (hHanded : e.frameHanded = frames done)
    (hHeader : e.outstanding .header = 0) (hBody : e.outstanding .body = 0) :
    WriteState (e.performAll (if !rest.isEmpty then e.connection.writeHeader else [])) done := by
  cases rest with
  | nil => exact .idle hQueue hFailed hHanded hHeader hBody
  | cons m rest =>
    simp only [List.isEmpty_cons, Bool.not_false, if_true, Connection.writeHeader, hQueue]
    refine @WriteState.header _ _ m rest ?_ ?_ ?_ ?_ ?_
    · simpa using hQueue
    · simpa using hFailed
    · simp only [frameHanded] at hHanded
      simp [frameHanded, hHanded, Effect.frameBytes, WriteOp.sendsFrame]
    · simpa [outstanding, Effect.write?] using hHeader
    · simpa [outstanding, Effect.write?] using hBody

/-- A header has been sent: its body follows, or the message is complete. -/
theorem WriteChain.headerWritten {e e' : Endpoint} {done : List Message} (h : WriteChain e done)
    (hStep : e.step (.complete (.written .header)) = some e') : ∃ done', WriteChain e' done' := by
  simp only [step, handle] at hStep
  split at hStep
  · rename_i others hWriting
    cases hStep
    have hOne : e.outstanding .header = others.length + 1 := by simp [outstanding, hWriting]
    cases h.state with
    | @header m rest hQueue hFailed hHanded hHeader hBody =>
      obtain rfl : others = [] := List.eq_nil_of_length_eq_zero (by omega)
      simp only [resume, Connection.writeDone, Connection.writeHeaderDone, hQueue]
      by_cases hLength : m.body.length > 0
      · simp only [hLength, if_true, Connection.writeBody, hQueue]
        refine ⟨done, by simpa [hQueue] using h.sent,
          @WriteState.body _ _ m rest ?_ ?_ ?_ ?_ ?_⟩
        · simpa using hQueue
        · simpa using hFailed
        · simp only [frameHanded] at hHanded
          simp [frameHanded, hHanded, Effect.frameBytes, WriteOp.sendsFrame, Message.frame]
        · simp [outstanding, Effect.write?]
        · simpa [outstanding, Effect.write?] using hBody
      · have hEmpty : m.body = [] := List.eq_nil_of_length_eq_zero (by omega)
        simp only [hLength, if_false, Connection.messageWritten, hQueue]
        refine ⟨done ++ [m], by simpa [hQueue] using h.sent,
          writeState_next rfl hFailed ?_ ?_ ?_⟩
        · simp only [frameHanded] at hHanded
          simp [frameHanded, hHanded, Message.frame, hEmpty]
        · simp [outstanding]
        · simpa [outstanding] using hBody
    | idle _ _ _ hHeader _ | body _ _ _ hHeader _ | failed _ _ _ hHeader _ => omega
  · cases hStep

/-- A body has been sent: the message is complete. -/
theorem WriteChain.bodyWritten {e e' : Endpoint} {done : List Message} (h : WriteChain e done)
    (hStep : e.step (.complete (.written .body)) = some e') : ∃ done', WriteChain e' done' := by
  simp only [step, handle] at hStep
  split at hStep
  · rename_i others hWriting
    cases hStep
    have hOne : e.outstanding .body = others.length + 1 := by simp [outstanding, hWriting]
    cases h.state with
    | @body m rest hQueue hFailed hHanded hHeader hBody =>
      obtain rfl : others = [] := List.eq_nil_of_length_eq_zero (by omega)
      simp only [resume, Connection.writeDone, Connection.writeBodyDone,
        Connection.messageWritten, hQueue]
      refine ⟨done ++ [m], by simpa [hQueue] using h.sent,
        writeState_next rfl hFailed ?_ ?_ ?_⟩
      · simp only [frameHanded] at hHanded
        simp [frameHanded, hHanded]
      · simpa [outstanding] using hHeader
      · simp [outstanding]
    | idle _ _ _ _ hBody | header _ _ _ _ hBody | failed _ _ _ _ hBody => omega
  · cases hStep

/-- A write of the chain has failed: no other follows. -/
theorem WriteChain.frameFailed {e e' : Endpoint} {done : List Message} (h : WriteChain e done)
    {op : WriteOp} (hOp : op.sendsFrame = true)
    (hStep : e.step (.complete (.writeFailed op)) = some e') : WriteChain e' done := by
  simp only [step, handle] at hStep
  split at hStep
  · rename_i bytes others hWriting
    cases hStep
    have hOne : e.outstanding op = others.length + 1 := by simp [outstanding, hWriting]
    have hMain := e.connection.disconnect_main
    refine ⟨by simpa [resume, Connection.failed] using h.sent, ?_⟩
    simp only [resume, Connection.failed]
    cases h.state with
    | @header m rest hQueue hFailed hHanded hHeader hBody =>
      have hHeaderOp : op = .header := by cases op <;> simp_all [WriteOp.sendsFrame]
      subst hHeaderOp
      refine @WriteState.failed _ _ m rest (by simpa using hQueue)
        (by simp [WriteOp.sendsFrame]) (.inl ?_) ?_ ?_
      · rw [performAll_frameHanded_main _ hMain]
        exact hHanded
      · rw [performAll_outstanding_main _ hMain rfl]
        simp only [outstanding, Function.update_self]
        omega
      · rw [performAll_outstanding_main _ hMain rfl]
        simpa [outstanding] using hBody
    | @body m rest hQueue hFailed hHanded hHeader hBody =>
      have hBodyOp : op = .body := by cases op <;> simp_all [WriteOp.sendsFrame]
      subst hBodyOp
      refine @WriteState.failed _ _ m rest (by simpa using hQueue)
        (by simp [WriteOp.sendsFrame]) (.inr ?_) ?_ ?_
      · rw [performAll_frameHanded_main _ hMain]
        exact hHanded
      · rw [performAll_outstanding_main _ hMain rfl]
        simpa [outstanding] using hHeader
      · rw [performAll_outstanding_main _ hMain rfl]
        simp only [outstanding, Function.update_self]
        omega
    | idle _ _ _ hHeader hBody | failed _ _ _ hHeader hBody =>
      cases op <;> simp_all [WriteOp.sendsFrame]
  · cases hStep

/-- The lambda of `Send` queues its message, and starts the write if the queue was empty. -/
theorem WriteChain.lambda {e e' : Endpoint} {done : List Message} (h : WriteChain e done)
    (hStep : e.step (.complete .lambda) = some e') : WriteChain e' done := by
  simp only [step, handle] at hStep
  split at hStep
  · rename_i m others hPosted
    cases hStep
    refine ⟨?_, ?_⟩
    · simpa [resume, Connection.runSend, hPosted, Lambda.message?] using h.sent
    · simp only [resume, Connection.runSend]
      cases h.state with
      | idle hQueue hFailed hHanded hHeader hBody =>
        have hNext := writeState_next (e := { e with
          connection := { e.connection with outgoingMessages := [m] }, posted := others })
          rfl hFailed hHanded hHeader hBody
        simpa [hQueue] using hNext
      | header hQueue hFailed hHanded hHeader hBody =>
        simp only [hQueue, List.isEmpty_cons, Bool.false_eq_true, if_false]
        exact .header rfl hFailed hHanded hHeader hBody
      | body hQueue hFailed hHanded hHeader hBody =>
        simp only [hQueue, List.isEmpty_cons, Bool.false_eq_true, if_false]
        exact .body rfl hFailed hHanded hHeader hBody
      | failed hQueue hFailed hHanded hHeader hBody =>
        simp only [hQueue, List.isEmpty_cons, Bool.false_eq_true, if_false]
        exact .failed rfl hFailed hHanded hHeader hBody
  · rename_i others hPosted
    cases hStep
    refine h.congr rfl rfl ?_ rfl rfl rfl rfl
    simp [resume, Connection.runClose, performAll, hPosted, Lambda.message?, List.filterMap_cons]
  · cases hStep

/-- What a completion of the handshake and read chain leaves as it was. -/
theorem handle_main {e e' : Endpoint} {effects : List Effect} {c : Completion}
    (hMain : c.isMain = true) (h : e.handle c = some (e', effects)) :
    (∀ x ∈ effects, x.isMain = true) ∧
      e'.connection.outgoingMessages = e.connection.outgoingMessages ∧
      e'.sent = e.sent ∧ e'.posted = e.posted ∧ e'.history = e.history ∧ e'.wire = e.wire ∧
      e'.writeFailed = e.writeFailed ∧
      ∀ op, op.sendsFrame = true → e'.writing op = e.writing op := by
  cases c with
  | connected =>
    simp only [handle] at h
    split at h
    · cases h
      exact ⟨Connection.readValidation_main _ _ _, rfl, rfl, rfl, rfl, rfl, rfl, fun _ _ => rfl⟩
    · cases h
  | connectFailed =>
    simp only [handle] at h
    split at h
    · cases h
      exact ⟨Connection.disconnect_main _, rfl, rfl, rfl, rfl, rfl, rfl, fun _ _ => rfl⟩
    · cases h
  | read op bytes =>
    simp only [handle] at h
    split at h
    · cases h
      obtain ⟨hEffects, hQueue⟩ := e.connection.readDone_main op bytes
      exact ⟨hEffects, hQueue, rfl, rfl, rfl, rfl, rfl, fun _ _ => rfl⟩
    · cases h
  | readFailed op n =>
    simp only [handle] at h
    split at h
    · cases h
      exact ⟨Connection.disconnect_main _, rfl, rfl, rfl, rfl, rfl, rfl, fun _ _ => rfl⟩
    · cases h
  | written op =>
    have hOp : op.sendsFrame = false := by simpa [Completion.isMain] using hMain
    simp only [handle] at h
    split at h
    · cases h
      obtain ⟨hEffects, hQueue⟩ := e.connection.writeDone_main hOp
      refine ⟨hEffects, hQueue, rfl, rfl, rfl, rfl, rfl, fun op' hOp' => ?_⟩
      exact Function.update_of_ne (by rintro rfl; simp [hOp] at hOp') _ _
    · cases h
  | writeFailed op =>
    have hOp : op.sendsFrame = false := by simpa [Completion.isMain] using hMain
    simp only [handle] at h
    split at h
    · cases h
      refine ⟨Connection.disconnect_main _, rfl, rfl, rfl, rfl, rfl, ?_, fun op' hOp' => ?_⟩
      · simp [hOp]
      · exact Function.update_of_ne (by rintro rfl; simp [hOp] at hOp') _ _
    · cases h
  | lambda => cases hMain

theorem WriteChain.main {e e' : Endpoint} {done : List Message} (h : WriteChain e done)
    {c : Completion} (hMain : c.isMain = true) (hStep : e.step (.complete c) = some e') :
    WriteChain e' done := by
  simp only [step, Option.map_eq_some_iff] at hStep
  obtain ⟨⟨e₁, effects⟩, hHandle, rfl⟩ := hStep
  obtain ⟨hEffects, hQueue, hSent, hPosted, hHistory, -, hFailed, hWriting⟩ :=
    handle_main hMain hHandle
  refine h.congr ?_ ?_ ?_ ?_ ?_ ?_ ?_
  · rw [performAll_connection, hQueue]
  · rw [performAll_sent, hSent]
  · simp [hPosted]
  · rw [performAll_writeFailed, hFailed]
  · rw [performAll_frameHanded_main _ hEffects, frameHanded, hHistory, frameHanded]
  · rw [performAll_outstanding_main _ hEffects rfl, outstanding, hWriting _ rfl, outstanding]
  · rw [performAll_outstanding_main _ hEffects rfl, outstanding, hWriting _ rfl, outstanding]

/-- **Every step keeps the write chain.** -/
theorem WriteChain.step {e e' : Endpoint} {done : List Message} (h : WriteChain e done)
    {event : Event} (hStep : e.step event = some e') : ∃ done', WriteChain e' done' := by
  cases event with
  | send m =>
    cases hStep
    exact ⟨done, h.send m⟩
  | disconnect =>
    cases hStep
    exact ⟨done, h.disconnect⟩
  | transfer op k => exact ⟨done, h.transfer hStep⟩
  | complete c =>
    by_cases hMain : c.isMain = true
    · exact ⟨done, h.main hMain hStep⟩
    · cases c with
      | lambda => exact ⟨done, h.lambda hStep⟩
      | written op =>
        cases op with
        | header => exact h.headerWritten hStep
        | body => exact h.bodyWritten hStep
        | validation1 | validation2 | validation3 | validation4 => exact absurd rfl hMain
      | writeFailed op =>
        have hOp : op.sendsFrame = true := by simpa [Completion.isMain] using hMain
        exact ⟨done, h.frameFailed hOp hStep⟩
      | connected | connectFailed | read | readFailed => exact absurd rfl hMain

theorem WriteChain.postAll_create (lambdas : List Lambda) (owner : ConnectionOwner)
    (isOpen : Bool) : WriteChain ((create owner isOpen).postAll lambdas) [] := by
  exact ⟨by simp [postAll, create], .idle rfl rfl rfl rfl rfl⟩

theorem WriteChain.start (lambdas : List Lambda) (s : Start) :
    WriteChain (start lambdas s) [] := by
  cases s with
  | created owner isOpen => exact WriteChain.postAll_create lambdas owner isOpen
  | server now id =>
    refine (WriteChain.postAll_create lambdas .dedicatedServer true).perform_main ?_ rfl
    simp [postAll, create, Connection.connectToClient, Connection.isConnected,
      Connection.writeValidation1, Connection.writeValidation, Effect.isMain, WriteOp.sendsFrame]
  | client opened =>
    refine (WriteChain.postAll_create lambdas .dedicatedClient false).perform_main ?_ rfl
    simp [postAll, create, Connection.connectToServer, Effect.isMain]

/-- **The write chain holds in every run**, whatever the handshake and the peer do. -/
theorem exists_writeChain {s : Start} {ok : Endpoint → Event → Prop} {e : Endpoint}
    (h : Runs.Reach (system s) ok e) : ∃ done, WriteChain e done := by
  refine h.invariant (I := fun e => ∃ done, WriteChain e done) ?_ ?_
  · rintro _ ⟨lambdas, rfl⟩
    exact ⟨[], WriteChain.start lambdas s⟩
  · rintro e event e' ⟨done, hChain⟩ - hStep
    exact hChain.step hStep

/-! ## What is pending -/

/-- A handler that has captured the connection is pending. -/
def HasPending (e : Endpoint) : Prop :=
  e.connecting = true ∨ e.reading ≠ [] ∨ (∃ op, e.writing op ≠ []) ∨ e.posted ≠ []

/-- Only what is pending can complete. -/
theorem pending_of_handle {e : Endpoint} {c : Completion} {result : Endpoint × List Effect}
    (h : e.handle c = some result) : e.HasPending := by
  cases c with
  | connected | connectFailed =>
    simp only [handle] at h
    split at h <;> cases h
    exact .inl ‹_›
  | read | readFailed =>
    simp only [handle] at h
    split at h <;> cases h
    exact .inr (.inl (List.ne_nil_of_mem ‹_›))
  | written op | writeFailed op =>
    simp only [handle] at h
    split at h <;> cases h
    rename_i hWriting
    exact .inr (.inr (.inl ⟨op, by simp [hWriting]⟩))
  | lambda =>
    simp only [handle] at h
    split at h <;> cases h <;>
    · rename_i hPosted
      exact .inr (.inr (.inr (by simp [hPosted])))

theorem pending_of_transfer {e e' : Endpoint} {op : WriteOp} {k : Nat}
    (h : e.transfer op k = some e') : e.HasPending := by
  obtain ⟨bytes, rest, hWriting, -⟩ := transfer_writing h
  exact .inr (.inr (.inl ⟨op, by simp [hWriting]⟩))

/-- The effects of a running member function leave the handlers that are pending. -/
theorem pending_performAll {e : Endpoint} (h : e.HasPending) (effects : List Effect) :
    (e.performAll effects).HasPending := by
  rcases h with hConnecting | hReading | ⟨op, hWriting⟩ | hLambda
  · exact .inl (by simp [hConnecting])
  · exact .inr (.inl (by simp [hReading]))
  · exact .inr (.inr (.inl ⟨op, by simp [hWriting]⟩))
  · exact .inr (.inr (.inr (by simp [hLambda])))

end Endpoint

end MinecraftNetwork
