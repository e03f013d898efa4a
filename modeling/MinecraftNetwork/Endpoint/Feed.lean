import MinecraftNetwork.Endpoint.Reading

/-!
# An endpoint and an arbitrary stream of bytes

A `Feed` is an endpoint whose own writes succeed and whose peer may send anything: bytes
arrive in chunks of any size, a read completes with the next bytes of the stream when they
are there, and fails when the peer has closed its end before. What the endpoint reports is
`Start.reports` of the bytes received, and a prefix of it while completions are pending
(`reports_of_stream`); the pending completions always come to an end (`drains`).
-/

namespace MinecraftNetwork

open Runs

namespace Endpoint

structure Feed where
  endpoint : Endpoint
  /-- The bytes that have arrived, those read included. -/
  received : List UInt8 := []
  /-- The peer has closed its end. -/
  closed : Bool := false

namespace Feed

/-- The bytes that have arrived and have not been read. -/
def inbox (f : Feed) : List UInt8 := f.received.drop f.endpoint.consumed.length

inductive Event
  | arrive (bytes : List UInt8)
  | close
  | send (m : Message)
  | connected
  | read (op : ReadOp) (n : Nat)
  /-- A read ends at the end of the stream. -/
  | readEnd (op : ReadOp) (n : Nat)
  | written (op : WriteOp)
  | lambda
  deriving DecidableEq, Repr

/-- An event of the endpoint alone: a pending completion or lambda. -/
def Event.isInternal : Event → Bool
  | .arrive _ | .close | .send _ => false
  | _ => true

def act (f : Feed) (event : Endpoint.Event) : Option Feed :=
  (f.endpoint.step event).map fun e => { f with endpoint := e }

def step (f : Feed) : Event → Option Feed
  | .arrive bytes => if f.closed then none else some { f with received := f.received ++ bytes }
  | .close => some { f with closed := true }
  | .send m => f.act (.send m)
  | .connected => f.act (.complete .connected)
  | .read op n =>
    if n ≤ f.inbox.length then f.act (.complete (.read op (f.inbox.take n))) else none
  | .readEnd op n =>
    if f.closed && f.inbox.length < n then f.act (.complete (.readFailed op n)) else none
  | .written op =>
    match f.endpoint.writing op with
    | bytes :: _ =>
      (f.act (.transfer op bytes.length)).bind (act · (.complete (.written op)))
    | [] => none
  | .lambda => f.act (.complete .lambda)

/-- A connection at its start, with messages sent before the handshake. -/
def system (s : Start) : System Feed Event where
  init f := ∃ messages : List Message, f = { endpoint := start (messages.map .send) s }
  step := step

/-- A pending completion or lambda runs. -/
def Internal (f f' : Feed) : Prop :=
  ∃ event : Event, event.isInternal = true ∧ f.step event = some f'

/-- No pending completion or lambda can run. -/
def Settled (f : Feed) : Prop := ∀ f', ¬ Internal f f'

theorem act_eq {f f' : Feed} {event : Endpoint.Event} (h : f.act event = some f') :
    f.endpoint.step event = some f'.endpoint ∧ f'.received = f.received ∧ f'.closed = f.closed := by
  simp only [act, Option.map_eq_some_iff] at h
  obtain ⟨e, hStep, rfl⟩ := h
  exact ⟨hStep, rfl, rfl⟩

/-- The branches of `step`. -/
inductive Step (f : Feed) : Event → Feed → Prop
  | arrive {bytes : List UInt8} (hOpen : f.closed ≠ true) :
    Step f (.arrive bytes) { f with received := f.received ++ bytes }
  | close : Step f .close { f with closed := true }
  | send {m : Message} {f' : Feed} (hAct : f.act (.send m) = some f') : Step f (.send m) f'
  | connected {f' : Feed} (hAct : f.act (.complete .connected) = some f') : Step f .connected f'
  | read {op : ReadOp} {n : Nat} {f' : Feed} (hHere : n ≤ f.inbox.length)
      (hAct : f.act (.complete (.read op (f.inbox.take n))) = some f') : Step f (.read op n) f'
  | readEnd {op : ReadOp} {n : Nat} {f' : Feed} (hClosed : f.closed = true)
      (hShort : f.inbox.length < n) (hAct : f.act (.complete (.readFailed op n)) = some f') :
    Step f (.readEnd op n) f'
  | written {op : WriteOp} {n : Nat} {f₁ f' : Feed} (hTransfer : f.act (.transfer op n) = some f₁)
      (hWritten : f₁.act (.complete (.written op)) = some f') : Step f (.written op) f'
  | lambda {f' : Feed} (hAct : f.act (.complete .lambda) = some f') : Step f .lambda f'

theorem step_cases {f f' : Feed} {event : Event} (h : f.step event = some f') :
    Step f event f' := by
  cases event with
  | arrive bytes =>
    simp only [step] at h
    split at h <;> cases h
    exact .arrive ‹_›
  | close =>
    cases h
    exact .close
  | send m => exact .send h
  | connected => exact .connected h
  | read op n =>
    simp only [step] at h
    split at h
    · exact .read ‹_› h
    · cases h
  | readEnd op n =>
    simp only [step] at h
    split at h
    · rename_i hEnd
      simp only [Bool.and_eq_true, decide_eq_true_eq] at hEnd
      exact .readEnd hEnd.1 hEnd.2 h
    · cases h
  | written op =>
    simp only [step] at h
    split at h
    · obtain ⟨f₁, hTransfer, hWritten⟩ := Option.bind_eq_some_iff.mp h
      exact .written hTransfer hWritten
    · cases h
  | lambda => exact .lambda h

/-! ## The invariant -/

/-- The endpoint is in a stage, has read a prefix of what has arrived, and has reported
everything if its chain has stopped. -/
structure Reads (s : Start) (f : Feed) (k : Option Pending) : Prop where
  waits : f.endpoint.Waits k
  stage : Stage s k f.endpoint.dialogue
  consumed : f.received = f.endpoint.consumed ++ f.inbox
  told : k = none → ∀ after, (f.closed = true → after = []) →
    s.reports (f.received ++ after) = f.endpoint.reports

theorem Reads.of_consumed {s : Start} {f : Feed} {k : Option Pending} (rest : List UInt8)
    (hWaits : f.endpoint.Waits k) (hStage : Stage s k f.endpoint.dialogue)
    (hReceived : f.received = f.endpoint.consumed ++ rest)
    (hTold : k = none → ∀ after, (f.closed = true → after = []) →
      s.reports (f.received ++ after) = f.endpoint.reports) : Reads s f k := by
  refine ⟨hWaits, hStage, ?_, hTold⟩
  rw [inbox, hReceived, List.drop_left]

/-- An event of the write chain leaves the reader alone. -/
theorem Reads.frame {s : Start} {f f' : Feed} {k : Option Pending} {event : Endpoint.Event}
    (h : Reads s f k) (hFrame : event.isFrame = true) (hAct : f.act event = some f') :
    Reads s f' k ∧ f'.inbox = f.inbox := by
  obtain ⟨hStep, hReceived, hClosed⟩ := act_eq hAct
  obtain ⟨hDialogue, hKeep⟩ := step_frame hFrame hStep
  have hConsumed : f'.endpoint.consumed = f.endpoint.consumed :=
    congrArg Dialogue.consumed hDialogue
  have hReports : f'.endpoint.reports = f.endpoint.reports := by
    rw [← dialogue_reports, hDialogue, dialogue_reports]
  refine ⟨.of_consumed f.inbox (hKeep k h.waits) ?_ ?_ ?_, ?_⟩
  · rw [hDialogue]
    exact h.stage
  · rw [hReceived, hConsumed]
    exact h.consumed
  · rw [hReceived, hClosed, hReports]
    exact h.told
  · rw [inbox, inbox, hReceived, hConsumed]

/-- A completion of the chain reads the next bytes, or meets the end of the stream. -/
theorem Reads.main {s : Start} {f f' : Feed} {k : Pending} {c : Completion} {rest : List UInt8}
    (h : Reads s f (some k)) (hMain : c.isMain = true) (hk : c.pending? = some k)
    (hInbox : f.inbox = c.bytes ++ rest)
    (hCause : Done k c ∨ ∃ op n, c = .readFailed op n ∧ f.closed = true ∧ f.inbox.length < n)
    (hAct : f.act (.complete c) = some f') :
    ∃ k', Reads s f' k' ∧ f'.inbox = rest ∧
      (talk (c.resume f.endpoint.dialogue.connection).2).filterMap Effect.pending? =
        k'.toList := by
  obtain ⟨hStep, hReceived, hClosed⟩ := act_eq hAct
  obtain ⟨-, hDialogue, hNext⟩ := step_main h.waits hMain hStep
  obtain ⟨k', hStage, hStarts, -, hTold⟩ := h.stage.next hMain hk
  have hConsumed : f'.endpoint.consumed = f.endpoint.consumed ++ c.bytes :=
    congrArg Dialogue.consumed hDialogue
  have hSplit : f'.received = f'.endpoint.consumed ++ rest := by
    rw [hReceived, hConsumed, h.consumed, hInbox, List.append_assoc]
  have hReports : f'.endpoint.reports = (f.endpoint.dialogue.next c).reports := by
    rw [← hDialogue, dialogue_reports]
  refine ⟨k', .of_consumed rest (hNext k' hStarts) (hDialogue ▸ hStage) hSplit ?_, ?_, hStarts⟩
  · intro hk' after hAfter
    rcases hCause with hDone | ⟨op, n, rfl, hEnd, hShort⟩
    · have hAll := hTold hk' hDone (rest ++ after)
      rw [hReports, ← hAll, hSplit, List.append_assoc, ← hDialogue]
      rfl
    · obtain rfl := hAfter (hClosed.trans hEnd)
      obtain rfl : k = .read op n := (Option.some.inj hk).symm
      have hBlocked := h.stage.reports_blocked hShort
      have hTalk : talk (Connection.failed f.endpoint.dialogue.connection).2 = [] :=
        f.endpoint.dialogue.connection.disconnect_talk
      rw [List.append_nil, hReports, hReceived, h.consumed]
      simp only [Dialogue.reports, Dialogue.next, Completion.resume, hTalk, List.append_nil]
      exact hBlocked.symm
  · rw [inbox, hSplit, List.drop_left]

/-! ## Work -/

/-- A bound for what an outstanding operation can still lead to without new bytes. -/
def cost : Option Pending → Nat
  | none => 0
  | some (.read _ _) => 5
  | some (.write .validation3) => 7
  | some (.connect) | some (.write _) => 6

/-- A bound for what the posted lambdas and the outgoing messages can still lead to. -/
def chainWork (e : Endpoint) : Nat :=
  3 * e.posted.length + (2 * e.connection.outgoingMessages.length - e.outstanding .body)

def work (f : Feed) (k : Option Pending) : Nat :=
  6 * f.inbox.length + cost k + chainWork f.endpoint

theorem length_post?_disconnect (c : Connection) :
    (c.disconnect.filterMap Effect.post?).length ≤ 1 := by
  unfold Connection.disconnect
  split
  · split <;> decide
  · decide

theorem length_post?_readDone (c : Connection) (op : ReadOp) (bytes : List UInt8) :
    ((c.readDone op bytes).2.filterMap Effect.post?).length ≤ 1 := by
  cases op with
  | header =>
    simp only [Connection.readDone, Connection.readHeaderDone]
    split
    · exact Nat.zero_le _
    · exact Nat.zero_le _
  | body | validation4 => exact Nat.zero_le _
  | validation1 =>
    simp only [Connection.readDone, Connection.readValidation1Done, Connection.writeValidation2,
      Connection.writeValidation]
    split <;> exact Nat.zero_le _
  | validation2 =>
    simp only [Connection.readDone, Connection.readValidation2Done, Connection.writeValidation3,
      Connection.writeValidation]
    split
    · split <;> exact Nat.zero_le _
    · exact length_post?_disconnect _
  | validation3 =>
    simp only [Connection.readDone, Connection.readValidation3Done, Connection.readValidation4,
      Connection.readValidation]
    split
    · split <;> exact Nat.zero_le _
    · exact length_post?_disconnect _

theorem cost_le (k : Option Pending) : cost k ≤ 7 := by
  rcases k with _ | _ | _ | op
  · decide
  · decide
  · exact (by decide : 5 ≤ 7)
  · cases op <;> decide

theorem cost_of_read {effects : List Effect} {k' : Option Pending} {op : ReadOp} {n bound : Nat}
    (hEffects : effects = [] ∨ effects = [.asyncRead op n])
    (hStarts : (talk effects).filterMap Effect.pending? = k'.toList) (hBound : 5 < bound) :
    cost k' + 3 * (effects.filterMap Effect.post?).length < bound := by
  rcases hEffects with rfl | rfl
  · cases k' with
    | none => exact (Nat.zero_le 5).trans_lt hBound
    | some k => cases hStarts
  · cases k' with
    | none => cases hStarts
    | some k =>
      cases hStarts
      exact hBound

theorem readValidation_eq (owner : ConnectionOwner) (op : ReadOp) (c : Connection) :
    Connection.readValidation owner op c = [] ∨
      Connection.readValidation owner op c = [.asyncRead op 8] := by
  unfold Connection.readValidation
  split
  · exact Or.inr rfl
  · exact Or.inl rfl

theorem writeValidation4_eq (c : Connection) : c.writeValidation4 = [] ∨
    c.writeValidation4 = [.asyncWrite .validation4 (LittleEndian.encode64 c.id)] := by
  unfold Connection.writeValidation4 Connection.writeValidation
  split
  · exact Or.inr rfl
  · exact Or.inl rfl

/-- The next operation of the chain is cheaper, unless bytes have been read. -/
theorem cost_resume {k : Pending} {k' : Option Pending} {c : Completion} (conn : Connection)
    (hMain : c.isMain = true) (hk : c.pending? = some k)
    (hBytes : ∀ op bytes, c = .read op bytes → 0 < bytes.length)
    (hStarts : (talk (c.resume conn).2).filterMap Effect.pending? = k'.toList) :
    cost k' + 3 * ((c.resume conn).2.filterMap Effect.post?).length <
      cost (some k) + 6 * c.bytes.length := by
  have hFailed : c.resume conn = conn.failed → 5 ≤ cost (some k) →
      cost k' + 3 * ((c.resume conn).2.filterMap Effect.post?).length <
        cost (some k) + 6 * c.bytes.length := by
    intro hResume hCost
    rw [hResume, Connection.failed, conn.disconnect_talk] at hStarts
    have hPost := length_post?_disconnect conn
    rw [hResume, Connection.failed]
    cases k' with
    | none =>
      have hNone : cost none = 0 := rfl
      simp only
      omega
    | some k' => cases hStarts
  cases c with
  | connected =>
    cases hk
    exact cost_of_read (readValidation_eq _ _ _) hStarts (by decide)
  | connectFailed =>
    cases hk
    exact hFailed rfl (by decide)
  | readFailed op n =>
    cases hk
    exact hFailed rfl (Nat.le_refl 5)
  | writeFailed op =>
    cases hk
    exact hFailed rfl (by cases op <;> decide)
  | read op bytes =>
    cases hk
    have hLength := hBytes op bytes rfl
    have hPost := length_post?_readDone conn op bytes
    have hCost := cost_le k'
    have hRead : cost (some (.read op bytes.length)) = 5 := rfl
    simp only [Completion.resume, Completion.bytes]
    omega
  | written op =>
    cases hk
    cases op with
    | header | body => cases hMain
    | validation1 | validation2 =>
      exact cost_of_read (readValidation_eq _ _ _) hStarts (by decide)
    | validation3 =>
      simp only [Completion.resume, Connection.writeDone] at hStarts ⊢
      rcases writeValidation4_eq conn with hEffects | hEffects <;> rw [hEffects] at hStarts ⊢
      · cases k' with
        | none => decide
        | some k => cases hStarts
      · cases k' with
        | none => cases hStarts
        | some k =>
          cases hStarts
          exact (by decide : 6 < 7)
    | validation4 => exact cost_of_read (Or.inr rfl) hStarts (by decide)
  | lambda => cases hMain

theorem chainWork_main {e e' : Endpoint} {c : Completion} (hMain : c.isMain = true)
    (hStep : e.step (.complete c) = some e') :
    chainWork e' = chainWork e +
      3 * ((c.resume e.connection).2.filterMap Effect.post?).length := by
  simp only [Endpoint.step, Option.map_eq_some_iff] at hStep
  obtain ⟨⟨e₁, effects⟩, hHandle, rfl⟩ := hStep
  obtain ⟨hEffects, hQueue, -, hPosted, -, -, -, hWriting⟩ := handle_main hMain hHandle
  obtain ⟨-, rfl, -⟩ := handle_resume hMain hHandle
  have hBody : (e₁.performAll (c.resume e.connection).2).outstanding .body =
      e.outstanding .body := by
    rw [performAll_outstanding_main _ hEffects rfl, outstanding, hWriting _ rfl, outstanding]
  simp only [chainWork, performAll_posted, performAll_connection, hQueue, hPosted, hBody,
    List.length_append]
  omega

theorem chainWork_transfer {e e' : Endpoint} {op : WriteOp} {n : Nat}
    (hStep : e.step (.transfer op n) = some e') : chainWork e' = chainWork e := by
  obtain ⟨hConnection, -, hPosted, -⟩ := transfer_frame hStep
  rw [chainWork, chainWork, hConnection, hPosted, transfer_outstanding hStep]

/-- The write chain's part of a header write: no body is started and nothing is posted. -/
theorem writeHeader_work (c : Connection) :
    c.writeHeader.filterMap (Effect.write? .body) = [] ∧
      c.writeHeader.filterMap Effect.post? = [] := by
  unfold Connection.writeHeader
  split <;> exact ⟨rfl, rfl⟩

theorem next_work (c : Connection) (idle : Bool) :
    (if idle then c.writeHeader else []).filterMap (Effect.write? .body) = [] ∧
      (if idle then c.writeHeader else []).filterMap Effect.post? = [] := by
  cases idle
  · exact ⟨rfl, rfl⟩
  · exact writeHeader_work c

theorem body_le_queue {e : Endpoint} {done : List Message} (hChain : WriteChain e done) :
    e.outstanding .body ≤ e.connection.outgoingMessages.length := by
  cases hChain.state with
  | idle _ _ _ _ hBody | header _ _ _ _ hBody | failed _ _ _ _ hBody => omega
  | body hQueue _ _ _ hBody =>
    rw [hBody, hQueue, List.length_cons]
    omega

theorem chainWork_lambda {e e' : Endpoint} {done : List Message} (hChain : WriteChain e done)
    (hStep : e.step (.complete .lambda) = some e') : chainWork e' < chainWork e := by
  have hBody := body_le_queue hChain
  simp only [Endpoint.step, handle] at hStep
  split at hStep
  · rename_i m rest hPosted
    cases hStep
    obtain ⟨hWrites, hPosts⟩ := next_work
      { e.connection with outgoingMessages := e.connection.outgoingMessages ++ [m] }
      e.connection.outgoingMessages.isEmpty
    simp only [outstanding] at hBody
    simp only [chainWork, resume, Connection.runSend, performAll_writing, performAll_posted,
      performAll_connection, hWrites, hPosts, hPosted, outstanding, List.length_append,
      List.length_cons, List.length_nil]
    omega
  · rename_i rest hPosted
    cases hStep
    simp only [chainWork, resume, Connection.runClose, performAll, List.foldl_nil, hPosted,
      outstanding, List.length_cons]
    omega
  · cases hStep

theorem chainWork_written {e e' : Endpoint} {done : List Message} {op : WriteOp}
    (hChain : WriteChain e done) (hOp : op.sendsFrame = true)
    (hStep : e.step (.complete (.written op)) = some e') : chainWork e' < chainWork e := by
  simp only [Endpoint.step, handle] at hStep
  split at hStep
  · rename_i others hWriting
    cases hStep
    have hOne : e.outstanding op = others.length + 1 := by simp [outstanding, hWriting]
    cases hChain.state with
    | @header m rest hQueue _ _ hHeader hBody =>
      have hHeaderOp : op = .header := by cases op <;> simp_all [WriteOp.sendsFrame]
      subst hHeaderOp
      simp only [outstanding] at hBody
      simp only [resume, Connection.writeDone, Connection.writeHeaderDone, hQueue]
      by_cases hLength : m.body.length > 0
      · simp [chainWork, hLength, Connection.writeBody, hQueue, List.filterMap_cons,
          Effect.write?, Effect.post?, outstanding, List.length_eq_zero_iff.mp hBody]
      · obtain ⟨hWrites, hPosts⟩ := next_work { e.connection with outgoingMessages := rest }
          (!rest.isEmpty)
        simp only [hLength, if_false, Connection.messageWritten, hQueue, chainWork,
          performAll_writing, performAll_posted, performAll_connection, hWrites, hPosts,
          outstanding, List.length_append, List.length_cons, List.length_nil]
        simp [hBody]
    | @body m rest hQueue _ _ hHeader hBody =>
      have hBodyOp : op = .body := by cases op <;> simp_all [WriteOp.sendsFrame]
      subst hBodyOp
      obtain ⟨hWrites, hPosts⟩ := next_work { e.connection with outgoingMessages := rest }
        (!rest.isEmpty)
      have hNone : others.length = 0 := by omega
      simp only [outstanding] at hBody
      simp only [resume, Connection.writeDone, Connection.writeBodyDone,
        Connection.messageWritten, hQueue, chainWork, performAll_writing, performAll_posted,
        performAll_connection, hWrites, hPosts, outstanding, List.length_append,
        List.length_cons, List.length_nil, hBody, Function.update_self, hNone]
      omega
    | idle _ _ _ hHeader hBody | failed _ _ _ hHeader hBody =>
      cases op <;> simp_all [WriteOp.sendsFrame]
  · cases hStep

/-! ## Every internal event makes progress -/

theorem Reads.main_work {s : Start} {f f' : Feed} {k : Option Pending} {c : Completion}
    {rest : List UInt8} (h : Reads s f k) (hMain : c.isMain = true)
    (hInbox : f.inbox = c.bytes ++ rest)
    (hCause : (∀ k, c.pending? = some k → Done k c) ∨
      ∃ op n, c = .readFailed op n ∧ f.closed = true ∧ f.inbox.length < n)
    (hAct : f.act (.complete c) = some f') : ∃ k', Reads s f' k' ∧ work f' k' < work f k := by
  obtain ⟨hStep, -, -⟩ := act_eq hAct
  obtain ⟨rfl, -, -⟩ := step_main h.waits hMain hStep
  cases hk : c.pending? with
  | none => cases c <;> cases hk; cases hMain
  | some k =>
    rw [hk] at h
    obtain ⟨k', hReads, hRest, hStarts⟩ :=
      h.main hMain hk hInbox (hCause.imp_left fun hDone => hDone k hk) hAct
    refine ⟨k', hReads, ?_⟩
    have hBytes : ∀ op bytes, c = .read op bytes → 0 < bytes.length := by
      rintro op bytes rfl
      cases hk
      exact h.stage.read_pos
    have hTalk := (f.endpoint.connection.resume_core hMain).2
    have hCost := cost_resume f.endpoint.connection hMain hk hBytes
      (by rw [← hTalk]; exact hStarts)
    have hChainWork := chainWork_main hMain hStep
    rw [work, work, hRest, hInbox, hChainWork, List.length_append]
    omega

theorem Reads.frame_work {s : Start} {f f' : Feed} {k : Option Pending} {event : Endpoint.Event}
    (h : Reads s f k) (hFrame : event.isFrame = true) (hAct : f.act event = some f')
    (hLess : chainWork f'.endpoint < chainWork f.endpoint) :
    ∃ k', Reads s f' k' ∧ work f' k' < work f k := by
  obtain ⟨hReads, hInbox⟩ := h.frame hFrame hAct
  refine ⟨k, hReads, ?_⟩
  rw [work, work, hInbox]
  omega

/-- An internal event keeps the reader's invariant and leaves less work. -/
theorem Reads.internal {s : Start} {f f' : Feed} {k : Option Pending} {done : List Message}
    {event : Event} (h : Reads s f k) (hChain : WriteChain f.endpoint done)
    (hInternal : event.isInternal = true) (hStep : f.step event = some f') :
    ∃ k', Reads s f' k' ∧ work f' k' < work f k := by
  cases step_cases hStep with
  | arrive | close | send => cases hInternal
  | connected hAct =>
    exact h.main_work rfl (List.nil_append _).symm (Or.inl fun k hk => by cases hk; exact .connect)
      hAct
  | @read op n _ _ hAct =>
    refine h.main_work rfl (List.take_append_drop n f.inbox).symm (Or.inl fun k hk => ?_) hAct
    cases hk
    exact .read rfl
  | @readEnd op n _ hClosed hShort hAct =>
    exact h.main_work rfl (List.nil_append _).symm (Or.inr ⟨op, n, rfl, hClosed, hShort⟩) hAct
  | @written op n f₁ _ hTransfer hWritten =>
    obtain ⟨hReads, hInbox⟩ := h.frame rfl hTransfer
    have hWork : work f₁ k = work f k := by
      rw [work, work, hInbox, chainWork_transfer (act_eq hTransfer).1]
    rw [← hWork]
    by_cases hOp : op.sendsFrame = true
    · exact hReads.frame_work (by simp [Endpoint.Event.isFrame, Completion.isMain, hOp]) hWritten
        (chainWork_written (hChain.transfer (act_eq hTransfer).1) hOp (act_eq hWritten).1)
    · refine hReads.main_work (by simp [Completion.isMain, hOp]) (List.nil_append _).symm
        (Or.inl fun k hk => ?_) hWritten
      cases hk
      exact .write
  | lambda hAct => exact h.frame_work rfl hAct (chainWork_lambda hChain (act_eq hAct).1)

theorem Settled.step {f : Feed} (h : Settled f) (event : Event)
    (hInternal : event.isInternal = true) : f.step event = none := by
  cases hStep : f.step event with
  | none => rfl
  | some f' => exact absurd ⟨event, hInternal, hStep⟩ (h f')

/-- A settled feed waits, if at all, for bytes that have not come. -/
theorem Settled.waits {s : Start} {f : Feed} {k : Option Pending} (h : Settled f)
    (hReads : Reads s f k) : k = none ∨ ∃ op n, k = some (.read op n) ∧ f.inbox.length < n := by
  cases k with
  | none => exact Or.inl rfl
  | some k =>
    right
    cases k with
    | connect =>
      have hConnected := h.step .connected rfl
      simp [Feed.step, act, Endpoint.step, handle, hReads.waits.connecting] at hConnected
    | read op n =>
      refine ⟨op, n, rfl, ?_⟩
      have hMem : (op, n) ∈ f.endpoint.reading := by simp [hReads.waits.reading, Pending.read?]
      by_contra hLe
      have hRead := h.step (.read op n) rfl
      have hLength : (f.inbox.take n).length = n := by
        rw [List.length_take]
        omega
      simp [Feed.step, act, Endpoint.step, handle, hLength, hMem, Nat.not_lt.mp hLe] at hRead
    | write op =>
      have hOne := hReads.waits.writing op hReads.stage.write_handshake
      have hWritten := h.step (.written op) rfl
      cases hWriting : f.endpoint.writing op with
      | nil => simp [outstanding, hWriting] at hOne
      | cons bytes rest =>
        simp [Feed.step, hWriting, act, Endpoint.step, transfer, handle] at hWritten

/-! ## Runs -/

theorem WriteChain.act {f f' : Feed} {event : Endpoint.Event}
    (h : ∃ done, WriteChain f.endpoint done) (hAct : f.act event = some f') :
    ∃ done, WriteChain f'.endpoint done := by
  obtain ⟨done, hChain⟩ := h
  exact hChain.step (act_eq hAct).1

theorem chain_step {f f' : Feed} {event : Event} (h : ∃ done, WriteChain f.endpoint done)
    (hStep : f.step event = some f') : ∃ done, WriteChain f'.endpoint done := by
  cases step_cases hStep with
  | arrive | close => exact h
  | send hAct | connected hAct | lambda hAct => exact WriteChain.act h hAct
  | read _ hAct | readEnd _ _ hAct => exact WriteChain.act h hAct
  | written hTransfer hWritten => exact WriteChain.act (WriteChain.act h hTransfer) hWritten

/-- The invariant of a feed: the reader's and the write chain's. -/
def Sound (s : Start) (f : Feed) : Prop :=
  (∃ k, Reads s f k) ∧ ∃ done, WriteChain f.endpoint done

theorem Sound.step {s : Start} {f f' : Feed} {event : Event} (h : Sound s f)
    (hStep : f.step event = some f') : Sound s f' := by
  refine ⟨?_, chain_step h.2 hStep⟩
  obtain ⟨⟨k, hReads⟩, done, hChain⟩ := h
  cases step_cases hStep with
  | @arrive bytes hOpen =>
    refine ⟨k, .of_consumed (f.inbox ++ bytes) hReads.waits hReads.stage ?_ ?_⟩
    · rw [hReads.consumed, List.append_assoc]
    · intro hk after _
      rw [List.append_assoc]
      exact hReads.told hk (bytes ++ after) fun h => absurd h hOpen
  | close =>
    exact ⟨k, hReads.waits, hReads.stage, hReads.consumed, fun hk after hAfter => by
      obtain rfl := hAfter rfl
      exact hReads.told hk [] fun _ => rfl⟩
  | send hAct => exact ⟨k, (hReads.frame rfl hAct).1⟩
  | connected | read | readEnd | written | lambda =>
    obtain ⟨k', hReads', -⟩ := hReads.internal hChain rfl hStep
    exact ⟨k', hReads'⟩

theorem sound_of_reach {s : Start} {ok : Feed → Event → Prop} {f : Feed}
    (h : Reach (system s) ok f) : Sound s f := by
  refine h.invariant ?_ fun f event f' hSound _ hStep => hSound.step hStep
  rintro _ ⟨messages, rfl⟩
  obtain ⟨k, hWaits, hStage⟩ := inStage_start (messages.map .send) s
  refine ⟨⟨k, .of_consumed [] hWaits hStage ?_ ?_⟩, [], WriteChain.start _ s⟩
  · cases s <;> rfl
  · rintro rfl after _
    cases s with
    | created => rfl
    | server => exact absurd (hWaits.writing .validation1 rfl) Nat.one_ne_zero
    | client => exact Bool.noConfusion hWaits.connecting

theorem received_of_internal {f f' : Feed} {event : Event} (hInternal : event.isInternal = true)
    (hStep : f.step event = some f') : f'.received = f.received := by
  cases step_cases hStep with
  | arrive | close | send => cases hInternal
  | connected hAct | lambda hAct => exact (act_eq hAct).2.1
  | read _ hAct | readEnd _ _ hAct => exact (act_eq hAct).2.1
  | written hTransfer hWritten => exact (act_eq hWritten).2.1.trans (act_eq hTransfer).2.1

/-- **The pending completions and lambdas come to an end**, in whatever order they run. -/
theorem Sound.acc {s : Start} {f : Feed} (h : Sound s f) :
    Acc (fun f' f => Internal f f') f := by
  obtain ⟨k, hReads⟩ := h.1
  induction hWork : work f k using Nat.strongRecOn generalizing f k with
  | ind n ih =>
    refine ⟨f, ?_⟩
    rintro f' ⟨event, hInternal, hStep⟩
    obtain ⟨done, hChain⟩ := h.2
    obtain ⟨k', hReads', hLess⟩ := hReads.internal hChain hInternal hStep
    exact ih (work f' k') (hWork ▸ hLess) (h.step hStep) k' hReads' rfl

theorem Sound.drain {s : Start} {f f' : Feed} (h : Sound s f)
    (hDrain : Relation.ReflTransGen Internal f f') :
    Sound s f' ∧ f'.received = f.received := by
  induction hDrain with
  | refl => exact ⟨h, rfl⟩
  | tail _ hStep ih =>
    obtain ⟨event, hInternal, hStep⟩ := hStep
    exact ⟨ih.1.step hStep, (received_of_internal hInternal hStep).trans ih.2⟩

/-- A settled feed has reported everything. -/
theorem Sound.reports {s : Start} {f : Feed} (h : Sound s f) (hSettled : Settled f) :
    f.endpoint.reports = s.reports f.received := by
  obtain ⟨k, hReads⟩ := h.1
  rcases hSettled.waits hReads with rfl | ⟨op, n, rfl, hShort⟩
  · simpa using (hReads.told rfl [] fun _ => rfl).symm
  · rw [← dialogue_reports, hReads.stage.reports_blocked hShort, hReads.consumed]
    rfl

/-- **What an endpoint does with an arbitrary stream**: it reports what `Start.reports` asks
for the bytes received, step by step, and all of it when its pending completions have run,
in any order; they always come to an end. Every message reported has the length its header
announces, and is tagged with the connection, except on a client. -/
theorem reports_of_stream {s : Start} {f : Feed} (h : Reach (system s) Free f) :
    f.endpoint.reports <+: s.reports f.received ∧
      Acc (fun f' f => Internal f f') f ∧
      (∀ f', Relation.ReflTransGen Internal f f' → Settled f' →
        f'.endpoint.reports = s.reports f.received) ∧
      ∀ tagged m, .emplaceBack tagged m ∈ f.endpoint.reports →
        m.Announces ∧ tagged = (s.owner != .dedicatedClient) := by
  have hSound := sound_of_reach h
  obtain ⟨k, hReads⟩ := hSound.1
  have hPrefix : f.endpoint.reports <+: s.reports f.received := by
    rw [← dialogue_reports, hReads.consumed]
    exact hReads.stage.reports_prefix f.inbox
  refine ⟨hPrefix, hSound.acc, fun f' hDrain hSettled => ?_, fun tagged m hMem => ?_⟩
  · obtain ⟨hSound', hReceived⟩ := hSound.drain hDrain
    rw [hSound'.reports hSettled, hReceived]
  · exact Start.reports_emplaceBack (hPrefix.subset hMem)

/-- A server accepts its client and receives a message of one byte and half a header. -/
def acceptedEvents : List Event :=
  [.written .validation1, .arrive (LittleEndian.encode64 (respond 0) ++ [3, 0, 0, 0, 1]),
    .read .validation2 8, .written .validation3, .arrive [0, 0, 0, 7, 5, 5],
    .written .validation4, .read .header 8, .read .body 1]

theorem reports_of_stream_accepted : ∃ f, Reach (system (.server 0 1)) Free f ∧
    f.endpoint.reports.length = 2 ∧
    f.endpoint.reports <+: Start.reports (.server 0 1) f.received := by
  obtain ⟨f, hReach, hEnd⟩ := Reach.exists_of_free (M := system (.server 0 1))
    ⟨[], rfl⟩ acceptedEvents (fun f => f.endpoint.reports.length == 2) (by decide)
  exact ⟨f, hReach, by simpa using hEnd, (reports_of_stream hReach).1⟩

end Feed

end Endpoint

end MinecraftNetwork
