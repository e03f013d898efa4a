import MinecraftNetwork.Endpoint.WriteChain

/-!
# The handshake and read chain as a machine of its own

The chain that connects, shakes hands and then reads headers and bodies has at most one
operation outstanding: `Waits` says which. What the chain does next depends on the fields
of the connection it uses and on the completion of that operation, and on nothing the
write chain, the lambdas or the socket do. `Dialogue` is the part of an endpoint that
belongs to the chain and `Dialogue.next` is its step; `step_dialogue` is the refinement:
every step of an endpoint is a step of the dialogue or leaves it alone.
-/

namespace MinecraftNetwork

/-- An operation the handshake and read chain can wait for. -/
inductive Pending
  | connect
  | read (op : ReadOp) (n : Nat)
  | write (op : WriteOp)
  deriving DecidableEq, Repr

def Pending.read? : Pending → Option (ReadOp × Nat)
  | .read op n => some (op, n)
  | _ => none

/-- The operation of the handshake and read chain an effect starts. -/
def Effect.pending? : Effect → Option Pending
  | .asyncConnect => some .connect
  | .asyncRead op n => some (.read op n)
  | .asyncWrite op _ => if op.sendsFrame then none else some (.write op)
  | _ => none

/-- An effect of the handshake and read chain other than its end. -/
def Effect.isTalk : Effect → Bool
  | .asyncConnect | .asyncRead _ _ | .onValidate _ | .onInvalidate | .emplaceBack _ _ => true
  | .asyncWrite op _ => !op.sendsFrame
  | .disconnect | .postClose | .emptyDeque => false

def talk (effects : List Effect) : List Effect := effects.filter Effect.isTalk

@[simp] theorem talk_append (effects effects' : List Effect) :
    talk (effects ++ effects') = talk effects ++ talk effects' := List.filter_append ..

theorem talk_eq_nil {effects : List Effect} (h : ∀ x ∈ effects, x.isTalk = false) :
    talk effects = [] := by
  rw [talk, List.filter_eq_nil_iff]
  intro x hx
  rw [h x hx]
  exact Bool.false_ne_true

/-- Only the effects of the chain start an operation it waits for. -/
theorem pending?_talk (effects : List Effect) :
    (talk effects).filterMap Effect.pending? = effects.filterMap Effect.pending? := by
  rw [talk, List.filterMap_filter]
  congr 1
  funext x
  cases x with
  | asyncWrite op bytes => cases hOp : op.sendsFrame <;> simp [Effect.isTalk, Effect.pending?, hOp]
  | _ => rfl

namespace Completion

/-- The operation a completion completes. -/
def pending? : Completion → Option Pending
  | .connected | .connectFailed => some .connect
  | .read op bytes => some (.read op bytes.length)
  | .readFailed op n => some (.read op n)
  | .written op | .writeFailed op => some (.write op)
  | .lambda => none

/-- The continuation a completion runs. -/
def resume (c : Completion) (conn : Connection) : Connection × List Effect :=
  match c with
  | .connected => conn.connectDone
  | .read op bytes => conn.readDone op bytes
  | .written op => conn.writeDone op
  | .connectFailed | .readFailed _ _ | .writeFailed _ => conn.failed
  | .lambda => (conn, [])

/-- The bytes a completion delivers. -/
def bytes : Completion → List UInt8
  | .read _ bytes => bytes
  | _ => []

/-- The completion stops the handshake and read chain. -/
def ends (c : Completion) (conn : Connection) : Bool :=
  match c with
  | .connectFailed | .readFailed _ _ => true
  | .writeFailed op => !op.sendsFrame
  | .read op bytes => conn.rejects op bytes
  | _ => false

end Completion

/-- The fields of a connection that its handshake and read chain uses. -/
def Connection.core (c : Connection) : Connection :=
  { c with isOpen := true, outgoingMessages := [] }

/-- The part of an endpoint that belongs to the handshake and read chain. -/
structure Dialogue where
  connection : Connection
  consumed : List UInt8
  history : List Effect
  ended : Bool

def Dialogue.next (d : Dialogue) (c : Completion) : Dialogue where
  connection := (c.resume d.connection).1
  consumed := d.consumed ++ c.bytes
  history := d.history ++ talk (c.resume d.connection).2
  ended := d.ended || c.ends d.connection

namespace Connection

theorem disconnect_talk (c : Connection) : talk c.disconnect = [] := by
  unfold disconnect
  split
  · split <;> rfl
  · rfl

theorem disconnect_talk_eq (c c' : Connection) : talk c.disconnect = talk c'.disconnect := by
  rw [disconnect_talk, disconnect_talk]

/-- The chain does not look at the socket or the outgoing queue. -/
theorem resume_core (c : Connection) {completion : Completion} (hMain : completion.isMain = true) :
    (completion.resume c.core).1 = (completion.resume c).1.core ∧
      talk (completion.resume c.core).2 = talk (completion.resume c).2 := by
  cases completion with
  | connected => exact ⟨rfl, rfl⟩
  | connectFailed | readFailed | writeFailed => exact ⟨rfl, disconnect_talk_eq c.core c⟩
  | written op =>
    cases op with
    | header | body => cases hMain
    | validation1 | validation2 | validation3 | validation4 => exact ⟨rfl, rfl⟩
  | lambda => cases hMain
  | read op bytes =>
    cases op with
    | header =>
      by_cases hSize : (MessageHeader.ofBytes bytes).size > 0 <;>
        simp only [Completion.resume, readDone, readHeaderDone, hSize, if_true, if_false] <;>
        exact ⟨rfl, rfl⟩
    | body | validation1 | validation4 => exact ⟨rfl, rfl⟩
    | validation2 =>
      by_cases hCheck : LittleEndian.decode64 bytes = c.validationCheck
      · simp only [Completion.resume, readDone, readValidation2Done, core, hCheck, if_true]
        exact ⟨rfl, rfl⟩
      · simp only [Completion.resume, readDone, readValidation2Done, core, hCheck, if_false]
        exact ⟨trivial, congrArg (Effect.onInvalidate :: ·) (disconnect_talk_eq _ _)⟩
    | validation3 =>
      by_cases hCheck : LittleEndian.decode64 bytes = c.validationCheck
      · simp only [Completion.resume, readDone, readValidation3Done, core, hCheck, if_true]
        exact ⟨trivial, rfl⟩
      · simp only [Completion.resume, readDone, readValidation3Done, core, hCheck, if_false]
        exact ⟨trivial, congrArg (Effect.onInvalidate :: ·) (disconnect_talk_eq _ _)⟩

theorem disconnect_not_talk (c : Connection) : ∀ x ∈ c.disconnect, x.isTalk = false := by
  simpa [talk, List.filter_eq_nil_iff] using c.disconnect_talk

theorem writeHeader_not_talk (c : Connection) : ∀ x ∈ c.writeHeader, x.isTalk = false := by
  unfold writeHeader
  split <;> simp [Effect.isTalk, WriteOp.sendsFrame]

theorem messageWritten_frame (c : Connection) :
    (∀ x ∈ c.messageWritten.2, x.isTalk = false) ∧ c.messageWritten.1.core = c.core := by
  unfold messageWritten
  split
  · refine ⟨?_, rfl⟩
    simp only
    split
    · exact writeHeader_not_talk _
    · simp
  · simp [Effect.isTalk]

/-- A continuation of the write chain changes the outgoing queue only. -/
theorem writeDone_frame (c : Connection) {op : WriteOp} (hOp : op.sendsFrame = true) :
    (∀ x ∈ (c.writeDone op).2, x.isTalk = false) ∧ (c.writeDone op).1.core = c.core := by
  cases op with
  | header =>
    simp only [writeDone, writeHeaderDone]
    split
    · split
      · simp [writeBody, *, Effect.isTalk, WriteOp.sendsFrame]
      · exact messageWritten_frame c
    · simp [Effect.isTalk]
  | body => exact messageWritten_frame c
  | validation1 | validation2 | validation3 | validation4 => cases hOp

end Connection

namespace Endpoint

/-- The operation the handshake and read chain waits for is `k`, if any. -/
structure Waits (e : Endpoint) (k : Option Pending) : Prop where
  connecting : e.connecting = decide (k = some .connect)
  reading : e.reading = (k.bind Pending.read?).toList
  writing : ∀ op, op.sendsFrame = false →
    e.outstanding op = if k = some (.write op) then 1 else 0

def dialogue (e : Endpoint) : Dialogue where
  connection := e.connection.core
  consumed := e.consumed
  history := talk e.history
  ended := e.ended

/-! ## Starting the next operation -/

theorem contains_connect (effects : List Effect) :
    effects.contains .asyncConnect = decide (.connect ∈ effects.filterMap Effect.pending?) := by
  induction effects with
  | nil => rfl
  | cons x effects ih =>
    cases x with
    | asyncWrite op bytes =>
      cases hOp : op.sendsFrame <;> simp_all [Effect.pending?]
    | _ => simp_all [Effect.pending?]

theorem read?_eq (effects : List Effect) :
    effects.filterMap Effect.read? =
      (effects.filterMap Effect.pending?).filterMap Pending.read? := by
  rw [List.filterMap_filterMap]
  congr 1
  funext x
  cases x with
  | asyncWrite op bytes => cases hOp : op.sendsFrame <;> simp [Effect.read?, Effect.pending?, hOp,
      Pending.read?]
  | _ => rfl

theorem length_write? (effects : List Effect) {op : WriteOp} (hOp : op.sendsFrame = false) :
    (effects.filterMap (Effect.write? op)).length =
      (effects.filterMap Effect.pending?).count (.write op) := by
  induction effects with
  | nil => rfl
  | cons x effects ih =>
    cases x with
    | asyncWrite op' bytes =>
      by_cases hSame : op = op'
      · subst hSame
        simp [Effect.write?, Effect.pending?, hOp, ih]
      · cases hOp' : op'.sendsFrame <;>
          simp [Effect.write?, Effect.pending?, hOp', hSame, ih, Ne.symm hSame]
    | _ => simpa [List.filterMap_cons, Effect.write?, Effect.pending?, List.count_cons] using ih

/-- A chain that waits for nothing waits for the operation it then starts. -/
theorem Waits.performAll {e : Endpoint} {effects : List Effect} {k : Option Pending}
    (h : e.Waits none) (hEffects : effects.filterMap Effect.pending? = k.toList) :
    (e.performAll effects).Waits k := by
  refine ⟨?_, ?_, fun op hOp => ?_⟩
  · rw [performAll_connecting, h.connecting, contains_connect, hEffects]
    simp
  · rw [performAll_reading, h.reading, read?_eq, hEffects]
    cases k with
    | none => rfl
    | some k => cases k <;> rfl
  · have hNone := h.writing op hOp
    rw [outstanding, performAll_writing, List.length_append, length_write? _ hOp, hEffects]
    rw [outstanding] at hNone
    cases k with
    | none => simpa using hNone
    | some k =>
      by_cases hSame : k = .write op <;> simp_all

/-! ## Completing the operation the chain waits for -/

/-- What a completion of the chain does: it runs its continuation. -/
theorem handle_resume {e e' : Endpoint} {effects : List Effect} {c : Completion}
    (hMain : c.isMain = true) (h : e.handle c = some (e', effects)) :
    e'.connection = (c.resume e.connection).1 ∧ effects = (c.resume e.connection).2 ∧
      e'.consumed = e.consumed ++ c.bytes ∧ e'.ended = (e.ended || c.ends e.connection) := by
  cases c with
  | connected =>
    simp only [handle] at h
    split at h <;> cases h
    exact ⟨rfl, rfl, (List.append_nil _).symm, (Bool.or_false _).symm⟩
  | connectFailed | readFailed =>
    simp only [handle] at h
    split at h <;> cases h
    exact ⟨rfl, rfl, (List.append_nil _).symm, (Bool.or_true _).symm⟩
  | read op bytes =>
    simp only [handle] at h
    split at h <;> cases h
    exact ⟨rfl, rfl, rfl, rfl⟩
  | written op =>
    simp only [handle] at h
    split at h <;> cases h
    exact ⟨rfl, rfl, (List.append_nil _).symm, (Bool.or_false _).symm⟩
  | writeFailed op =>
    simp only [handle] at h
    split at h <;> cases h
    exact ⟨rfl, rfl, (List.append_nil _).symm, rfl⟩
  | lambda => cases hMain

/-- Only the operation the chain waits for completes, and nothing else is outstanding. -/
theorem Waits.handle {e e' : Endpoint} {effects : List Effect} {c : Completion}
    {k : Option Pending} (hWaits : e.Waits k) (hMain : c.isMain = true)
    (h : e.handle c = some (e', effects)) : k = c.pending? ∧ e'.Waits none := by
  have hReading := hWaits.reading
  have hConnecting := hWaits.connecting
  cases c with
  | connected | connectFailed =>
    simp only [Endpoint.handle] at h
    split at h
    · rename_i hYes
      obtain rfl : k = some .connect := by simpa [hYes] using hConnecting
      cases h
      exact ⟨rfl, rfl, hReading, fun op hOp => by simpa [outstanding] using hWaits.writing op hOp⟩
    · cases h
  | read op bytes =>
    simp only [Endpoint.handle] at h
    split at h
    · rename_i hMem
      obtain rfl : k = some (.read op bytes.length) := by
        rcases k with _ | _ | _ | _ <;> simp_all [Pending.read?]
      cases h
      refine ⟨rfl, hConnecting, ?_, fun op hOp => by
        simpa [outstanding] using hWaits.writing op hOp⟩
      simp [hReading, Pending.read?]
    · cases h
  | readFailed op n =>
    simp only [Endpoint.handle] at h
    split at h
    · rename_i hMem
      obtain rfl : k = some (.read op n) := by
        rcases k with _ | _ | _ | _ <;> simp_all [Pending.read?]
      cases h
      refine ⟨rfl, hConnecting, ?_, fun op hOp => by
        simpa [outstanding] using hWaits.writing op hOp⟩
      simp [hReading, Pending.read?]
    · cases h
  | written op | writeFailed op =>
    have hOp : op.sendsFrame = false := by simpa [Completion.isMain] using hMain
    have hOne := hWaits.writing op hOp
    simp only [Endpoint.handle] at h
    split at h
    · rename_i hWriting
      rw [outstanding, hWriting, List.length_cons] at hOne
      obtain rfl : k = some (.write op) := by
        by_contra hNe
        rw [if_neg hNe] at hOne
        cases hOne
      cases h
      refine ⟨rfl, hConnecting, hReading, fun op' hOp' => ?_⟩
      by_cases hSame : op' = op
      · subst hSame
        simpa [resume, outstanding] using hOne
      · have hZero := hWaits.writing op' hOp'
        simpa [resume, outstanding, hSame, Ne.symm hSame] using hZero
    · cases h
  | lambda => cases hMain

/-- What a completion of the write chain or a lambda leaves as it was. -/
theorem handle_frame {e e' : Endpoint} {effects : List Effect} {c : Completion}
    (hFrame : c.isMain = false) (h : e.handle c = some (e', effects)) :
    (∀ x ∈ effects, x.isTalk = false) ∧ e'.connection.core = e.connection.core ∧
      e'.history = e.history ∧ e'.connecting = e.connecting ∧ e'.reading = e.reading ∧
      e'.consumed = e.consumed ∧ e'.ended = e.ended ∧
      ∀ op, op.sendsFrame = false → e'.writing op = e.writing op := by
  cases c with
  | written op =>
    have hOp : op.sendsFrame = true := by simpa [Completion.isMain] using hFrame
    simp only [handle] at h
    split at h <;> cases h
    obtain ⟨hEffects, hCore⟩ := e.connection.writeDone_frame hOp
    refine ⟨hEffects, hCore, rfl, rfl, rfl, rfl, rfl, fun op' hOp' => ?_⟩
    exact Function.update_of_ne (by rintro rfl; simp [hOp] at hOp') _ _
  | writeFailed op =>
    have hOp : op.sendsFrame = true := by simpa [Completion.isMain] using hFrame
    simp only [handle] at h
    split at h <;> cases h
    refine ⟨e.connection.disconnect_not_talk, rfl, rfl, rfl, rfl, rfl, ?_, fun op' hOp' => ?_⟩
    · simp [hOp]
    · exact Function.update_of_ne (by rintro rfl; simp [hOp] at hOp') _ _
  | lambda =>
    simp only [handle] at h
    split at h
    · rename_i m rest hPosted
      cases h
      refine ⟨?_, rfl, rfl, rfl, rfl, rfl, rfl, fun _ _ => rfl⟩
      simp only [Connection.runSend]
      split
      · exact Connection.writeHeader_not_talk _
      · simp
    · cases h
      exact ⟨by simp [Connection.runClose], rfl, rfl, rfl, rfl, rfl, rfl, fun _ _ => rfl⟩
    · cases h
  | connected | connectFailed | read | readFailed => cases hFrame

/-- A chain stops when a completion stops it. -/
theorem handle_ended {e e' : Endpoint} {effects : List Effect} {c : Completion}
    (h : e.handle c = some (e', effects)) : e'.ended = (e.ended || c.ends e.connection) := by
  by_cases hMain : c.isMain = true
  · exact (handle_resume hMain h).2.2.2
  · have hFrame : c.isMain = false := by simpa using hMain
    obtain ⟨-, -, -, -, -, -, hEnded, -⟩ := handle_frame hFrame h
    have hGoes : c.ends e.connection = false := by
      cases c with
      | written | lambda => rfl
      | writeFailed op => simpa [Completion.ends, Completion.isMain] using hFrame
      | connected | connectFailed | read | readFailed => cases hFrame
    rw [hEnded, hGoes, Bool.or_false]

/-- Effects outside the dialogue leave it, and what it waits for, as they were. -/
theorem performAll_not_talk {e : Endpoint} {effects : List Effect} {k : Option Pending}
    (hEffects : ∀ x ∈ effects, x.isTalk = false) :
    (e.performAll effects).dialogue = e.dialogue ∧
      (e.Waits k → (e.performAll effects).Waits k) := by
  refine ⟨by simp [dialogue, talk_eq_nil hEffects], fun h => ?_⟩
  have hPending : effects.filterMap Effect.pending? = [] := by
    rw [← pending?_talk, talk_eq_nil hEffects, List.filterMap_nil]
  refine ⟨?_, ?_, fun op hOp => ?_⟩
  · rw [performAll_connecting, contains_connect, hPending, h.connecting]
    simp
  · rw [performAll_reading, read?_eq, hPending, h.reading]
    simp
  · have hLength := length_write? effects hOp
    rw [hPending, List.count_nil] at hLength
    rw [outstanding, performAll_writing, List.length_append, hLength, Nat.add_zero]
    exact h.writing op hOp

theorem Waits.congr {e e' : Endpoint} {k : Option Pending} (h : e.Waits k)
    (hConnecting : e'.connecting = e.connecting) (hReading : e'.reading = e.reading)
    (hWriting : ∀ op, op.sendsFrame = false → e'.outstanding op = e.outstanding op) :
    e'.Waits k :=
  ⟨hConnecting.trans h.connecting, hReading.trans h.reading,
    fun op hOp => (hWriting op hOp).trans (h.writing op hOp)⟩

/-- An event of the write chain, or a lambda. -/
def Event.isFrame : Event → Bool
  | .complete c => !c.isMain
  | _ => true

/-- **The write chain and the lambdas leave the dialogue alone.** -/
theorem step_frame {e e' : Endpoint} {event : Event} (hFrame : event.isFrame = true)
    (h : e.step event = some e') :
    e'.dialogue = e.dialogue ∧ ∀ k, e.Waits k → e'.Waits k := by
  cases event with
  | send m =>
    cases h
    exact ⟨rfl, fun k hk => hk.congr rfl rfl fun _ _ => rfl⟩
  | disconnect =>
    cases h
    exact ⟨rfl, fun k hk => hk.congr rfl rfl fun _ _ => rfl⟩
  | transfer op j =>
    obtain ⟨hConnection, -, -, hHistory, hConnecting, hReading, hConsumed, hEnded, -⟩ :=
      transfer_frame h
    refine ⟨by simp only [dialogue, hConnection, hHistory, hConsumed, hEnded], fun k hk => ?_⟩
    exact hk.congr hConnecting hReading fun op' _ => transfer_outstanding h op'
  | complete c =>
    have hMain : c.isMain = false := by simpa [Event.isFrame] using hFrame
    simp only [step, Option.map_eq_some_iff] at h
    obtain ⟨⟨e₁, effects⟩, hHandle, rfl⟩ := h
    obtain ⟨hEffects, hCore, hHistory, hConnecting, hReading, hConsumed, hEnded, hWriting⟩ :=
      handle_frame hMain hHandle
    refine ⟨?_, fun k hk => (performAll_not_talk hEffects).2 ?_⟩
    · rw [(performAll_not_talk (k := none) hEffects).1]
      simp only [dialogue, hCore, hHistory, hConsumed, hEnded]
    · exact hk.congr hConnecting hReading fun op hOp => by rw [outstanding, hWriting op hOp]; rfl

/-- **A completion of the chain is a step of the dialogue.** -/
theorem step_main {e e' : Endpoint} {c : Completion} {k : Option Pending}
    (hWaits : e.Waits k) (hMain : c.isMain = true) (h : e.step (.complete c) = some e') :
    k = c.pending? ∧ e'.dialogue = e.dialogue.next c ∧
      ∀ k', ((talk (c.resume e.dialogue.connection).2).filterMap Effect.pending?) = k'.toList →
        e'.Waits k' := by
  simp only [step, Option.map_eq_some_iff] at h
  obtain ⟨⟨e₁, effects⟩, hHandle, rfl⟩ := h
  obtain ⟨rfl, hIdle⟩ := hWaits.handle hMain hHandle
  obtain ⟨hConnection, rfl, hConsumed, hEnded⟩ := handle_resume hMain hHandle
  obtain ⟨-, -, -, -, hHistory, -⟩ := handle_main hMain hHandle
  obtain ⟨hCore, hTalk⟩ := e.connection.resume_core hMain
  refine ⟨rfl, ?_, fun k' hk' => hIdle.performAll ?_⟩
  · have hEnds : c.ends e.connection.core = c.ends e.connection := by
      cases c <;> rfl
    simp only [dialogue, Dialogue.next, performAll_connection, performAll_consumed,
      performAll_history, performAll_ended, talk_append, hConnection, hCore, hTalk, hConsumed,
      hHistory, hEnded, hEnds]
  · rw [← hk', dialogue, hTalk, pending?_talk]

end Endpoint

end MinecraftNetwork
