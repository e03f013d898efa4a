import MinecraftNetwork.Endpoint.Outgoing

/-!
# The messages that are written completely

A message given to `Send` waits for its lambda, then in the queue, and is removed from the
queue when its last write has completed. So what does not wait is written (`Written`): its
frames have been handed to the socket in order, and their bytes have left for the peer.
`waiting_step` says how the waiting messages change.
-/

namespace MinecraftNetwork

namespace Endpoint

/-- The messages given to `Send` that are in the queue, or wait for their lambda. -/
def waiting (e : Endpoint) : List Message :=
  e.connection.outgoingMessages ++ e.posted.filterMap Lambda.message?

/-- The messages `done` are the first ones given to `Send`, and are written completely. -/
structure Written (e : Endpoint) (done : List Message) : Prop where
  sent : e.sent = done ++ e.waiting
  handed : frames done <+: e.frameHanded
  wire : (frames done).Sublist e.wire

@[simp] theorem performAll_waiting (e : Endpoint) (effects : List Effect) :
    (e.performAll effects).waiting = e.waiting := by
  rw [waiting, performAll_connection, performAll_posted, List.filterMap_append, messages_post?,
    List.append_nil]
  rfl

theorem WriteChain.waiting {e : Endpoint} {done : List Message} (h : WriteChain e done) :
    e.sent = done ++ e.waiting := by
  rw [Endpoint.waiting, ← List.append_assoc]
  exact h.sent

/-- A step adds messages behind those that wait, and writes the first ones of them. -/
theorem WriteChain.waiting_step {e e' : Endpoint} {event : Event} {done : List Message}
    (h : WriteChain e done) (hStep : e.step event = some e') :
    ∃ new k, e'.sent = e.sent ++ new ∧ e'.waiting = (e.waiting ++ new).drop k := by
  have hStays : e'.sent = e.sent → e'.waiting = e.waiting →
      ∃ new k, e'.sent = e.sent ++ new ∧ e'.waiting = (e.waiting ++ new).drop k := by
    intro hSent hWaiting
    exact ⟨[], 0, by simp [hSent], by simp [hWaiting]⟩
  cases event with
  | send m =>
    cases hStep
    refine ⟨[m], 0, rfl, ?_⟩
    show e.connection.outgoingMessages ++ (e.posted ++ [Lambda.send m]).filterMap _ = _
    rw [List.filterMap_append, ← List.append_assoc]
    rfl
  | disconnect =>
    cases hStep
    apply hStays rfl
    simp [Endpoint.waiting, Endpoint.disconnect]
  | transfer op n =>
    obtain ⟨hConnection, hSent, hPosted, -⟩ := transfer_frame hStep
    apply hStays hSent
    rw [Endpoint.waiting, hConnection, hPosted, Endpoint.waiting]
  | complete c =>
    simp only [Endpoint.step, Option.map_eq_some_iff] at hStep
    obtain ⟨⟨e₁, effects⟩, hHandle, rfl⟩ := hStep
    obtain ⟨hSent, -, -⟩ := handle_keeps hHandle
    rw [performAll_sent, performAll_waiting]
    rw [performAll_sent, performAll_waiting] at hStays
    by_cases hMain : c.isMain = true
    · obtain ⟨-, hQueue, -, hPosted, -⟩ := handle_main hMain hHandle
      apply hStays hSent
      rw [Endpoint.waiting, hQueue, hPosted, Endpoint.waiting]
    · cases h.turn (by simpa using hMain) hHandle with
      | first hPosted hQueue =>
        apply hStays rfl
        simp [Endpoint.waiting, hPosted, hQueue, Lambda.message?]
      | behind hPosted hQueue =>
        apply hStays rfl
        simp [Endpoint.waiting, hPosted, Lambda.message?]
      | close hPosted =>
        apply hStays rfl
        simp [Endpoint.waiting, hPosted, Lambda.message?, List.filterMap_cons]
      | body hQueue hWriting hBody => exact hStays rfl rfl
      | failed hOp hWriting => exact hStays rfl rfl
      | @sent op m rest hOp hQueue hWriting =>
        refine ⟨[], 1, (List.append_nil _).symm, ?_⟩
        simp [Endpoint.waiting, hQueue]

/-! ## The bytes of the frames -/

/-- The bytes of headers and bodies that have not left. -/
def frameInFlight (e : Endpoint) : List UInt8 :=
  (e.writing .header).flatten ++ (e.writing .body).flatten

/-- As long as no write has failed, the bytes of headers and bodies leave in the order in
which they are handed to the socket. -/
def Passed (e : Endpoint) : Prop :=
  e.writeFailed = false → ∃ out, List.Sublist out e.wire ∧ out ++ e.frameInFlight = e.frameHanded

theorem frameInFlight_nil {e : Endpoint} (h : ∀ op, op.sendsFrame = true → e.writing op = []) :
    e.frameInFlight = [] := by
  rw [frameInFlight, h .header rfl, h .body rfl]
  rfl

/-- A write of the chain begins, when none is outstanding. -/
theorem Passed.begin {e : Endpoint} (h : Passed e)
    (hNone : ∀ op, op.sendsFrame = true → e.writing op = []) {op : WriteOp}
    (hOp : op.sendsFrame = true) (bytes : List UInt8) :
    Passed (e.performAll [.asyncWrite op bytes]) := by
  intro hSound
  obtain ⟨out, hOut, hHanded⟩ := h (by simpa using hSound)
  rw [frameInFlight_nil hNone, List.append_nil] at hHanded
  refine ⟨out, by simpa using hOut, ?_⟩
  have hFlight : (e.performAll [.asyncWrite op bytes]).frameInFlight = bytes := by
    rcases op.sendsFrame_cases hOp with rfl | rfl <;>
      simp [frameInFlight, hNone .header rfl, hNone .body rfl, Effect.write?]
  have hMore : (e.performAll [.asyncWrite op bytes]).frameHanded = e.frameHanded ++ bytes := by
    simp [frameHanded, Effect.frameBytes, hOp]
  rw [hFlight, hMore, hHanded]

/-- The next message is begun, if there is one. -/
theorem Passed.header? {e : Endpoint} (h : Passed e)
    (hNone : ∀ op, op.sendsFrame = true → e.writing op = []) (queue : List Message) :
    Passed (e.performAll (Endpoint.header? queue)) := by
  cases queue with
  | nil => exact h
  | cons m rest => exact h.begin hNone rfl _

theorem Passed.transfer {e e' : Endpoint} {op : WriteOp} {n : Nat} {done : List Message}
    (h : Passed e) (hChain : WriteChain e done) (hStep : e.transfer op n = some e') :
    Passed e' := by
  intro hSound
  obtain ⟨-, -, -, hHistory, -, -, -, -, hFailed⟩ := transfer_frame hStep
  obtain ⟨out, hOut, hHanded⟩ := h (hFailed.symm.trans hSound)
  have hSame : e'.frameHanded = e.frameHanded := by rw [frameHanded, hHistory, frameHanded]
  have hLe := hChain.outstanding_le
  rw [hSame, ← hHanded]
  simp only [Endpoint.transfer] at hStep
  split at hStep
  · rename_i bytes rest hWriting
    cases hStep
    by_cases hOp : op.sendsFrame = true
    · -- the bytes that leave are the first ones in flight
      refine ⟨out ++ bytes.take n, hOut.append (List.Sublist.refl _), ?_⟩
      rw [List.append_assoc]
      refine congrArg (out ++ ·) ?_
      rcases op.sendsFrame_cases hOp with rfl | rfl
      · simp [frameInFlight, hWriting, ← List.append_assoc]
      · have hHeader : e.writing .header = [] := by
          apply List.eq_nil_of_length_eq_zero
          simp only [outstanding, hWriting, List.length_cons] at hLe
          omega
        simp [frameInFlight, hWriting, hHeader, ← List.append_assoc]
    · -- a write of the handshake passes
      refine ⟨out, hOut.trans (List.sublist_append_left _ _), ?_⟩
      refine congrArg (out ++ ·) ?_
      have hOther : ∀ op' : WriteOp, op'.sendsFrame = true →
          Function.update e.writing op (bytes.drop n :: rest) op' = e.writing op' := by
        intro op' hOp'
        apply Function.update_of_ne
        rintro rfl
        exact hOp hOp'
      simp only [frameInFlight, hOther .header rfl, hOther .body rfl]
  · cases hStep

/-- A turn of the write chain writes in the order of the queue. -/
theorem Passed.turn {e e' : Endpoint} {effects : List Effect} {c : Completion}
    {done : List Message} (h : Passed e) (hChain : WriteChain e done)
    (hTurn : Turn e c e' effects) : Passed (e'.performAll effects) := by
  -- a write has come to its end
  have hEnds : ∀ {op : WriteOp}, op.sendsFrame = true → e.writing op = [[]] →
      e.frameInFlight = [] := by
    intro op hOp hWriting
    have hLe := hChain.outstanding_le
    rcases op.sendsFrame_cases hOp with rfl | rfl
    · have hBody : e.writing .body = [] := by
        apply List.eq_nil_of_length_eq_zero
        simp only [outstanding, hWriting, List.length_cons] at hLe
        omega
      simp [frameInFlight, hWriting, hBody]
    · have hHeader : e.writing .header = [] := by
        apply List.eq_nil_of_length_eq_zero
        simp only [outstanding, hWriting, List.length_cons] at hLe
        omega
      simp [frameInFlight, hWriting, hHeader]
  cases hTurn with
  | first hPosted hQueue =>
    refine Passed.begin ?_ (hChain.writing_nil hQueue) rfl _
    exact h
  | behind hPosted hQueue | close hPosted => exact h
  | body hQueue hWriting hBody =>
    refine Passed.begin (fun hSound => ?_) (hChain.writing_update rfl hWriting) rfl _
    obtain ⟨out, hOut, hHanded⟩ := h hSound
    refine ⟨out, hOut, ?_⟩
    rw [hEnds rfl hWriting] at hHanded
    rw [frameInFlight_nil (hChain.writing_update rfl hWriting)]
    exact hHanded
  | @sent op m rest hOp hQueue hWriting =>
    have hFrame : op.sendsFrame = true := by
      rcases hOp with rfl | ⟨rfl, -⟩ <;> rfl
    refine Passed.header? (fun hSound => ?_) (hChain.writing_update hFrame hWriting) _
    obtain ⟨out, hOut, hHanded⟩ := h hSound
    refine ⟨out, hOut, ?_⟩
    rw [hEnds hFrame hWriting] at hHanded
    rw [frameInFlight_nil (hChain.writing_update hFrame hWriting)]
    exact hHanded
  | failed hOp hWriting =>
    intro hSound
    simp [hOp] at hSound

/-- **The frames leave in the order of the queue.** -/
theorem Passed.step {e e' : Endpoint} {event : Event} {done : List Message} (h : Passed e)
    (hChain : WriteChain e done) (hStep : e.step event = some e') : Passed e' := by
  cases event with
  | send m | disconnect =>
    cases hStep
    exact h
  | transfer op n => exact h.transfer hChain hStep
  | complete c =>
    simp only [Endpoint.step, Option.map_eq_some_iff] at hStep
    obtain ⟨⟨e₁, effects⟩, hHandle, rfl⟩ := hStep
    by_cases hMain : c.isMain = true
    · obtain ⟨hEffects, -, -, -, hHistory, hWire, hFailed, hWriting⟩ := handle_main hMain hHandle
      intro hSound
      rw [performAll_writeFailed, hFailed] at hSound
      obtain ⟨out, hOut, hHanded⟩ := h hSound
      refine ⟨out, by rwa [performAll_wire, hWire], ?_⟩
      rw [performAll_frameHanded_main _ hEffects, frameHanded, hHistory]
      rw [frameInFlight, performAll_writing, performAll_writing, hWriting .header rfl,
        hWriting .body rfl, write?_main hEffects rfl, write?_main hEffects rfl]
      simpa only [List.append_nil, frameInFlight, frameHanded] using hHanded
    · exact h.turn hChain (hChain.turn (by simpa using hMain) hHandle)

theorem Passed.start (lambdas : List Lambda) (s : Start) : Passed (start lambdas s) := by
  intro _
  refine ⟨[], List.nil_sublist _, ?_⟩
  rw [frameInFlight_nil ((WriteChain.start lambdas s).writing_nil (by cases s <;> rfl))]
  cases s <;> rfl

/-- The bytes of the frames that effects hand to the socket are in flight afterwards. -/
theorem length_frameBytes (effects : List Effect) : (effects.flatMap Effect.frameBytes).length =
    (effects.filterMap (Effect.write? .header)).flatten.length +
      (effects.filterMap (Effect.write? .body)).flatten.length := by
  induction effects with
  | nil => rfl
  | cons effect effects ih =>
    rw [List.flatMap_cons, List.length_append, ih]
    cases effect with
    | asyncWrite op bytes =>
      cases op with
      | header | body =>
        simp [Effect.frameBytes, Effect.write?, WriteOp.sendsFrame]
        omega
      | validation1 | validation2 | validation3 | validation4 =>
        simp [Effect.frameBytes, Effect.write?, WriteOp.sendsFrame]
    | asyncConnect | asyncRead | onValidate | onInvalidate | disconnect | postClose
    | emplaceBack | emptyDeque => simp [Effect.frameBytes, Effect.write?, List.filterMap_cons]

/-- The bytes in flight are not those of a message that is done. -/
theorem WriteChain.inFlight_le {e : Endpoint} {done : List Message} (h : WriteChain e done)
    (hFronted : Fronted e) (hSound : e.writeFailed = false) : ∃ later,
      e.frameHanded = frames done ++ later ∧ e.frameInFlight.length ≤ later.length := by
  cases h.state with
  | idle hQueue _ hAll =>
    refine ⟨[], by rw [hAll, List.append_nil], ?_⟩
    rw [frameInFlight_nil (h.writing_nil hQueue)]
  | @header m rest hQueue _ hAll hOne hNone =>
    refine ⟨m.header.bytes, hAll, ?_⟩
    obtain ⟨bytes, hWriting⟩ := List.length_eq_one_iff.mp hOne
    obtain ⟨m', rest', hFront, hSuffix⟩ := hFronted.part .header bytes rfl (by simp [hWriting])
    obtain ⟨rfl, rfl⟩ := List.cons.inj (hQueue.symm.trans hFront)
    have hBody : e.writing .body = [] := List.eq_nil_of_length_eq_zero hNone
    have hLe : bytes.length ≤ m.header.bytes.length := hSuffix.length_le
    simpa only [frameInFlight, hWriting, hBody, List.flatten_nil, List.flatten_cons,
      List.append_nil] using hLe
  | @body m rest hQueue _ hAll hNone hOne =>
    refine ⟨m.frame, hAll, ?_⟩
    obtain ⟨bytes, hWriting⟩ := List.length_eq_one_iff.mp hOne
    obtain ⟨m', rest', hFront, hSuffix⟩ := hFronted.part .body bytes rfl (by simp [hWriting])
    obtain ⟨rfl, rfl⟩ := List.cons.inj (hQueue.symm.trans hFront)
    have hHeader : e.writing .header = [] := List.eq_nil_of_length_eq_zero hNone
    have hLe : bytes.length ≤ m.body.length := hSuffix.length_le
    simp only [frameInFlight, hWriting, hHeader, Message.frame, List.flatten_nil,
      List.flatten_cons, List.nil_append, List.append_nil, List.length_append]
    omega
  | failed _ hFailed =>
    rw [hSound] at hFailed
    cases hFailed

/-- **What does not wait is written completely**, as long as no write has failed, whatever a
running member function has still to do. -/
theorem WriteChain.written {e : Endpoint} {effects : List Effect} {done : List Message}
    (h : WriteChain (e.performAll effects) done) (hFronted : Fronted (e.performAll effects))
    (hPassed : Passed (e.performAll effects)) (hSound : e.writeFailed = false) :
    Written e done := by
  have hSound' : (e.performAll effects).writeFailed = false := by
    rw [performAll_writeFailed]
    exact hSound
  obtain ⟨out, hOut, hHanded⟩ := hPassed hSound'
  obtain ⟨later, hLater, hLength⟩ := h.inFlight_le hFronted hSound'
  have hAll : (e.performAll effects).frameHanded =
      e.frameHanded ++ effects.flatMap Effect.frameBytes := by
    rw [frameHanded, performAll_history, List.flatMap_append]
    rfl
  have hFlight : (effects.flatMap Effect.frameBytes).length ≤
      (e.performAll effects).frameInFlight.length := by
    rw [length_frameBytes, frameInFlight, performAll_writing, performAll_writing]
    simp only [List.flatten_append, List.length_append]
    omega
  have hDone : frames done <+: out := by
    have hLeft : out <+: (e.performAll effects).frameHanded := ⟨_, hHanded⟩
    refine List.prefix_of_prefix_length_le ⟨later, hLater.symm⟩ hLeft ?_
    have hTotal := congrArg List.length (hHanded.trans hLater)
    rw [List.length_append, List.length_append] at hTotal
    omega
  have hBefore : out <+: e.frameHanded := by
    refine List.prefix_of_prefix_length_le ⟨_, hHanded⟩ ⟨_, hAll.symm⟩ ?_
    have hTotal := congrArg List.length (hHanded.trans hAll)
    rw [List.length_append, List.length_append] at hTotal
    omega
  refine ⟨?_, hDone.trans hBefore, hDone.sublist.trans ?_⟩
  · have hWaiting := h.waiting
    rwa [performAll_sent, performAll_waiting] at hWaiting
  · rwa [performAll_wire] at hOut

end Endpoint

end MinecraftNetwork
