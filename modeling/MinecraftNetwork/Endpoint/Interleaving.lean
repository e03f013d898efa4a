import MinecraftNetwork.Endpoint.Handshake

/-!
# Events between the effects of a continuation

A continuation may call back its owner before it has performed all its effects. What the
application and the network do to the connection meanwhile commutes with the effects still
to come, as long as these post nothing (`step_performAll`). A connection with an owner
posts nothing, and one without an owner calls nobody (`handle_post`, `handle_calls`).
-/

namespace MinecraftNetwork

namespace Endpoint

theorem performAll_append (e : Endpoint) (effects effects' : List Effect) :
    e.performAll (effects ++ effects') = (e.performAll effects).performAll effects' :=
  List.foldl_append

/-! ## Events between two effects of a continuation -/

theorem send_performAll (e : Endpoint) (m : Message) {effects : List Effect}
    (h : effects.filterMap Effect.post? = []) :
    (e.send m).performAll effects = (e.performAll effects).send m := by
  simp only [performAll_eq, send, h, List.append_nil]

theorem disconnect_performAll (e : Endpoint) {effects : List Effect}
    (h : effects.filterMap Effect.post? = []) :
    e.disconnect.performAll effects = (e.performAll effects).disconnect := by
  simp only [performAll_eq, disconnect, h, List.append_nil]

theorem transfer_performAll {e e' : Endpoint} {op : WriteOp} {n : Nat} (effects : List Effect)
    (h : e.transfer op n = some e') :
    (e.performAll effects).transfer op n = some (e'.performAll effects) := by
  simp only [transfer] at h
  split at h
  · rename_i bytes rest hWriting
    cases h
    simp only [transfer, performAll_writing, hWriting, List.cons_append]
    have hWritings : Function.update (fun op' => e.writing op' ++
        effects.filterMap (Effect.write? op')) op
          (bytes.drop n :: (rest ++ effects.filterMap (Effect.write? op))) =
        fun op' => Function.update e.writing op (bytes.drop n :: rest) op' ++
          effects.filterMap (Effect.write? op') := by
      funext op'
      by_cases hOp : op' = op
      · subst hOp
        simp
      · simp [hOp]
    simp only [performAll_eq, hWritings]
  · cases h

/-- What the application and the network do to a connection does not depend on the effects
still to be performed. -/
theorem step_performAll {e e' : Endpoint} {event : Event} {effects : List Effect}
    (hOutside : ∀ c, event ≠ .complete c) (hPost : effects.filterMap Effect.post? = [])
    (h : e.step event = some e') : (e.performAll effects).step event = some (e'.performAll effects) := by
  cases event with
  | send m =>
    cases h
    exact congrArg some (send_performAll e m hPost).symm
  | disconnect =>
    cases h
    exact congrArg some (disconnect_performAll e hPost).symm
  | transfer op n => exact transfer_performAll effects h
  | complete c => exact absurd rfl (hOutside c)

/-! ## The owner and the socket of a connection -/

end Endpoint

namespace Connection

/-- Two states of a connection with one owner and one state of the socket. -/
structure SameSocket (c c' : Connection) : Prop where
  owner : c'.owner = c.owner
  isOpen : c'.isOpen = c.isOpen
  hasConnectable : c'.hasConnectable = c.hasConnectable

theorem readDone_sameSocket (c : Connection) (op : ReadOp) (bytes : List UInt8) :
    c.SameSocket (c.readDone op bytes).1 := by
  cases op with
  | header =>
    simp only [readDone, readHeaderDone]
    split <;> exact ⟨rfl, rfl, rfl⟩
  | validation2 =>
    simp only [readDone, readValidation2Done]
    split <;> exact ⟨rfl, rfl, rfl⟩
  | validation3 =>
    simp only [readDone, readValidation3Done]
    split <;> exact ⟨rfl, rfl, rfl⟩
  | body | validation1 | validation4 => exact ⟨rfl, rfl, rfl⟩

theorem messageWritten_sameSocket (c : Connection) : c.SameSocket c.messageWritten.1 := by
  simp only [messageWritten]
  split <;> exact ⟨rfl, rfl, rfl⟩

theorem writeDone_sameSocket (c : Connection) (op : WriteOp) : c.SameSocket (c.writeDone op).1 := by
  cases op with
  | header =>
    simp only [writeDone, writeHeaderDone]
    split
    · split
      · exact ⟨rfl, rfl, rfl⟩
      · exact messageWritten_sameSocket c
    · exact ⟨rfl, rfl, rfl⟩
  | body => exact messageWritten_sameSocket c
  | validation1 | validation2 | validation3 | validation4 => exact ⟨rfl, rfl, rfl⟩

end Connection

namespace Endpoint

/-- A handler leaves the owner and the socket of its connection alone, unless it is the
lambda of `Disconnect`. -/
theorem handle_sameSocket {e e' : Endpoint} {effects : List Effect} {c : Completion}
    (h : e.handle c = some (e', effects)) : e.connection.SameSocket e'.connection ∨
      c = .lambda ∧ e.posted.head? = some .close ∧
        e'.connection = { e.connection with isOpen := false } := by
  cases c with
  | connected | connectFailed | readFailed =>
    simp only [handle] at h
    split at h <;> cases h
    exact .inl ⟨rfl, rfl, rfl⟩
  | read op bytes =>
    simp only [handle] at h
    split at h <;> cases h
    exact .inl (e.connection.readDone_sameSocket op bytes)
  | written op =>
    simp only [handle] at h
    split at h <;> cases h
    exact .inl (e.connection.writeDone_sameSocket op)
  | writeFailed op =>
    simp only [handle] at h
    split at h <;> cases h
    exact .inl ⟨rfl, rfl, rfl⟩
  | lambda =>
    simp only [handle] at h
    split at h
    · cases h
      exact .inl ⟨rfl, rfl, rfl⟩
    · rename_i rest hPosted
      cases h
      exact .inr ⟨rfl, by simp [hPosted], rfl⟩
    · cases h

theorem handle_hasConnectable {e e' : Endpoint} {effects : List Effect} {c : Completion}
    (h : e.handle c = some (e', effects)) :
    e'.connection.hasConnectable = e.connection.hasConnectable := by
  rcases handle_sameSocket h with hSame | ⟨-, -, hClosed⟩
  · exact hSame.hasConnectable
  · rw [hClosed]

/-- A handler takes posted lambdas only. -/
theorem handle_posted {e e' : Endpoint} {effects : List Effect} {c : Completion}
    (h : e.handle c = some (e', effects)) : e'.posted ⊆ e.posted := by
  cases c with
  | connected | connectFailed | read | readFailed | written | writeFailed =>
    simp only [handle] at h
    split at h <;> cases h
    exact List.Subset.refl _
  | lambda =>
    simp only [handle] at h
    split at h
    · rename_i hPosted
      cases h
      rw [hPosted]
      exact List.subset_cons_self _ _
    · rename_i hPosted
      cases h
      rw [hPosted]
      exact List.subset_cons_self _ _
    · cases h

theorem step_hasConnectable {e e' : Endpoint} {event : Event} (h : e.step event = some e') :
    e'.connection.hasConnectable = e.connection.hasConnectable := by
  cases event with
  | send | disconnect =>
    cases h
    rfl
  | transfer op n => rw [(transfer_frame h).1]
  | complete c =>
    simp only [step, Option.map_eq_some_iff] at h
    obtain ⟨⟨e₁, effects⟩, hHandle, rfl⟩ := h
    rw [performAll_connection]
    exact handle_hasConnectable hHandle

end Endpoint

/-- The effect calls back the owner. -/
def Effect.isCall : Effect → Bool
  | .onValidate _ | .onInvalidate | .disconnect => true
  | .asyncConnect | .asyncRead _ _ | .asyncWrite _ _ | .emplaceBack _ _ | .postClose
  | .emptyDeque => false

namespace Connection

variable {c : Connection}

/-- A connection whose socket is closed or that has an owner leaves the socket alone. -/
theorem disconnect_post (h : c.isOpen = true → c.hasConnectable = true) :
    c.disconnect.filterMap Effect.post? = [] := by
  simp only [disconnect]
  split
  · rename_i hOpen
    rw [if_pos (h hOpen)]
    rfl
  · rfl

theorem disconnect_calls (h : c.hasConnectable = false) :
    ∀ x ∈ c.disconnect, x.isCall = false := by
  simp only [disconnect, h]
  split <;> simp [Effect.isCall]

theorem readValidation_post (owner : ConnectionOwner) (op : ReadOp) (c : Connection) :
    (readValidation owner op c).filterMap Effect.post? = [] := by
  unfold readValidation
  split <;> rfl

theorem writeValidation_post (owner : ConnectionOwner) (op : WriteOp) (field : Connection → UInt64)
    (c : Connection) : (writeValidation owner op field c).filterMap Effect.post? = [] := by
  unfold writeValidation
  split <;> rfl

theorem readDone_post (h : c.isOpen = true → c.hasConnectable = true) (op : ReadOp)
    (bytes : List UInt8) : (c.readDone op bytes).2.filterMap Effect.post? = [] := by
  cases op with
  | header =>
    simp only [readDone, readHeaderDone]
    split <;> rfl
  | body | validation4 => rfl
  | validation1 => exact writeValidation_post _ _ _ _
  | validation2 =>
    simp only [readDone, readValidation2Done]
    split
    · exact writeValidation_post _ _ _ _
    · exact disconnect_post h
  | validation3 =>
    simp only [readDone, readValidation3Done]
    split
    · exact readValidation_post _ _ _
    · exact disconnect_post h

theorem writeHeader_quiet (c : Connection) :
    c.writeHeader.filterMap Effect.post? = [] ∧ ∀ x ∈ c.writeHeader, x.isCall = false := by
  unfold writeHeader
  split <;> simp [Effect.post?, Effect.isCall]

theorem messageWritten_quiet (c : Connection) :
    c.messageWritten.2.filterMap Effect.post? = [] ∧
      ∀ x ∈ c.messageWritten.2, x.isCall = false := by
  unfold messageWritten
  split
  · simp only
    split
    · exact writeHeader_quiet _
    · simp
  · simp [Effect.post?, Effect.isCall]

theorem writeDone_quiet (c : Connection) (op : WriteOp) :
    (c.writeDone op).2.filterMap Effect.post? = [] ∧
      ∀ x ∈ (c.writeDone op).2, x.isCall = false := by
  cases op with
  | header =>
    simp only [writeDone, writeHeaderDone]
    split
    · split
      · unfold writeBody
        split <;> simp [Effect.post?, Effect.isCall]
      · exact messageWritten_quiet c
    · simp [Effect.post?, Effect.isCall]
  | body => exact messageWritten_quiet c
  | validation1 | validation2 =>
    refine ⟨readValidation_post _ _ _, ?_⟩
    simp only [writeDone, readValidation2, readValidation3, readValidation]
    split <;> simp [Effect.isCall]
  | validation3 =>
    refine ⟨writeValidation_post _ _ _ _, ?_⟩
    simp only [writeDone, writeValidation4, writeValidation]
    split <;> simp [Effect.isCall]
  | validation4 => simp [writeDone, readHeader, Effect.post?, Effect.isCall]

theorem disconnect_report (c : Connection) : ∀ x ∈ c.disconnect, x.isReport = false := by
  unfold disconnect
  split
  · split <;> simp [Effect.isReport]
  · simp

/-- A completion that stops the chain may report the rejection of the peer, and nothing after
it. -/
theorem resume_ends {completion : Completion} (hMain : completion.isMain = true)
    (hEnds : completion.ends c = true) :
    ∀ x ∈ (completion.resume c).2.tail, x.isReport = false := by
  have hFailed : ∀ x ∈ c.failed.2.tail, x.isReport = false :=
    fun x hx => disconnect_report c x (List.mem_of_mem_tail hx)
  cases completion with
  | connectFailed | readFailed | writeFailed => exact hFailed
  | connected | written | lambda => cases hEnds
  | read op bytes =>
    cases op with
    | validation2 =>
      have hNot : ¬ LittleEndian.decode64 bytes = c.validationCheck := by
        simpa [Completion.ends, rejects] using hEnds
      simp only [Completion.resume, readDone, readValidation2Done, if_neg hNot, List.tail_cons]
      exact disconnect_report _
    | validation3 =>
      have hNot : ¬ LittleEndian.decode64 bytes = c.validationCheck := by
        simpa [Completion.ends, rejects] using hEnds
      simp only [Completion.resume, readDone, readValidation3Done, if_neg hNot, List.tail_cons]
      exact disconnect_report _
    | header | body | validation1 | validation4 => cases hEnds

end Connection

namespace Endpoint

/-- A continuation of a connection with an owner, or with a closed socket, posts nothing. -/
theorem handle_post {e e' : Endpoint} {effects : List Effect} {c : Completion}
    (hOwner : e.connection.isOpen = true → e.connection.hasConnectable = true)
    (h : e.handle c = some (e', effects)) :
    effects.filterMap Effect.post? = [] := by
  cases c with
  | connected =>
    simp only [handle] at h
    split at h <;> cases h
    exact Connection.readValidation_post _ _ _
  | connectFailed | readFailed =>
    simp only [handle] at h
    split at h <;> cases h
    exact Connection.disconnect_post hOwner
  | read op bytes =>
    simp only [handle] at h
    split at h <;> cases h
    exact Connection.readDone_post hOwner op bytes
  | written op =>
    simp only [handle] at h
    split at h <;> cases h
    exact (e.connection.writeDone_quiet op).1
  | writeFailed op =>
    simp only [handle] at h
    split at h <;> cases h
    exact Connection.disconnect_post hOwner
  | lambda =>
    simp only [handle] at h
    split at h <;> cases h
    · simp only [Connection.runSend]
      split
      · exact (Connection.writeHeader_quiet _).1
      · rfl
    · rfl

/-- The write chain of a connection without an owner calls nobody. -/
theorem handle_calls {e e' : Endpoint} {effects : List Effect} {c : Completion}
    (hOwner : e.connection.hasConnectable = false) (hFrame : c.isMain = false)
    (h : e.handle c = some (e', effects)) : ∀ x ∈ effects, x.isCall = false := by
  cases c with
  | written op =>
    simp only [handle] at h
    split at h <;> cases h
    exact (e.connection.writeDone_quiet op).2
  | writeFailed op =>
    simp only [handle] at h
    split at h <;> cases h
    exact Connection.disconnect_calls hOwner
  | lambda =>
    simp only [handle] at h
    split at h <;> cases h
    · simp only [Connection.runSend]
      split
      · exact (Connection.writeHeader_quiet _).2
      · simp
    · simp [Connection.runClose]
  | connected | connectFailed | read | readFailed => cases hFrame

end Endpoint

end MinecraftNetwork
