import MinecraftNetwork.Endpoint.Handshake

/-!
# What the stages report

The reports of a stage are those `Start.reports` asks for the bytes read so far, and stay
a prefix of what it asks when more bytes arrive. A chain that waits for a read longer than
the bytes that are there has reported everything (`Stage.reports_blocked`).
-/

namespace MinecraftNetwork

open LittleEndian

/-- The message an effect puts into the incoming queue. -/
def Effect.message? : Effect → Option Message
  | .emplaceBack _ m => some m
  | .asyncConnect | .asyncRead _ _ | .asyncWrite _ _ | .onValidate _ | .onInvalidate
  | .disconnect | .postClose | .emptyDeque => none

theorem splitFrames_append {ms : List Message} (hAnnounces : ∀ m ∈ ms, Message.Announces m)
    (rest : List UInt8) : (splitFrames (frames ms ++ rest)).1 = ms ++ (splitFrames rest).1 := by
  rw [splitFrames, frames, frameCodec.decodeAll_append hAnnounces]
  rfl

theorem splitFrames_none {rest : List UInt8} (h : Message.ofFrame rest = none) :
    (splitFrames rest).1 = [] := by
  rw [splitFrames, frameCodec.decodeAll_none h]

theorem splitFrames_announces (bs : List UInt8) : ∀ m ∈ (splitFrames bs).1, m.Announces :=
  (frameCodec.decodeAll_spec bs).2.1

namespace Endpoint

/-- After the handshake the owner is told of the complete frames. -/
theorem Start.Accepts.reports {s : Start} {p : List UInt8} {id : UInt64} (h : s.Accepts p id)
    (rest : List UInt8) :
    s.reports (p ++ rest) = .onValidate id :: (splitFrames rest).1.map s.deliver := by
  cases s with
  | created => exact h.elim
  | server now id' =>
    obtain ⟨hLength, hAnswer, rfl⟩ := h
    rw [Start.reports, if_neg (by simp [hLength]), List.take_left' hLength,
      if_neg (not_not.mpr hAnswer), List.drop_left' hLength]
    rfl
  | client opened =>
    obtain ⟨hLength, hAnswer, rfl⟩ := h
    have hLong : 24 ≤ (p ++ rest).length := by simp [hLength]
    have hFirst : (p ++ rest).take 8 = p.take 8 := List.take_append_of_le_length (by omega)
    have hSecond : ((p ++ rest).drop 8).take 8 = (p.drop 8).take 8 := by
      rw [List.drop_append_of_le_length (by omega),
        List.take_append_of_le_length (by simp [hLength])]
    have hThird : ((p ++ rest).drop 16).take 8 = p.drop 16 := by
      rw [List.drop_append_of_le_length (by omega)]
      exact List.take_left' (by simp [hLength])
    rw [Start.reports, if_neg (by omega), hFirst, hSecond, if_neg (not_not.mpr hAnswer),
      if_neg (by omega), hThird, List.drop_left' hLength]
    rfl

/-- What has been reported is what the bytes ask for, so far. -/
theorem Stage.reports_prefix {s : Start} {k : Option Pending} {d : Dialogue} (h : Stage s k d)
    (rest : List UInt8) : d.reports <+: s.reports (d.consumed ++ rest) := by
  induction h with
  | created hShows | challenge _ _ _ _ hShows | answer _ _ _ _ hShows | connect _ _ hShows
  | challenged _ _ hShows | answering _ _ _ _ hShows | replied _ _ _ _ hShows
  | named _ _ _ _ _ hShows =>
    rw [hShows.reports]
    exact List.nil_prefix
  | reply _ _ hAccepts _ hShows | name _ _ hAccepts hShows =>
    rw [hShows.reports, hShows.consumed, hAccepts.reports]
    simp
  | header _ _ hAccepts hAnnounces hShows =>
    rw [hShows.reports, hShows.consumed, List.append_assoc, hAccepts.reports,
      splitFrames_append hAnnounces]
    simp
  | body _ hAccepts hAnnounces _ hShows =>
    rw [hShows.reports, hShows.consumed, List.append_assoc, List.append_assoc, hAccepts.reports,
      splitFrames_append hAnnounces]
    simp
  | rejected hReports hRejects =>
    rw [hReports, hRejects]
  | broken _ hAfter ih =>
    subst hAfter
    exact ih

/-- A read that waits for more bytes than are there leaves nothing to report. -/
theorem Stage.reports_blocked {s : Start} {op : ReadOp} {n : Nat} {d : Dialogue}
    (h : Stage s (some (.read op n)) d) {rest : List UInt8} (hRest : rest.length < n) :
    d.reports = s.reports (d.consumed ++ rest) := by
  cases h with
  | answer _ _ _ _ hShows =>
    rw [hShows.reports, hShows.consumed, Start.reports, if_pos (by simpa using hRest)]
  | challenged _ _ hShows =>
    rw [hShows.reports, hShows.consumed, Start.reports, if_pos (by simp; omega)]
  | replied _ _ hLength _ hShows =>
    rw [hShows.reports, hShows.consumed, Start.reports, if_pos (by simp [hLength]; omega)]
  | @named _ b b' _ _ _ hLength hLength' hCheck hShows =>
    have hLong : 16 ≤ (b ++ b' ++ rest).length := by simp [hLength, hLength']; omega
    have hShort : (b ++ b' ++ rest).length < 24 := by simp [hLength, hLength']; omega
    have hFirst : (b ++ b' ++ rest).take 8 = b := by
      rw [List.append_assoc, List.take_left' hLength]
    have hSecond : ((b ++ b' ++ rest).drop 8).take 8 = b' := by
      rw [List.append_assoc, List.drop_left' hLength, List.take_left' hLength']
    rw [hShows.reports, hShows.consumed, Start.reports, if_neg (by omega), hFirst, hSecond,
      if_neg (not_not.mpr hCheck), if_pos hShort]
  | header _ _ hAccepts hAnnounces hShows =>
    rw [hShows.reports, hShows.consumed, List.append_assoc, hAccepts.reports,
      splitFrames_append hAnnounces, splitFrames_none (ofFrame_none_of_short hRest),
      List.append_nil]
  | body _ hAccepts hAnnounces _ hShows =>
    rw [hShows.reports, hShows.consumed, List.append_assoc, List.append_assoc, hAccepts.reports,
      splitFrames_append hAnnounces, splitFrames_none (ofFrame_none_of_header hRest),
      List.append_nil]

/-- Nothing is read into an empty buffer. -/
theorem Stage.read_pos {s : Start} {op : ReadOp} {n : Nat} {d : Dialogue}
    (h : Stage s (some (.read op n)) d) : 0 < n := by
  cases h <;> first | decide | assumption

/-- The chain waits for no write of a frame. -/
theorem Stage.write_handshake {s : Start} {op : WriteOp} {d : Dialogue}
    (h : Stage s (some (.write op)) d) : op.sendsFrame = false := by
  cases h <;> rfl

/-- A chain that waits for a read has reported all that it has read. -/
theorem Stage.reports_read {s : Start} {op : ReadOp} {n : Nat} {d : Dialogue}
    (h : Stage s (some (.read op n)) d) : d.reports = s.reports d.consumed := by
  have hNone : ([] : List UInt8).length < n := h.read_pos
  have hBlocked := h.reports_blocked hNone
  rwa [List.append_nil] at hBlocked

/-- **What has been reported is what the bytes read ask for**, at every stage. -/
theorem Stage.reports_eq {s : Start} {k : Option Pending} {d : Dialogue} (h : Stage s k d) :
    d.reports = s.reports d.consumed := by
  induction h with
  | created hShows =>
    rw [hShows.reports]
    rfl
  | challenge _ _ _ _ hShows | connect _ _ hShows =>
    rw [hShows.reports, hShows.consumed, Start.reports, if_pos (by simp)]
  | answering _ _ hLength _ hShows =>
    rw [hShows.reports, hShows.consumed, Start.reports, if_pos (by omega)]
  | reply _ _ hAccepts _ hShows | name _ _ hAccepts hShows =>
    have hReports := hAccepts.reports []
    rw [List.append_nil] at hReports
    rw [hShows.reports, hShows.consumed, hReports, splitFrames_none rfl]
    rfl
  | answer hOwner hBody hCheck hId hShows =>
    exact (Stage.answer hOwner hBody hCheck hId hShows).reports_read
  | challenged hOwner hBody hShows => exact (Stage.challenged hOwner hBody hShows).reports_read
  | replied hOwner hBody hLength hCheck hShows =>
    exact (Stage.replied hOwner hBody hLength hCheck hShows).reports_read
  | named hOwner hBody hLength hLength' hCheck hShows =>
    exact (Stage.named hOwner hBody hLength hLength' hCheck hShows).reports_read
  | header hOwner hBody hAccepts hAnnounces hShows =>
    exact (Stage.header hOwner hBody hAccepts hAnnounces hShows).reports_read
  | body hOwner hAccepts hAnnounces hSize hShows =>
    exact (Stage.body hOwner hAccepts hAnnounces hSize hShows).reports_read
  | rejected hReports hRejects =>
    have hNow := hRejects []
    rw [List.append_nil] at hNow
    rw [hReports, hNow]
  | broken _ hAfter ih =>
    subst hAfter
    exact ih

/-- The messages asked for are complete frames. -/
theorem Start.reports_emplaceBack {s : Start} {b : List UInt8} {tagged : Bool} {m : Message}
    (h : .emplaceBack tagged m ∈ s.reports b) :
    m.Announces ∧ tagged = (s.owner != .dedicatedClient) := by
  have hFrames : ∀ id after tag, Effect.emplaceBack tagged m ∈
      .onValidate id :: (splitFrames after).1.map (Effect.emplaceBack tag) →
      m.Announces ∧ tagged = tag := by
    intro id after tag hMem
    simp only [List.mem_cons, reduceCtorEq, List.mem_map, Effect.emplaceBack.injEq,
      false_or] at hMem
    obtain ⟨m', hMem, hTag, rfl⟩ := hMem
    exact ⟨splitFrames_announces after _ hMem, hTag.symm⟩
  cases s with
  | created => cases h
  | server now id =>
    simp only [Start.reports] at h
    split at h
    · cases h
    · split at h
      · simp at h
      · exact hFrames _ _ _ h
  | client opened =>
    simp only [Start.reports] at h
    split at h
    · cases h
    · split at h
      · simp at h
      · split at h
        · cases h
        · exact hFrames _ _ _ h

/-- What the owner of an endpoint has been told. -/
def reports (e : Endpoint) : List Effect := e.history.filter Effect.isReport

/-- The messages an endpoint has put into the incoming queue. -/
def received (e : Endpoint) : List Message := e.history.filterMap Effect.message?

theorem dialogue_reports (e : Endpoint) : e.dialogue.reports = e.reports := by
  simp only [Dialogue.reports, dialogue, reports, talk, List.filter_filter]
  congr 1
  funext x
  cases x <;> simp [Effect.isReport, Effect.isTalk]

theorem received_eq (e : Endpoint) :
    e.received = e.dialogue.reports.filterMap Effect.message? := by
  rw [dialogue_reports, reports, List.filterMap_filter, received]
  congr 1
  funext x
  cases x <;> rfl

/-! ## The messages of a stream of frames -/

/-- The number of bytes the peer sends in the handshake. -/
def Start.expects : Start → Nat
  | .created _ _ => 0
  | .server _ _ => 8
  | .client _ => 24

/-- On a handshake followed by frames the owner is given the messages, unless the handshake
is rejected. -/
theorem Start.reports_frames {s : Start} {p : List UInt8} {ms : List Message}
    (hLength : p.length = s.expects) (hAnnounces : ∀ m ∈ ms, Message.Announces m) :
    (s.reports (p ++ frames ms)).filterMap Effect.message? <+: ms ∧
      ∀ id, .onValidate id ∈ s.reports (p ++ frames ms) →
        (s.reports (p ++ frames ms)).filterMap Effect.message? = ms := by
  have hFrames : (splitFrames (frames ms)).1 = ms := by
    have hAll := frameCodec.decodeAll_encodeAll hAnnounces frameCodec.decode_nil
    rw [List.append_nil] at hAll
    exact congrArg Prod.fst hAll
  have hMessages : ∀ id tag, (Effect.onValidate id :: ms.map (Effect.emplaceBack tag)).filterMap
      Effect.message? = ms := by
    intro id tag
    rw [List.filterMap_cons_none rfl, List.filterMap_map]
    exact List.filterMap_some
  cases s with
  | created => exact ⟨List.nil_prefix, fun id hMem => by cases hMem⟩
  | server now id =>
    rw [Start.expects] at hLength
    simp only [Start.reports, List.drop_left' hLength, hFrames]
    split
    · exact ⟨List.nil_prefix, fun id hMem => by cases hMem⟩
    · split
      · exact ⟨List.nil_prefix, fun id hMem => by simp at hMem⟩
      · rw [hMessages]
        exact ⟨List.prefix_rfl, fun _ _ => rfl⟩
  | client opened =>
    rw [Start.expects] at hLength
    simp only [Start.reports, List.drop_left' hLength, hFrames]
    split
    · exact ⟨List.nil_prefix, fun id hMem => by cases hMem⟩
    · split
      · exact ⟨List.nil_prefix, fun id hMem => by simp at hMem⟩
      · split
        · exact ⟨List.nil_prefix, fun id hMem => by cases hMem⟩
        · rw [hMessages]
          exact ⟨List.prefix_rfl, fun _ _ => rfl⟩

/-- **The messages received are the first of those on the stream.** -/
theorem Stage.received_prefix {s : Start} {k : Option Pending} {d : Dialogue} (h : Stage s k d)
    {p : List UInt8} {ms : List Message} (hLength : p.length = s.expects)
    (hAnnounces : ∀ m ∈ ms, Message.Announces m) (hStream : d.consumed <+: p ++ frames ms) :
    d.reports.filterMap Effect.message? <+: ms := by
  obtain ⟨rest, hRest⟩ := hStream
  have hPrefix := (h.reports_prefix rest).filterMap Effect.message?
  rw [hRest] at hPrefix
  exact hPrefix.trans (Start.reports_frames hLength hAnnounces).1

/-- A message is delivered after the handshake only. -/
theorem Stage.delivered {s : Start} {k : Option Pending} {d : Dialogue} (h : Stage s k d)
    {m : Message} (hMem : m ∈ d.reports.filterMap Effect.message?) : d.completed = true := by
  induction h with
  | created hShows | challenge _ _ _ _ hShows | answer _ _ _ _ hShows | reply _ _ _ _ hShows
  | connect _ _ hShows | challenged _ _ hShows | answering _ _ _ _ hShows
  | replied _ _ _ _ hShows | name _ _ _ hShows | named _ _ _ _ _ hShows =>
    rw [hShows.reports] at hMem
    cases hMem
  | header _ _ _ _ hShows | body _ _ _ _ hShows => exact hShows.completed
  | rejected hReports =>
    rw [hReports] at hMem
    cases hMem
  | broken _ hAfter ih =>
    subst hAfter
    exact ih hMem

/-- What an endpoint has received are complete frames, read after its handshake. -/
theorem InStage.received {s : Start} {e : Endpoint} (h : InStage s e) {m : Message}
    (hMem : m ∈ e.received) : e.dialogue.completed = true ∧ m.Announces := by
  obtain ⟨k, -, hStage⟩ := h
  rw [received_eq] at hMem
  refine ⟨hStage.delivered hMem, ?_⟩
  obtain ⟨effect, hEffect, hMessage⟩ := List.mem_filterMap.mp hMem
  have hReport := (hStage.reports_prefix []).subset hEffect
  cases effect with
  | emplaceBack tagged m' =>
    obtain rfl := Option.some.inj hMessage
    exact (Start.reports_emplaceBack hReport).1
  | asyncConnect | asyncRead | asyncWrite | onValidate | onInvalidate | disconnect | postClose
  | emptyDeque => cases hMessage

/-- **A chain that waits for more than is left of the stream has received all of it.** -/
theorem Stage.received_all {s : Start} {op : ReadOp} {n : Nat} {d : Dialogue}
    (h : Stage s (some (.read op n)) d) (hCompleted : d.completed = true)
    {p rest : List UInt8} {ms : List Message} (hLength : p.length = s.expects)
    (hAnnounces : ∀ m ∈ ms, Message.Announces m) (hStream : d.consumed ++ rest = p ++ frames ms)
    (hRest : rest.length < n) : d.reports.filterMap Effect.message? = ms := by
  obtain ⟨-, id, -, -, hMem⟩ := (h.completed hCompleted).accepts
  have hBlocked := h.reports_blocked hRest
  rw [hStream] at hBlocked
  rw [hBlocked] at hMem ⊢
  exact (Start.reports_frames hLength hAnnounces).2 id hMem

end Endpoint

end MinecraftNetwork
