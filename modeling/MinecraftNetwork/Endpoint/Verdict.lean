import MinecraftNetwork.Endpoint.Reading
import MinecraftNetwork.Endpoint.Interleaving
import MinecraftNetwork.Endpoint.Wire

/-!
# The verdict on a connection

`OnValidate` and `OnInvalidate` are the two verdicts on a connection. In every run of an
endpoint at most one is given, and at most once (`InStage.verdicts`). `Courteous` is what an
application may expect of the callbacks about one connection: `OnConnect` before the
verdict, and one verdict at most.
-/

namespace MinecraftNetwork

/-- A callback about one connection. -/
inductive Moment
  | connect
  | validate
  | invalidate
  deriving DecidableEq, Repr

def Moment.isVerdict : Moment → Bool
  | .connect => false
  | .validate | .invalidate => true

/-- The verdict an effect gives. -/
def Effect.moment? : Effect → Option Moment
  | .onValidate _ => some .validate
  | .onInvalidate => some .invalidate
  | .asyncConnect | .asyncRead _ _ | .asyncWrite _ _ | .disconnect | .postClose | .emplaceBack _ _
  | .emptyDeque => none

/-- The handler gives a verdict: it has read the bytes that decide. -/
def Completion.judges (c : Connection) : Completion → Bool
  | .read .validation2 _ | .read .validation4 _ => true
  | .read .validation3 bytes => c.rejects .validation3 bytes
  | .read .header _ | .read .body _ | .read .validation1 _ | .connected | .connectFailed
  | .readFailed _ _ | .written _ | .writeFailed _ | .lambda => false

theorem moments_nil {effects : List Effect} (h : ∀ x ∈ effects, x.isCall = false) :
    effects.filterMap Effect.moment? = [] := by
  rw [List.filterMap_eq_nil_iff]
  intro x hMem
  have hCall := h x hMem
  cases x <;> first | rfl | cases hCall

namespace Connection

theorem disconnect_moments (c : Connection) : c.disconnect.filterMap Effect.moment? = [] := by
  unfold disconnect
  split
  · split <;> rfl
  · rfl

theorem readValidation_moments (owner : ConnectionOwner) (op : ReadOp) (c : Connection) :
    (readValidation owner op c).filterMap Effect.moment? = [] := by
  unfold readValidation
  split <;> rfl

theorem readDone_moments {c : Connection} {op : ReadOp} {bytes : List UInt8}
    (hNot : (Completion.read op bytes).judges c = false) :
    (c.readDone op bytes).2.filterMap Effect.moment? = [] := by
  cases op with
  | header =>
    simp only [readDone, readHeaderDone]
    split <;> rfl
  | body => rfl
  | validation1 =>
    simp only [readDone, readValidation1Done, writeValidation2, writeValidation]
    split <;> rfl
  | validation2 | validation4 => cases hNot
  | validation3 =>
    have hCheck : LittleEndian.decode64 bytes = c.validationCheck := by
      simpa [Completion.judges, rejects] using hNot
    simp only [readDone, readValidation3Done, hCheck, if_true]
    exact readValidation_moments _ _ _

end Connection

/-- `OnConnect` is called before the verdict, and there is one verdict at most. -/
structure Courteous (calls : List Moment) : Prop where
  greeted : ∀ before m after, calls = before ++ m :: after → m.isVerdict = true →
    .connect ∈ before
  once : (calls.filter Moment.isVerdict).length ≤ 1

theorem courteous_nil : Courteous [] := by
  refine ⟨fun before m after hCalls => ?_, Nat.zero_le _⟩
  simp at hCalls

theorem Courteous.append {calls : List Moment} {m : Moment} (h : Courteous calls)
    (hGreeted : m.isVerdict = true → .connect ∈ calls)
    (hOnce : ((calls ++ [m]).filter Moment.isVerdict).length ≤ 1) : Courteous (calls ++ [m]) := by
  refine ⟨fun before n after hCalls hVerdict => ?_, hOnce⟩
  rcases List.eq_nil_or_concat after with rfl | ⟨after, last, rfl⟩
  · obtain ⟨rfl, hLast⟩ := List.append_inj' hCalls rfl
    obtain rfl : m = n := by simpa using hLast
    exact hGreeted hVerdict
  · have hFront : calls ++ [m] = (before ++ n :: after) ++ [last] := by
      rw [hCalls]
      simp
    exact h.greeted before n after (List.append_inj' hFront rfl).1 hVerdict

namespace Endpoint

/-- The verdicts given on a connection. -/
def verdicts (e : Endpoint) : List Moment := e.history.filterMap Effect.moment?

theorem performAll_verdicts (e : Endpoint) (effects : List Effect) :
    (e.performAll effects).verdicts = e.verdicts ++ effects.filterMap Effect.moment? := by
  rw [verdicts, performAll_history, List.filterMap_append, verdicts]

/-- No verdict is given outside the handlers. -/
theorem step_verdicts {e e' : Endpoint} {event : Event} (hOutside : ∀ c, event ≠ .complete c)
    (h : e.step event = some e') : e'.verdicts = e.verdicts := by
  rw [verdicts, (outside_frame hOutside h).history, verdicts]

theorem handle_verdicts {e e' : Endpoint} {c : Completion} {effects : List Effect}
    (h : e.handle c = some (e', effects)) : e'.verdicts = e.verdicts := by
  obtain ⟨-, -, hHistory⟩ := handle_keeps h
  rw [verdicts, hHistory, verdicts]

/-- Only a handler that judges the peer gives a verdict. -/
theorem handle_judges {e e' : Endpoint} {c : Completion} {effects : List Effect}
    (h : e.handle c = some (e', effects)) (hNot : c.judges e.connection = false) :
    effects.filterMap Effect.moment? = [] := by
  cases c with
  | connected =>
    simp only [handle] at h
    split at h <;> cases h
    exact Connection.readValidation_moments _ _ _
  | connectFailed | readFailed | writeFailed =>
    simp only [handle] at h
    split at h <;> cases h
    exact e.connection.disconnect_moments
  | read op bytes =>
    simp only [handle] at h
    split at h <;> cases h
    exact Connection.readDone_moments hNot
  | written op =>
    simp only [handle] at h
    split at h <;> cases h
    exact moments_nil (e.connection.writeDone_quiet op).2
  | lambda =>
    simp only [handle] at h
    split at h <;> cases h
    · simp only [Connection.runSend]
      split
      · exact moments_nil (Connection.writeHeader_quiet _).2
      · rfl
    · rfl

theorem verdicts_eq (e : Endpoint) :
    e.verdicts = e.dialogue.reports.filterMap Effect.moment? := by
  rw [dialogue_reports, reports, List.filterMap_filter, verdicts]
  congr 1
  funext x
  cases x <;> rfl

theorem verdicts_isVerdict {e : Endpoint} {m : Moment} (h : m ∈ e.verdicts) :
    m.isVerdict = true := by
  obtain ⟨effect, -, hEffect⟩ := List.mem_filterMap.mp h
  cases effect <;> cases hEffect <;> rfl

/-- Whatever the peer sends, one verdict is asked for at most. -/
theorem Start.verdicts_le (s : Start) (b : List UInt8) :
    ((s.reports b).filterMap Effect.moment?).length ≤ 1 := by
  have hMessages : ∀ (ms : List Message) (tagged : Bool),
      (ms.map (Effect.emplaceBack tagged)).filterMap Effect.moment? = [] := by
    intro ms tagged
    rw [List.filterMap_eq_nil_iff]
    intro effect hMem
    obtain ⟨m, -, rfl⟩ := List.mem_map.mp hMem
    rfl
  cases s with
  | created => exact Nat.zero_le _
  | server now id =>
    simp only [Start.reports]
    split
    · exact Nat.zero_le _
    · split
      · exact Nat.le_refl _
      · simp [Effect.moment?, hMessages]
  | client opened =>
    simp only [Start.reports]
    split
    · exact Nat.zero_le _
    · split
      · exact Nat.le_refl _
      · split
        · exact Nat.zero_le _
        · simp [Effect.moment?, hMessages]

/-- **One verdict at most** is given on a connection. -/
theorem InStage.verdicts {s : Start} {e : Endpoint} (h : InStage s e) : e.verdicts.length ≤ 1 := by
  obtain ⟨k, -, hStage⟩ := h
  have hPrefix := hStage.reports_prefix []
  rw [verdicts_eq]
  exact Nat.le_trans (hPrefix.filterMap _).length_le (s.verdicts_le _)

/-- No verdict is given on a connection that has not begun its handshake. -/
theorem InStage.created_verdicts {owner : ConnectionOwner} {isOpen : Bool} {e : Endpoint}
    (h : InStage (.created owner isOpen) e) : e.verdicts = [] := by
  obtain ⟨k, -, hStage⟩ := h
  have hPrefix := hStage.reports_prefix []
  rw [verdicts_eq, List.prefix_nil.mp hPrefix]
  rfl

end Endpoint

end MinecraftNetwork
