import MinecraftNetwork.DedicatedServer.Sending
import MinecraftNetwork.Endpoint.Verdict

/-!
# The callbacks of the server about a connection

The accept handler calls `ConnectToClient` and then `OnConnect`, and the handlers of the
connection run on the same thread after it, so `OnConnect` comes before the verdict. Every
verdict the application hears is one that the connection has given (`tells_step`), and a
connection gives one at most. Both are read off `Polite`, which every step keeps.
-/

namespace MinecraftNetwork

open Runs

/-- What a notice says about a connection. -/
def Notice.moment? (x : Nat) : Notice → Option Moment
  | .call (.onConnect y) => if y = x then some .connect else none
  | .call (.onValidate y) => if y = x then some .validate else none
  | .call (.onInvalidate y) => if y = x then some .invalidate else none
  | .call (.allowConnection _) | .call (.onDisconnect _) | .call (.onMessage _ _)
  | .enqueued _ _ => none

namespace DedicatedServer

/-- The callbacks about a connection, in order. -/
def moments (log : List Notice) (x : Nat) : List Moment := log.filterMap (Notice.moment? x)

variable {s s' : DedicatedServer} {x : Nat}

theorem moments_append (log new : List Notice) (x : Nat) :
    moments (log ++ new) x = moments log x ++ moments new x := List.filterMap_append

/-- The application hears of a connection what the connection adds to its verdicts. -/
structure Tells (s s' : DedicatedServer) (x : Nat) (new : List Moment) : Prop where
  log : moments s'.log x = moments s.log x ++ new
  verdicts : (s'.objects x).verdicts = (s.objects x).verdicts ++ new
  short : new.length ≤ 1

theorem Tells.silent (hLog : moments s'.log x = moments s.log x)
    (hVerdicts : (s'.objects x).verdicts = (s.objects x).verdicts) : Tells s s' x [] :=
  ⟨by rw [hLog, List.append_nil], by rw [hVerdicts, List.append_nil], Nat.zero_le _⟩

theorem Tells.after {s₁ s₂ : DedicatedServer} {new : List Moment} (h : Tells s s₁ x [])
    (h' : Tells s₁ s₂ x new) : Tells s s₂ x new := by
  refine ⟨?_, ?_, h'.short⟩
  · rw [h'.log, h.log, List.append_nil]
  · rw [h'.verdicts, h.verdicts, List.append_nil]

/-- A connection with the same verdicts is stored. -/
theorem tells_setObject {y : Nat} {e : Endpoint} (h : e.verdicts = (s.objects y).verdicts) :
    Tells s (s.setObject y e) x [] := by
  refine .silent rfl ?_
  by_cases hSame : x = y
  · subst hSame
    simpa [setObject] using h
  · simp [setObject, hSame]

/-- A verdict is given, and the application is told of it. -/
theorem tells_verdict {y : Nat} {effect : Effect} {c : Callback} {m : Moment} {tasks : List Task}
    (hEffect : effect.moment? = some m)
    (hNotice : ∀ x, (Notice.call c).moment? x = if y = x then some m else none) :
    ∃ new, Tells s ((s.setObject y ((s.objects y).perform effect)).call .context c tasks) x new := by
  have hVerdicts : ((s.objects y).perform effect).verdicts = (s.objects y).verdicts ++ [m] := by
    have hOne := (s.objects y).performAll_verdicts [effect]
    rwa [List.filterMap_cons_some hEffect] at hOne
  have hLog : ∀ new, moments [Notice.call c] x = new →
      moments (s.log ++ [Notice.call c]) x = moments s.log x ++ new := by
    rintro new rfl
    exact moments_append _ _ _
  by_cases hSame : y = x
  · subst hSame
    refine ⟨[m], hLog _ ?_, ?_, Nat.le_refl _⟩
    · simp [moments, hNotice]
    · simpa [call, setTasks, setObject] using hVerdicts
  · refine ⟨[], hLog _ ?_, ?_, Nat.zero_le _⟩
    · simp [moments, hNotice, hSame]
    · simp [call, setTasks, setObject, Ne.symm hSame]

/-- A member function of a connection, up to its next callback. -/
theorem tells_advance (s : DedicatedServer) (y : Nat) (effects : List Effect) (x : Nat) :
    ∃ new, Tells s (s.advance y effects) x new := by
  induction effects generalizing s with
  | nil => exact ⟨[], .silent rfl rfl⟩
  | cons effect effects ih =>
    have hObject : effect.moment? = none →
        Tells s (s.setObject y ((s.objects y).perform effect)) x [] := by
      intro hNone
      refine tells_setObject ?_
      have hOne := (s.objects y).performAll_verdicts [effect]
      rwa [List.filterMap_cons_none hNone, List.filterMap_nil, List.append_nil] at hOne
    cases effect with
    | onValidate | onInvalidate => exact tells_verdict rfl fun _ => rfl
    | disconnect =>
      have hCall : Tells (s.setObject y ((s.objects y).perform .disconnect))
          ((s.setObject y ((s.objects y).perform .disconnect)).disconnect .context (some y)
            [.resume y effects]) x [] :=
        .silent (by simp [disconnect, call, setTasks, moments, Notice.moment?]) rfl
      exact ⟨[], (hObject rfl).after hCall⟩
    | emplaceBack tagged m =>
      have hQueue : Tells (s.setObject y ((s.objects y).perform (.emplaceBack tagged m)))
          ((s.setObject y ((s.objects y).perform (.emplaceBack tagged m))).enqueue y m) x [] :=
        .silent (by simp [enqueue, moments, Notice.moment?]) rfl
      obtain ⟨new, hNew⟩ := ih ((s.setObject y ((s.objects y).perform _)).enqueue y m)
      exact ⟨new, ((hObject rfl).after hQueue).after hNew⟩
    | asyncConnect | asyncRead | asyncWrite | postClose | emptyDeque =>
      obtain ⟨new, hNew⟩ := ih (s.setObject y ((s.objects y).perform _))
      exact ⟨new, (hObject rfl).after hNew⟩

/-! ## Steps -/

/-- No verdict is given in a step without a handler. -/
theorem Steps.verdicts {event : Event} (h : Steps s s' event)
    (hHandler : ∀ y c, event ≠ .complete y c)
    (hResume : ∀ y effects rest, s.tasks .context = .resume y effects :: rest →
      event ≠ .run .context)
    (hAccept : event ≠ .accept) (hAllow : ∀ now, event ≠ .allow now) (x : Nat) :
    (s'.objects x).verdicts = (s.objects x).verdicts := by
  cases h with
  | idle hObjects => rw [hObjects]
  | @outside y e action _ hOutside hAction hObjects =>
    rw [hObjects]
    by_cases hSame : x = y
    · subst hSame
      rw [Function.update_self]
      exact Endpoint.step_verdicts hOutside hAction
    · rw [Function.update_of_ne hSame]
  | handler hEvent => exact absurd hEvent (hHandler _ _)
  | resume hEvent hTasks => exact absurd hEvent (hResume _ _ _ hTasks)
  | accept hEvent => exact absurd hEvent hAccept
  | allow hEvent => exact absurd hEvent (hAllow _)
  | deny _ _ hNext => rw [hNext, setTasks]

/-- Disconnections say nothing of a verdict. -/
theorem Parts.moments (h : Parts s s') (x : Nat) : moments s'.log x = moments s.log x := by
  obtain ⟨new, hLog, hNew⟩ := h.log
  have hNone : DedicatedServer.moments new x = [] := by
    rw [DedicatedServer.moments, List.filterMap_eq_nil_iff]
    intro n hMem
    obtain ⟨p, rfl⟩ := hNew n hMem
    rfl
  rw [hLog, moments_append, hNone, List.append_nil]

/-- **What the application hears of a connection in a step** that opens none. -/
theorem tells_step {event : Event} (h : s.step event = some s') (hAccept : event ≠ .accept)
    (hAllow : ∀ now, event ≠ .allow now) (x : Nat) : ∃ new, Tells s s' x new := by
  have hSteps := steps_of_step h
  -- the log gets no moment, and neither does any connection
  have hSilent : moments s'.log x = moments s.log x → (∀ y c, event ≠ .complete y c) →
      (∀ y effects rest, s.tasks .context = .resume y effects :: rest →
        event ≠ .run .context) → ∃ new, Tells s s' x new := fun hLog hComplete hResume =>
    ⟨[], .silent hLog (hSteps.verdicts hComplete hResume hAccept hAllow x)⟩
  -- a task other than the rest of a handler
  have hQuiet : ∀ {t : Thread}, event = .run t →
      (∀ y effects rest, s.tasks t ≠ .resume y effects :: rest) →
      moments s'.log x = moments s.log x → ∃ new, Tells s s' x new := by
    rintro t rfl hNot hLog
    refine hSilent hLog (by simp) fun y effects rest hTasks hRun => ?_
    obtain rfl : t = .context := Event.run.inj hRun
    exact hNot y effects rest hTasks
  cases step_cases h with
  | accept => exact absurd rfl hAccept
  | allow => exact absurd rfl (hAllow _)
  | @complete y c e effects _ _ hHandle =>
    obtain ⟨new, hNew⟩ := tells_advance (s.setObject y e) y effects x
    exact ⟨new, (tells_setObject (Endpoint.handle_verdicts hHandle)).after hNew⟩
  | transfer => exact hSilent rfl (by simp) (by simp)
  | app _ hAct => exact hSilent ((parts_act hAct).moments x) (by simp) (by simp)
  | leave | deny => exact hSilent rfl (by simp) (by simp)
  | poll => exact hSilent rfl (by simp) (by simp)
  | pop =>
    refine hSilent ?_ (by simp) (by simp)
    simp [call, setTasks, DedicatedServer.moments, Notice.moment?]
  | @resume y effects rest =>
    obtain ⟨new, hNew⟩ := tells_advance (s.setTasks .context rest) y effects x
    have hPop : Tells s (s.setTasks .context rest) x [] := .silent rfl rfl
    exact ⟨new, hPop.after hNew⟩
  | erase hTasks => exact hQuiet rfl (by simp [hTasks]) rfl
  | iterate hTasks hIterate =>
    exact hQuiet rfl (by simp [hTasks]) ((parts_iterate hIterate).moments x)
  | reset hTasks => exact hQuiet rfl (by simp [hTasks]) rfl
  | release hTasks => exact hQuiet rfl (by simp [hTasks]) rfl

/-! ## The invariant -/

/-- What the application has heard of the connections. -/
structure Polite (s : DedicatedServer) : Prop where
  courteous : ∀ x, Courteous (moments s.log x)
  heard : ∀ x, (moments s.log x).filter Moment.isVerdict = (s.objects x).verdicts
  greeted : ∀ x, (s.objects x).connection.hasConnectable = true → .connect ∈ moments s.log x

theorem polite_init : Polite {} :=
  ⟨fun _ => courteous_nil, fun _ => rfl, fun _ hOwner => by cases hOwner⟩

theorem endpoint_verdicts (s : DedicatedServer) (x : Nat) :
    (s.objects x).verdicts <+: (s.endpoint x).verdicts := by
  rw [endpoint, Endpoint.performAll_verdicts]
  exact List.prefix_append _ _

/-- A verdict is given on a connection with an owner, and one at most. -/
theorem Alive.verdicts {e : Endpoint} (h : Alive e) : e.verdicts.length ≤ 1 ∧
    (e.verdicts ≠ [] → e.connection.hasConnectable = true) := by
  cases h with
  | created hStage => exact ⟨hStage.verdicts, fun hSome => absurd hStage.created_verdicts hSome⟩
  | admitted hStage hOwner => exact ⟨hStage.verdicts, fun _ => hOwner⟩

/-- Only `ConnectToClient` gives a connection its owner. -/
theorem Sound.owner_step {event : Event} (h : Sound s) (hStep : s.step event = some s')
    (hAllow : ∀ now, event ≠ .allow now) (x : Nat) :
    (s'.objects x).connection.hasConnectable = true →
      (s.objects x).connection.hasConnectable = true := by
  rw [← endpoint_connection, ← endpoint_connection]
  cases h.change hStep x with
  | same hSame =>
    rw [hSame]
    exact id
  | handler _ _ hMove | outside _ _ hMove =>
    rw [Endpoint.step_hasConnectable hMove]
    exact id
  | create _ _ hCreate =>
    intro hOwner
    rw [hCreate] at hOwner
    cases hOwner
  | register hEvent => exact absurd hEvent (hAllow _)

/-- The application hears a new verdict after `OnConnect`, and no second one. -/
theorem Polite.tells (h : Polite s) (hSound : Sound s') {new : List Moment}
    (hTells : Tells s s' x new) (hOwner : (s'.objects x).connection.hasConnectable = true →
      (s.objects x).connection.hasConnectable = true) :
    Courteous (moments s'.log x) ∧
      (moments s'.log x).filter Moment.isVerdict = (s'.objects x).verdicts ∧
      ((s'.objects x).connection.hasConnectable = true → .connect ∈ moments s'.log x) := by
  have hVerdicts : ∀ m ∈ new, m.isVerdict = true := by
    intro m hMem
    refine Endpoint.verdicts_isVerdict (e := s'.objects x) ?_
    rw [hTells.verdicts]
    exact List.mem_append_right _ hMem
  have hHeard : (moments s'.log x).filter Moment.isVerdict = (s'.objects x).verdicts := by
    rw [hTells.log, List.filter_append, List.filter_eq_self.mpr hVerdicts, h.heard, hTells.verdicts]
  have hGreeted : (s'.objects x).connection.hasConnectable = true →
      .connect ∈ moments s.log x := fun hYes => h.greeted x (hOwner hYes)
  obtain ⟨hOne, hAdmitted⟩ := (hSound.alive x).verdicts
  have hPrefix := endpoint_verdicts s' x
  refine ⟨?_, hHeard, fun hYes => ?_⟩
  · cases new with
    | nil =>
      rw [hTells.log, List.append_nil]
      exact h.courteous x
    | cons m rest =>
      obtain rfl : rest = [] := List.length_eq_zero_iff.mp (by simpa using hTells.short)
      have hSome : (s'.endpoint x).verdicts ≠ [] := by
        intro hNone
        rw [hNone, List.prefix_nil, hTells.verdicts] at hPrefix
        simp at hPrefix
      have hYes := hAdmitted hSome
      rw [endpoint_connection] at hYes
      have hLength := hPrefix.length_le
      rw [hTells.log]
      refine (h.courteous x).append (fun _ => hGreeted hYes) ?_
      rw [← hTells.log, hHeard]
      omega
  · rw [hTells.log]
    exact List.mem_append_left _ (hGreeted hYes)

/-- `OnConnect` is called in the accept handler, and gives no verdict. -/
theorem Polite.register {now : UInt64} {y : Nat} {rest : List Task} (h : Polite s)
    (hSound : Sound (s.register y now rest)) : Polite (s.register y now rest) := by
  have hVerdicts : ((s.objects y).run ((s.objects y).connection.connectToClient now
      s.nextClientID)).verdicts = (s.objects y).verdicts := by
    rw [Endpoint.run, Endpoint.performAll_verdicts]
    simp only [Connection.connectToClient, Connection.writeValidation1, Connection.writeValidation]
    split
    · split <;> simp [Endpoint.verdicts, Effect.moment?]
    · simp [Endpoint.verdicts]
  have hAll : ∀ x, Courteous (moments (s.register y now rest).log x) ∧
      (moments (s.register y now rest).log x).filter Moment.isVerdict =
        ((s.register y now rest).objects x).verdicts ∧
      (((s.register y now rest).objects x).connection.hasConnectable = true →
        .connect ∈ moments (s.register y now rest).log x) := by
    intro x
    by_cases hSame : y = x
    · subst hSame
      have hLog : moments (s.register y now rest).log y = moments s.log y ++ [.connect] := by
        simp [DedicatedServer.register, call, moments, Notice.moment?, setTasks, setObject]
      have hFilter : (moments s.log y ++ [Moment.connect]).filter Moment.isVerdict =
          (moments s.log y).filter Moment.isVerdict := by
        simp [List.filter_append, Moment.isVerdict]
      rw [hLog]
      refine ⟨(h.courteous y).append (fun hNever => by cases hNever) ?_, ?_, fun _ => by simp⟩
      · rw [hFilter]
        exact (h.courteous y).once
      · rw [hFilter, h.heard]
        simpa [DedicatedServer.register, call, setTasks, setObject] using hVerdicts.symm
    · have hObject : (s.register y now rest).objects x = s.objects x := by
        simp [DedicatedServer.register, call, setTasks, setObject, Ne.symm hSame]
      refine h.tells hSound (.silent ?_ (by rw [hObject])) (by rw [hObject]; exact id)
      simp [DedicatedServer.register, call, moments, Notice.moment?, setTasks, setObject, hSame]
  exact ⟨fun x => (hAll x).1, fun x => (hAll x).2.1, fun x => (hAll x).2.2⟩

/-- **Every step of the server is polite.** -/
theorem Polite.step {event : Event} (h : Polite s) (hFramed : Framed s)
    (hStep : s.step event = some s') : Polite s' := by
  have hSound := hFramed.sound.step hStep
  by_cases hAllow : ∃ now, event = .allow now
  · obtain ⟨now, rfl⟩ := hAllow
    cases step_cases hStep with
    | allow => exact h.register hSound
  · push Not at hAllow
    have hTells : ∀ x, ∃ new, Tells s s' x new := by
      intro x
      by_cases hAccept : event = .accept
      · subst hAccept
        cases step_cases hStep with
        | accept =>
          refine ⟨[], .silent (by simp [call, moments, Notice.moment?, setTasks, setObject]) ?_⟩
          by_cases hSame : x = s.allocated
          · have hPrefix := endpoint_verdicts s x
            rw [hFramed.fresh x (Nat.le_of_eq hSame.symm)] at hPrefix
            rw [List.prefix_nil.mp hPrefix]
            simp [call, setTasks, setObject, hSame, Endpoint.create, Endpoint.verdicts]
          · simp [call, setTasks, setObject, hSame]
      · exact tells_step hStep hAccept hAllow x
    have hAll := fun x => (hTells x).elim fun _ hNew =>
      h.tells hSound hNew (hFramed.sound.owner_step hStep hAllow x)
    exact ⟨fun x => (hAll x).1, fun x => (hAll x).2.1, fun x => (hAll x).2.2⟩

/-- **The server is courteous to every connection, in every run.** -/
theorem courteous_moments {ok : DedicatedServer → Event → Prop} (h : Reach system ok s) (x : Nat) :
    Courteous (moments s.log x) := by
  have hBoth : Framed s ∧ Polite s := by
    refine h.invariant (I := fun s => Framed s ∧ Polite s) ?_ ?_
    · rintro _ rfl
      exact ⟨framed_init, polite_init⟩
    · rintro s event s' ⟨hFramed, hPolite⟩ _ hStep
      exact ⟨hFramed.step hStep, hPolite.step hFramed hStep⟩
  exact hBoth.2.courteous x

end DedicatedServer

end MinecraftNetwork
