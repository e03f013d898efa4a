import MinecraftNetwork.DedicatedServer.Registry

/-!
# Disconnected once and for good

`OnDisconnect` is called from every failed continuation, from `MessageOne`, from
`MessageAll` and from the application, and nothing but the socket, which stays open, stops a
second call: an application that keeps a connection and has it disconnected gets
`OnDisconnect` again when a read or a write fails (`disconnected_twice`). In the runs that
keep the promise `Removes` every step keeps the invariant (`Registered.step`), and the
callbacks are as they should be (`final_of_reach`).
-/

namespace MinecraftNetwork

open Runs

namespace DedicatedServer

variable {s s' : DedicatedServer}

/-! ## The context thread -/

theorem Registered.resume {x : Nat} {effects : List Effect} {rest : List Task} (h : Registered s)
    (hTasks : s.tasks .context = .resume x effects :: rest)
    (hOk : leaves effects = true → s.Removable (.run .context) (some x)) :
    Registered ((s.setTasks .context rest).advance x effects) := by
  have hBefore : ∀ y, s.rest y = (if y = x then effects else []) ++
      (s.setTasks .context rest).rest y := by
    intro y
    simp [DedicatedServer.rest, hTasks, setTasks, Task.rest, eq_comm]
  have hEffects : (s.objects x).ended = true → ∀ e ∈ effects, e.isReport = false := by
    intro hYes e hMem
    refine h.rest x hYes e ?_
    rw [hBefore, if_pos rfl]
    exact List.mem_append_left _ hMem
  refine h.advance (s.setTasks .context rest) rfl rfl rfl ?_ (fun _ hYes => hYes) ?_ ?_
    hEffects (fun hYes e hMem => hEffects hYes e (List.mem_of_mem_tail hMem)) ?_
  · simp [openings, setTasks, hTasks, Task.opening?, List.filterMap_cons]
  · intro y hLeaving
    have hNext : (s.setTasks .context rest).tasks =
        Function.update s.tasks .context ([] ++ rest) := rfl
    rcases leaving_exchange [.resume x effects] [] hTasks hNext hLeaving with
      ⟨task, hMem, hRemoves⟩ | hNow
    · rw [List.mem_singleton.mp hMem] at hRemoves
      cases hRemoves
    · exact hNow
  · intro y hYes e hMem
    refine h.rest y hYes e ?_
    rw [hBefore]
    exact List.mem_append_right _ hMem
  · intro hLeaves
    obtain ⟨y, hy, hClient, hNot, hConnect, hStopped⟩ := h.removable (hOk hLeaves)
    obtain rfl := Option.some.inj hy
    refine ⟨hClient, hNot, hConnect, ?_⟩
    rcases hStopped with hYes | hNever
    · exact hYes
    · exact hNever.elim

theorem Registered.accept (h : Registered s) (hStep : s.step .accept = some s') :
    Registered s' := by
  cases step_cases hStep with
  | accept hIdle =>
    have hOpenings : openings (call { s.setObject s.allocated (.create .dedicatedServer true) with
        allocated := s.allocated + 1 } .context (.allowConnection s.allocated) []) =
          [s.allocated] := by
      simp [openings, call, setTasks, setObject, hIdle, Task.opening?]
    have hGone : ∀ x, Gone (s.log ++ [.call (.allowConnection s.allocated)]) x ↔ Gone s.log x := by
      intro x
      simp [Gone]
    have hNew : ∀ x, some x ∈ s.clients ∨ Gone s.log x → x ≠ s.allocated := by
      rintro x hx rfl
      have hLess := h.fresh s.allocated (hx.imp_right .inr)
      omega
    refine ⟨?_, ?_, h.once, ?_, ?_, ?_, ?_, ?_⟩
    · exact final_plain h.final (fun _ => rfl) (by simp)
    · exact fun x hMem => List.mem_append_left _ (h.connected x hMem)
    · intro x hx
      rw [hOpenings, List.mem_singleton] at hx
      change x < s.allocated + 1
      rcases hx with hMem | rfl | hMem
      · exact Nat.lt_succ_of_lt (h.fresh x (.inl hMem))
      · omega
      · exact Nat.lt_succ_of_lt (h.fresh x (.inr (.inr ((hGone x).mp hMem))))
    · intro x hx
      rw [hOpenings, List.mem_singleton] at hx
      subst hx
      exact ⟨fun hMem => hNew _ (.inl hMem) rfl, fun hMem => hNew _ (.inr ((hGone _).mp hMem)) rfl⟩
    · intro x hx
      have hBefore := (hGone x).mp hx
      change (Function.update s.objects s.allocated _ x).ended = true
      rw [Function.update_of_ne (hNew x (.inr hBefore))]
      exact h.ended x hBefore
    · intro x hx hMem
      have hLeaving := h.leaving x ((hGone x).mp hx) hMem
      have hNext : (call { s.setObject s.allocated (.create .dedicatedServer true) with
          allocated := s.allocated + 1 } .context (.allowConnection s.allocated) []).tasks =
            Function.update s.tasks .context
              ([.callback (.allowConnection s.allocated)] ++ s.tasks .context) := rfl
      rcases leaving_exchange [] _ rfl hNext hLeaving with ⟨task, hNone, -⟩ | hNow
      · cases hNone
      · exact hNow
    · intro x _ e hMem
      simp [DedicatedServer.rest, call, setTasks, setObject, hIdle, Task.rest] at hMem

theorem Registered.allow {now : UInt64} (h : Registered s) (hSound : Sound s)
    (hStep : s.step (.allow now) = some s') : Registered s' := by
  cases step_cases hStep with
  | @allow _ x rest hTasks =>
    have hOpening := mem_openings hTasks
    obtain ⟨-, -, hRests⟩ := hSound.opening x hOpening
    obtain ⟨hNew, hNot⟩ := h.opening x hOpening
    have hOpenings : (s.register x now rest).openings = [] := by
      rw [openings_register, hSound.openings_answered hTasks]
    have hClients : (s.register x now rest).clients = s.clients ++ [some x] := rfl
    have hLog : (s.register x now rest).log = s.log ++ [.call (.onConnect x)] := rfl
    have hGone : ∀ y, Gone (s.register x now rest).log y ↔ Gone s.log y := by
      intro y
      simp [hLog, Gone]
    have hRest : ∀ y, (s.register x now rest).rest y = s.rest y := by
      intro y
      simp [DedicatedServer.rest, register, call, setTasks, setObject, hTasks, Task.rest]
    have hOther : ∀ y, y ≠ x → (s.register x now rest).objects y = s.objects y := by
      intro y hNe
      simp [register, call, setTasks, setObject, hNe]
    refine ⟨?_, ?_, ?_, ?_, ?_, ?_, ?_, ?_⟩
    · rw [hLog]
      exact final_plain h.final (fun _ => rfl) (by simp)
    · intro y hMem
      rw [hClients] at hMem
      rw [hLog]
      rcases List.mem_append.mp hMem with hMem | hMem
      · exact List.mem_append_left _ (h.connected y hMem)
      · obtain rfl := Option.some.inj (List.mem_singleton.mp hMem)
        simp
    · intro y
      rw [hClients, List.count_append, List.count_singleton]
      by_cases hSame : y = x
      · subst hSame
        rw [List.count_eq_zero.mpr hNew]
        simp
      · have hOnce := h.once y
        simpa [Ne.symm hSame] using hOnce
    · intro y hy
      change y < s.allocated
      rw [hOpenings, hClients, hGone] at hy
      rcases hy with hMem | hMem | hMem
      · rcases List.mem_append.mp hMem with hMem | hMem
        · exact h.fresh y (.inl hMem)
        · obtain rfl := Option.some.inj (List.mem_singleton.mp hMem)
          exact h.fresh y (.inr (.inl hOpening))
      · cases hMem
      · exact h.fresh y (.inr (.inr hMem))
    · rw [hOpenings]
      exact fun y hMem => by cases hMem
    · intro y hy
      have hBefore := (hGone y).mp hy
      rw [hOther y (by rintro rfl; exact hNot hBefore)]
      exact h.ended y hBefore
    · intro y hy hMem
      have hBefore := (hGone y).mp hy
      have hClient : some y ∈ s.clients := by
        rw [hClients] at hMem
        rcases List.mem_append.mp hMem with hMem | hMem
        · exact hMem
        · obtain rfl := Option.some.inj (List.mem_singleton.mp hMem)
          exact absurd hBefore hNot
      have hNext : (s.register x now rest).tasks =
          Function.update s.tasks .context ([.callback (.onConnect x)] ++ rest) := by
        simp [register, call, setTasks, setObject]
      rcases leaving_exchange [.callback (.allowConnection x)] _ hTasks hNext
        (h.leaving y hBefore hClient) with ⟨task, hTask, hRemoves⟩ | hNow
      · rw [List.mem_singleton.mp hTask] at hRemoves
        cases hRemoves
      · exact hNow
    · intro y _ e hMem
      rw [hRest, hRests] at hMem
      cases hMem

theorem Registered.deny (h : Registered s) (hStep : s.step .deny = some s') : Registered s' := by
  cases step_cases hStep with
  | @deny x rest hTasks =>
    refine h.of h.final List.prefix_rfl (fun _ hGone => .inl hGone) (fun _ => Nat.le_refl _) ?_
      rfl (fun _ hYes => hYes) ?_ ?_
    · intro y hMem
      rw [openings_cons hTasks]
      exact List.mem_cons_of_mem _ hMem
    · intro y hYes e hMem
      refine h.rest y hYes e ?_
      simp only [DedicatedServer.rest, setTasks, Function.update_self] at hMem
      simp [DedicatedServer.rest, hTasks, Task.rest, hMem]
    · exact leaving_kept [.callback (.allowConnection x)] [] hTasks rfl
        (by simp [Task.removes])

/-! ## Calls and callbacks -/

theorem Registered.leave {t : Thread} (h : Registered s) (hStep : s.step (.leave t) = some s') :
    Registered s' := by
  obtain ⟨hQuiet, hEnded⟩ := (steps_of_step hStep).quiet (by simp) (by simp) (by simp) (by simp)
    (by simp)
  cases step_cases hStep with
  | @leave t c rest hTasks =>
    refine h.plain hQuiet hEnded (.inl rfl) (fun _ => Nat.le_refl _) rfl ?_
    exact leaving_kept (t := t) [.callback c] [] hTasks rfl (by simp [Task.removes])

theorem Registered.transfer {x n : Nat} {op : WriteOp} (h : Registered s)
    (hStep : s.step (.transfer x op n) = some s') : Registered s' := by
  obtain ⟨hQuiet, hEnded⟩ := (steps_of_step hStep).quiet (by simp) (by simp) (by simp) (by simp)
    (by simp)
  cases step_cases hStep with
  | transfer =>
    exact h.plain hQuiet hEnded (.inl rfl) (fun _ => Nat.le_refl _) rfl fun _ hLeaving _ => hLeaving

theorem Registered.poll {event : PollEvent} (h : Registered s)
    (hStep : s.step (.poll event) = some s') : Registered s' := by
  obtain ⟨hQuiet, hEnded⟩ := (steps_of_step hStep).quiet (by simp) (by simp) (by simp) (by simp)
    (by simp)
  cases step_cases hStep with
  | @pop x m rest q =>
    refine h.plain hQuiet hEnded (.inr ⟨.call (.onMessage x m), rfl, fun _ => rfl, by simp⟩)
      (fun _ => Nat.le_refl _) rfl ?_
    exact leaving_kept (t := .polling) []
      [.callback (.onMessage x m), .release (some x)] rfl rfl (by simp)
  | poll =>
    exact h.plain hQuiet hEnded (.inl rfl) (fun _ => Nat.le_refl _) rfl
      fun _ hLeaving _ => hLeaving

theorem Registered.act {t : Thread} {action : Action} (h : Registered s)
    (hOk : ∀ p ∈ s.disconnects (.app t action), s.Removable (.app t action) p)
    (hStep : s.act t action = some s') : Registered s' := by
  obtain ⟨hQuiet, hEnded⟩ := (steps_of_act hStep).quiet (by simp) (by simp) (by simp) (by simp)
    (by simp)
  cases act_cases hStep with
  | send | disconnectSilent | messageOne | keep | drop =>
    exact h.plain hQuiet hEnded (.inl rfl) (fun _ => Nat.le_refl _) rfl fun _ hLeaving _ => hLeaving
  | @disconnect x _ hCalls =>
    have hRemovable := hOk (some x) (by simp [disconnects, hCalls])
    exact h.called hQuiet hEnded (by simp) hRemovable rfl rfl rfl
      (leaving_disconnect (s := s.setObject x (s.objects x).disconnect))
  | messageNone => exact (hOk none (by simp [disconnects])).elim
  | @messageDead x _ _ hDead =>
    have hRemovable := hOk (some x) (by simp [disconnects, hDead])
    exact h.called hQuiet hEnded (by simp) hRemovable rfl rfl rfl leaving_disconnect
  | @messageAll m ignored =>
    refine h.plain hQuiet hEnded (.inl rfl) (fun _ => Nat.le_refl _) rfl ?_
    exact leaving_kept (t := t) []
      [.messageAll m ignored 0 s.clients.length false] rfl rfl (by simp)

/-! ## The tasks of a thread -/

theorem Registered.iterate {t : Thread} {m : Message} {ignored : Option Nat} {position stop : Nat}
    {clientsRemoved : Bool} {tail : List Task} (h : Registered s)
    (hTasks : s.tasks t = .messageAll m ignored position stop clientsRemoved :: tail)
    (hOk : ∀ p ∈ s.disconnects (.run t), s.Removable (.run t) p)
    (hStep : s.iterate t m ignored position stop clientsRemoved tail = some s') :
    Registered s' := by
  obtain ⟨hQuiet, hEnded⟩ := (steps_of_iterate hTasks hStep).quiet (by simp) (by simp) (by simp)
    (by simp) (fun hEvent => by cases hEvent; simp [hTasks])
  have hOld : ∀ task ∈ [Task.messageAll m ignored position stop clientsRemoved], ∀ x,
      task.removes x = false := by simp [Task.removes]
  cases iterate_cases hStep with
  | finish =>
    refine h.plain hQuiet hEnded ?_ ?_ ?_ ?_
    · left
      split <;> rfl
    · intro x
      split
      · exact List.filter_sublist.count_le _
      · exact Nat.le_refl _
    · split <;> rfl
    · refine leaving_kept _ [] hTasks ?_ hOld
      split <;> rfl
  | next =>
    refine h.plain hQuiet hEnded ?_ ?_ ?_ ?_
    · left
      split <;> rfl
    · intro y
      split <;> exact Nat.le_refl _
    · split <;> rfl
    · refine leaving_kept _ [.messageAll m ignored (position + 1) stop clientsRemoved]
        hTasks ?_ hOld
      split <;> rfl
  | @remove p hMore hEntry hDead =>
    have hRemovable : s.Removable (.run t) p := by
      cases p with
      | none => exact (hOk none (by simp [disconnects, hTasks, hMore, hEntry])).elim
      | some x => exact hOk _ (by simp [disconnects, hTasks, hMore, hEntry, hDead x rfl])
    refine h.called hQuiet hEnded (by simp) hRemovable rfl rfl rfl ?_
    refine leaving_called (t := t) _ [.callback (.onDisconnect p), .reset position p,
      .messageAll m ignored (position + 1) stop true] hTasks ?_ hOld ?_
    · simp [call, setTasks]
    · exact ⟨.reset position p, by simp, fun x hx => by simp [Task.removes, hx]⟩

theorem Registered.run {t : Thread} (h : Registered s) (hOk : Removes s (.run t))
    (hStep : s.step (.run t) = some s') : Registered s' := by
  obtain ⟨hRemovable, hPlace⟩ := hOk
  have hSteps := steps_of_step hStep
  cases step_cases hStep with
  | resume hTasks =>
    exact h.resume hTasks fun hLeaves => hRemovable _ (by simp [disconnects, hTasks, hLeaves])
  | @erase t p rest hTasks =>
    obtain ⟨hQuiet, hEnded⟩ := hSteps.quiet (by simp) (by simp) (by simp) (by simp)
      (fun hEvent => by cases hEvent; simp [hTasks])
    refine h.plain hQuiet hEnded (.inl rfl) (fun _ => List.filter_sublist.count_le _) rfl ?_
    intro x hLeaving hMem
    have hNext : (s.setTasks t rest).tasks = Function.update s.tasks t rest := rfl
    rcases leaving_exchange [.erase p] [] hTasks hNext hLeaving with ⟨task, hTask, hThis⟩ | hNow
    · rw [List.mem_singleton.mp hTask] at hThis
      have hx : p = some x := beq_iff_eq.mp hThis
      have hKept := List.of_mem_filter hMem
      simp [hx] at hKept
    · exact hNow
  | iterate hTasks hIterate => exact h.iterate hTasks hRemovable hIterate
  | @reset t position p rest hTasks hBound =>
    obtain ⟨hQuiet, hEnded⟩ := hSteps.quiet (by simp) (by simp) (by simp) (by simp)
      (fun hEvent => by cases hEvent; simp [hTasks])
    have hCount : ∀ x, (s.clients.set position none).count (some x) =
        s.clients.count (some x) - if s.clients[position] == some x then 1 else 0 := by
      intro x
      rw [List.count_set hBound]
      simp
    refine h.plain hQuiet hEnded (.inl rfl) (fun x => ?_) rfl ?_
    · exact (hCount x).trans_le (Nat.sub_le _ _)
    · intro x hLeaving hMem
      have hNext : (s.setTasks t rest).tasks = Function.update s.tasks t rest := rfl
      rcases leaving_exchange [.reset position p] [] hTasks hNext hLeaving with
        ⟨task, hTask, hThis⟩ | hNow
      · -- the entry that is reset was the only one with the connection
        rw [List.mem_singleton.mp hTask] at hThis
        have hx : p = some x := beq_iff_eq.mp hThis
        have hEntry := hPlace (position, p) (by simp [resets, hTasks])
        simp only [hx, List.getElem?_eq_some_iff] at hEntry
        obtain ⟨_, hEntry⟩ := hEntry
        have hSome := List.count_pos_iff.mpr hMem
        have hOnce := h.once x
        change 0 < (s.clients.set position none).count (some x) at hSome
        rw [hCount, hEntry, beq_self_eq_true, if_pos rfl] at hSome
        omega
      · exact hNow
  | @release t p rest hTasks =>
    obtain ⟨hQuiet, hEnded⟩ := hSteps.quiet (by simp) (by simp) (by simp) (by simp)
      (fun hEvent => by cases hEvent; simp [hTasks])
    refine h.plain hQuiet hEnded (.inl rfl) (fun _ => Nat.le_refl _) rfl ?_
    exact leaving_kept [.release p] [] hTasks rfl (by simp [Task.removes])

/-! ## Runs -/

/-- **A step that keeps the promise keeps the registry and the log in agreement.** -/
theorem Registered.step {event : Event} (h : Registered s) (hSound : Sound s)
    (hOk : Removes s event) (hStep : s.step event = some s') : Registered s' := by
  cases event with
  | accept => exact h.accept hStep
  | complete x c => exact h.complete hSound hOk.1 hStep
  | transfer x op n => exact h.transfer hStep
  | app t action =>
    cases step_cases hStep with
    | app _ hAct => exact h.act hOk.1 hAct
  | leave t => exact h.leave hStep
  | allow now => exact h.allow hSound hStep
  | deny => exact h.deny hStep
  | run t => exact h.run hOk hStep
  | poll event => exact h.poll hStep

theorem registered_init : Registered {} := by
  refine ⟨?_, ?_, ?_, ?_, ?_, ?_, ?_, ?_⟩
  · intro before p after hSplit
    simp at hSplit
  · exact fun _ hMem => by cases hMem
  · exact fun _ => Nat.zero_le _
  · rintro x (hMem | hMem | hMem) <;> cases hMem
  · exact fun _ hMem => by cases hMem
  · exact fun _ hMem => by cases hMem
  · exact fun _ hMem => by cases hMem
  · exact fun _ hYes => by cases hYes

/-- **In a run whose removals keep the promise, a connection is disconnected once, and for
good.** -/
theorem final_of_reach (h : Reach system Removes s) : Final s.log := by
  have hBoth : Sound s ∧ Registered s := by
    refine h.invariant (I := fun s => Sound s ∧ Registered s) ?_ ?_
    · rintro _ rfl
      exact ⟨sound_init, registered_init⟩
    · rintro s event s' ⟨hSound, hRegistered⟩ hOk hStep
      exact ⟨hSound.step hStep, hRegistered.step hSound hOk hStep⟩
  exact hBoth.2.final

/-- A client that goes away while its challenge is written. -/
def goneAtOnce : List Event :=
  [.accept, .allow 0, .leave .context, .complete 0 (.writeFailed .validation1), .leave .context,
    .run .context, .run .context]

theorem final_of_goneAtOnce : ∃ s, Reach system Removes s ∧ Gone s.log 0 ∧ Final s.log := by
  obtain ⟨s, hReach, hEnd⟩ := Reach.exists_of_checked (M := system) Removes rfl goneAtOnce
    (fun s => s.log.contains (.call (.onDisconnect (some 0)))) (by decide)
  exact ⟨s, hReach, List.contains_iff_mem.mp hEnd, final_of_reach hReach⟩

/-! ## A connection that is disconnected twice -/

/-- `OnConnect` keeps the connection, the application disconnects it on the polling thread,
and then the write of the challenge fails. -/
def keptTooLong : List Event :=
  [.accept, .allow 0, .app .context (.keep 0), .leave .context, .app .polling (.disconnect 0),
    .leave .polling, .run .polling, .complete 0 (.writeFailed .validation1)]

/-- **`OnDisconnect` is called twice with the same connection.** -/
theorem disconnected_twice : ∃ s, Reach system Free s ∧ ¬ Final s.log := by
  obtain ⟨s, hReach, hEnd⟩ := Reach.exists_of_free (M := system) rfl keptTooLong
    (fun s => s.log == [.call (.allowConnection 0), .call (.onConnect 0),
      .call (.onDisconnect (some 0)), .call (.onDisconnect (some 0))]) (by decide)
  refine ⟨s, hReach, fun hFinal => ?_⟩
  rw [beq_iff_eq] at hEnd
  obtain ⟨x, hx, -, hAfter⟩ := hFinal _ _ _ (hEnd.trans (show _ =
    [Notice.call (.allowConnection 0), .call (.onConnect 0)] ++ _ :: _ from rfl))
  obtain rfl := Option.some.inj hx
  have hConcerns := hAfter _ List.mem_cons_self
  cases hConcerns

end DedicatedServer

end MinecraftNetwork
