import MinecraftNetwork.DedicatedClient.Objects

/-!
# A lost connection of the client

Whatever fails, `Connection::Disconnect` reaches `DedicatedClient::Disconnect(pConnection)`,
and that posts a lambda that closes `m_Socket`, a socket of the client that nothing else
uses. `OnDisconnect` is called nowhere, and `IsConnected()` stays true, so the client
notices the loss in no run (`loss_unnoticed`).
-/

namespace MinecraftNetwork

open Runs

namespace DedicatedClient

/-- An operation of a connection has failed, or the check in `ReadValidation3` has. -/
def Lost (s : DedicatedClient) (x : Nat) : Prop :=
  (s.objects x).ended = true ∨ (s.objects x).writeFailed = true

/-- Every handler that `Disconnect` has posted has run. -/
def Settled (s : DedicatedClient) : Prop := s.closes = 0 ∧ s.tasks .context = []

/-- A client whose connection is lost notices it, once the handlers posted have run. -/
def NoticesLoss (s : DedicatedClient) (x : Nat) : Prop :=
  s.Lost x → s.Settled →
    s.isConnected = false ∧ s.log.count (.call (.onDisconnect x)) = 1

theorem Sound.silent {s : DedicatedClient} (h : Sound s) (x : Nat) :
    s.log.count (.call (.onDisconnect x)) = 0 :=
  List.count_eq_zero.mpr fun hMem => h.log _ hMem

theorem Sound.open_started {s : DedicatedClient} {x : Nat} (h : Sound s)
    (hStarted : .started x true ∈ s.log) : (s.objects x).connection.isConnected = true := by
  obtain ⟨-, -, hOpen⟩ := h.log _ hStarted
  exact hOpen rfl

/-- **A client notices no loss**: `OnDisconnect` is not called, and while `m_pConnection`
holds a connection whose socket could be opened, `IsConnected()` is true. -/
theorem loss_unnoticed {s : DedicatedClient} {x : Nat} (h : Reach system Free s)
    (hLost : s.Lost x) (hSettled : s.Settled) : ¬ s.NoticesLoss x ∧
      (s.connection = some x → .started x true ∈ s.log → s.isConnected = true) := by
  have hSound := sound_of_reach h
  constructor
  · intro hNotices
    obtain ⟨-, hOnce⟩ := hNotices hLost hSettled
    rw [hSound.silent] at hOnce
    cases hOnce
  · intro hHeld hStarted
    rw [isConnected, hHeld]
    exact hSound.open_started hStarted

/-- No server is listening. -/
def refused : List Event :=
  [.app .application .connect, .create, .leave .application, .start true true, .run .application,
    .leave .application, .run .application, .enter, .complete 0 .connectFailed, .closeSocket]

theorem loss_unnoticed_refused : ∃ s, Reach system Free s ∧ s.Lost 0 ∧ s.Settled ∧
    ¬ s.NoticesLoss 0 := by
  obtain ⟨s, hReach, hEnd⟩ := Reach.exists_of_free (M := system) rfl refused
    (fun s => (s.objects 0).ended && s.closes == 0 && s.tasks .context == []) (by decide)
  simp only [Bool.and_eq_true, beq_iff_eq] at hEnd
  obtain ⟨⟨hEnded, hCloses⟩, hIdle⟩ := hEnd
  exact ⟨s, hReach, .inl hEnded, ⟨hCloses, hIdle⟩,
    (loss_unnoticed hReach (.inl hEnded) ⟨hCloses, hIdle⟩).1⟩

/-- **The connection is refused, and the client is still connected.** -/
theorem connected_after_refusal : ∃ s, Reach system Free s ∧ s.Lost 0 ∧ s.Settled ∧
    s.isConnected = true ∧ s.log.count (.call (.onDisconnect 0)) = 0 := by
  obtain ⟨s, hReach, hEnd⟩ := Reach.exists_of_free (M := system) rfl refused
    (fun s => (s.objects 0).ended && s.closes == 0 && s.tasks .context == [] && s.isConnected &&
      s.log.count (.call (.onDisconnect 0)) == 0) (by decide)
  simp only [Bool.and_eq_true, beq_iff_eq] at hEnd
  obtain ⟨⟨⟨⟨hEnded, hCloses⟩, hIdle⟩, hConnected⟩, hSilent⟩ := hEnd
  exact ⟨s, hReach, .inl hEnded, ⟨hCloses, hIdle⟩, hConnected, hSilent⟩

end DedicatedClient

end MinecraftNetwork
