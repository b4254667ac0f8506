import HktBase.ENet.Groups

/-!
# Failed starts

`StartServer` and `StartClient` give up at three places: when the manager cannot be started at
all, when there is no host, and, a client only, when there is no peer.  The first two leave the
manager as it was.  The third comes after the host has been created, and keeps it.

Whether a failed start leaves a trace is therefore decided at the step (`leavesNoTrace_iff`); a
run of failed starts that leave none keeps a stopped manager stopped.  What a trace does to the
run that follows is `refused_until_stop`: every start fails until `Stop` is called.
-/

namespace HktBase.ENet.ENetManager

open Transition

variable {Host Peer Name : Type} [DecidableEq Peer] [DecidableEq Name]

/-- A start that fails leaves `Host` and `ServerPeer` as they are. -/
def LeavesNoTrace (manager : ENetManager Host Peer Name) (event : ManagerEvent Host Peer Name) :
    Prop :=
  manager.startResult event = some false →
    (manager.step event).host = manager.host ∧
      (manager.step event).serverPeer = manager.serverPeer

/-- A start that fails while there is a host. -/
def RefusedForHost (manager : ENetManager Host Peer Name) (event : ManagerEvent Host Peer Name) :
    Prop :=
  manager.startResult event = some false ∧ manager.host.isSome = true

/-- A client is started, `enet_host_create` answers with a host and `enet_host_connect`
with null. -/
def HalfOpens (manager : ENetManager Host Peer Name) : ManagerEvent Host Peer Name → Prop
  | .startClient _ _ created connected =>
      manager.bIsInitialized = true ∧ manager.host = none ∧ created.isSome = true ∧
        connected = none
  | _ => False

/-! ## One start -/

variable {manager : ENetManager Host Peer Name}

omit [DecidableEq Peer] [DecidableEq Name] in
theorem stopped_of_guard (hguard : ¬ (!manager.bIsInitialized || manager.host.isSome) = true) :
    manager.bIsInitialized = true ∧ manager.host = none := by
  simpa using hguard

omit [DecidableEq Peer] [DecidableEq Name] in
/-- A server that does not start leaves no trace. -/
theorem startServer_failed {port : UInt16} {maxClients : Int32} {created : Option Host}
    (hfailed : (manager.startServer port maxClients created).2 = false) :
    (manager.startServer port maxClients created).1.host = manager.host ∧
      (manager.startServer port maxClients created).1.serverPeer = manager.serverPeer := by
  unfold startServer at hfailed ⊢
  by_cases hguard : (!manager.bIsInitialized || manager.host.isSome) = true
  · rw [if_pos hguard]
    exact ⟨rfl, rfl⟩
  · obtain ⟨-, hhost⟩ := stopped_of_guard hguard
    rw [if_neg hguard] at hfailed ⊢
    cases created with
    | none => exact ⟨hhost.symm, rfl⟩
    | some host => simp at hfailed

omit [DecidableEq Peer] [DecidableEq Name] in
/-- A client that does not start leaves no trace unless it has got a host: the third exit comes
behind the assignment of `Host`, which nothing takes back. -/
theorem startClient_failed_iff {hostName : String} {port : UInt16} {created : Option Host}
    {connected : Option Peer} :
    ((manager.startClient hostName port created connected).2 = false →
        (manager.startClient hostName port created connected).1.host = manager.host ∧
          (manager.startClient hostName port created connected).1.serverPeer =
            manager.serverPeer) ↔
      ¬ (manager.bIsInitialized = true ∧ manager.host = none ∧ created.isSome = true ∧
        connected = none) := by
  unfold startClient
  by_cases hguard : (!manager.bIsInitialized || manager.host.isSome) = true
  · rw [if_pos hguard]
    apply iff_of_true
    · exact fun _ => ⟨rfl, rfl⟩
    · rintro ⟨hinitialized, hhost, -⟩
      simp [hinitialized, hhost] at hguard
  · obtain ⟨hinitialized, hhost⟩ := stopped_of_guard hguard
    rw [if_neg hguard]
    cases created with
    | none => simp [hhost, emit]
    | some host =>
        cases connected with
        -- no peer: the host has been created and stays
        | none => simp [hinitialized, hhost, emit]
        | some peer => simp

/-- A failed start leaves a trace exactly when it is a client that has got its host. -/
theorem leavesNoTrace_iff (event : ManagerEvent Host Peer Name) :
    manager.LeavesNoTrace event ↔ ¬ manager.HalfOpens event := by
  cases event with
  | startServer port maxClients created =>
      apply iff_of_true
      · intro hfailed
        exact startServer_failed (Option.some.inj hfailed)
      · exact not_false
  | startClient hostName port created connected =>
      unfold LeavesNoTrace HalfOpens step startResult
      dsimp only
      rw [Option.some.injEq]
      exact startClient_failed_iff
  | _ => simp [LeavesNoTrace, HalfOpens, startResult]

omit [DecidableEq Peer] [DecidableEq Name] in
theorem startResult_of_host (hhost : manager.host.isSome = true)
    (event : ManagerEvent Host Peer Name) : manager.startResult event ≠ some true := by
  cases event with
  | startServer port maxClients created => simp [startResult, startServer, hhost]
  | startClient hostName port created connected => simp [startResult, startClient, hhost]
  | _ => simp [startResult]

/-! ## Runs -/

/-- Failed starts that leave no trace keep a stopped manager stopped. -/
theorem host_run_of_failed (hstopped : manager.host = none)
    {failed : List (ManagerEvent Host Peer Name)}
    (hfailed : EveryStep step manager
      (fun manager event => manager.startResult event = some false) failed)
    (hclean : EveryStep step manager LeavesNoTrace failed) : (run step manager failed).host = none := by
  apply run_invariant_of_everyStep
    (P := fun manager : ENetManager Host Peer Name => manager.host = none)
    (Q := fun manager event => manager.startResult event = some false ∧ manager.LeavesNoTrace event)
  · exact hstopped
  · rintro manager event hhost ⟨hevent, hnoTrace⟩
    rw [(hnoTrace hevent).1]
    exact hhost
  · intro before event after hevents
    exact ⟨hfailed before event after hevents, hclean before event after hevents⟩

/-- Until the next `Stop` a manager with a host keeps it, and every start fails.  No other call
and no event assigns `Host` while there is one. -/
theorem refused_until_stop (hhost : manager.host.isSome = true)
    {events : List (ManagerEvent Host Peer Name)} (hevents : .stop ∉ events) :
    (run step manager events).host = manager.host ∧
      EveryStep step manager (fun manager event => manager.startResult event ≠ some true)
        events := by
  induction events using List.reverseRecOn with
  | nil => exact ⟨rfl, historically_nil _⟩
  | append_singleton before event ih =>
      obtain ⟨hkept, hrefused⟩ := ih fun hstop => hevents (List.mem_append_left _ hstop)
      have hruns : (run step manager before).host.isSome = true := by rwa [hkept]
      rw [run_concat, everyStep_concat]
      refine ⟨?_, hrefused, startResult_of_host hruns event⟩
      have hcases : ((run step manager before).step event).host = (run step manager before).host ∨
          (run step manager before).host = none ∨ event = .stop := host_step_cases event
      rcases hcases with hsame | hnone | rfl
      · exact hsame.trans hkept
      · simp [hnone] at hruns
      · exact absurd (by simp) hevents

/-- Failed starts leave no trace: `Host` and `ServerPeer` are as before each of them, and after
any number of them a stopped manager refuses no start because of a host. -/
structure FailedStartsLeaveNoTrace (initialized : Bool)
    (events : List (ManagerEvent Host Peer Name)) : Prop where
  unchanged : EveryStep step (create initialized) LeavesNoTrace events
  reopens : ∀ before failed start rest, events = before ++ (failed ++ start :: rest) →
    (run step (create initialized) before).host = none →
    EveryStep step (run step (create initialized) before)
      (fun manager event => manager.startResult event = some false) failed →
    ¬ RefusedForHost (run step (create initialized) (before ++ failed)) start

/-- **A failed start leaves no trace unless it is a client that has got its host.**  This holds
of every run, and where it fails no peer was available for the connection. -/
theorem failed_starts_leave_no_trace_iff (initialized : Bool)
    (events : List (ManagerEvent Host Peer Name)) :
    FailedStartsLeaveNoTrace initialized events ↔
      EveryStep step (create initialized) (fun manager event => ¬ manager.HalfOpens event)
        events := by
  constructor
  · intro h before event after hevents
    exact (leavesNoTrace_iff event).mp (h.unchanged before event after hevents)
  · intro hevents
    have hclean : EveryStep step (create initialized) LeavesNoTrace events := by
      intro before event after hsplit
      exact (leavesNoTrace_iff event).mpr (hevents before event after hsplit)
    refine ⟨hclean, ?_⟩
    rintro before failed start rest hsplit hstopped hfailed ⟨-, hhost⟩
    -- each failed start of the list is a step of the whole run as well
    have hcleanFailed :
        EveryStep step (run step (create initialized) before) LeavesNoTrace failed := by
      intro first event later hlater
      rw [← run_append]
      apply hclean (before ++ first) event (later ++ start :: rest)
      rw [hsplit, hlater, List.append_assoc, List.append_assoc, List.cons_append]
    rw [run_append, host_run_of_failed hstopped hfailed hcleanFailed] at hhost
    simp at hhost

/-- The host of a client is created, no peer is available, and then a server is started. -/
def hostWithoutPeer : List (ManagerEvent ℕ ℕ String) :=
  [.startClient "localhost" 7777 (some 0) none, .startServer 7777 32 (some 1)]

theorem hostWithoutPeer_leaves_host : ¬ FailedStartsLeaveNoTrace true hostWithoutPeer := by
  intro h
  have hrefused := h.reopens [] [.startClient "localhost" 7777 (some 0) none]
    (.startServer 7777 32 (some 1)) [] rfl rfl
  apply hrefused
  · decide +kernel
  · exact ⟨rfl, rfl⟩

end HktBase.ENet.ENetManager
