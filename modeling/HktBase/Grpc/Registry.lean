import Mathlib.Data.Set.Insert
import HktBase.Library.SecondaryIndex
import HktBase.Grpc.Listing

/-!
# What the groups list

The groups of the session manager read as a secondary index of the live sessions: a
session has one key, its group with its id, and the reference listed under it is the
pointer to it.  A session is listed when its client connects, and unlisted when it is
destroyed, unless its group is -1: that number marks a session without a client, but a
client may also ask for it.

A session that a client has opened for group -1 is therefore listed, and stays listed
when it is destroyed.  That is the only way in which a group comes to list a destroyed
session.

`toIndexedStore` is the reading, with one lemma for each function of the session manager.
`Consistent` is soundness of the index together with what the sessions are themselves:
waiting for a client and unlisted, or in order.  `Consistent.complete_cases` says what a
completion can do then, and each of the three cases has a lemma of its own
(`Consistent.destroyed`, `Consistent.registerSession`, `Consistent.setSession`).
-/

namespace HktBase.Grpc

open Transition

namespace RpcService

/-! ## The groups as a secondary index -/

/-- The only key of a session. -/
def sessionKeys (item : ℕ × StreamSessionHandler) : Set (Int32 × UInt64) :=
  {(item.2.groupId, item.2.sessionId)}

/-- The group lists the pointer. -/
def Lists (service : RpcService) (groupId : Int32) (session : ℕ) : Prop :=
  ∃ group, service.groups.find groupId = some group ∧
    ∃ sessionId, group.find sessionId = some session

/-- Every session in a group has not been destroyed. -/
def ListsLiveSessions (service : RpcService) : Prop :=
  ∀ groupId session, service.Lists groupId session → (service.handler session).isSome = true

/-- Live sessions under their pointers, and pointers under groups and ids. -/
def toIndexedStore (service : RpcService) :
    IndexedStore ℕ (ℕ × StreamSessionHandler) ℕ (Int32 × UInt64) :=
  { store := fun session => (service.handler session).map fun handler => (session, handler)
    index := fun key => {session | ∃ group, service.groups.find key.1 = some group ∧
      group.find key.2 = some session} }

variable {service : RpcService}

theorem store_eq_some {session : ℕ} {item : ℕ × StreamSessionHandler} :
    service.toIndexedStore.store session = some item ↔
      item.1 = session ∧ service.handler session = some item.2 := by
  obtain ⟨pointer, handler⟩ := item
  simp only [toIndexedStore, Option.map_eq_some_iff, Prod.mk.injEq]
  constructor
  · intro hmem
    obtain ⟨found, hfound, rfl, rfl⟩ := hmem
    exact ⟨rfl, hfound⟩
  · rintro ⟨rfl, hhandler⟩
    exact ⟨handler, hhandler, rfl, rfl⟩

theorem listed_iff {session : ℕ} :
    service.toIndexedStore.Listed session ↔ ∃ groupId, service.Lists groupId session := by
  constructor
  · intro hlisted
    obtain ⟨key, group, hgroup, hfind⟩ := hlisted
    exact ⟨key.1, group, hgroup, key.2, hfind⟩
  · intro hlists
    obtain ⟨groupId, group, hgroup, sessionId, hfind⟩ := hlists
    exact ⟨(groupId, sessionId), group, hgroup, hfind⟩

theorem lists_iff {groupId : Int32} {session : ℕ} :
    service.Lists groupId session ↔ ∃ sessionId, service.ListedAt groupId sessionId session := by
  constructor
  · intro ⟨group, hgroup, sessionId, hfind⟩
    exact ⟨sessionId, group, hgroup, hfind⟩
  · intro ⟨sessionId, group, hgroup, hfind⟩
    exact ⟨group, hgroup, sessionId, hfind⟩

theorem listsLiveSessions_iff :
    service.ListsLiveSessions ↔ service.toIndexedStore.NoneStale Prod.fst := by
  constructor
  · intro h key session hlisted
    obtain ⟨groupId, hlists⟩ := listed_iff.mp ⟨key, hlisted⟩
    obtain ⟨handler, hhandler⟩ := Option.isSome_iff_exists.mp (h groupId session hlists)
    exact ⟨session, (session, handler), store_eq_some.mpr ⟨rfl, hhandler⟩, rfl⟩
  · intro h groupId session hlists
    obtain ⟨group, hgroup, sessionId, hfind⟩ := hlists
    obtain ⟨pointer, item, hstored, hitem⟩ := h (groupId, sessionId) session ⟨group, hgroup, hfind⟩
    obtain ⟨hpointer, hhandler⟩ := store_eq_some.mp hstored
    rw [← hitem, hpointer, hhandler]
    rfl

theorem distinctRefs : service.toIndexedStore.DistinctRefs Prod.fst := by
  intro first second item found hfirst hsecond href
  rw [← (store_eq_some.mp hfirst).1, ← (store_eq_some.mp hsecond).1]
  exact href

/-! ## What the operations do to it -/

theorem toIndexedStore_setSession_some {session : ℕ} (hlt : session < service.sessions.length)
    {value : StreamSession} {handler : StreamSessionHandler}
    (hhandler : value.handler = some handler) :
    (service.setSession session value).toIndexedStore =
      service.toIndexedStore.put session (session, handler) := by
  unfold toIndexedStore IndexedStore.put
  congr 1
  funext other
  rw [handler_setSession hlt, Function.update_apply]
  split
  · next h => rw [h, hhandler, Option.map_some]
  · rfl

theorem toIndexedStore_setSession_none {session : ℕ} (hlt : session < service.sessions.length)
    {value : StreamSession} (hhandler : value.handler = none) :
    (service.setSession session value).toIndexedStore = service.toIndexedStore.erase session := by
  unfold toIndexedStore IndexedStore.erase
  congr 1
  funext other
  rw [handler_setSession hlt, Function.update_apply]
  split
  · rw [hhandler, Option.map_none]
  · rfl

theorem toIndexedStore_newSession :
    service.newSession.toIndexedStore =
      service.toIndexedStore.put service.sessions.length
        (service.sessions.length, { sessionId := service.nextSessionId }) := by
  unfold toIndexedStore IndexedStore.put
  congr 1
  funext other
  rw [Function.update_apply]
  simp only [handler, newSession]
  by_cases h : other = service.sessions.length
  · simp [h, StreamSession.start]
  · rw [if_neg h]
    rcases Nat.lt_or_ge other service.sessions.length with hlt | hge
    · rw [List.getElem?_append_left hlt]
    · rw [List.getElem?_eq_none hge, List.getElem?_eq_none (by simp; omega)]

theorem toIndexedStore_unregisterSession (groupId : Int32) (sessionId : UInt64) :
    (service.unregisterSession groupId sessionId).toIndexedStore =
      service.toIndexedStore.dropKeys {(groupId, sessionId)} := by
  unfold toIndexedStore IndexedStore.dropKeys
  congr 1
  funext key
  ext session
  show (service.unregisterSession groupId sessionId).ListedAt key.1 key.2 session ↔
    service.ListedAt key.1 key.2 session ∧ key ∉ ({(groupId, sessionId)} : Set _)
  rw [listedAt_unregisterSession, Set.mem_singleton_iff, Prod.ext_iff, and_comm]

theorem toIndexedStore_registerSession (groupId : Int32) (session : ℕ)
    (handler : StreamSessionHandler) (hgroupId : handler.groupId = groupId) :
    (service.registerSession groupId handler.sessionId session).toIndexedStore =
      (service.toIndexedStore.dropKeys {(groupId, handler.sessionId)}).list Prod.fst sessionKeys
        (session, handler) := by
  unfold toIndexedStore IndexedStore.dropKeys IndexedStore.list
  congr 1
  funext key
  ext other
  show (service.registerSession groupId handler.sessionId session).ListedAt key.1 key.2 other ↔
    (service.ListedAt key.1 key.2 other ∧ key ∉ ({(groupId, handler.sessionId)} : Set _)) ∨
      key ∈ sessionKeys (session, handler) ∧ other = session
  rw [listedAt_registerSession, sessionKeys, Set.mem_singleton_iff, Set.mem_singleton_iff, hgroupId]
  by_cases hkey : key = (groupId, handler.sessionId)
  · simp [hkey]
  · rw [if_neg (mt Prod.ext_iff.mpr hkey)]
    simp [hkey]

/-! ## Consistency -/

/-- A pointer is listed only under the group and the id of a live session, and a session
waits for its client, unlisted, or is in order. -/
structure Consistent (service : RpcService) : Prop where
  sound : service.toIndexedStore.Sound Prod.fst sessionKeys
  sessions : ∀ session value, service.sessions[session]? = some value →
    (∃ sessionId, value = .start sessionId) ∧ ¬ service.toIndexedStore.Listed session ∨
      value.InOrder

/-- An operation of a session with `GroupId` -1 fails only when group -1 does not list
the session. -/
def UnregistersDestroyed (service : RpcService) : ServiceEvent → Prop
  | .complete session index false _ =>
      ∀ value handler, service.sessions[session]? = some value →
        value.outstanding[index]? ≠ none → value.handler = some handler →
        handler.groupId = -1 → ¬ service.Lists (-1) session
  | _ => True

theorem consistent_empty : ({} : RpcService).Consistent := by
  refine ⟨?_, by simp⟩
  simp [IndexedStore.Sound, toIndexedStore]

theorem Consistent.live (h : service.Consistent) {session : ℕ}
    (hlisted : service.toIndexedStore.Listed session) :
    ∃ value handler, service.sessions[session]? = some value ∧ value.handler = some handler := by
  obtain ⟨key, hmem⟩ := hlisted
  obtain ⟨pointer, item, hstored, rfl, -⟩ := h.sound key session hmem
  obtain ⟨rfl, hhandler⟩ := store_eq_some.mp hstored
  obtain ⟨value, hvalue, hsome⟩ := Option.bind_eq_some_iff.mp hhandler
  exact ⟨value, item.2, hvalue, hsome⟩

/-- Setting a session to one that is in order keeps the others as they are, if what is
listed besides it was listed before. -/
theorem Consistent.sessions_setSession (h : service.Consistent) {session : ℕ}
    {value : StreamSession} (hvalue : value.InOrder) {next : RpcService}
    (hsessions : next.sessions = (service.setSession session value).sessions)
    (hlisted : ∀ other, other ≠ session → next.toIndexedStore.Listed other →
      service.toIndexedStore.Listed other) (other : ℕ) (found : StreamSession)
    (hfound : next.sessions[other]? = some found) :
    (∃ sessionId, found = .start sessionId) ∧ ¬ next.toIndexedStore.Listed other ∨
      found.InOrder := by
  rw [hsessions, setSession, List.getElem?_set] at hfound
  split at hfound
  · split at hfound
    · obtain rfl := Option.some.inj hfound
      exact Or.inr hvalue
    · simp at hfound
  · next hne =>
      rcases h.sessions other found hfound with ⟨hstart, hunlisted⟩ | horder
      · exact Or.inl ⟨hstart, fun hnext => hunlisted (hlisted other (Ne.symm hne) hnext)⟩
      · exact Or.inr horder

/-- A session is replaced by one in order, with the same group and id if it is listed: the key
that it is listed under is read off the new handler. -/
theorem Consistent.setSession (h : service.Consistent) {session : ℕ} {old value : StreamSession}
    {before after : StreamSessionHandler} (hold : service.sessions[session]? = some old)
    (hbefore : old.handler = some before) (hvalue : value.InOrder)
    (hafter : value.handler = some after)
    (hsame : service.toIndexedStore.Listed session →
      after.groupId = before.groupId ∧ after.sessionId = before.sessionId) :
    (service.setSession session value).Consistent := by
  have hlt : session < service.sessions.length := (List.getElem?_eq_some_iff.mp hold).1
  have hstore := toIndexedStore_setSession_some hlt hafter
  refine ⟨?_, h.sessions_setSession hvalue rfl fun other _ hlisted => ?_⟩
  · rw [hstore]
    refine h.sound.put fun item hitem hlisted => ?_
    obtain ⟨hpointer, hhandler⟩ := store_eq_some.mp hitem
    have hfound : service.handler session = some before := (handler_eq hold).trans hbefore
    have hitem2 : item.2 = before := Option.some.inj (hhandler.symm.trans hfound)
    rw [hpointer] at hlisted
    obtain ⟨hgroup, hid⟩ := hsame hlisted
    refine ⟨hpointer.symm, ?_⟩
    simp [sessionKeys, hitem2, hgroup, hid]
  · rwa [hstore] at hlisted

theorem Consistent.newSession (h : service.Consistent) : service.newSession.Consistent := by
  have hnone : ∀ item, service.toIndexedStore.store service.sessions.length ≠ some item := by
    intro item hitem
    have hhandler := (store_eq_some.mp hitem).2
    rw [handler, List.getElem?_eq_none le_rfl] at hhandler
    simp at hhandler
  refine ⟨?_, fun other found hfound => ?_⟩
  · rw [toIndexedStore_newSession]
    exact h.sound.put fun item hitem _ => absurd hitem (hnone item)
  · rw [toIndexedStore_newSession]
    rcases Nat.lt_or_ge other service.sessions.length with hlt | hge
    · rw [RpcService.newSession, List.getElem?_append_left hlt] at hfound
      exact h.sessions other found hfound
    · rw [RpcService.newSession, List.getElem?_append_right hge, List.getElem?_singleton] at hfound
      split at hfound
      · next hzero =>
          refine Or.inl ⟨⟨_, (Option.some.inj hfound).symm⟩, fun hlisted => ?_⟩
          obtain ⟨value, -, hvalue, -⟩ := h.live hlisted
          rw [List.getElem?_eq_none hge] at hvalue
          simp at hvalue
      · simp at hfound

/-! ## Broadcasts -/

/-- The groups and the calls through dangling pointers are as before. -/
structure SameGroups (before after : RpcService) : Prop where
  groups : after.groups = before.groups
  danglingCalls : after.danglingCalls = before.danglingCalls

theorem SameGroups.listed_iff {before after : RpcService} (h : SameGroups before after)
    {session : ℕ} :
    after.toIndexedStore.Listed session ↔ before.toIndexedStore.Listed session := by
  simp only [IndexedStore.Listed, toIndexedStore, h.groups]

/-- `Write` on a listed session finds it alive. -/
theorem Consistent.writeSession (h : service.Consistent) (packet : BehaviorPacket) {session : ℕ}
    (hlisted : service.toIndexedStore.Listed session) :
    (service.writeSession packet session).Consistent ∧
      SameGroups service (service.writeSession packet session) := by
  obtain ⟨value, handler, hvalue, hhandler⟩ := h.live hlisted
  have horder : value.InOrder := by
    rcases h.sessions session value hvalue with ⟨-, hunlisted⟩ | horder
    · exact absurd hlisted hunlisted
    · exact horder
  have hwrite : service.writeSession packet session =
      service.setSession session (value.write packet) := by
    rw [RpcService.writeSession, hvalue]
    simp [hhandler]
  rw [hwrite]
  refine ⟨?_, rfl, rfl⟩
  exact h.setSession hvalue hhandler (horder.write packet)
    (StreamSession.handler_write hhandler packet) fun _ => ⟨by simp, by simp⟩

theorem Consistent.foldl_writeSession (h : service.Consistent) (packet : BehaviorPacket)
    (sessions : List ℕ) (hlisted : ∀ session ∈ sessions, service.toIndexedStore.Listed session) :
    (sessions.foldl (RpcService.writeSession packet) service).Consistent ∧
      SameGroups service (sessions.foldl (RpcService.writeSession packet) service) := by
  induction sessions generalizing service with
  | nil => exact ⟨h, rfl, rfl⟩
  | cons session rest ih =>
      obtain ⟨hfirst, hsame⟩ := h.writeSession packet (hlisted session (List.mem_cons_self ..))
      obtain ⟨hrest, hgroups, hcalls⟩ := ih hfirst fun other hother =>
        hsame.listed_iff.mpr (hlisted other (List.mem_cons_of_mem _ hother))
      exact ⟨hrest, hgroups.trans hsame.groups, hcalls.trans hsame.danglingCalls⟩

theorem Consistent.broadcastToGroup (h : service.Consistent) (groupId : Int32)
    (packet : BehaviorPacket) (order : VisitOrder UInt64 ℕ) :
    (service.broadcastToGroup groupId packet order).Consistent ∧
      SameGroups service (service.broadcastToGroup groupId packet order) := by
  rw [broadcastToGroup_eq]
  refine h.foldl_writeSession packet _ fun session hmem => ?_
  obtain ⟨sessionId, hlisted⟩ := mem_snapshot.mp hmem
  exact ⟨(groupId, sessionId), hlisted⟩

/-! ## Completions -/

/-- What a completion does to a consistent service: nothing, since there is no such operation; a
failure; the connect of a client, to a session that nobody lists; or a write of a session in
order. -/
theorem Consistent.complete_cases (h : service.Consistent) (session index : ℕ) (bOk : Bool)
    (request : SyncRequest) :
    service.complete session index bOk request = service ∨
      ∃ value handler operation, service.sessions[session]? = some value ∧
        value.outstanding[index]? = some operation ∧ value.handler = some handler ∧
        ((bOk = false ∧ service.complete session index bOk request =
            (service.setSession session (value.complete index false request)).destroyed handler) ∨
          (bOk = true ∧ ¬ service.toIndexedStore.Listed session ∧
            value.complete index true request = .connected handler.sessionId request ∧
            service.complete session index bOk request =
              (service.setSession session
                (.connected handler.sessionId request)).newSession.registerSession
                  request.groupId handler.sessionId session) ∨
          (bOk = true ∧ value.InOrder ∧ (∃ response, operation = .write response) ∧
            service.complete session index bOk request =
              service.setSession session (value.complete index true request))) := by
  cases hvalue : service.sessions[session]? with
  | none => exact Or.inl (by rw [complete, hvalue])
  | some value =>
      cases hoperation : value.outstanding[index]? with
      | none => exact Or.inl (by simp [complete, hvalue, hoperation])
      | some operation =>
          cases hhandler : value.handler with
          | none =>
              -- a destroyed session has no operation
              rcases h.sessions session value hvalue with ⟨⟨sessionId, rfl⟩, -⟩ | horder
              · simp [StreamSession.start] at hhandler
              · rw [(StreamSession.inOrder_of_none hhandler).mp horder] at hoperation
                simp at hoperation
          | some handler =>
              refine Or.inr ⟨value, handler, operation, rfl, hoperation, hhandler, ?_⟩
              cases bOk with
              | false =>
                  refine Or.inl ⟨rfl, ?_⟩
                  simp [complete, hvalue, hoperation, hhandler]
              | true =>
                  rcases h.sessions session value hvalue with ⟨⟨sessionId, rfl⟩, hunlisted⟩ | horder
                  · obtain ⟨rfl, rfl⟩ : index = 0 ∧ operation = .connect := by
                      cases index with
                      | zero => simpa [StreamSession.start, eq_comm] using hoperation
                      | succ index => simp [StreamSession.start] at hoperation
                    obtain rfl : handler = { sessionId := sessionId } :=
                      Option.some.inj hhandler.symm
                    refine Or.inr (Or.inl ⟨rfl, hunlisted, rfl, ?_⟩)
                    simp [complete, hvalue, StreamSession.start, StreamSession.connected]
                  · obtain ⟨response, rfl⟩ := horder.exists_write hoperation
                    refine Or.inr (Or.inr ⟨rfl, horder, ⟨response, rfl⟩, ?_⟩)
                    simp [complete, hvalue, hoperation, hhandler]

/-- A live session in order is registered under its own group and id. -/
theorem Consistent.registerSession (h : service.Consistent) {session : ℕ} {value : StreamSession}
    {handler : StreamSessionHandler} (hvalue : service.sessions[session]? = some value)
    (horder : value.InOrder) (hhandler : value.handler = some handler) {groupId : Int32}
    (hgroup : handler.groupId = groupId) :
    (service.registerSession groupId handler.sessionId session).Consistent := by
  have hstore : (service.registerSession groupId handler.sessionId session).toIndexedStore = _ :=
    toIndexedStore_registerSession groupId session handler hgroup
  have hstored : service.toIndexedStore.store session = some (session, handler) :=
    store_eq_some.mpr ⟨rfl, (handler_eq hvalue).trans hhandler⟩
  refine ⟨?_, fun other found hfound => ?_⟩
  · rw [hstore]
    exact (h.sound.dropKeys _).list hstored
  · rcases h.sessions other found hfound with ⟨hstart, hunlisted⟩ | hother
    · refine Or.inl ⟨hstart, ?_⟩
      rw [hstore]
      rintro ⟨key, hmem | ⟨-, hsame⟩⟩
      · exact hunlisted ⟨key, hmem.1⟩
      · -- the registered session is in order and waits for no client
        obtain rfl : other = session := hsame
        obtain rfl : found = value := Option.some.inj (hfound.symm.trans hvalue)
        obtain ⟨sessionId, rfl⟩ := hstart
        obtain ⟨response, hwrite⟩ :=
          horder.exists_write (show (StreamSession.start sessionId).outstanding[0]? = _ from rfl)
        simp at hwrite
    · exact Or.inr hother

/-- The destructor leaves only what it cannot unregister: it unregisters the session under its
group and id, where every entry for it is, unless the group is -1. -/
theorem Consistent.destroyed (h : service.Consistent) {session : ℕ} {value dead : StreamSession}
    {handler : StreamSessionHandler} (hvalue : service.sessions[session]? = some value)
    (hhandler : value.handler = some handler) (hdead : dead.handler = none)
    (horder : dead.InOrder) (hsafe : handler.groupId = -1 → ¬ service.Lists (-1) session) :
    ((service.setSession session dead).destroyed handler).Consistent := by
  have hlt : session < service.sessions.length := (List.getElem?_eq_some_iff.mp hvalue).1
  have herase := toIndexedStore_setSession_none hlt hdead
  have hstored : service.handler session = some handler := (handler_eq hvalue).trans hhandler
  -- an entry for the session is under its group and its id
  have hkeys : ∀ key, session ∈ service.toIndexedStore.index key →
      key = (handler.groupId, handler.sessionId) := by
    intro key hmem
    have hitem : service.toIndexedStore.store session = some (session, handler) :=
      store_eq_some.mpr ⟨rfl, hstored⟩
    exact h.sound.mem_keys distinctRefs hitem hmem
  have hold : ∀ item, service.toIndexedStore.store session = some item → item.1 = session :=
    fun item hitem => (store_eq_some.mp hitem).1
  unfold RpcService.destroyed
  split
  · have hstore : ((service.setSession session dead).unregisterSession handler.groupId
        handler.sessionId).toIndexedStore =
        (service.toIndexedStore.dropKeys {(handler.groupId, handler.sessionId)}).erase session := by
      rw [toIndexedStore_unregisterSession, herase]
      rfl
    refine ⟨?_, h.sessions_setSession horder rfl fun other _ hlisted => ?_⟩
    · rw [hstore]
      refine IndexedStore.sound_erase (h.sound.dropKeys _) ?_
      intro item hitem hlisted
      obtain ⟨key, hmem, hkept⟩ := hlisted
      rw [hold item hitem] at hmem
      exact hkept (hkeys key hmem)
    · rw [hstore] at hlisted
      obtain ⟨key, hmem⟩ := hlisted
      exact ⟨key, hmem.1⟩
  · next hgroup =>
      refine ⟨?_, h.sessions_setSession horder rfl fun other _ hlisted => ?_⟩
      · rw [herase]
        refine IndexedStore.sound_erase h.sound ?_
        intro item hitem hlisted
        obtain ⟨key, hmem⟩ := hlisted
        rw [hold item hitem] at hmem
        have hminus : handler.groupId = -1 := not_not.mp hgroup
        refine hsafe hminus ?_
        obtain rfl := hkeys key hmem
        obtain ⟨group, hfind, hlists⟩ := hmem
        rw [hminus] at hfind
        exact ⟨group, hfind, handler.sessionId, hlists⟩
      · rwa [herase] at hlisted

theorem danglingCalls_destroyed (handler : StreamSessionHandler) :
    (service.destroyed handler).danglingCalls = service.danglingCalls := by
  unfold RpcService.destroyed
  split <;> rfl

theorem Consistent.complete (h : service.Consistent) {session index : ℕ} {bOk : Bool}
    {request : SyncRequest}
    (hsafe : service.UnregistersDestroyed (.complete session index bOk request)) :
    (service.complete session index bOk request).Consistent ∧
      (service.complete session index bOk request).danglingCalls = service.danglingCalls := by
  rcases h.complete_cases session index bOk request with
    hsame | ⟨value, handler, operation, hvalue, hoperation, hhandler, hcases⟩
  · rw [hsame]
    exact ⟨h, rfl⟩
  rcases hcases with ⟨rfl, hnext⟩ | ⟨rfl, hunlisted, -, hnext⟩ | ⟨rfl, horder, hwrite, hnext⟩
  · have hdead : (value.complete index false request).InOrder := by
      rcases h.sessions session value hvalue with ⟨⟨sessionId, rfl⟩, -⟩ | horder
      · exact StreamSession.inOrder_start_failed hoperation request
      · exact horder.complete index false request
    rw [hnext]
    refine ⟨?_, danglingCalls_destroyed handler⟩
    refine h.destroyed hvalue hhandler
      (StreamSession.handler_complete_false hoperation request) hdead ?_
    exact hsafe value handler hvalue (by simp [hoperation]) hhandler
  · rw [hnext]
    refine ⟨?_, rfl⟩
    -- the client has come: its session is in order from here on, and a new one waits
    have horder := StreamSession.inOrder_connected handler.sessionId request
    have hconnected := h.setSession hvalue hhandler horder rfl fun hlisted =>
      absurd hlisted hunlisted
    have hlt : session < service.sessions.length := (List.getElem?_eq_some_iff.mp hvalue).1
    have hhandlerNext : (StreamSession.connected handler.sessionId request).handler =
        some { sessionId := handler.sessionId, groupId := request.groupId, request := request } :=
      rfl
    refine hconnected.newSession.registerSession ?_ horder hhandlerNext rfl
    rw [RpcService.newSession, List.getElem?_append_left (by simpa [RpcService.setSession])]
    simp [RpcService.setSession, hlt]
  · obtain ⟨response, rfl⟩ := hwrite
    rw [hnext]
    refine ⟨?_, rfl⟩
    exact h.setSession hvalue hhandler (horder.complete index true request)
      (StreamSession.handler_complete_write hoperation hhandler request)
      fun _ => ⟨by simp, by simp⟩

/-- An operation fails on a session of group -1 that the group lists, and the group
lists a destroyed session. -/
theorem unregistersDestroyed_of_listsLiveSessions {event : ServiceEvent}
    (hnext : (service.step event).ListsLiveSessions) : service.UnregistersDestroyed event := by
  cases event with
  | run => trivial
  | broadcast groupId packet order => trivial
  | complete session index bOk request =>
      cases bOk with
      | true => trivial
      | false =>
          intro value handler hvalue hoperation hhandler hgroup hlists
          obtain ⟨operation, hoperation⟩ := Option.ne_none_iff_exists'.mp hoperation
          have hcomplete : service.complete session index false request =
              service.setSession session (value.complete index false request) := by
            simp [RpcService.complete, hvalue, hoperation, hhandler, RpcService.destroyed, hgroup]
          have hlt : session < service.sessions.length := (List.getElem?_eq_some_iff.mp hvalue).1
          -- the destructor passes group -1 over, so that the entry survives the session
          have hdead := StreamSession.handler_complete_false hoperation request
          rw [RpcService.step, hcomplete, listsLiveSessions_iff,
            toIndexedStore_setSession_none hlt hdead] at hnext
          have hstored : service.toIndexedStore.store session = some (session, handler) :=
            store_eq_some.mpr ⟨rfl, (handler_eq hvalue).trans hhandler⟩
          exact IndexedStore.not_listed_of_noneStale_erase distinctRefs hnext hstored
            (listed_iff.mpr ⟨-1, hlists⟩)

theorem Consistent.step (h : service.Consistent) {event : ServiceEvent}
    (hsafe : service.UnregistersDestroyed event) :
    (service.step event).Consistent ∧
      (service.step event).danglingCalls = service.danglingCalls := by
  cases event with
  | run => exact ⟨h.newSession, rfl⟩
  | complete session index bOk request => exact h.complete hsafe
  | broadcast groupId packet order =>
      obtain ⟨hnext, hsame⟩ := h.broadcastToGroup groupId packet order
      exact ⟨hnext, hsame.danglingCalls⟩

theorem Consistent.listsLiveSessions (h : service.Consistent) : service.ListsLiveSessions :=
  listsLiveSessions_iff.mpr h.sound.noneStale

/-- **When no group lists a destroyed session.**  In every state of a run every session
in a group has not been destroyed, and no call was made through a pointer to a destroyed
one, exactly when no operation fails of a session that a client has opened for group -1
and that the group lists. -/
theorem groups_list_live_iff (events : List ServiceEvent) :
    (HoldsThroughout step {} ListsLiveSessions events ∧
      (run step {} events).danglingCalls = []) ↔
      EveryStep step {} UnregistersDestroyed events := by
  have hlists : HoldsThroughout step {} ListsLiveSessions events ↔
      EveryStep step {} UnregistersDestroyed events := by
    rw [holdsThroughout_iff consistent_empty.listsLiveSessions]
    apply everyStep_iff_of_invariant (P := Consistent)
    · exact consistent_empty
    · intro service event h hnext
      exact (h.step (unregistersDestroyed_of_listsLiveSessions hnext)).1
    · intro service event h
      exact ⟨unregistersDestroyed_of_listsLiveSessions, fun hsafe =>
        (h.step hsafe).1.listsLiveSessions⟩
  rw [hlists]
  refine and_iff_left_of_imp fun hsafe => ?_
  have hrun : (run step {} events).Consistent ∧ (run step {} events).danglingCalls = [] := by
    refine run_invariant_of_everyStep
      (P := fun service : RpcService => service.Consistent ∧ service.danglingCalls = [])
      ⟨consistent_empty, rfl⟩ ?_ hsafe
    intro service event h hevent
    obtain ⟨hnext, hcalls⟩ := h.1.step hevent
    exact ⟨hnext, hcalls.trans h.2⟩
  exact hrun.2

/-- A client opens a session for group -1, a message is sent to it, and the writing of
the message fails. -/
def minusOneEvents : List ServiceEvent :=
  [.run, .complete 0 0 true { playerId := 7, groupId := -1 },
    .broadcast (-1) {} ⟨id, fun _ => .refl _⟩, .complete 0 0 false {}]

/-- Group -1 still lists the session, and the next broadcast writes to it. -/
theorem destroyed_session_listed :
    ¬ (HoldsThroughout step {} ListsLiveSessions minusOneEvents ∧
        (run step {} minusOneEvents).danglingCalls = []) ∧
      (run step {} (minusOneEvents ++
        [.broadcast (-1) {} ⟨id, fun _ => .refl _⟩])).danglingCalls = [0] := by
  refine ⟨fun h => ?_, by decide +kernel⟩
  have hlisted : ((run step {} minusOneEvents).groups.find (-1)).bind
      (fun group => group.find 1) = some 0 := by
    decide +kernel
  obtain ⟨group, hgroup, hfind⟩ := Option.bind_eq_some_iff.mp hlisted
  have hlive := h.1 minusOneEvents List.prefix_rfl (-1) 0 ⟨group, hgroup, 1, hfind⟩
  have hdead : (run step {} minusOneEvents).handler 0 = none := by decide +kernel
  simp [hdead] at hlive

end RpcService

end HktBase.Grpc
