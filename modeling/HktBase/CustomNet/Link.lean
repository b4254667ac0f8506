import HktBase.CustomNet.ClientMoves
import HktBase.CustomNet.ServerMoves

/-!
# A server, one client and the network between them

The network may lose, duplicate, delay and reorder: a delivery names any datagram sent
so far.  The server may also receive datagrams from other addresses.

A `Link` records which datagrams are where, with what they stem from: a `Request` is a
datagram of the client with the attempt that sent it, and a `Reply` is a datagram sent
to the client with the requests that the server had processed when the call that sent
it returned.  Neither endpoint reads these records.
-/

namespace HktBase.CustomNet

open Transition

variable {Addr : Type}

/-! ## Datagrams and where they stem from -/

/-- A datagram of the client, with the number of the attempt that sent it. -/
structure Request where
  attempt : ℕ
  packetData : Bytes
  deriving DecidableEq

/-- A datagram sent to the client, with the requests processed before. -/
structure Reply where
  heard : List Request
  packetData : Bytes
  deriving DecidableEq

/-- The datagrams among the actions of a client that has begun `attempt` attempts. -/
def requestsFrom : ℕ → List ClientAction → List Request
  | _, [] => []
  | attempt, .connect :: rest => requestsFrom (attempt + 1) rest
  | attempt, .socketSendTo packetData :: rest => ⟨attempt, packetData⟩ :: requestsFrom attempt rest
  | attempt, _ :: rest => requestsFrom attempt rest

/-- The number of times that `Connect` has opened a socket. -/
def HktReliableUdpClient.attempts (client : HktReliableUdpClient Addr) : ℕ :=
  client.trace.count .connect

/-- The datagrams that a client has sent. -/
def HktReliableUdpClient.requests (client : HktReliableUdpClient Addr) : List Request :=
  requestsFrom 0 client.trace

theorem requestsFrom_append (attempt : ℕ) (before after : List ClientAction) :
    requestsFrom attempt (before ++ after) =
      requestsFrom attempt before ++ requestsFrom (attempt + before.count .connect) after := by
  induction before generalizing attempt with
  | nil => simp [requestsFrom]
  | cons action rest ih =>
      cases action <;> simp [requestsFrom, ih, Nat.add_assoc, Nat.add_comm 1]

theorem socketSendTo_mem_of_mem_requestsFrom {attempt : ℕ} {actions : List ClientAction}
    {request : Request} (hrequest : request ∈ requestsFrom attempt actions) :
    .socketSendTo request.packetData ∈ actions := by
  induction actions generalizing attempt with
  | nil => simp [requestsFrom] at hrequest
  | cons action rest ih =>
      cases action with
      | socketSendTo packetData =>
          rcases List.mem_cons.mp hrequest with rfl | hrequest
          · exact List.mem_cons_self ..
          · exact List.mem_cons_of_mem _ (ih hrequest)
      | _ => exact List.mem_cons_of_mem _ (ih hrequest)

variable [Platform Addr]

/-- The datagrams to the client among the actions of a server that has processed `heard`. -/
def repliesIn (clientAddr : Addr) (heard : List Request) (actions : List (ServerAction Addr)) :
    List Reply :=
  actions.filterMap fun
    | .socketSendTo destination packetData =>
        if Platform.toString destination = Platform.toString clientAddr then
          some ⟨heard, packetData⟩
        else none
    | _ => none

theorem exists_socketSendTo_of_mem_repliesIn {clientAddr : Addr} {heard : List Request}
    {actions : List (ServerAction Addr)} {reply : Reply}
    (hreply : reply ∈ repliesIn clientAddr heard actions) :
    reply.heard = heard ∧ ∃ destination,
      Platform.toString destination = Platform.toString clientAddr ∧
        .socketSendTo destination reply.packetData ∈ actions := by
  obtain ⟨action, hmem, haction⟩ := List.mem_filterMap.mp hreply
  cases action with
  | socketSendTo destination packetData =>
      dsimp only at haction
      split at haction
      -- a reply is what goes to an address that prints like that of the client
      · next haddress =>
          obtain rfl := Option.some.inj haction
          exact ⟨rfl, destination, haddress, hmem⟩
      · simp at haction
  | _ => simp at haction

/-! ## Steps -/

/-- A call of a public function of the client. -/
def ClientEvent.IsCall : ClientEvent Addr → Prop
  | .receive _ => False
  | _ => True

/-- A call of a public function of the server, or a datagram from another address. -/
def ServerEvent.FromElsewhere (clientAddr : Addr) : ServerEvent Addr → Prop
  | .receive peerAddress _ => Platform.toString peerAddress ≠ Platform.toString clientAddr
  | _ => True

/-- What can happen on the link. -/
inductive LinkEvent (clientAddr : Addr)
  | server (event : {event : ServerEvent Addr // event.FromElsewhere clientAddr})
  | client (event : {event : ClientEvent Addr // event.IsCall})
  /-- The network delivers the `i`-th datagram of the client. -/
  | toServer (i : ℕ)
  /-- The network delivers the `i`-th datagram sent to the client. -/
  | toClient (i : ℕ)

structure Link (Addr : Type) where
  server : HktReliableUdpServer Addr := {}
  client : HktReliableUdpClient Addr := {}
  /-- The requests in `ReceivedPackets`. -/
  queued : List Request := []
  /-- The requests that the server has processed. -/
  heard : List Request := []
  replies : List Reply := []
  /-- The replies in `IncomingPackets`. -/
  arrived : List Reply := []

namespace Link

variable {clientAddr : Addr}

/-- A call of the server returns. -/
def serverStep (clientAddr : Addr) (link : Link Addr) (event : ServerEvent Addr) : Link Addr :=
  let server := link.server.step event
  let heard := match event with
    | .tick _ => link.heard ++ link.queued
    | _ => link.heard
  { link with
    server := server
    queued := match event with
      | .tick _ => []
      | _ => link.queued
    heard := heard
    replies := link.replies ++
      repliesIn clientAddr heard (server.trace.drop link.server.trace.length) }

/-- A call of the client returns. -/
def clientStep (link : Link Addr) (event : ClientEvent Addr) : Link Addr :=
  { link with
    client := link.client.step event
    arrived := match event with
      | .tick _ => []
      | _ => link.arrived }

def step (link : Link Addr) : LinkEvent clientAddr → Link Addr
  | .server event => link.serverStep clientAddr event
  | .client event => link.clientStep event
  | .toServer i =>
      match link.client.requests[i]? with
      | none => link
      | some request =>
          { link with
            server := link.server.receive clientAddr request.packetData
            queued :=
              if link.server.isReceiving && decide (request.packetData.length > 0) then
                link.queued ++ [request]
              else link.queued }
  | .toClient i =>
      match link.replies[i]? with
      | none => link
      | some reply =>
          { link with
            client := link.client.receive reply.packetData
            arrived :=
              if link.client.isReceiving && decide (reply.packetData.length > 0) then
                link.arrived ++ [reply]
              else link.arrived }

/-- The link after a run from its construction. -/
abbrev after (events : List (LinkEvent clientAddr)) : Link Addr :=
  run step {} events

/-- Only a `Tick` of the server works off its queue, and then all of it. -/
theorem serverStep_cases (clientAddr : Addr) (link : Link Addr) (event : ServerEvent Addr) :
    ((link.serverStep clientAddr event).heard = link.heard ∧
        (link.serverStep clientAddr event).queued = link.queued) ∨
      ((link.serverStep clientAddr event).heard = link.heard ++ link.queued ∧
        (link.serverStep clientAddr event).queued = []) := by
  cases event with
  | tick clock => exact Or.inr ⟨rfl, rfl⟩
  | _ => exact Or.inl ⟨rfl, rfl⟩

/-! ## The endpoints of a link run as they do alone -/

/-- What a step does to the client is an event of the client. -/
theorem client_step (link : Link Addr) (event : LinkEvent clientAddr) :
    (link.step event).client = link.client ∨
      ∃ clientEvent, (link.step event).client = link.client.step clientEvent := by
  cases event with
  | server event => exact Or.inl rfl
  | client event => exact Or.inr ⟨event, rfl⟩
  -- a delivery that names no datagram changes nothing
  | toServer i =>
      refine Or.inl ?_
      simp only [step]
      split <;> rfl
  | toClient i =>
      simp only [step]
      split
      · exact Or.inl rfl
      · next reply _ => exact Or.inr ⟨.receive reply.packetData, rfl⟩

/-- What every move of the client preserves holds of the client after every run. -/
theorem client_invariant {P : HktReliableUdpClient Addr → Prop} (hinit : P {})
    (hmove : ∀ before next, HktReliableUdpClient.Move HktReliableUdpClient.anyState
      HktReliableUdpClient.anyDatagram before next → P before → P next)
    (events : List (LinkEvent clientAddr)) : P (after events).client := by
  apply run_invariant (P := fun link : Link Addr => P link.client)
  · exact hinit
  · intro link event h
    rcases link.client_step event with hsame | ⟨clientEvent, hstep⟩
    · rwa [hsame]
    · rw [hstep]
      exact preserved_of_moves hmove (HktReliableUdpClient.step_moves link.client clientEvent) h

theorem server_step (link : Link Addr) (event : LinkEvent clientAddr) :
    (link.step event).server = link.server ∨
      ∃ serverEvent, (link.step event).server = link.server.step serverEvent := by
  cases event with
  | server event => exact Or.inr ⟨event, rfl⟩
  | client event => exact Or.inl rfl
  | toServer i =>
      simp only [step]
      split
      · exact Or.inl rfl
      · next request _ => exact Or.inr ⟨.receive clientAddr request.packetData, rfl⟩
  | toClient i =>
      refine Or.inl ?_
      simp only [step]
      split <;> rfl

end Link

end HktBase.CustomNet
