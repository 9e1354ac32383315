import Mathlib.Data.Fintype.Basic
import KernelNode.AddressBook.Record
import KernelNode.Collections.HashMap
import KernelNode.Transition

open bitcoin std.collections std.net transition

namespace p2p.net

/-- What is sent to the thread that writes to a connection. -/
inductive WriteRequest where
  | Shutdown
  | SendMessage (message : NetworkMessage)

end p2p.net

namespace net

open p2p.net

/-- Consecutive waits on an empty address book before giving up. -/
def EMPTY_ADDRESS_BOOK_LIMIT : Nat := 60

structure Destination where
  addr : AddrV2
  port : UInt16
deriving DecidableEq

def Destination.from_socket_addr (ip : IpAddr) (port : UInt16) : Destination :=
  match ip with
  | .V4 ipv4 => { addr := .Ipv4 ipv4, port }
  | .V6 ipv6 => { addr := .Ipv6 ipv6, port }

/-- The destination of a selected address; an onion address needs a proxy. -/
def selected_destination (proxy : Bool) : AddrV2 × UInt16 → Option Destination
  | (.Ipv4 ipv4, port) => some (.from_socket_addr (.V4 ipv4) port)
  | (.Ipv6 ipv6, port) => some (.from_socket_addr (.V6 ipv6) port)
  | (.TorV3 pubkey, port) => if proxy then some { addr := .TorV3 pubkey, port } else none
  | _ => none

/-- Connections are numbered in the order in which they are opened. -/
abbrev ConnectionId := Nat

/-- What a peer thread does next. -/
inductive ThreadPhase where
  /-- Load the running flag at the head of the loop. -/
  | checking (empty_selections : Nat)
  | selecting (empty_selections : Nat)
  | inserting (destination : Destination)
  | connecting (destination : Destination)
  /-- The connection attempt has failed. -/
  | refused (destination : Destination)
  /-- Put the writer of the new connection into the slot. -/
  | publishing (destination : Destination) (connection : ConnectionId)
  /-- Load the running flag at the head of the receive loop. -/
  | testing (destination : Destination) (connection : ConnectionId)
  /-- The body of the receive loop. -/
  | receiving (destination : Destination) (connection : ConnectionId)
  /-- The receive loop is left. -/
  | releasing (destination : Destination) (connection : ConnectionId)
  | removing (destination : Destination) (connection : ConnectionId)
  /-- Empty the slot. -/
  | clearing (connection : ConnectionId)
  | stopped

/-- What `stop` does next. -/
inductive StopPhase where
  | not_called
  /-- Lock a slot. -/
  | scanning (slot : Nat)
  /-- Send to the connection in a slot that is locked. -/
  | sending (slot : Nat) (connection : ConnectionId)
  | returned

/-- A manager with `n` peer threads, and the requests sent to the writers. -/
structure ManagerState (n : Nat) where
  running : Bool
  connected_peers : HashSet Destination
  peer_writers : Fin n → Option ConnectionId
  threads : Fin n → ThreadPhase
  stop : StopPhase
  opened : Nat
  requests : List (ConnectionId × WriteRequest)

inductive ManagerAction (n : Nat) where
  | thread (i : Fin n)
  | stop
  /-- Some other sending of a request. -/
  | request (connection : ConnectionId) (request : WriteRequest)

def ManagerState.new (n : Nat) : ManagerState n where
  running := true
  connected_peers := ∅
  peer_writers _ := none
  threads _ := .checking 0
  stop := .not_called
  opened := 0
  requests := []

/-- After the address book was asked. -/
def after_select (proxy : Bool) (empty_selections : Nat) : Option (AddrV2 × UInt16) → ThreadPhase
  | some selected =>
    match selected_destination proxy selected with
    | some destination => .inserting destination
    | none => .checking empty_selections
  | none =>
    if empty_selections + 1 ≥ EMPTY_ADDRESS_BOOK_LIMIT then .stopped
    else .checking (empty_selections + 1)

section

variable {n : Nat}

/-- The thread goes on. -/
def ManagerState.advance (self : ManagerState n) (i : Fin n) (phase : ThreadPhase) :
    ManagerState n :=
  { self with threads := Function.update self.threads i phase }

/-- A request to the thread that writes to a connection. -/
def ManagerState.send (self : ManagerState n) (connection : ConnectionId)
    (request : WriteRequest) : ManagerState n :=
  { self with requests := self.requests ++ [(connection, request)] }

/-- `stop` has not locked the slot. -/
def ManagerState.Unlocked (self : ManagerState n) (i : Fin n) : Prop :=
  ∀ connection, self.stop ≠ .sending i connection

/-- The steps of the peer threads and of `stop`, one load or store, one locked
    access or one request at a time. The address book gives any record, and any
    connection may fail or stall. -/
inductive ManagerStep (proxy : Bool) : ManagerState n → ManagerAction n → ManagerState n →
    Prop where
  | check {state : ManagerState n} {i : Fin n} {empty_selections : Nat}
      (hphase : state.threads i = .checking empty_selections) :
      ManagerStep proxy state (.thread i)
        (state.advance i (if state.running then .selecting empty_selections else .stopped))
  | select {state : ManagerState n} {i : Fin n} {empty_selections : Nat}
      (hphase : state.threads i = .selecting empty_selections)
      (record : Option address_book.Record) :
      ManagerStep proxy state (.thread i)
        (state.advance i
          (after_select proxy empty_selections (record.map address_book.Record.network_addr)))
  | insert {state : ManagerState n} {i : Fin n} {destination : Destination}
      (hphase : state.threads i = .inserting destination)
      (hfree : destination ∉ state.connected_peers) :
      ManagerStep proxy state (.thread i)
        ({ state with connected_peers := state.connected_peers.insert destination () }.advance i
          (.connecting destination))
  | already_connected {state : ManagerState n} {i : Fin n} {destination : Destination}
      (hphase : state.threads i = .inserting destination)
      (htaken : destination ∈ state.connected_peers) :
      ManagerStep proxy state (.thread i) (state.advance i (.checking 0))
  | connect {state : ManagerState n} {i : Fin n} {destination : Destination}
      (hphase : state.threads i = .connecting destination) :
      ManagerStep proxy state (.thread i)
        ({ state with opened := state.opened + 1 }.advance i (.publishing destination state.opened))
  | refuse {state : ManagerState n} {i : Fin n} {destination : Destination}
      (hphase : state.threads i = .connecting destination) :
      ManagerStep proxy state (.thread i) (state.advance i (.refused destination))
  | remove_refused {state : ManagerState n} {i : Fin n} {destination : Destination}
      (hphase : state.threads i = .refused destination) :
      ManagerStep proxy state (.thread i)
        ({ state with connected_peers := state.connected_peers.erase destination }.advance i
          (.checking 0))
  | publish {state : ManagerState n} {i : Fin n} {destination : Destination}
      {connection : ConnectionId} (hphase : state.threads i = .publishing destination connection)
      (hlock : state.Unlocked i) :
      ManagerStep proxy state (.thread i)
        ({ state with
          peer_writers := Function.update state.peer_writers i (some connection) }.advance i
            (.testing destination connection))
  | test {state : ManagerState n} {i : Fin n} {destination : Destination}
      {connection : ConnectionId} (hphase : state.threads i = .testing destination connection) :
      ManagerStep proxy state (.thread i)
        (state.advance i (if state.running then .receiving destination connection
          else .releasing destination connection))
  | receive {state : ManagerState n} {i : Fin n} {destination : Destination}
      {connection : ConnectionId} (hphase : state.threads i = .receiving destination connection) :
      ManagerStep proxy state (.thread i) (state.advance i (.testing destination connection))
  | fail {state : ManagerState n} {i : Fin n} {destination : Destination}
      {connection : ConnectionId} (hphase : state.threads i = .receiving destination connection) :
      ManagerStep proxy state (.thread i) (state.advance i (.releasing destination connection))
  | stall {state : ManagerState n} {i : Fin n} {destination : Destination}
      {connection : ConnectionId} (hphase : state.threads i = .receiving destination connection) :
      ManagerStep proxy state (.thread i)
        ((state.send connection .Shutdown).advance i (.releasing destination connection))
  | release {state : ManagerState n} {i : Fin n} {destination : Destination}
      {connection : ConnectionId} (hphase : state.threads i = .releasing destination connection) :
      ManagerStep proxy state (.thread i) (state.advance i (.removing destination connection))
  | remove {state : ManagerState n} {i : Fin n} {destination : Destination}
      {connection : ConnectionId} (hphase : state.threads i = .removing destination connection) :
      ManagerStep proxy state (.thread i)
        ({ state with connected_peers := state.connected_peers.erase destination }.advance i
          (.clearing connection))
  | clear {state : ManagerState n} {i : Fin n} {connection : ConnectionId}
      (hphase : state.threads i = .clearing connection) (hlock : state.Unlocked i) :
      ManagerStep proxy state (.thread i)
        ({ state with peer_writers := Function.update state.peer_writers i none }.advance i
          (.checking 0))
  | store {state : ManagerState n} (hstop : state.stop = .not_called) :
      ManagerStep proxy state .stop { state with running := false, stop := .scanning 0 }
  | lock {state : ManagerState n} {i : Fin n} {connection : ConnectionId}
      (hstop : state.stop = .scanning i) (hslot : state.peer_writers i = some connection) :
      ManagerStep proxy state .stop { state with stop := .sending i connection }
  | lock_empty {state : ManagerState n} {i : Fin n} (hstop : state.stop = .scanning i)
      (hslot : state.peer_writers i = none) :
      ManagerStep proxy state .stop { state with stop := .scanning (i + 1) }
  | send {state : ManagerState n} {i : Nat} {connection : ConnectionId}
      (hstop : state.stop = .sending i connection) :
      ManagerStep proxy state .stop
        { state.send connection .Shutdown with stop := .scanning (i + 1) }
  | return_ {state : ManagerState n} (hstop : state.stop = .scanning n) :
      ManagerStep proxy state .stop { state with stop := .returned }
  | request {state : ManagerState n} (connection : ConnectionId) (request : WriteRequest) :
      ManagerStep proxy state (.request connection request) (state.send connection request)

end

/-- A manager that was started with `n` threads. -/
def manager_system (n : Nat) (proxy : Bool) : System (ManagerState n) (ManagerAction n) where
  init state := state = .new n
  step := ManagerStep proxy

/-- The destination that a thread has in the set of connected peers. -/
def ThreadPhase.destination : ThreadPhase → Option Destination
  | .connecting destination | .refused destination | .publishing destination _
  | .testing destination _ | .receiving destination _ | .releasing destination _
  | .removing destination _ => some destination
  | _ => none

/-- The connection whose writer a thread has in its slot. -/
def ThreadPhase.published : ThreadPhase → Option ConnectionId
  | .testing _ connection | .receiving _ connection | .releasing _ connection
  | .removing _ connection | .clearing connection => some connection
  | _ => none

/-- A thread that has only looked for a destination holds nothing. -/
theorem after_select_idle (proxy : Bool) (empty_selections : Nat)
    (selected : Option (AddrV2 × UInt16)) :
    (after_select proxy empty_selections selected).destination = none ∧
      (after_select proxy empty_selections selected).published = none := by
  unfold after_select
  split
  · split <;> exact ⟨rfl, rfl⟩
  · split <;> exact ⟨rfl, rfl⟩

def ManagerAction.is_thread {n : Nat} (i : Fin n) : ManagerAction n → Bool
  | .thread j => j = i
  | _ => false

theorem ManagerStep.threads_of_not_thread {n : Nat} {proxy : Bool} {state next : ManagerState n}
    {action : ManagerAction n} {i : Fin n}
    (hstep : ManagerStep proxy state action next) (hother : action.is_thread i = false) :
    next.threads i = state.threads i := by
  have hadvance : ∀ {j : Fin n} (state : ManagerState n) (phase : ThreadPhase),
      (ManagerAction.thread j).is_thread i = false →
      (state.advance j phase).threads i = state.threads i := by
    intro j state phase hne
    have hne : i ≠ j := by
      rintro rfl
      simp [ManagerAction.is_thread] at hne
    exact Function.update_of_ne hne _ _
  cases hstep <;> first | rfl | exact hadvance _ _ hother

def regtest_destination : Destination :=
  .from_socket_addr (.V4 (List.Vector.replicate 4 1)) 18444

/-- A peer at the same address. -/
def regtest_record (port : UInt16) : address_book.Record :=
  .untried regtest_destination.addr port 9 ⟨List.Vector.replicate 4 1⟩

end net
