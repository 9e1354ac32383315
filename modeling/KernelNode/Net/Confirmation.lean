import KernelNode.P2p.Keepalive

open bitcoin p2p p2p.net std.io std.time transition

namespace p2p.net

def WriteRequest.message : WriteRequest → Option NetworkMessage
  | .SendMessage message => some message
  | .Shutdown => none

/-- The messages that wait to be written. -/
def Connection.pending (self : Connection) : List NetworkMessage :=
  self.channel.filterMap WriteRequest.message

/-- The messages that are written or wait to be. -/
def Connection.outgoing (self : Connection) : List NetworkMessage := self.stream ++ self.pending

/-- A step of the thread that writes, or of the clock. -/
def ConnectionAction.is_background : ConnectionAction → Bool
  | .write _ | .shut_down | .fail | .idle | .ping _ _ | .store | .wait => true
  | _ => false

/-- The message that is noted. -/
def ConnectionAction.noted : ConnectionAction → Option NetworkMessage
  | .note message => some message
  | .answer nonce _ => some (.Pong nonce)
  | _ => none

end p2p.net

namespace net

def BROADCAST_TIMEOUT : Duration := .from_secs 60

def BROADCAST_PONG_TIMEOUT : Duration := .from_secs 5

/-- The message with a transaction, by its bytes. -/
def tx_message (tx : List UInt8) : NetworkMessage := .Other "tx" tx

/-- What the thread that broadcasts does next with an open connection. -/
inductive AttemptPhase where
  | sending
  | pinging
  /-- Call `wait_for_pong`. -/
  | calling (nonce : UInt64)
  /-- The loop of `wait_for_pong`. -/
  | waiting (nonce : UInt64) (deadline : Instant)
  | ended (confirmed : Bool)

def AttemptPhase.nonce : AttemptPhase → Option UInt64
  | .calling nonce | .waiting nonce _ => some nonce
  | _ => none

/-- A connection over which a transaction is broadcast, and the bytes that have
    reached the peer. -/
structure Attempt where
  connection : Connection
  phase : AttemptPhase
  received : List UInt8

inductive AttemptAction where
  | send
  | ping (nonce : UInt64)
  | call
  | read (message : NetworkMessage)
  | note (message : NetworkMessage)
  | give_up
  | background (action : ConnectionAction)
  | deliver

section

variable (rawInst : RawNetworkMessage) (magic : Magic)

/-- A peer that reads its stream as `read_message` does has read a message. -/
def HasRead (received : List UInt8) (message : NetworkMessage) : Prop :=
  ∃ calls, message ∈ read_messages rawInst magic calls (.of_bytes received)

/-- The steps of one turn of `broadcast_transaction` and of `wait_for_pong`, of the
    thread that writes, and of the network. -/
inductive AttemptStep (ping_interval : Duration) (tx : List UInt8) :
    Attempt → AttemptAction → Attempt → Prop where
  | send {state : Attempt} {connection : Connection} (hphase : state.phase = .sending)
      (hstep : ConnectionStep rawInst magic ping_interval state.connection
        (.request (.SendMessage (tx_message tx))) connection) :
      AttemptStep ping_interval tx state .send { state with connection, phase := .pinging }
  | ping {state : Attempt} {connection : Connection} {nonce : UInt64}
      (hphase : state.phase = .pinging)
      (hstep : ConnectionStep rawInst magic ping_interval state.connection
        (.request (.SendMessage (.Ping nonce))) connection) :
      AttemptStep ping_interval tx state (.ping nonce)
        { state with connection, phase := .calling nonce }
  | closed {state : Attempt} (hphase : state.phase = .sending ∨ state.phase = .pinging)
      (hclosed : state.connection.writer.has_returned = true) :
      AttemptStep ping_interval tx state .give_up { state with phase := .ended false }
  | call {state : Attempt} {nonce : UInt64} (hphase : state.phase = .calling nonce) :
      AttemptStep ping_interval tx state .call
        { state with
          phase := .waiting nonce
            ⟨state.connection.now.nanos + BROADCAST_PONG_TIMEOUT.as_nanos⟩ }
  | read {state : Attempt} {connection : Connection} {nonce : UInt64} {deadline : Instant}
      {message : NetworkMessage} (hphase : state.phase = .waiting nonce deadline)
      (hearly : state.connection.now.nanos < deadline.nanos)
      (hstep : ConnectionStep rawInst magic ping_interval state.connection (.read message)
        connection) :
      AttemptStep ping_interval tx state (.read message) { state with connection }
  | note {state : Attempt} {connection : Connection} {nonce : UInt64} {deadline : Instant}
      {message : NetworkMessage} {action : ConnectionAction}
      (hphase : state.phase = .waiting nonce deadline) (haction : action.noted = some message)
      (hstep : ConnectionStep rawInst magic ping_interval state.connection action connection) :
      AttemptStep ping_interval tx state (.note message)
        { state with
          connection
          phase := if message = .Pong nonce then .ended true else .waiting nonce deadline }
  | late {state : Attempt} {nonce : UInt64} {deadline : Instant}
      (hphase : state.phase = .waiting nonce deadline)
      (hreader : state.connection.reader = .reading)
      (hlate : deadline.nanos ≤ state.connection.now.nanos) :
      AttemptStep ping_interval tx state .give_up { state with phase := .ended false }
  | failed {state : Attempt} {nonce : UInt64} {deadline : Instant}
      (hphase : state.phase = .waiting nonce deadline)
      (hreader : state.connection.reader = .reading)
      (hearly : state.connection.now.nanos < deadline.nanos) :
      -- the stream has ended, or is not one of messages
      AttemptStep ping_interval tx state .give_up { state with phase := .ended false }
  | background {state : Attempt} {connection : Connection} {action : ConnectionAction}
      (haction : action.is_background = true)
      (hstep : ConnectionStep rawInst magic ping_interval state.connection action connection) :
      AttemptStep ping_interval tx state (.background action) { state with connection }
  | deliver {state : Attempt} {received : List UInt8} (hmore : state.received <+: received)
      (hwritten : received <+: state.connection.written rawInst magic) :
      AttemptStep ping_interval tx state .deliver { state with received }

/-- A peer answers a ping only after it has read it, and nonces do not repeat. -/
def Attempt.Fair (self : Attempt) : AttemptAction → Prop
  | .read (.Pong nonce) => HasRead rawInst magic self.received (.Ping nonce)
  | .ping nonce => .Ping nonce ∉ self.connection.stream
  | .background (.ping nonce _) => self.phase.nonce ≠ some nonce
  | _ => True

/-- An attempt begins with a connection that is just open. -/
def attempt_system (ping_interval : Duration) (greeting : List NetworkMessage) (opened : Instant)
    (tx : List UInt8) : System Attempt AttemptAction where
  init state := state.connection.Opened greeting opened ∧ state.phase = .sending ∧
    state.received <+: state.connection.written rawInst magic
  step := AttemptStep rawInst magic ping_interval tx

end

/-- Wherever the second is in a front of the list, so is the first. -/
def Precedes {A : Type} (first second : A) (list : List A) : Prop :=
  ∀ front, front <+: list → second ∈ front → first ∈ front

section

variable {A : Type} {first second : A} {list rest : List A}

theorem Precedes.front (hprecedes : Precedes first second list) (hrest : rest <+: list) :
    Precedes first second rest :=
  fun front hfront => hprecedes front (hfront.trans hrest)

theorem Precedes.insert (hprecedes : Precedes first second (list ++ rest)) {other : A}
    (hother : other ≠ second) : Precedes first second (list ++ other :: rest) := by
  intro front hfront hsecond
  by_cases hshort : front.length ≤ list.length
  · have hlist := List.prefix_of_prefix_length_le hfront (List.prefix_append _ _) hshort
    exact hprecedes front (hlist.trans (List.prefix_append _ _)) hsecond
  · have hlist := List.prefix_of_prefix_length_le (List.prefix_append _ _) hfront
      (Nat.le_of_not_ge hshort)
    -- the front has the whole list, and `other` after it
    obtain ⟨tail, rfl⟩ := hlist
    rw [List.prefix_append_right_inj, List.prefix_cons_iff] at hfront
    rcases hfront with rfl | ⟨tail, rfl, htail⟩
    · simp at hshort
    · have hmem := hprecedes (list ++ tail) ((List.prefix_append_right_inj _).mpr htail)
      simp only [List.mem_append, List.mem_cons] at hmem hsecond ⊢
      have hsecond : second ∈ list ∨ second ∈ tail :=
        hsecond.imp_right fun h => h.resolve_left hother.symm
      exact (hmem hsecond).imp_right .inr

theorem Precedes.concat (hfirst : first ∈ list) (hsecond : second ∉ list) :
    Precedes first second (list ++ [second]) := by
  intro front hfront hmem
  rcases List.prefix_concat_iff.mp hfront with rfl | hshort
  · exact List.mem_append_left _ hfirst
  · exact absurd (hshort.subset hmem) hsecond

end

section

variable {rawInst : RawNetworkMessage} {magic : Magic} {ping_interval : Duration}

/-- What a step of a connection makes of the messages that are to go out. -/
inductive Outgoing (state : Connection) (action : ConnectionAction) (next : Connection) : Prop where
  | requested {message : NetworkMessage} (haction : action = .request (.SendMessage message))
      (halive : state.writer.has_returned = false)
      (houtgoing : next.outgoing = state.outgoing ++ [message])
  | ping {nonce : UInt64} {time : Instant} (haction : action = .ping nonce time)
      (houtgoing : next.outgoing = state.stream ++ .Ping nonce :: state.pending)
  | failed (hfailed : next.writer.has_returned = true) (houtgoing : next.outgoing = state.stream)
  | same (houtgoing : next.outgoing = state.outgoing)

theorem step_outgoing {state next : Connection} {action : ConnectionAction}
    (hstep : ConnectionStep rawInst magic ping_interval state action next) :
    Outgoing state action next := by
  cases hstep with
  | request asked halive hhandle =>
    cases asked with
    | SendMessage message =>
      exact .requested rfl halive
        (by simp [Connection.outgoing, Connection.pending, WriteRequest.message])
    | Shutdown =>
      exact .same (by simp [Connection.outgoing, Connection.pending, WriteRequest.message])
  | write hphase hchannel hopen | shut_down hphase hchannel =>
    exact .same (by simp [Connection.outgoing, Connection.pending, hchannel,
      WriteRequest.message, List.filterMap_cons])
  | ping => exact .ping rfl (by simp [Connection.outgoing, Connection.pending])
  | write_failed | shut_down_failed | ping_failed =>
    exact .failed rfl (List.append_nil _)
  | drop | timeout | disconnected | waiting | recent | overdue | store | read | note | answer
  | wait => exact .same rfl

/-- What holds of a connection whose messages are framed. -/
structure Framing (rawInst : RawNetworkMessage) (magic : Magic) (state : Connection) : Prop where
  whole : state.writer.has_returned = false → state.torn = []
  framed : ∀ message ∈ state.outgoing, Framed rawInst magic message
  torn : ∃ message, Framed rawInst magic message ∧ Torn rawInst magic message state.torn

theorem Framing.step {state next : Connection} {action : ConnectionAction}
    (hframing : Framing rawInst magic state)
    (hstep : ConnectionStep rawInst magic ping_interval state action next)
    (hpings : ∀ nonce, Framed rawInst magic (.Ping nonce))
    (hrequest : ∀ message, action = .request (.SendMessage message) →
      Framed rawInst magic message) : Framing rawInst magic next := by
  refine ⟨(hstep.grows hframing.whole).2, ?_, ?_⟩
  · intro message hmessage
    cases step_outgoing hstep with
    | requested haction _ houtgoing =>
      rw [houtgoing, List.mem_append, List.mem_singleton] at hmessage
      rcases hmessage with hmessage | rfl
      · exact hframing.framed message hmessage
      · exact hrequest message haction
    | ping haction houtgoing =>
      rw [houtgoing, List.mem_append, List.mem_cons] at hmessage
      rcases hmessage with hmessage | rfl | hmessage
      · exact hframing.framed message (List.mem_append_left _ hmessage)
      · exact hpings _
      · exact hframing.framed message (List.mem_append_right _ hmessage)
    | failed _ houtgoing =>
      rw [houtgoing] at hmessage
      exact hframing.framed message (List.mem_append_left _ hmessage)
    | same houtgoing => exact hframing.framed message (houtgoing ▸ hmessage)
  · rcases hstep.moves.torn with hsame | ⟨message, htorn, ⟨_, hmessage⟩ | ⟨nonce, rfl⟩⟩
    · exact hsame ▸ hframing.torn
    · refine ⟨message, hframing.framed message (List.mem_append_right _ ?_), htorn⟩
      exact List.mem_filterMap.mpr ⟨_, hmessage, rfl⟩
    · exact ⟨_, hpings nonce, htorn⟩

/-- What the peer has read is a beginning of what goes out. -/
theorem Framing.precedes {state : Connection} (hframing : Framing rawInst magic state)
    {received : List UInt8} (hreceived : received <+: state.written rawInst magic)
    {first second : NetworkMessage} (hprecedes : Precedes first second state.outgoing)
    (hread : HasRead rawInst magic received second) : HasRead rawInst magic received first := by
  obtain ⟨calls, hmem⟩ := hread
  have hfront := read_messages_beginning
    (fun message hmessage => hframing.framed message (List.mem_append_left _ hmessage))
    hframing.torn hreceived calls
  exact ⟨calls, hprecedes _ (hfront.trans (List.prefix_append _ _)) hmem⟩

theorem HasRead.more {received more : List UInt8} {message : NetworkMessage}
    (hread : HasRead rawInst magic received message) (hmore : received <+: more) :
    HasRead rawInst magic more message := by
  obtain ⟨calls, hmem⟩ := hread
  obtain ⟨rest, rfl⟩ := hmore
  exact ⟨calls, (read_messages_append received rest calls).subset hmem⟩

/-- What an attempt has made sure of in each phase: the transaction goes out before
    the ping. -/
inductive Attempt.Ahead (rawInst : RawNetworkMessage) (magic : Magic) (tx : List UInt8)
    (state : Attempt) : Prop where
  | sending (hphase : state.phase = .sending)
      (hpending : state.connection.pending = [])
  | pinging (hphase : state.phase = .pinging)
      (hpending : ∀ message ∈ state.connection.pending, message = tx_message tx)
      (htx : state.connection.writer.has_returned = false →
        tx_message tx ∈ state.connection.outgoing)
  | pinged {nonce : UInt64} (hphase : state.phase.nonce = some nonce)
      (hprecedes : Precedes (tx_message tx) (.Ping nonce) state.connection.outgoing)
  | confirmed (hphase : state.phase = .ended true)
      (hread : HasRead rawInst magic state.received (tx_message tx))
  | failed (hphase : state.phase = .ended false)

structure Attempt.Sound (rawInst : RawNetworkMessage) (magic : Magic) (tx : List UInt8)
    (state : Attempt) : Prop where
  framing : Framing rawInst magic state.connection
  received : state.received <+: state.connection.written rawInst magic
  /-- A pong comes after its ping was read. -/
  pong : ∀ nonce, state.connection.reader = .noting (.Pong nonce) →
    HasRead rawInst magic state.received (.Ping nonce)
  ahead : state.Ahead rawInst magic tx

theorem pending_background {state next : Connection} {action : ConnectionAction}
    (hstep : ConnectionStep rawInst magic ping_interval state action next)
    (haction : action.is_background = true) : next.pending ⊆ state.pending := by
  cases hstep with
  | write hphase hchannel hopen | shut_down hphase hchannel =>
    rw [Connection.pending, Connection.pending, hchannel]
    exact (List.sublist_cons_self _ _).filterMap _ |>.subset
  | write_failed | shut_down_failed | ping_failed => exact List.nil_subset _
  | timeout | disconnected | waiting | recent | overdue | ping | store | wait =>
    exact List.Subset.refl _
  | request | drop | read | note | answer => cases haction

/-- A step of the writer keeps the transaction ahead of the ping. -/
theorem Attempt.Ahead.background {tx : List UInt8} {state : Attempt} {connection : Connection}
    {action : ConnectionAction} (hahead : state.Ahead rawInst magic tx)
    (hstep : ConnectionStep rawInst magic ping_interval state.connection action connection)
    (haction : action.is_background = true)
    (hnonce : ∀ nonce time, action = .ping nonce time → state.phase.nonce ≠ some nonce) :
    { state with connection }.Ahead rawInst magic tx := by
  have hpending' := pending_background hstep haction
  cases hahead with
  | sending hphase hpending =>
    exact .sending hphase (List.subset_nil.mp (hpending ▸ hpending'))
  | pinging hphase hpending htx =>
    refine .pinging hphase (fun message hmessage => hpending message (hpending' hmessage)) ?_
    intro halive
    have htx := htx (hstep.moves.channel halive).1
    cases step_outgoing hstep with
    | requested haction' => cases haction' ▸ haction
    | ping _ houtgoing =>
      rw [houtgoing]
      rcases List.mem_append.mp htx with htx | htx
      · exact List.mem_append_left _ htx
      · exact List.mem_append_right _ (List.mem_cons_of_mem _ htx)
    | failed hfailed => cases halive.symm.trans hfailed
    | same houtgoing => exact houtgoing ▸ htx
  | pinged hphase hprecedes =>
    refine .pinged hphase ?_
    cases step_outgoing hstep with
    | requested haction' => cases haction' ▸ haction
    | ping haction' houtgoing =>
      dsimp only
      rw [houtgoing]
      refine hprecedes.insert fun hsame => hnonce _ _ haction' ?_
      rw [NetworkMessage.Ping.inj hsame, hphase]
    | failed _ houtgoing =>
      dsimp only
      rw [houtgoing]
      exact hprecedes.front (List.prefix_append _ _)
    | same houtgoing => exact houtgoing ▸ hprecedes
  | confirmed hphase hread => exact .confirmed hphase hread
  | failed hphase => exact .failed hphase

theorem reader_background {state next : Connection} {action : ConnectionAction}
    (hstep : ConnectionStep rawInst magic ping_interval state action next)
    (haction : action.is_background = true) : next.reader = state.reader := by
  cases hstep with
  | read | note | answer => cases haction
  | _ => rfl

theorem step_requested {state next : Connection} {message : NetworkMessage}
    (hstep : ConnectionStep rawInst magic ping_interval state (.request (.SendMessage message))
      next) :
    state.writer.has_returned = false ∧ next.reader = state.reader ∧
    next.stream = state.stream ∧ next.pending = state.pending ++ [message] := by
  cases hstep with
  | request _ halive hhandle =>
    exact ⟨halive, rfl, rfl, by simp [Connection.pending, WriteRequest.message]⟩

theorem step_noted {state next : Connection} {action : ConnectionAction} {message : NetworkMessage}
    (hstep : ConnectionStep rawInst magic ping_interval state action next)
    (haction : action.noted = some message) :
    state.reader = .noting message ∧ next.reader = .reading ∧ next.outgoing = state.outgoing := by
  cases hstep with
  | note hphase | answer hphase =>
    obtain rfl := Option.some.inj haction
    exact ⟨hphase, rfl, rfl⟩
  | _ => cases haction

namespace Attempt.Ahead

variable {tx : List UInt8} {state : Attempt} (hahead : state.Ahead rawInst magic tx)

include hahead

theorem of_sending (hphase : state.phase = .sending) : state.connection.pending = [] := by
  cases hahead with
  | sending _ hpending => exact hpending
  | pinging hother | pinged hother | confirmed hother | failed hother =>
    rw [hphase] at hother
    cases hother

theorem of_pinging (hphase : state.phase = .pinging) :
    (∀ message ∈ state.connection.pending, message = tx_message tx) ∧
    (state.connection.writer.has_returned = false →
      tx_message tx ∈ state.connection.outgoing) := by
  cases hahead with
  | pinging _ hpending htx => exact ⟨hpending, htx⟩
  | sending hother | pinged hother | confirmed hother | failed hother =>
    rw [hphase] at hother
    cases hother

theorem of_nonce {nonce : UInt64} (hphase : state.phase.nonce = some nonce) :
    Precedes (tx_message tx) (.Ping nonce) state.connection.outgoing := by
  cases hahead with
  | pinged hother hprecedes =>
    obtain rfl := Option.some.inj (hphase.symm.trans hother)
    exact hprecedes
  | sending hother | pinging hother | confirmed hother | failed hother =>
    rw [hother] at hphase
    cases hphase

end Attempt.Ahead

theorem Attempt.Sound.step {tx : List UInt8} {state next : Attempt} {action : AttemptAction}
    (hpings : ∀ nonce, Framed rawInst magic (.Ping nonce))
    (htx : Framed rawInst magic (tx_message tx)) (hsound : state.Sound rawInst magic tx)
    (hfair : state.Fair rawInst magic action)
    (hstep : AttemptStep rawInst magic ping_interval tx state action next) :
    next.Sound rawInst magic tx := by
  obtain ⟨hframing, hreceived, hpong, hahead⟩ := hsound
  cases hstep with
  | send hphase hstep =>
    have hgrows := hstep.grows hframing.whole
    obtain ⟨halive, hreader, hstream, hrequested⟩ := step_requested hstep
    rw [hahead.of_sending hphase] at hrequested
    refine ⟨hframing.step hstep hpings ?_, hreceived.trans hgrows.1, ?_, .pinging rfl ?_ ?_⟩
    · rintro message ⟨⟩
      exact htx
    · dsimp only
      rwa [hreader]
    · simp [hrequested]
    · simp [Connection.outgoing, hrequested]
  | @ping _ nonce hphase hstep =>
    have hgrows := hstep.grows hframing.whole
    obtain ⟨halive, hreader, hstream, hrequested⟩ := step_requested hstep
    obtain ⟨hpending, hwritten⟩ := hahead.of_pinging hphase
    refine ⟨hframing.step hstep hpings ?_, hreceived.trans hgrows.1, ?_, .pinged rfl ?_⟩
    · rintro message ⟨⟩
      exact hpings nonce
    · dsimp only
      rwa [hreader]
    · dsimp only
      rw [Connection.outgoing, hstream, hrequested, ← List.append_assoc]
      refine .concat (hwritten halive) fun hmem => ?_
      rcases List.mem_append.mp hmem with hmem | hmem
      · exact hfair hmem
      · cases hpending _ hmem
  | closed hphase hclosed => exact ⟨hframing, hreceived, hpong, .failed rfl⟩
  | late | failed => exact ⟨hframing, hreceived, hpong, .failed rfl⟩
  | call hphase =>
    exact ⟨hframing, hreceived, hpong, .pinged rfl (hahead.of_nonce (by rw [hphase]; rfl))⟩
  | @read _ nonce deadline message hphase hearly hstep =>
    have hgrows := hstep.grows hframing.whole
    have hnonce : state.phase.nonce = some nonce := by
      rw [hphase]
      rfl
    have hprecedes := hahead.of_nonce hnonce
    refine ⟨hframing.step hstep hpings nofun, hreceived.trans hgrows.1, ?_, ?_⟩
    · cases hstep
      rintro nonce ⟨⟩
      exact hfair
    · cases hstep
      exact .pinged hnonce hprecedes
  | @note _ nonce deadline message action hphase haction hstep =>
    have hgrows := hstep.grows hframing.whole
    have hnonce : state.phase.nonce = some nonce := by
      rw [hphase]
      rfl
    have hprecedes := hahead.of_nonce hnonce
    obtain ⟨hreader, hreading, houtgoing⟩ := step_noted hstep haction
    refine ⟨hframing.step hstep hpings ?_, hreceived.trans hgrows.1, ?_, ?_⟩
    · rintro message rfl
      cases haction
    · rw [hreading]
      exact nofun
    · by_cases hmine : message = .Pong nonce
      · subst hmine
        refine .confirmed (if_pos rfl) ?_
        exact hframing.precedes hreceived hprecedes (hpong nonce hreader)
      · refine .pinged (by rw [if_neg hmine]; rfl) ?_
        dsimp only
        rw [houtgoing]
        exact hprecedes
  | background haction hstep =>
    have hgrows := hstep.grows hframing.whole
    refine ⟨hframing.step hstep hpings ?_, hreceived.trans hgrows.1, ?_, ?_⟩
    · rintro message rfl
      cases haction
    · dsimp only
      rwa [reader_background hstep haction]
    · refine hahead.background hstep haction ?_
      rintro nonce time rfl
      exact hfair
  | deliver hmore hwritten =>
    refine ⟨hframing, hwritten, fun nonce hreader => (hpong nonce hreader).more hmore, ?_⟩
    cases hahead with
    | sending hphase hpending => exact .sending hphase hpending
    | pinging hphase hpending htx => exact .pinging hphase hpending htx
    | pinged hphase hprecedes => exact .pinged hphase hprecedes
    | confirmed hphase hread => exact .confirmed hphase (hread.more hmore)
    | failed hphase => exact .failed hphase

/-- A peer that answers the ping has read the transaction before it. -/
theorem confirmed_read {greeting : List NetworkMessage} {opened : Instant} {tx : List UInt8}
    (hgreeting : ∀ message ∈ greeting, Framed rawInst magic message)
    (hpings : ∀ nonce, Framed rawInst magic (.Ping nonce))
    (htx : Framed rawInst magic (tx_message tx)) {state : Attempt}
    (hreach : ((attempt_system rawInst magic ping_interval greeting opened tx).restrict
      (Attempt.Fair rawInst magic)).Reachable state)
    (hconfirmed : state.phase = .ended true) :
    HasRead rawInst magic state.received (tx_message tx) := by
  have hsound : state.Sound rawInst magic tx := by
    refine hreach.invariant (P := fun state => state.Sound rawInst magic tx) ?_ ?_
    · rintro state ⟨hopened, hphase, hreceived⟩
      have hpending : state.connection.pending = [] := by
        rw [Connection.pending, hopened.channel]
        rfl
      refine ⟨⟨fun _ => hopened.torn, ?_, ?_⟩, hreceived, ?_, .sending hphase hpending⟩
      · rw [Connection.outgoing, hpending, List.append_nil, hopened.stream]
        exact hgreeting
      · rw [hopened.torn]
        exact ⟨_, htx, htx.torn_nil⟩
      · rw [hopened.reader]
        exact nofun
    · rintro state action next hsound ⟨hfair, hstep⟩
      exact hsound.step hpings htx hfair hstep
  cases hsound.ahead with
  | confirmed _ hread => exact hread
  | sending hother | pinging hother | failed hother => cases hconfirmed.symm.trans hother
  | pinged hother =>
    rw [hconfirmed] at hother
    cases hother

end

/-- What the thread that broadcasts tells the address book. -/
inductive AddressUpdate where
  | successful_connection (record : address_book.Record)
  | failed_connection (record : address_book.Record)
deriving DecidableEq

/-- The attempts that can come to be with a fair peer. -/
def Attempted (rawInst : RawNetworkMessage) (magic : Magic) (ping_interval : Duration)
    (tx : List UInt8) (attempt : Attempt) : Prop :=
  ∃ greeting opened, (∀ message ∈ greeting, Framed rawInst magic message) ∧
    ((attempt_system rawInst magic ping_interval greeting opened tx).restrict
      (Attempt.Fair rawInst magic)).Reachable attempt

/-- One turn of the loop of `broadcast_transaction`: the peer that was selected
    refuses the connection, or the attempt over it ends. -/
inductive Turn where
  | refused (record : address_book.Record)
  | connected (record : address_book.Record) (attempt : Attempt)

def Turn.Unconfirmed : Turn → Prop
  | .refused _ => True
  | .connected _ attempt => attempt.phase = .ended false

/-- What an unconfirmed turn tells the address book. -/
def Turn.failure : Turn → Option AddressUpdate
  | .refused record => some (.failed_connection record)
  | .connected _ _ => none

/-- The loop of `broadcast_transaction` from a time on: its turns, what it tells the
    address book and what it returns. Other threads use the address book as well,
    so any record may be selected. -/
inductive Broadcasts (rawInst : RawNetworkMessage) (magic : Magic) (ping_interval : Duration)
    (tx : List UInt8) (start : Instant) :
    Instant → List Turn → List AddressUpdate → Bool → Prop where
  | expired {now : Instant} (hlate : BROADCAST_TIMEOUT.as_nanos ≤ start.elapsed now) :
      Broadcasts rawInst magic ping_interval tx start now [] [] false
  | none_selected {now : Instant} (hearly : start.elapsed now < BROADCAST_TIMEOUT.as_nanos) :
      Broadcasts rawInst magic ping_interval tx start now [] [] false
  | refused {now later : Instant} {turns : List Turn} {updates : List AddressUpdate}
      {result : Bool} (hearly : start.elapsed now < BROADCAST_TIMEOUT.as_nanos)
      (record : address_book.Record) (hlater : now.nanos ≤ later.nanos)
      (hrest : Broadcasts rawInst magic ping_interval tx start later turns updates result) :
      Broadcasts rawInst magic ping_interval tx start now (.refused record :: turns)
        (.failed_connection record :: updates) result
  | unconfirmed {now later : Instant} {turns : List Turn} {updates : List AddressUpdate}
      {result : Bool} {attempt : Attempt}
      (hearly : start.elapsed now < BROADCAST_TIMEOUT.as_nanos) (record : address_book.Record)
      (hattempt : Attempted rawInst magic ping_interval tx attempt)
      (hended : attempt.phase = .ended false) (hlater : now.nanos ≤ later.nanos)
      (hrest : Broadcasts rawInst magic ping_interval tx start later turns updates result) :
      Broadcasts rawInst magic ping_interval tx start now (.connected record attempt :: turns)
        updates result
  | confirmed {now : Instant} {attempt : Attempt}
      (hearly : start.elapsed now < BROADCAST_TIMEOUT.as_nanos) (record : address_book.Record)
      (hattempt : Attempted rawInst magic ping_interval tx attempt)
      (hended : attempt.phase = .ended true) :
      Broadcasts rawInst magic ping_interval tx start now [.connected record attempt]
        [.successful_connection record] true

/-- A broadcast that returns true has reached a peer: in every order of the steps of
    the threads and of the network, the peer of its last attempt has read the
    transaction, and it is the only one that the address book is told to be
    connected. No earlier turn was confirmed, and none of a broadcast that returns
    false. -/
theorem broadcast_read (rawInst : RawNetworkMessage) (magic : Magic) (ping_interval : Duration)
    (hpings : ∀ nonce, Framed rawInst magic (.Ping nonce)) {tx : List UInt8}
    (htx : Framed rawInst magic (tx_message tx)) {start now : Instant} {turns : List Turn}
    {updates : List AddressUpdate} {result : Bool}
    (hbroadcast : Broadcasts rawInst magic ping_interval tx start now turns updates result) :
    (result = true → ∃ earlier record attempt, turns = earlier ++ [.connected record attempt] ∧
      attempt.phase = .ended true ∧ HasRead rawInst magic attempt.received (tx_message tx) ∧
      (∀ turn ∈ earlier, turn.Unconfirmed) ∧
      updates = earlier.filterMap Turn.failure ++ [.successful_connection record]) ∧
    (result = false →
      (∀ turn ∈ turns, turn.Unconfirmed) ∧ updates = turns.filterMap Turn.failure) := by
  induction hbroadcast with
  | expired | none_selected =>
    exact ⟨nofun, fun _ => ⟨List.forall_mem_nil _, rfl⟩⟩
  | refused hearly record hlater _ ih =>
    refine ⟨fun htrue => ?_, fun hfalse => ?_⟩
    · obtain ⟨earlier, last, attempt, rfl, hended, hread, hearlier, rfl⟩ := ih.1 htrue
      refine ⟨.refused record :: earlier, last, attempt, rfl, hended, hread, ?_, rfl⟩
      exact List.forall_mem_cons.mpr ⟨trivial, hearlier⟩
    · obtain ⟨hturns, rfl⟩ := ih.2 hfalse
      exact ⟨List.forall_mem_cons.mpr ⟨trivial, hturns⟩, rfl⟩
  | unconfirmed hearly record hattempt hended hlater _ ih =>
    refine ⟨fun htrue => ?_, fun hfalse => ?_⟩
    · obtain ⟨earlier, last, confirmed, rfl, hconfirmed, hread, hearlier, rfl⟩ := ih.1 htrue
      refine ⟨.connected record _ :: earlier, last, confirmed, rfl, hconfirmed, hread, ?_, rfl⟩
      exact List.forall_mem_cons.mpr ⟨hended, hearlier⟩
    · obtain ⟨hturns, rfl⟩ := ih.2 hfalse
      exact ⟨List.forall_mem_cons.mpr ⟨hended, hturns⟩, rfl⟩
  | @confirmed now attempt hearly record hattempt hended =>
    obtain ⟨greeting, opened, hgreeting, hreach⟩ := hattempt
    have hread := confirmed_read hgreeting hpings htx hreach hended
    exact ⟨fun _ => ⟨[], record, attempt, rfl, hended, hread, List.forall_mem_nil _, rfl⟩,
      nofun⟩

/-- The stream of an attempt in which all was written. -/
def confirmed_stream : List NetworkMessage := [.Verack, tx_message [2, 0, 0, 0], .Ping 7]

/-- A peer that has received the whole stream has read the ping. -/
theorem confirmed_stream_read :
    HasRead plain_raw .REGTEST (frames plain_raw .REGTEST confirmed_stream ++ []) (.Ping 7) := by
  have htx : Framed plain_raw .REGTEST (tx_message [2, 0, 0, 0]) := tx_framed .REGTEST (by decide)
  have hframed : ∀ message ∈ confirmed_stream, Framed plain_raw .REGTEST message := by
    simp [confirmed_stream, verack_framed, ping_framed, htx]
  refine ⟨confirmed_stream.length, ?_⟩
  rw [read_messages_all hframed ⟨_, htx, htx.torn_nil⟩ le_rfl]
  simp [confirmed_stream]

theorem greeted_attempt :
    ((attempt_system plain_raw .REGTEST (.from_secs 120) [.Verack] ⟨0⟩ [2, 0, 0, 0]).restrict
      (Attempt.Fair plain_raw .REGTEST)).Reachable
        { connection := greeted, phase := .sending, received := [] } :=
  .of_init ⟨greeted_opened, rfl, List.nil_prefix⟩

theorem confirmed_attempted : ∃ attempt,
    Attempted plain_raw .REGTEST (.from_secs 120) [2, 0, 0, 0] attempt ∧
      attempt.phase = .ended true := by
  have hgreeting : ∀ message ∈ [NetworkMessage.Verack], Framed plain_raw .REGTEST message := by
    simpa using verack_framed .REGTEST
  have hfresh : .Ping 7 ∉ [NetworkMessage.Verack, tx_message [2, 0, 0, 0]] := by decide
  have hsent := greeted_attempt.step_restrict (AttemptStep.send rfl (.request _ rfl rfl)) trivial
  have hwritten := (hsent.step_restrict
    (AttemptStep.background rfl (.write rfl rfl rfl)) trivial).step_restrict
    (AttemptStep.background rfl (.recent rfl rfl (Nat.zero_le _))) trivial
  have hpinged := hwritten.step_restrict
    (AttemptStep.ping rfl (.request (.SendMessage (.Ping 7)) rfl rfl)) hfresh
  have hwaiting := ((hpinged.step_restrict
    (AttemptStep.background rfl (.write rfl rfl rfl)) trivial).step_restrict
    (AttemptStep.deliver List.nil_prefix List.prefix_rfl) trivial).step_restrict
    (AttemptStep.call rfl) trivial
  have hpong := hwaiting.step_restrict
    (AttemptStep.read rfl (by decide) (.read rfl (.Pong 7))) confirmed_stream_read
  exact ⟨_, ⟨_, _, hgreeting, hpong.step_restrict (AttemptStep.note rfl rfl
    (.note rfl (.inl rfl) nofun rfl le_rfl)) trivial⟩, rfl⟩

/-- An attempt over a connection that breaks before the transaction is written. -/
theorem closed_attempted : ∃ attempt,
    Attempted plain_raw .REGTEST (.from_secs 120) [2, 0, 0, 0] attempt ∧
      attempt.phase = .ended false := by
  have hgreeting : ∀ message ∈ [NetworkMessage.Verack], Framed plain_raw .REGTEST message := by
    simpa using verack_framed .REGTEST
  have htx : Framed plain_raw .REGTEST (tx_message [2, 0, 0, 0]) := tx_framed .REGTEST (by decide)
  have hsent := greeted_attempt.step_restrict (AttemptStep.send rfl (.request _ rfl rfl)) trivial
  have hbroken := hsent.step_restrict (AttemptStep.background rfl
    (.write_failed rfl rfl htx.torn_nil ⟨.Other, "broken pipe"⟩)) trivial
  exact ⟨_, ⟨_, _, hgreeting, hbroken.step_restrict (AttemptStep.closed (.inr rfl) rfl) trivial⟩,
    rfl⟩

/-- One peer refuses the connection, the next closes it, and the third confirms the
    transaction. -/
theorem broadcast_read_third : ∃ closed confirmed,
    Broadcasts plain_raw .REGTEST (.from_secs 120) [2, 0, 0, 0] ⟨0⟩ ⟨0⟩
      [.refused (regtest_record 18444), .connected (regtest_record 18445) closed,
        .connected (regtest_record 18446) confirmed]
      [.failed_connection (regtest_record 18444),
        .successful_connection (regtest_record 18446)] true ∧
    HasRead plain_raw .REGTEST confirmed.received (tx_message [2, 0, 0, 0]) := by
  obtain ⟨closed, hclosed, hfailed⟩ := closed_attempted
  obtain ⟨confirmed, hconfirmed, hended⟩ := confirmed_attempted
  have hbroadcast : Broadcasts plain_raw .REGTEST (.from_secs 120) [2, 0, 0, 0] ⟨0⟩ ⟨0⟩
      [.refused (regtest_record 18444), .connected (regtest_record 18445) closed,
        .connected (regtest_record 18446) confirmed]
      [.failed_connection (regtest_record 18444),
        .successful_connection (regtest_record 18446)] true :=
    .refused (by decide) _ le_rfl (.unconfirmed (by decide) _ hclosed hfailed le_rfl
      (.confirmed (by decide) _ hconfirmed hended))
  obtain ⟨earlier, record, attempt, hturns, _, hread, _⟩ := (broadcast_read plain_raw .REGTEST
    (.from_secs 120) (ping_framed .REGTEST) (tx_framed .REGTEST (by decide)) hbroadcast).1 rfl
  have hlast := congrArg List.getLast? hturns
  rw [List.getLast?_concat] at hlast
  cases hlast
  exact ⟨closed, confirmed, hbroadcast, hread⟩

end net
