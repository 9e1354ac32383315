import KernelNode.Collections.Sha256
import KernelNode.Collections.Traverse
import KernelNode.Net.Manager
import KernelNode.P2p.Metrics
import KernelNode.P2p.Transport

open bitcoin std.array std.bytes std.io std.time transition

namespace std.io

/-- Code that succeeds on what has come does the same where more follows. -/
def Settled {E A : Type} (code : Read E A) : Prop :=
  ∀ reader rest value more, code.run.run reader = (.ok value, rest) →
    code.run.run (reader ++ more) = (.ok value, rest ++ more)

namespace Settled

variable {D E A B : Type}

theorem read_exact (len : Nat) : Settled (std.io.read_exact len) := by
  intro reader rest bytes more hread
  rw [run_read_exact_eq_ok] at hread ⊢
  rw [hread, List.append_assoc]

theorem pure (value : A) : Settled (Pure.pure value : Read E A) := by
  rintro reader rest _ more ⟨⟩
  rfl

theorem throw (e : E) : Settled (MonadExcept.throw e : Read E A) := nofun

theorem adapt {code : Read D A} (hcode : Settled code) (convert : D → E) :
    Settled (code.adapt convert) := by
  intro reader rest value more hread
  rw [run_adapt] at hread ⊢
  rcases hrun : code.run.run reader with ⟨_ | result, middle⟩ <;> rw [hrun] at hread <;> cases hread
  rw [hcode reader _ value more hrun]
  rfl

theorem bind {first : Read E A} {second : A → Read E B} (hfirst : Settled first)
    (hsecond : ∀ value, Settled (second value)) : Settled (first >>= second) := by
  intro reader rest result more hread
  obtain ⟨value, middle, hvalue, hresult⟩ := run_bind_eq_ok hread
  rw [run_bind, hfirst reader middle value more hvalue]
  exact hsecond value middle rest result more hresult

end Settled

end std.io

namespace p2p.net

/-- What the thread that writes to a connection does next. -/
inductive WriterPhase where
  /-- Wait for a request. -/
  | receiving
  /-- Lock the ping state. -/
  | locking
  /-- Write a ping, with the ping state locked. -/
  | pinging (nonce : UInt64)
  /-- Store that its pong is waited for, with the ping state locked. -/
  | storing (nonce : UInt64)
  | returned (result : Except std.io.Error Unit)

def WriterPhase.locks : WriterPhase → Bool
  | .pinging _ | .storing _ => true
  | _ => false

def WriterPhase.has_returned : WriterPhase → Bool
  | .returned _ => true
  | _ => false

/-- What `read_message` does next. -/
inductive ReaderPhase where
  | reading
  /-- Note a message that was read. -/
  | noting (message : NetworkMessage)

/-- An open connection. The stream has taken whole messages, and then part of one
    if its write has failed. -/
structure Connection where
  channel : List WriteRequest
  /-- The writer's handles are dropped. -/
  disconnected : Bool
  writer : WriterPhase
  reader : ReaderPhase
  shut_down : Bool
  stream : List NetworkMessage
  torn : List UInt8
  metrics : ConnectionMetrics
  now : Instant

inductive ConnectionAction where
  | request (request : WriteRequest)
  | drop
  /-- The message of a request is written. -/
  | write (message : NetworkMessage)
  | shut_down
  /-- The writer fails. -/
  | fail
  /-- The writer goes on with nothing written. -/
  | idle
  /-- A ping of the writer's own is written. -/
  | ping (nonce : UInt64) (time : Instant)
  | store
  | read (message : NetworkMessage)
  | note (message : NetworkMessage)
  /-- The pong that is waited for is noted. -/
  | answer (nonce : UInt64) (time : Instant)
  | wait

section

variable (rawInst : RawNetworkMessage) (magic : Magic)

/-- The bytes of the messages. -/
def frames (messages : List NetworkMessage) : List UInt8 :=
  (messages.map (WriteTransport.write_message rawInst magic)).flatten

/-- The bytes that the stream has taken. -/
def Connection.written (self : Connection) : List UInt8 :=
  frames rawInst magic self.stream ++ self.torn

/-- Some bytes of a message and not all. -/
def Torn (message : NetworkMessage) (bytes : List UInt8) : Prop :=
  ∃ rest, rest ≠ [] ∧ WriteTransport.write_message rawInst magic message = bytes ++ rest

/-- The steps of `maintain_connection`, of `read_message` and of the threads that
    have a handle, one request, one write or one locked access at a time. Any write
    may fail, and none succeeds once the stream is shut down. -/
inductive ConnectionStep (ping_interval : Duration) :
    Connection → ConnectionAction → Connection → Prop where
  | request {state : Connection} (request : WriteRequest)
      (halive : state.writer.has_returned = false) (hhandle : state.disconnected = false) :
      ConnectionStep ping_interval state (.request request)
        { state with channel := state.channel ++ [request] }
  | drop {state : Connection} :
      ConnectionStep ping_interval state .drop { state with disconnected := true }
  | write {state : Connection} {message : NetworkMessage} {channel : List WriteRequest}
      (hphase : state.writer = .receiving)
      (hchannel : state.channel = .SendMessage message :: channel) (hopen : state.shut_down = false) :
      ConnectionStep ping_interval state (.write message)
        { state with channel, stream := state.stream ++ [message], writer := .locking }
  | write_failed {state : Connection} {message : NetworkMessage} {channel : List WriteRequest}
      {torn : List UInt8} (hphase : state.writer = .receiving)
      (hchannel : state.channel = .SendMessage message :: channel)
      (htorn : Torn rawInst magic message torn) (e : std.io.Error) :
      ConnectionStep ping_interval state .fail
        { state with channel := [], torn, writer := .returned (.error e) }
  | shut_down {state : Connection} {channel : List WriteRequest}
      (hphase : state.writer = .receiving) (hchannel : state.channel = .Shutdown :: channel) :
      ConnectionStep ping_interval state .shut_down
        { state with channel, shut_down := true, writer := .locking }
  | shut_down_failed {state : Connection} {channel : List WriteRequest}
      (hphase : state.writer = .receiving) (hchannel : state.channel = .Shutdown :: channel)
      (e : std.io.Error) :
      ConnectionStep ping_interval state .fail
        { state with channel := [], writer := .returned (.error e) }
  | timeout {state : Connection} (hphase : state.writer = .receiving)
      (hchannel : state.channel = []) (hhandle : state.disconnected = false) :
      ConnectionStep ping_interval state .idle { state with writer := .locking }
  | disconnected {state : Connection} (hphase : state.writer = .receiving)
      (hchannel : state.channel = []) (hhandle : state.disconnected = true) :
      ConnectionStep ping_interval state .idle { state with writer := .returned (.ok ()) }
  | waiting {state : Connection} {nonce : UInt64} {then_ : Instant}
      (hphase : state.writer = .locking)
      (hping : state.metrics.outbound_ping_state = .Waiting nonce then_) :
      ConnectionStep ping_interval state .idle { state with writer := .receiving }
  | recent {state : Connection} {then_ : Instant} (hphase : state.writer = .locking)
      (hping : state.metrics.outbound_ping_state = .LastReceived then_)
      (hrecent : then_.elapsed state.now ≤ ping_interval.as_nanos) :
      ConnectionStep ping_interval state .idle { state with writer := .receiving }
  | overdue {state : Connection} {then_ : Instant} (hphase : state.writer = .locking)
      (hping : state.metrics.outbound_ping_state = .LastReceived then_)
      (hoverdue : then_.elapsed state.now > ping_interval.as_nanos) (nonce : UInt64) :
      ConnectionStep ping_interval state .idle { state with writer := .pinging nonce }
  | ping {state : Connection} {nonce : UInt64} (hphase : state.writer = .pinging nonce)
      (hopen : state.shut_down = false) :
      ConnectionStep ping_interval state (.ping nonce state.now)
        { state with stream := state.stream ++ [.Ping nonce], writer := .storing nonce }
  | ping_failed {state : Connection} {nonce : UInt64} {torn : List UInt8}
      (hphase : state.writer = .pinging nonce) (htorn : Torn rawInst magic (.Ping nonce) torn)
      (e : std.io.Error) :
      ConnectionStep ping_interval state .fail
        { state with channel := [], torn, writer := .returned (.error e) }
  | store {state : Connection} {nonce : UInt64} (hphase : state.writer = .storing nonce) :
      ConnectionStep ping_interval state .store
        { state with
          metrics := { state.metrics with outbound_ping_state := .Waiting nonce state.now }
          writer := .receiving }
  | read {state : Connection} (hphase : state.reader = .reading) (message : NetworkMessage) :
      ConnectionStep ping_interval state (.read message) { state with reader := .noting message }
  | note {state : Connection} {message : NetworkMessage} {later : Instant}
      {metrics : ConnectionMetrics} (hphase : state.reader = .noting message)
      (hlock : state.writer.locks = false ∨ ∀ nonce, message ≠ .Pong nonce)
      (hother : ∀ nonce then_, state.metrics.outbound_ping_state = .Waiting nonce then_ →
        message ≠ .Pong nonce)
      (hnote : ConnectionReader.note state.metrics state.now later message = some metrics)
      (hlater : state.now.nanos ≤ later.nanos) :
      ConnectionStep ping_interval state (.note message)
        { state with reader := .reading, metrics, now := later }
  | answer {state : Connection} {nonce : UInt64} {then_ later : Instant}
      {metrics : ConnectionMetrics} (hphase : state.reader = .noting (.Pong nonce))
      (hlock : state.writer.locks = false)
      (hping : state.metrics.outbound_ping_state = .Waiting nonce then_)
      (hnote : ConnectionReader.note state.metrics state.now later (.Pong nonce) = some metrics)
      (hlater : state.now.nanos ≤ later.nanos) :
      ConnectionStep ping_interval state (.answer nonce state.now)
        { state with reader := .reading, metrics, now := later }
  | wait {state : Connection} {later : Instant} (hlater : state.now.nanos ≤ later.nanos) :
      ConnectionStep ping_interval state .wait { state with now := later }

end

/-- A connection whose handshake has just ended, after it has sent a greeting. -/
structure Connection.Opened (greeting : List NetworkMessage) (opened : Instant)
    (state : Connection) : Prop where
  channel : state.channel = []
  writer : state.writer = .receiving
  reader : state.reader = .reading
  shut_down : state.shut_down = false
  stream : state.stream = greeting
  torn : state.torn = []
  timed_messages : ∃ now, state.metrics.timed_messages = .new now
  outbound_ping_state : state.metrics.outbound_ping_state = .LastReceived opened
  now : opened.nanos ≤ state.now.nanos

def connection_system (rawInst : RawNetworkMessage) (magic : Magic) (ping_interval : Duration)
    (greeting : List NetworkMessage) (opened : Instant) :
    System Connection ConnectionAction where
  init := Connection.Opened greeting opened
  step := ConnectionStep rawInst magic ping_interval

namespace ConnectionAction

def requested : ConnectionAction → Option WriteRequest
  | .request asked => some asked
  | _ => none

/-- The request that the writer has done with. -/
def taken : ConnectionAction → Option WriteRequest
  | .write message => some (.SendMessage message)
  | .shut_down => some .Shutdown
  | _ => none

/-- The message that is written. -/
def message : ConnectionAction → Option NetworkMessage
  | .write message => some message
  | .ping nonce _ => some (.Ping nonce)
  | _ => none

end ConnectionAction

section

variable {rawInst : RawNetworkMessage} {magic : Magic} {ping_interval : Duration}
    {state next : Connection} {action : ConnectionAction}

/-- What a step can do to the requests and to the stream. -/
structure Connection.Moves (rawInst : RawNetworkMessage) (magic : Magic) (state : Connection)
    (action : ConnectionAction) (next : Connection) : Prop where
  stream : next.stream = state.stream ++ action.message.toList
  channel : next.writer.has_returned = false → state.writer.has_returned = false ∧
    state.channel ++ action.requested.toList = action.taken.toList ++ next.channel
  taken : ∀ request, action.taken = some request → state.writer.has_returned = false ∧
    ∃ rest, state.channel = request :: rest
  torn : next.torn = state.torn ∨ ∃ message, Torn rawInst magic message next.torn ∧
    ((state.writer.has_returned = false ∧ .SendMessage message ∈ state.channel) ∨
      ∃ nonce, message = .Ping nonce)
  message : action.message ≠ none → state.shut_down = false
  shut_down : next.shut_down = true ↔ state.shut_down = true ∨ action = .shut_down

/-- A step that leaves the requests and the stream alone. -/
theorem Connection.Moves.quiet
    (hsame : next.stream = state.stream ∧ next.channel = state.channel ∧
      next.torn = state.torn ∧ next.shut_down = state.shut_down)
    (hwriter : next.writer.has_returned = false → state.writer.has_returned = false)
    (haction : action.message = none ∧ action.requested = none ∧ action.taken = none)
    (hshut_down : action ≠ .shut_down) : state.Moves rawInst magic action next := by
  obtain ⟨hstream, hchannel, htorn, hdown⟩ := hsame
  obtain ⟨hmessage, hrequested, htaken⟩ := haction
  constructor
  case stream => simp [hstream, hmessage]
  case channel => exact fun halive => ⟨hwriter halive, by simp [hrequested, htaken, hchannel]⟩
  case taken => simp [htaken]
  case torn => exact .inl htorn
  case message => exact fun hsome => absurd hmessage hsome
  case shut_down => simp [hdown, hshut_down]

/-- A write that fails. -/
theorem Connection.Moves.failed {message : NetworkMessage} {torn : List UInt8} {e : std.io.Error}
    (htorn : Torn rawInst magic message torn)
    (hmessage : (state.writer.has_returned = false ∧ .SendMessage message ∈ state.channel) ∨
      ∃ nonce, message = .Ping nonce) :
    state.Moves rawInst magic .fail
      { state with channel := [], torn, writer := .returned (.error e) } := by
  constructor
  case stream => exact (List.append_nil _).symm
  case channel => exact nofun
  case taken => exact nofun
  case torn => exact .inr ⟨message, htorn, hmessage⟩
  case message => exact fun hsome => absurd rfl hsome
  case shut_down => simp

theorem ConnectionStep.moves
    (hstep : ConnectionStep rawInst magic ping_interval state action next) :
    state.Moves rawInst magic action next := by
  have hreceiving : state.writer = .receiving → state.writer.has_returned = false := by
    intro hphase
    rw [hphase]
    rfl
  cases hstep with
  | request asked halive hhandle =>
    constructor
    case stream => exact (List.append_nil _).symm
    case channel => exact fun halive => ⟨halive, rfl⟩
    case taken => exact nofun
    case torn => exact .inl rfl
    case message => exact fun hsome => absurd rfl hsome
    case shut_down => simp
  | write hphase hchannel hopen =>
    constructor
    case stream => rfl
    case channel => exact fun _ => ⟨hreceiving hphase, by rw [hchannel]; exact List.append_nil _⟩
    case taken =>
      rintro _ ⟨⟩
      exact ⟨hreceiving hphase, _, hchannel⟩
    case torn => exact .inl rfl
    case message => exact fun _ => hopen
    case shut_down => simp
  | write_failed hphase hchannel htorn e =>
    exact .failed htorn (.inl ⟨hreceiving hphase, hchannel ▸ List.mem_cons_self⟩)
  | shut_down hphase hchannel =>
    constructor
    case stream => exact (List.append_nil _).symm
    case channel => exact fun _ => ⟨hreceiving hphase, by rw [hchannel]; exact List.append_nil _⟩
    case taken =>
      rintro _ ⟨⟩
      exact ⟨hreceiving hphase, _, hchannel⟩
    case torn => exact .inl rfl
    case message => exact fun hsome => absurd rfl hsome
    case shut_down => simp
  | shut_down_failed hphase hchannel e =>
    constructor
    case stream => exact (List.append_nil _).symm
    case channel => exact nofun
    case taken => exact nofun
    case torn => exact .inl rfl
    case message => exact fun hsome => absurd rfl hsome
    case shut_down => simp
  | ping hphase hopen =>
    constructor
    case stream => rfl
    case channel => exact fun _ => ⟨by rw [hphase]; rfl, List.append_nil _⟩
    case taken => exact nofun
    case torn => exact .inl rfl
    case message => exact fun _ => hopen
    case shut_down => simp
  | ping_failed hphase htorn e => exact .failed htorn (.inr ⟨_, rfl⟩)
  | disconnected => exact .quiet ⟨rfl, rfl, rfl, rfl⟩ nofun ⟨rfl, rfl, rfl⟩ nofun
  | timeout hphase | waiting hphase | recent hphase | overdue hphase | store hphase =>
    exact .quiet ⟨rfl, rfl, rfl, rfl⟩ (fun _ => by rw [hphase]; rfl) ⟨rfl, rfl, rfl⟩ nofun
  | drop | read | note | answer | wait =>
    exact .quiet ⟨rfl, rfl, rfl, rfl⟩ id ⟨rfl, rfl, rfl⟩ nofun

/-- The bytes that are written stay, and only a writer that has failed leaves part of
    a message. -/
theorem ConnectionStep.grows
    (hstep : ConnectionStep rawInst magic ping_interval state action next)
    (hwhole : state.writer.has_returned = false → state.torn = []) :
    state.written rawInst magic <+: next.written rawInst magic ∧
    (next.writer.has_returned = false → next.torn = []) := by
  cases hstep with
  | write hphase | ping hphase =>
    have htorn := hwhole (by rw [hphase]; rfl)
    refine ⟨?_, fun _ => htorn⟩
    simp [Connection.written, frames, htorn]
  | write_failed hphase | ping_failed hphase =>
    have htorn := hwhole (by rw [hphase]; rfl)
    refine ⟨?_, nofun⟩
    simp [Connection.written, htorn]
  | shut_down_failed | disconnected => exact ⟨List.prefix_rfl, nofun⟩
  | shut_down hphase | timeout hphase | waiting hphase | recent hphase | overdue hphase
  | store hphase =>
    exact ⟨List.prefix_rfl, fun _ => hwhole (by rw [hphase]; rfl)⟩
  | request | drop | read | note | answer | wait => exact ⟨List.prefix_rfl, hwhole⟩

/-- What the actions of a run have made of the requests and of the stream. -/
structure Connection.Ordered (rawInst : RawNetworkMessage) (magic : Magic)
    (greeting : List NetworkMessage) (actions : List ConnectionAction) (state : Connection) :
    Prop where
  stream : state.stream = greeting ++ actions.filterMap ConnectionAction.message
  taken : actions.filterMap ConnectionAction.taken <+: actions.filterMap ConnectionAction.requested
  channel : state.writer.has_returned = false →
    actions.filterMap ConnectionAction.requested =
      actions.filterMap ConnectionAction.taken ++ state.channel
  torn : state.torn = [] ∨ ∃ message, Torn rawInst magic message state.torn ∧
    (.SendMessage message ∈ actions.filterMap ConnectionAction.requested ∨
      ∃ nonce, message = .Ping nonce)

theorem filterMap_concat {A B : Type} (f : A → Option B) (list : List A) (last : A) :
    (list ++ [last]).filterMap f = list.filterMap f ++ (f last).toList := by
  rw [List.filterMap_append]
  cases hlast : f last <;> simp [hlast]

theorem Connection.Ordered.step {greeting : List NetworkMessage} {actions : List ConnectionAction}
    (hordered : state.Ordered rawInst magic greeting actions)
    (hmoves : state.Moves rawInst magic action next) :
    next.Ordered rawInst magic greeting (actions ++ [action]) := by
  constructor
  case stream => rw [hmoves.stream, hordered.stream, filterMap_concat, List.append_assoc]
  case taken =>
    rw [filterMap_concat, filterMap_concat]
    cases htaken : action.taken with
    | none =>
      rw [Option.toList_none, List.append_nil]
      exact hordered.taken.trans (List.prefix_append _ _)
    | some request =>
      obtain ⟨halive, rest, hrest⟩ := hmoves.taken request htaken
      rw [hordered.channel halive, hrest]
      simp
  case channel =>
    intro halive
    obtain ⟨halive, hchannel⟩ := hmoves.channel halive
    rw [filterMap_concat, filterMap_concat, hordered.channel halive, List.append_assoc, hchannel,
      List.append_assoc]
  case torn =>
    have hlater : ∀ request, request ∈ actions.filterMap ConnectionAction.requested →
        request ∈ (actions ++ [action]).filterMap ConnectionAction.requested := by
      intro request hrequest
      rw [filterMap_concat]
      exact List.mem_append_left _ hrequest
    rcases hmoves.torn with hsame | ⟨message, htorn, ⟨halive, hmessage⟩ | hping⟩
    · rw [hsame]
      exact hordered.torn.imp_right fun ⟨message, htorn, hmessage⟩ =>
        ⟨message, htorn, hmessage.imp_left (hlater _)⟩
    · refine .inr ⟨message, htorn, .inl (hlater _ ?_)⟩
      rw [hordered.channel halive]
      exact List.mem_append_right _ hmessage
    · exact .inr ⟨message, htorn, .inr hping⟩

variable {greeting : List NetworkMessage} {opened : Instant} {first : Connection}
    {actions : List ConnectionAction}

theorem run_ordered
    (hrun : (connection_system rawInst magic ping_interval greeting opened).Run first actions state)
    (hopened : first.Opened greeting opened) : state.Ordered rawInst magic greeting actions := by
  induction hrun with
  | nil =>
    exact ⟨by simp [hopened.stream], List.prefix_refl _, fun _ => by simp [hopened.channel],
      .inl hopened.torn⟩
  | snoc _ hstep ih => exact ih.step (ConnectionStep.moves hstep)

/-- Nothing is written once the stream is shut down. -/
theorem run_quiet
    (hrun : (connection_system rawInst magic ping_interval greeting opened).Run first actions state)
    (hdown : first.shut_down = true) :
    state.shut_down = true ∧ actions.filterMap ConnectionAction.message = [] := by
  induction hrun with
  | nil => exact ⟨hdown, rfl⟩
  | @snoc last next actions action hrun hstep ih =>
    obtain ⟨hdown, hquiet⟩ := ih
    have hmoves := ConnectionStep.moves hstep
    have hsilent : action.message = none := by
      by_contra hsome
      rw [hmoves.message hsome] at hdown
      cases hdown
    refine ⟨hmoves.shut_down.mpr (.inl hdown), ?_⟩
    rw [filterMap_concat, hquiet, hsilent]
    rfl

theorem take_exact_short {len : Nat} {bytes : List UInt8} (hshort : bytes.length < len) :
    Reader.take_exact len (.of_bytes bytes) = (.error .unexpected_eof, []) := by
  induction bytes generalizing len with
  | nil =>
    obtain ⟨len, rfl⟩ := Nat.exists_eq_succ_of_ne_zero (Nat.ne_zero_of_lt hshort)
    rfl
  | cons byte bytes ih =>
    obtain ⟨len, rfl⟩ := Nat.exists_eq_succ_of_ne_zero (Nat.ne_zero_of_lt hshort)
    simp [Reader.take_exact, ih (Nat.lt_of_succ_lt_succ hshort)]

/-- Part of a message is not read as one. -/
theorem read_message_torn {message : NetworkMessage} (hframed : Framed rawInst magic message)
    {bytes : List UInt8} (htorn : Torn rawInst magic message bytes) :
    (ReadTransport.read_message rawInst magic).run.run (.of_bytes bytes) =
      (.error (.Io .unexpected_eof), []) := by
  obtain ⟨rest, hrest, hsplit⟩ := htorn
  obtain ⟨header, payload, hserialize, hmagic, hlength⟩ := hframed.layout
  rw [WriteTransport.write_message, hserialize] at hsplit
  by_cases hshort : bytes.length < 24
  · simp only [ReadTransport.read_message, run_bind, run_adapt, run_read_exact,
      take_exact_short hshort, Except.mapError]
  · obtain ⟨part, rfl, hpayload⟩ :
        ∃ part, bytes = header.toList ++ part ∧ payload = part ++ rest := by
      have htake := congrArg (List.take 24) hsplit
      have hdrop := congrArg (List.drop 24) hsplit
      have hheader := header.toList_length
      refine ⟨bytes.drop 24, ?_, ?_⟩
      · rw [List.take_left' hheader, List.take_append_of_le_length (by omega)] at htake
        rw [htake, List.take_append_drop]
      · rwa [List.drop_left' hheader, List.drop_append_of_le_length (by omega)] at hdrop
    have hmissing : part.length < (V1MessageHeader.deserialize header).length.toNat := by
      have hpositive := List.length_pos_iff.mpr hrest
      rw [hlength, hpayload, List.length_append]
      omega
    simp only [ReadTransport.read_message, run_bind, run_adapt, run_read_exact,
      Reader.of_bytes_append, Reader.take_exact_of_bytes, Except.mapError, hmagic, ne_eq,
      not_true_eq_false, if_false, take_exact_short hmissing]

/-- The beginning of a message and what follows it has the whole message or part of it. -/
theorem covered_or_torn {message : NetworkMessage} {bytes tail : List UInt8}
    (hbytes : bytes <+: WriteTransport.write_message rawInst magic message ++ tail) :
    (∃ rest, bytes = WriteTransport.write_message rawInst magic message ++ rest ∧ rest <+: tail) ∨
    Torn rawInst magic message bytes := by
  obtain ⟨missing, hsplit⟩ := hbytes
  rcases List.append_eq_append_iff.mp hsplit with ⟨part, hmessage, hmissing⟩ | ⟨rest, hrest, htail⟩
  · rcases List.eq_nil_or_concat part with rfl | ⟨_, _, hpart⟩
    · rw [List.append_nil] at hmessage
      exact .inl ⟨[], by rw [hmessage, List.append_nil], List.nil_prefix⟩
    · exact .inr ⟨part, by simp [hpart], hmessage⟩
  · exact .inl ⟨rest, hrest, missing, htail.symm⟩

theorem Torn.beginning {message : NetworkMessage} {torn bytes : List UInt8}
    (htorn : Torn rawInst magic message torn) (hbytes : bytes <+: torn) :
    Torn rawInst magic message bytes := by
  obtain ⟨rest, hrest, hsplit⟩ := htorn
  obtain ⟨missing, rfl⟩ := hbytes
  exact ⟨missing ++ rest, by simp [hrest], by rw [hsplit, List.append_assoc]⟩

/-- The beginning of what was written is read as the first messages, in order. -/
theorem read_messages_beginning {messages : List NetworkMessage}
    (hframed : ∀ message ∈ messages, Framed rawInst magic message) {torn bytes : List UInt8}
    (htorn : ∃ message, Framed rawInst magic message ∧ Torn rawInst magic message torn)
    (hbytes : bytes <+: frames rawInst magic messages ++ torn) (calls : Nat) :
    read_messages rawInst magic calls (.of_bytes bytes) <+: messages := by
  induction messages generalizing bytes calls with
  | nil =>
    obtain ⟨message, hmessage, htorn⟩ := htorn
    cases calls with
    | zero => exact List.nil_prefix
    | succ calls =>
      simp only [read_messages, read_message_torn hmessage (htorn.beginning hbytes)]
      exact List.nil_prefix
  | cons message messages ih =>
    obtain ⟨hmessage, hmessages⟩ := List.forall_mem_cons.mp hframed
    rw [frames, List.map_cons, List.flatten_cons, List.append_assoc] at hbytes
    cases calls with
    | zero => exact List.nil_prefix
    | succ calls =>
      rcases covered_or_torn hbytes with ⟨rest, rfl, hrest⟩ | htorn
      · simp only [read_messages, Reader.of_bytes_append, hmessage.read_message]
        exact (List.prefix_cons_inj message).mpr (ih hmessages hrest calls)
      · simp only [read_messages, read_message_torn hmessage htorn]
        exact List.nil_prefix

/-- All that was written is read as all the messages. -/
theorem read_messages_all {messages : List NetworkMessage}
    (hframed : ∀ message ∈ messages, Framed rawInst magic message) {torn : List UInt8}
    (htorn : ∃ message, Framed rawInst magic message ∧ Torn rawInst magic message torn)
    {calls : Nat} (hcalls : messages.length ≤ calls) :
    read_messages rawInst magic calls (.of_bytes (frames rawInst magic messages ++ torn)) =
      messages := by
  induction messages generalizing calls with
  | nil => exact List.prefix_nil.mp (read_messages_beginning hframed htorn List.prefix_rfl calls)
  | cons message messages ih =>
    obtain ⟨hmessage, hmessages⟩ := List.forall_mem_cons.mp hframed
    obtain ⟨calls, rfl⟩ := Nat.exists_eq_succ_of_ne_zero (Nat.ne_zero_of_lt hcalls)
    rw [frames, List.map_cons, List.flatten_cons, List.append_assoc, Reader.of_bytes_append]
    simp only [read_messages, hmessage.read_message]
    exact congrArg (message :: ·) (ih hmessages (Nat.le_of_succ_le_succ hcalls))

/-- A message that is read is read again where more follows. -/
theorem read_message_settled (rawInst : RawNetworkMessage) (magic : Magic) :
    Settled (ReadTransport.read_message rawInst magic) := by
  refine .bind (.adapt (.read_exact 24) _) fun header => ?_
  dsimp only
  split
  · exact .bind (.throw _) fun _ => .bind (.adapt (.read_exact _) _) fun contents => by
      split
      · exact .throw _
      · exact .pure _
  · refine .bind (.adapt (.read_exact _) _) fun contents => ?_
    split
    · exact .throw _
    · exact .pure _

/-- What has been read of a stream is read of more of it. -/
theorem read_messages_append (received more : List UInt8) (calls : Nat) :
    read_messages rawInst magic calls (.of_bytes received) <+:
      read_messages rawInst magic calls (.of_bytes (received ++ more)) := by
  induction calls generalizing received with
  | zero => exact List.prefix_rfl
  | succ calls ih =>
    have hreceived := read_message_received rawInst magic (.of_bytes received)
    have hsettled := read_message_settled rawInst magic (.of_bytes received)
    rw [Reader.of_bytes_append]
    generalize hcall : (ReadTransport.read_message rawInst magic).run.run (.of_bytes received) =
      result at hreceived hsettled
    generalize hreader : Reader.of_bytes received = reader at hreceived hsettled hcall
    cases hreceived with
    | timeout lost e rest =>
      obtain ⟨second, _, hrest⟩ := Reader.of_bytes_eq_append.mp hreader
      cases second <;> cases hrest
    | message hmessage rest =>
      obtain ⟨second, _, rfl⟩ := Reader.of_bytes_eq_append.mp hreader
      simp only [read_messages, hcall, hsettled _ _ (.of_bytes more) rfl]
      rw [← Reader.of_bytes_append]
      exact (List.prefix_append_right_inj _).mpr (ih second)
    | stop he _ rest =>
      simp only [read_messages, hcall, he]
      exact List.nil_prefix

theorem Framed.torn_nil {message : NetworkMessage} (hframed : Framed rawInst magic message) :
    Torn rawInst magic message [] :=
  ⟨_, List.ne_nil_of_length_pos hframed.length_pos, rfl⟩

/-- Where the codec frames what is written, so is what the writer has torn. -/
theorem Connection.Ordered.framed (hordered : state.Ordered rawInst magic greeting actions)
    (hgreeting : ∀ message ∈ greeting, Framed rawInst magic message)
    (hrequests : ∀ message, .SendMessage message ∈ actions.filterMap ConnectionAction.requested →
      Framed rawInst magic message)
    (hpings : ∀ nonce, Framed rawInst magic (.Ping nonce)) :
    (∀ message ∈ state.stream, Framed rawInst magic message) ∧
    ∃ message, Framed rawInst magic message ∧ Torn rawInst magic message state.torn := by
  constructor
  · intro message hmessage
    rw [hordered.stream, List.mem_append, List.mem_filterMap] at hmessage
    rcases hmessage with hmessage | ⟨action, haction, hmessage⟩
    · exact hgreeting message hmessage
    · cases action with
      | write written =>
        obtain rfl := Option.some.inj hmessage
        exact hrequests written (hordered.taken.subset (List.mem_filterMap.mpr ⟨_, haction, rfl⟩))
      | ping nonce _ =>
        obtain rfl := Option.some.inj hmessage
        exact hpings nonce
      | _ => cases hmessage
  · rcases hordered.torn with hnone | ⟨message, htorn, hmessage | ⟨nonce, rfl⟩⟩
    · rw [hnone]
      exact ⟨_, hpings 0, (hpings 0).torn_nil⟩
    · exact ⟨message, hrequests message hmessage, htorn⟩
    · exact ⟨_, hpings nonce, htorn⟩

/-- What a peer reads is the greeting and the messages that were sent, in order and
    none twice, however much of the stream has reached it. Requests are written in
    the order in which they were made, and those not written wait while the writer
    runs. Nothing is written after a shutdown. -/
theorem delivered_in_order (hgreeting : ∀ message ∈ greeting, Framed rawInst magic message)
    (hpings : ∀ nonce, Framed rawInst magic (.Ping nonce)) (hopened : first.Opened greeting opened)
    (hrun : (connection_system rawInst magic ping_interval greeting opened).Run first actions state)
    (hrequests : ∀ message, .SendMessage message ∈ actions.filterMap ConnectionAction.requested →
      Framed rawInst magic message) :
    (∀ received, received <+: state.written rawInst magic → ∀ calls,
      read_messages rawInst magic calls (.of_bytes received) <+:
        greeting ++ actions.filterMap ConnectionAction.message) ∧
    (∀ calls, greeting.length + actions.length ≤ calls →
      read_messages rawInst magic calls (.of_bytes (state.written rawInst magic)) =
        greeting ++ actions.filterMap ConnectionAction.message) ∧
    actions.filterMap ConnectionAction.taken <+: actions.filterMap ConnectionAction.requested ∧
    (state.writer.has_returned = false → actions.filterMap ConnectionAction.requested =
      actions.filterMap ConnectionAction.taken ++ state.channel) ∧
    ∀ before after, actions = before ++ .shut_down :: after →
      after.filterMap ConnectionAction.message = [] := by
  have hordered := run_ordered hrun hopened
  obtain ⟨hframed, htorn⟩ := hordered.framed hgreeting hrequests hpings
  rw [Connection.written, ← hordered.stream]
  refine ⟨?_, ?_, hordered.taken, hordered.channel, ?_⟩
  · intro received hreceived calls
    exact read_messages_beginning hframed htorn hreceived calls
  · intro calls hcalls
    refine read_messages_all hframed htorn ?_
    have hlength := List.length_filterMap_le ConnectionAction.message actions
    rw [hordered.stream, List.length_append]
    omega
  · rintro before after rfl
    obtain ⟨middle, next, -, hstep, hafter⟩ := hrun.split
    exact (run_quiet hafter ((ConnectionStep.moves hstep).shut_down.mpr (.inr rfl))).2

end

def ping_command : List.Vector UInt8 12 := ⟨[0x70, 0x69, 0x6e, 0x67, 0, 0, 0, 0, 0, 0, 0, 0], rfl⟩

def verack_command : List.Vector UInt8 12 :=
  ⟨[0x76, 0x65, 0x72, 0x61, 0x63, 0x6b, 0, 0, 0, 0, 0, 0], rfl⟩

def tx_command : List.Vector UInt8 12 := ⟨[0x74, 0x78, 0, 0, 0, 0, 0, 0, 0, 0, 0, 0], rfl⟩

/-- The first bytes of the double hash of a payload. -/
def checksum (payload : List UInt8) : List.Vector UInt8 4 :=
  slice (bitcoin_hashes.sha256d.hash payload) 0 4 (by decide)

def wire_header (magic : Magic) (command : List.Vector UInt8 12) (payload : List UInt8) :
    List.Vector UInt8 24 :=
  ⟨magic.bytes.toList ++ command.toList ++ (to_le 4 payload.length).toList ++
    (checksum payload).toList, by simp⟩

/-- A message on the wire. -/
def frame (magic : Magic) (command : List.Vector UInt8 12) (payload : List UInt8) : List UInt8 :=
  (wire_header magic command payload).toList ++ payload

/-- The command and the payload of a message whose length and checksum are right. -/
def open_frame (bytes : List UInt8) : Except String (List UInt8 × List UInt8) :=
  if bytes.length < 24 ∨ of_le ((bytes.drop 16).take 4) ≠ (bytes.drop 24).length then
    .error "unexpected end of file"
  else if (bytes.drop 20).take 4 ≠ (checksum (bytes.drop 24)).toList then
    .error "invalid checksum"
  else .ok ((bytes.drop 4).take 12, bytes.drop 24)

/-- The codec that writes and checks frames, for messages by their commands and
    payloads. -/
def checked_raw (encode : NetworkMessage → Option (List.Vector UInt8 12 × List UInt8))
    (decode : List UInt8 → List UInt8 → Except String NetworkMessage) : RawNetworkMessage where
  serialize magic message :=
    match encode message with
    | some (command, payload) => frame magic command payload
    | none => []
  deserialize bytes := open_frame bytes >>= fun (command, payload) => decode command payload

section

variable (magic : Magic) (command : List.Vector UInt8 12) {payload : List UInt8}

theorem wire_header_magic (payload : List UInt8) :
    (V1MessageHeader.deserialize (wire_header magic command payload)).magic = magic := by
  simp [V1MessageHeader.deserialize, wire_header, slice]

/-- The length stands after the magic and the command. -/
theorem wire_header_length (hlength : payload.length < UInt32.size) (rest : List UInt8) :
    of_le ((((wire_header magic command payload).toList ++ rest).drop 16).take 4) =
      payload.length := by
  have hfront : (magic.bytes.toList ++ command.toList).length = 16 := by simp
  rw [wire_header, List.Vector.toList_mk, List.append_assoc, List.append_assoc,
    List.drop_left' hfront, List.take_left' (to_le 4 _).toList_length, of_le_to_le]
  exact Nat.mod_eq_of_lt hlength

theorem wire_header_checksum (rest : List UInt8) :
    ((((wire_header magic command payload).toList ++ rest).drop 20).take 4) =
      (checksum payload).toList := by
  have hfront :
      (magic.bytes.toList ++ command.toList ++ (to_le 4 payload.length).toList).length = 20 := by
    simp
  rw [wire_header, List.Vector.toList_mk, List.append_assoc, List.drop_left' hfront,
    List.take_left' (checksum payload).toList_length]

theorem open_frame_frame (hlength : payload.length < UInt32.size) :
    open_frame (frame magic command payload) = .ok (command.toList, payload) := by
  have hpayload : (frame magic command payload).drop 24 = payload := by simp [frame]
  have hcommand : ((frame magic command payload).drop 4).take 12 = command.toList := by
    simp [frame, wire_header]
  have hlong : ¬((frame magic command payload).length < 24 ∨
      of_le (((frame magic command payload).drop 16).take 4) ≠ payload.length) := by
    rw [frame, wire_header_length magic command hlength]
    simp
  rw [open_frame, hpayload, hcommand, if_neg hlong, frame, wire_header_checksum, if_neg (by simp)]

end

theorem open_frame_length {bytes command payload : List UInt8}
    (hopen : open_frame bytes = .ok (command, payload)) :
    bytes.length = 24 + payload.length := by
  simp only [open_frame] at hopen
  split_ifs at hopen with hshort
  cases hopen
  rw [List.length_drop]
  omega

/-- Such a codec frames the messages that it decodes from what it encodes, where no
    shorter payload is one. -/
theorem checked_framed {encode : NetworkMessage → Option (List.Vector UInt8 12 × List UInt8)}
    {decode : List UInt8 → List UInt8 → Except String NetworkMessage} (magic : Magic)
    {message : NetworkMessage} {command : List.Vector UInt8 12} {payload : List UInt8}
    (hencode : encode message = some (command, payload))
    (hlength : payload.length < UInt32.size)
    (hdecode : decode command.toList payload = .ok message)
    (hshortest : ∀ other bytes, decode other bytes = .ok message →
      payload.length ≤ bytes.length) :
    Framed (checked_raw encode decode) magic message where
  layout := by
    refine ⟨wire_header magic command payload, payload, ?_, wire_header_magic magic command payload,
      ?_⟩
    · simp only [checked_raw, hencode, frame]
    · have hfield := wire_header_length magic command hlength []
      rw [List.append_nil] at hfield
      simp only [V1MessageHeader.deserialize, slice, List.Vector.toList_mk, hfield,
        UInt32.toNat_ofNat']
      exact Nat.mod_eq_of_lt hlength
  round_trip := by
    simp only [checked_raw, hencode, open_frame_frame magic command hlength]
    exact hdecode
  no_shorter bytes hbytes := by
    simp only [checked_raw, std.result.bind_eq_ok_iff] at hbytes
    obtain ⟨⟨other, rest⟩, hopen, hmessage⟩ := hbytes
    have hshort := hshortest other rest hmessage
    simp only [checked_raw, hencode, frame, List.length_append, List.Vector.toList_length,
      open_frame_length hopen]
    omega

def plain_encode : NetworkMessage → Option (List.Vector UInt8 12 × List UInt8)
  | .Ping nonce => some (ping_command, (to_le 8 nonce.toNat).toList)
  | .Verack => some (verack_command, [])
  | .Other _ payload => some (tx_command, payload)
  | _ => none

def plain_decode (command payload : List UInt8) : Except String NetworkMessage :=
  if command = ping_command.toList ∧ payload.length = 8 then .ok (.Ping (.ofNat (of_le payload)))
  else if command = verack_command.toList ∧ payload = [] then .ok .Verack
  else if command = tx_command.toList then .ok (.Other "tx" payload)
  else .error "unknown message"

/-- The codec on pings, on transactions and on the `verack` message. -/
def plain_raw : RawNetworkMessage := checked_raw plain_encode plain_decode

example : plain_raw.serialize .REGTEST .Verack =
    [0xfa, 0xbf, 0xb5, 0xda, 0x76, 0x65, 0x72, 0x61, 0x63, 0x6b, 0, 0, 0, 0, 0, 0, 0, 0, 0, 0,
      0x5d, 0xf6, 0xe0, 0xe2] := by
  decide +kernel

theorem ping_framed (magic : Magic) (nonce : UInt64) : Framed plain_raw magic (.Ping nonce) := by
  have hlength : (to_le 8 nonce.toNat).toList.length = 8 := List.Vector.toList_length _
  refine checked_framed magic rfl (by rw [hlength]; decide) (by simp [plain_decode, of_le_u64]) ?_
  intro other bytes hmessage
  simp only [plain_decode] at hmessage
  split_ifs at hmessage with hping hverack htx
  · simp [hping.2]
  · cases hmessage
  · cases hmessage

theorem verack_framed (magic : Magic) : Framed plain_raw magic .Verack :=
  checked_framed magic rfl (by decide) (by decide) fun _ _ _ => Nat.zero_le _

theorem tx_framed (magic : Magic) {payload : List UInt8} (hlength : payload.length < UInt32.size) :
    Framed plain_raw magic (.Other "tx" payload) := by
  have hother : tx_command.toList ≠ ping_command.toList ∧
      tx_command.toList ≠ verack_command.toList := by decide
  refine checked_framed magic rfl hlength (by simp [plain_decode, hother]) ?_
  intro other bytes hmessage
  simp only [plain_decode] at hmessage
  split_ifs at hmessage with hping hverack htx
  · cases hmessage
  · cases hmessage
  · obtain rfl : bytes = payload := by simpa using hmessage
    exact le_rfl

/-- A connection after its handshake. -/
def greeted : Connection where
  channel := []
  disconnected := false
  writer := .receiving
  reader := .reading
  shut_down := false
  stream := [.Verack]
  torn := []
  metrics :=
    { feeler := ⟨70016, 0, 0, 0, 1⟩
      their_preferences := .new
      timed_messages := .new ⟨0⟩
      start_time := ⟨0⟩
      outbound_ping_state := .LastReceived ⟨0⟩ }
  now := ⟨0⟩

theorem greeted_opened : greeted.Opened [.Verack] ⟨0⟩ where
  channel := rfl
  writer := rfl
  reader := rfl
  shut_down := rfl
  stream := rfl
  torn := rfl
  timed_messages := ⟨_, rfl⟩
  outbound_ping_state := rfl
  now := le_rfl

/-- A ping is sent, then a shutdown is asked for, then another ping. -/
def shutdown_run : List ConnectionAction :=
  [.request (.SendMessage (.Ping 7)), .request .Shutdown, .request (.SendMessage (.Ping 8)),
    .write (.Ping 7), .idle, .shut_down, .idle, .fail]

theorem shutdown_runs : ∃ state,
    (connection_system plain_raw .REGTEST (.from_secs 120) [.Verack] ⟨0⟩).Run greeted shutdown_run
      state := by
  have hnil : (connection_system plain_raw .REGTEST (.from_secs 120) [.Verack] ⟨0⟩).Run greeted []
    greeted := .nil _
  have hrequested := ((hnil.snoc
    (ConnectionStep.request (.SendMessage (.Ping 7)) rfl rfl)).snoc
    (ConnectionStep.request .Shutdown rfl rfl)).snoc
    (ConnectionStep.request (.SendMessage (.Ping 8)) rfl rfl)
  have hwritten := (hrequested.snoc (ConnectionStep.write rfl rfl rfl)).snoc
    (ConnectionStep.recent rfl rfl (Nat.zero_le _))
  have hshut_down := (hwritten.snoc (ConnectionStep.shut_down rfl rfl)).snoc
    (ConnectionStep.recent rfl rfl (Nat.zero_le _))
  exact ⟨_, hshut_down.snoc (ConnectionStep.write_failed rfl rfl
    (ping_framed .REGTEST 8).torn_nil ⟨.Other, "Broken pipe"⟩)⟩

/-- Only what was sent before the shutdown is read. -/
theorem delivered_in_order_shutdown : ∃ state,
    (connection_system plain_raw .REGTEST (.from_secs 120) [.Verack] ⟨0⟩).Run greeted shutdown_run
      state ∧
    read_messages plain_raw .REGTEST 9 (.of_bytes (state.written plain_raw .REGTEST)) =
      [.Verack, .Ping 7] := by
  obtain ⟨state, hrun⟩ := shutdown_runs
  have hgreeting : ∀ message ∈ [NetworkMessage.Verack], Framed plain_raw .REGTEST message := by
    simpa using verack_framed .REGTEST
  have hdelivered := delivered_in_order hgreeting (ping_framed .REGTEST) greeted_opened hrun
    (by simp [shutdown_run, ConnectionAction.requested, ping_framed])
  exact ⟨state, hrun, hdelivered.2.1 9 (by decide)⟩

end p2p.net
