import KernelNode.Net.Socks5
import KernelNode.P2p.Connection

open bitcoin p2p.handshake std.bytes std.io std.net std.time

namespace std.net.TcpStream

/-- Code that does not panic and comes to an end with every input of the other
    side, which ends itself. -/
def Ends {A : Type} (code : Exchange A) : Prop :=
  ∀ stream, ∃ result, code.run.run stream = some result

variable {A B : Type}

theorem Ends.bind {first : Exchange A} {second : A → Exchange B} (hfirst : Ends first)
    (hsecond : ∀ value, Ends (second value)) : Ends (first >>= second) := by
  intro stream
  simp only [ExceptT.run_bind, StateT.run_bind]
  obtain ⟨⟨_ | value, middle⟩, hrun⟩ := hfirst stream
  · exact ⟨_, by rw [hrun]; rfl⟩
  · obtain ⟨result, hresult⟩ := hsecond value middle
    exact ⟨result, by rw [hrun]; exact hresult⟩

theorem ends_throw (e : std.io.Error) : Ends (throw e : Exchange A) := fun _ => ⟨_, rfl⟩

/-- Code goes on after a check, or fails there. -/
theorem Ends.check {condition : Prop} [Decidable condition] {e : std.io.Error} {rest : Exchange A}
    (hrest : Ends rest) :
    Ends (if condition then do
      (throw e : Exchange Unit)
      rest
    else rest) := by
  split
  · exact .bind (ends_throw e) fun _ => hrest
  · exact hrest

theorem ends_pure (value : A) : Ends (pure value) := fun _ => ⟨_, rfl⟩

theorem ends_write_all (bytes : List UInt8) : Ends (write_all bytes) := fun _ => ⟨_, rfl⟩

theorem ends_read_exact (len : Nat) : Ends (read_exact len) := fun _ => ⟨_, rfl⟩

theorem ends_set_read_timeout (timeout : Option Duration) : Ends (set_read_timeout timeout) := by
  intro stream
  rw [set_read_timeout, ExceptT.run_mk, StateT.run]
  split <;> exact ⟨_, rfl⟩

theorem ends_set_write_timeout (timeout : Option Duration) : Ends (set_write_timeout timeout) := by
  intro stream
  rw [set_write_timeout, ExceptT.run_mk, StateT.run]
  split <;> exact ⟨_, rfl⟩

theorem ends_computed {value : Option A} {result : A} (hvalue : value = some result) :
    Ends (computed value) := fun stream => ⟨(.ok result, stream), by rw [hvalue]; rfl⟩

end std.net.TcpStream

namespace p2p.net

def READ_TIMEOUT : Duration := .from_secs 60
def TCP_TIMEOUT : Duration := .from_secs 2

structure TimeoutParams where
  read : Option Duration
  write : Option Duration
  tcp : Duration

def TimeoutParams.new : TimeoutParams := ⟨some READ_TIMEOUT, none, TCP_TIMEOUT⟩

/-- A turn of `handshake`: go on, or end with a result. -/
abbrev Handshaken := Except Error CompletedHandshake × TcpStream

section

variable (rawInst : RawNetworkMessage) (magic : Magic)

/-- The messages written to a connection. -/
def send_all (messages : List NetworkMessage) (tcp_stream : TcpStream) : TcpStream :=
  { tcp_stream with sent := tcp_stream.sent ++ frames rawInst magic messages }

/-- A message read from a connection. -/
def receive (tcp_stream : TcpStream) : Except Error (Option NetworkMessage) × TcpStream :=
  let (result, incoming) := (ReadTransport.read_message rawInst magic).run.run tcp_stream.incoming
  (result, { tcp_stream with incoming })

/-- The loop of `handshake`, for so many turns. -/
def handshake_loop : Nat → InitializedHandshake → TcpStream → Option Handshaken
  | 0, _, _ => none
  | turns + 1, handshake, tcp_stream =>
    match receive rawInst magic tcp_stream with
    | (.error e, tcp_stream) => some (.error e, tcp_stream)
    | (.ok none, tcp_stream) => handshake_loop turns handshake tcp_stream
    | (.ok (some message), tcp_stream) =>
      match handshake.negotiate message with
      | (.error e, _) => some (.error (.Handshake e), tcp_stream)
      | (.ok (some (completed_handshake, responses)), _) =>
        some (.ok completed_handshake, send_all rawInst magic responses tcp_stream)
      | (.ok none, handshake) => handshake_loop turns handshake tcp_stream

/-- The handshake over a connection. Every turn of its loop takes something from
    the connection, so the turns are enough. -/
def ConnectionExt.handshake (self : ConnectionConfig) (unix_time : Duration) (nonce : UInt64)
    (tcp_stream : TcpStream) : Option Handshaken :=
  let version := self.build_our_version unix_time nonce
  match receive rawInst magic (send_all rawInst magic [.Version version] tcp_stream) with
  | (.error e, tcp_stream) => some (.error e, tcp_stream)
  | (.ok none, tcp_stream) => some (.error .MissingVersion, tcp_stream)
  | (.ok (some message), tcp_stream) =>
    match self.start_handshake unix_time message nonce with
    | .error e => some (.error (.Handshake e), tcp_stream)
    | .ok (handshake, messages) =>
      handshake_loop rawInst magic (tcp_stream.incoming.length + 1) handshake
        (send_all rawInst magic messages tcp_stream)

/-- A connection to an address, on what comes of the attempt to reach it. -/
def ConnectionExt.open_connection
    (connect_timeout : SocketAddr → Duration → Except std.io.Error TcpStream)
    (self : ConnectionConfig) (unix_time : Duration) (nonce : UInt64) (address : SocketAddr)
    (timeout_params : TimeoutParams) : Option (Except Error (CompletedHandshake × TcpStream)) :=
  match connect_timeout address timeout_params.tcp with
  | .error e => some (.error (.Io e))
  | .ok tcp_stream =>
    let set_timeouts : Exchange Unit := do
      TcpStream.set_read_timeout timeout_params.read
      TcpStream.set_write_timeout timeout_params.write
    (set_timeouts.run.run tcp_stream).bind fun
      | (.error e, _) => some (.error (.Io e))
      | (.ok _, tcp_stream) =>
        (ConnectionExt.handshake rawInst magic self unix_time nonce tcp_stream).map
          fun (result, tcp_stream) => result.map fun completed => (completed, tcp_stream)

end

/-- The messages that successive reads give, and what is left. -/
inductive Decodes (rawInst : RawNetworkMessage) (magic : Magic) :
    Reader → List NetworkMessage → Reader → Prop where
  | nil (reader : Reader) : Decodes rawInst magic reader [] reader
  | cons {reader middle rest : Reader} {message : NetworkMessage} {messages : List NetworkMessage}
      (hread : (ReadTransport.read_message rawInst magic).run.run reader =
        (.ok (some message), middle))
      (hrest : Decodes rawInst magic middle messages rest) :
      Decodes rawInst magic reader (message :: messages) rest

section

variable {rawInst : RawNetworkMessage} {magic : Magic}

/-- A message takes at least its header. -/
theorem read_message_length {reader rest : Reader} {message : Option NetworkMessage}
    (hread : (ReadTransport.read_message rawInst magic).run.run reader = (.ok message, rest)) :
    message ≠ none ∧ rest.length < reader.length := by
  rw [ReadTransport.read_message, run_bind, run_adapt, run_read_exact] at hread
  have hheader := Reader.take_exact_cases 24 reader
  generalize reader.take_exact 24 = taken at hheader hread
  cases hheader with
  | interrupted | ended => cases hread
  | filled header middle =>
    dsimp only [Except.mapError] at hread
    split at hread
    · cases hread
    · rw [run_bind, run_adapt, run_read_exact] at hread
      have hcontents := Reader.take_exact_cases (V1MessageHeader.deserialize header).length.toNat
        middle
      generalize middle.take_exact _ = taken at hcontents hread
      cases hcontents with
      | interrupted | ended => cases hread
      | filled contents rest =>
        dsimp only [Except.mapError] at hread
        split at hread
        · cases hread
        · cases hread
          exact ⟨Option.some_ne_none _, by simp [Reader.of_bytes]; omega⟩

theorem Decodes.cons_iff {reader middle rest : Reader} {message first : NetworkMessage}
    {messages : List NetworkMessage}
    (hread : (ReadTransport.read_message rawInst magic).run.run reader =
      (.ok (some message), middle)) :
    Decodes rawInst magic reader (first :: messages) rest ↔
      first = message ∧ Decodes rawInst magic middle messages rest := by
  constructor
  · intro hdecodes
    cases hdecodes with
    | cons hother hrest =>
      cases hread.symm.trans hother
      exact ⟨rfl, hrest⟩
  · rintro ⟨rfl, hrest⟩
    exact .cons hread hrest

theorem Decodes.cons_error {reader middle rest : Reader} {e : Error} {first : NetworkMessage}
    {messages : List NetworkMessage}
    (hread : (ReadTransport.read_message rawInst magic).run.run reader = (.error e, middle)) :
    ¬Decodes rawInst magic reader (first :: messages) rest := by
  rintro (_ | ⟨hother, _⟩)
  cases hread.symm.trans hother

/-- Framed messages are decoded, and nothing of what follows them is taken. -/
theorem Decodes.of_frames {messages : List NetworkMessage}
    (hframed : ∀ message ∈ messages, Framed rawInst magic message) (rest : Reader) :
    Decodes rawInst magic (.of_bytes (frames rawInst magic messages) ++ rest) messages rest := by
  induction messages with
  | nil => exact .nil rest
  | cons message messages ih =>
    obtain ⟨hmessage, hmessages⟩ := List.forall_mem_cons.mp hframed
    rw [frames, List.map_cons, List.flatten_cons, Reader.of_bytes_append, List.append_assoc]
    exact .cons (hmessage.read_message _) (ih hmessages)

/-- The loop ends with success exactly at a `verack` after feature messages. -/
theorem handshake_loop_eq_ok_iff {turns : Nat} {handshake : InitializedHandshake}
    {tcp_stream last : TcpStream} {completed : CompletedHandshake}
    (hturns : tcp_stream.incoming.length < turns) :
    handshake_loop rawInst magic turns handshake tcp_stream = some (.ok completed, last) ↔
      ∃ features rest, Decodes rawInst magic tcp_stream.incoming (features ++ [.Verack]) rest ∧
        (∀ feature ∈ features, is_feature feature) ∧
        completed = ⟨handshake.feeler, features.foldl note handshake.their_preferences⟩ ∧
        last =
          { send_all rawInst magic (responses handshake) tcp_stream with incoming := rest } := by
  induction turns generalizing handshake tcp_stream with
  | zero => omega
  | succ turns ih =>
    rcases hread : (ReadTransport.read_message rawInst magic).run.run tcp_stream.incoming with
      ⟨e | message, middle⟩
    · simp only [handshake_loop, receive, hread]
      refine iff_of_false (by simp) ?_
      rintro ⟨_ | _, rest, hdecodes, _⟩ <;> exact Decodes.cons_error hread hdecodes
    · obtain ⟨hsome, hlength⟩ := read_message_length hread
      obtain ⟨message, rfl⟩ := Option.ne_none_iff_exists'.mp hsome
      have hmiddle : middle.length < turns := by omega
      simp only [handshake_loop, receive, hread]
      cases hfeature : is_feature message with
      | true =>
        simp only [handshake.negotiate_feature hfeature]
        rw [ih hmiddle]
        constructor
        · rintro ⟨features, rest, hdecodes, hfeatures, rfl, rfl⟩
          exact ⟨message :: features, rest, .cons hread hdecodes,
            List.forall_mem_cons.mpr ⟨hfeature, hfeatures⟩, rfl, rfl⟩
        · rintro ⟨features, rest, hdecodes, hfeatures, rfl, rfl⟩
          rcases features with _ | ⟨first, features⟩
          · obtain ⟨rfl, _⟩ := (Decodes.cons_iff hread).mp hdecodes
            cases hfeature
          · obtain ⟨rfl, hrest⟩ := (Decodes.cons_iff hread).mp hdecodes
            exact ⟨features, rest, hrest, (List.forall_mem_cons.mp hfeatures).2, rfl, rfl⟩
      | false =>
        have hnone : ∀ features rest, (∀ feature ∈ features, is_feature feature) →
            Decodes rawInst magic tcp_stream.incoming (features ++ [.Verack]) rest →
              message = .Verack ∧ features = [] ∧ rest = middle := by
          rintro (_ | ⟨first, features⟩) rest hfeatures hdecodes
          · obtain ⟨rfl, hrest⟩ := (Decodes.cons_iff hread).mp hdecodes
            cases hrest
            exact ⟨rfl, rfl, rfl⟩
          · obtain ⟨rfl, _⟩ := (Decodes.cons_iff hread).mp hdecodes
            rw [hfeatures first List.mem_cons_self] at hfeature
            cases hfeature
        by_cases hverack : message = .Verack
        · subst hverack
          constructor
          · intro hloop
            cases hloop
            exact ⟨[], middle, .cons hread (.nil middle), by simp, rfl, rfl⟩
          · rintro ⟨features, rest, hdecodes, hfeatures, rfl, rfl⟩
            obtain ⟨_, rfl, rfl⟩ := hnone features rest hfeatures hdecodes
            rfl
        · simp only [handshake.negotiate_irrelevant hfeature hverack]
          refine iff_of_false (by simp) ?_
          rintro ⟨features, rest, hdecodes, hfeatures, _⟩
          exact hverack (hnone features rest hfeatures hdecodes).1

/-- The loop ends within so many turns. -/
theorem handshake_loop_ends {turns : Nat} {handshake : InitializedHandshake}
    {tcp_stream : TcpStream} (hturns : tcp_stream.incoming.length < turns) :
    ∃ result, handshake_loop rawInst magic turns handshake tcp_stream = some result := by
  induction turns generalizing handshake tcp_stream with
  | zero => omega
  | succ turns ih =>
    rcases hread : (ReadTransport.read_message rawInst magic).run.run tcp_stream.incoming with
      ⟨e | message, middle⟩
    · simp only [handshake_loop, receive, hread]
      exact ⟨_, rfl⟩
    · obtain ⟨hsome, hlength⟩ := read_message_length hread
      obtain ⟨message, rfl⟩ := Option.ne_none_iff_exists'.mp hsome
      simp only [handshake_loop, receive, hread]
      rcases handshake.negotiate message with ⟨_ | _ | ⟨_, _⟩, handshake⟩
      · exact ⟨_, rfl⟩
      · exact ih (by dsimp only; omega)
      · exact ⟨_, rfl⟩

/-- What is sent in a handshake that completes. -/
def greeting (self : ConnectionConfig) (unix_time : Duration) (nonce : UInt64)
    (version : VersionMessage) : List NetworkMessage :=
  .Version (self.build_our_version unix_time nonce) ::
    suggested_messages (min self.our_version version.version) ++
      responses (self.after_version unix_time version nonce)

section

variable {self : ConnectionConfig} {unix_time : Duration} {nonce : UInt64}
    {tcp_stream last : TcpStream}

theorem ConnectionExt.handshake_ends : ∃ result,
    ConnectionExt.handshake rawInst magic self unix_time nonce tcp_stream = some result := by
  rcases hread : (ReadTransport.read_message rawInst magic).run.run tcp_stream.incoming with
    ⟨e | _ | message, middle⟩ <;>
    simp only [ConnectionExt.handshake, receive, send_all, hread]
  · exact ⟨_, rfl⟩
  · exact ⟨_, rfl⟩
  · rcases self.start_handshake unix_time message nonce with e | ⟨handshake, messages⟩
    · exact ⟨_, rfl⟩
    · exact handshake_loop_ends (Nat.lt_succ_self _)

/-- The handshake over a connection completes exactly where the messages that are
    read are a word of its grammar, and takes nothing beyond them. -/
theorem ConnectionExt.handshake_eq_ok_iff {completed : CompletedHandshake} :
    ConnectionExt.handshake rawInst magic self unix_time nonce tcp_stream =
        some (.ok completed, last) ↔
      ∃ version features rest,
        Decodes rawInst magic tcp_stream.incoming (.Version version :: (features ++ [.Verack]))
          rest ∧
        self.Accepts nonce version ∧ (∀ feature ∈ features, is_feature feature) ∧
        completed = ⟨(self.after_version unix_time version nonce).feeler,
          announced_preferences features⟩ ∧
        last = { tcp_stream with
          incoming := rest
          sent := tcp_stream.sent ++
            frames rawInst magic (greeting self unix_time nonce version) } := by
  rcases hread : (ReadTransport.read_message rawInst magic).run.run tcp_stream.incoming with
    ⟨e | message, middle⟩
  · simp only [ConnectionExt.handshake, receive, send_all, hread]
    refine iff_of_false (by simp) ?_
    rintro ⟨version, features, rest, hdecodes, _⟩
    exact Decodes.cons_error hread hdecodes
  · obtain ⟨hsome, _⟩ := read_message_length hread
    obtain ⟨message, rfl⟩ := Option.ne_none_iff_exists'.mp hsome
    by_cases haccepted : ∃ version, message = .Version version ∧ self.Accepts nonce version
    · obtain ⟨version, rfl, haccepts⟩ := haccepted
      simp only [ConnectionExt.handshake, receive, send_all, hread,
        ConnectionConfig.start_handshake_accepts haccepts]
      refine (handshake_loop_eq_ok_iff (Nat.lt_succ_self _)).trans ?_
      have hsent : ∀ sent : List UInt8,
          sent ++ frames rawInst magic [.Version (self.build_our_version unix_time nonce)] ++
            frames rawInst magic (suggested_messages (min self.our_version version.version)) ++
            frames rawInst magic (responses (self.after_version unix_time version nonce)) =
          sent ++ frames rawInst magic (greeting self unix_time nonce version) := by
        simp [greeting, frames]
      constructor
      · rintro ⟨features, rest, hdecodes, hfeatures, rfl, rfl⟩
        refine ⟨version, features, rest, .cons hread hdecodes, haccepts, hfeatures, ?_, ?_⟩
        · rw [← foldl_note]
          rfl
        · rw [← hsent]
          rfl
      · rintro ⟨other, features, rest, hdecodes, _, hfeatures, rfl, rfl⟩
        obtain ⟨hversion, hrest⟩ := (Decodes.cons_iff hread).mp hdecodes
        obtain rfl := NetworkMessage.Version.inj hversion
        refine ⟨features, rest, hrest, hfeatures, ?_, ?_⟩
        · rw [← foldl_note]
          rfl
        · rw [← hsent]
          rfl
    · have hrefused : ∀ version, message = .Version version → ¬self.Accepts nonce version :=
        fun version hversion haccepts => haccepted ⟨version, hversion, haccepts⟩
      obtain ⟨e, herror⟩ := ConnectionConfig.start_handshake_refuses hrefused unix_time
      simp only [ConnectionExt.handshake, receive, send_all, hread, herror]
      refine iff_of_false (by simp) ?_
      rintro ⟨version, features, rest, hdecodes, haccepts, _⟩
      obtain ⟨rfl, _⟩ := (Decodes.cons_iff hread).mp hdecodes
      exact hrefused version rfl haccepts

end

end

end p2p.net

namespace net

open p2p.net

/-- The destinations that a proxy can be asked for. -/
def socks_destination : AddrV2 → Option SocksDestination
  | .Ipv4 ipv4 => some (.Ipv4Addr ipv4)
  | .Ipv6 ipv6 => some (.Ipv6Addr ipv6)
  | .TorV3 pubkey => some (.OnionAddress pubkey)
  | _ => none

/-- The addresses that are reached without a proxy. -/
def direct_ip : AddrV2 → Option IpAddr
  | .Ipv4 ipv4 => some (.V4 ipv4)
  | .Ipv6 ipv6 => some (.V6 ipv6)
  | _ => none

/-- A connection to a peer, with its handshake. -/
def connect (sha3_256 : List.Vector UInt8 48 → List.Vector UInt8 32) (rawInst : RawNetworkMessage)
    (magic : Magic) (connect_timeout : SocketAddr → Duration → Except std.io.Error TcpStream)
    (conf : ConnectionConfig) (unix_time : Duration) (nonce : UInt64) (dest : Destination)
    (proxy : Option Socks5Proxy) (read_timeout : Duration) :
    Option (Except p2p.net.Error (CompletedHandshake × TcpStream)) :=
  let timeouts := { TimeoutParams.new with read := some read_timeout }
  match proxy with
  | some proxy =>
    match socks_destination dest.addr with
    | none => some (.error (.Io ⟨.Other, "cannot connect to destination address"⟩))
    | some addr =>
      (proxy.connect sha3_256 connect_timeout addr dest.port read_timeout).bind fun
        | .error e => some (.error (.Io e))
        | .ok conn => (ConnectionExt.handshake rawInst magic conf unix_time nonce conn).map
          fun (result, tcp_stream) => result.map fun completed => (completed, tcp_stream)
  | none =>
    match direct_ip dest.addr with
    | none =>
      some (.error (.Io ⟨.Other, "cannot connect to destination address without a proxy"⟩))
    | some ip =>
      ConnectionExt.open_connection rawInst magic connect_timeout conf unix_time nonce
        ⟨ip, dest.port⟩ timeouts

namespace Socks5Proxy

open TcpStream

theorem negotiate_ends : Ends negotiate :=
  .bind (ends_write_all _) fun _ => .bind (ends_read_exact _) fun _ => .check (.check (ends_pure _))

theorem send_request_ends (sha3_256 : List.Vector UInt8 48 → List.Vector UInt8 32)
    (addr : SocksDestination) (port : UInt16) : Ends (send_request sha3_256 addr port) := by
  obtain ⟨dest_bytes, hencode, _⟩ := encode_spec sha3_256 addr
  exact .bind (ends_computed hencode) fun _ => .bind (ends_write_all _) fun _ =>
    .bind (ends_write_all _) fun _ => ends_write_all _

theorem read_bound_address_ends (addr_type : UInt8) : Ends (read_bound_address addr_type) := by
  rw [read_bound_address]
  split_ifs
  · exact .bind (ends_read_exact _) fun _ => ends_pure _
  · exact .bind (ends_read_exact _) fun _ => ends_pure _
  · exact .bind (ends_read_exact _) fun _ => .bind (ends_read_exact _) fun _ => ends_pure _
  · exact ends_throw _

theorem exchange_ends (sha3_256 : List.Vector UInt8 48 → List.Vector UInt8 32)
    (addr : SocksDestination) (port : UInt16) (read_timeout : Duration) :
    Ends (exchange sha3_256 addr port read_timeout) :=
  .bind (ends_set_read_timeout _) fun _ => .bind (ends_set_write_timeout _) fun _ =>
    .bind negotiate_ends fun _ => .bind (send_request_ends sha3_256 addr port) fun _ =>
      .bind (.bind (ends_read_exact _) fun _ => .check (.check (read_bound_address_ends _)))
        fun _ => .bind (ends_set_read_timeout _) fun _ => ends_set_write_timeout _

theorem connect_reached_iff {sha3_256 : List.Vector UInt8 48 → List.Vector UInt8 32}
    {connect_timeout : SocketAddr → Duration → Except std.io.Error TcpStream} {self : Socks5Proxy}
    {addr : SocksDestination} {port : UInt16} {read_timeout : Duration} {reached last : TcpStream}
    (hreached : connect_timeout self.proxy self.timeout = .ok reached) :
    self.connect sha3_256 connect_timeout addr port read_timeout = some (.ok last) ↔
      (exchange sha3_256 addr port read_timeout).run.run reached = some (.ok (), last) := by
  rw [Socks5Proxy.connect, hreached]
  dsimp only
  rcases (exchange sha3_256 addr port read_timeout).run.run reached with _ | ⟨_ | _, _⟩ <;>
    simp [Except.map]

theorem connect_ends (sha3_256 : List.Vector UInt8 48 → List.Vector UInt8 32)
    (connect_timeout : SocketAddr → Duration → Except std.io.Error TcpStream) (self : Socks5Proxy)
    (addr : SocksDestination) (port : UInt16) (read_timeout : Duration) :
    ∃ result, self.connect sha3_256 connect_timeout addr port read_timeout = some result := by
  rw [Socks5Proxy.connect]
  cases connect_timeout self.proxy self.timeout with
  | error e => exact ⟨_, rfl⟩
  | ok tcp_stream =>
    obtain ⟨result, hrun⟩ := exchange_ends sha3_256 addr port read_timeout tcp_stream
    dsimp only
    exact ⟨_, by rw [hrun]; rfl⟩

end Socks5Proxy

/-- How a destination is reached: the address of the connection and the time it may
    take, what is asked of a proxy and what it answers. -/
inductive Route (sha3_256 : List.Vector UInt8 48 → List.Vector UInt8 32) :
    Option Socks5Proxy → Destination → SocketAddr → Duration → List UInt8 → List UInt8 → Prop where
  | proxied {proxy : Socks5Proxy} {dest : Destination} {addr : SocksDestination} {addr_type : UInt8}
      {dest_bytes reply : List UInt8} (haddr : socks_destination dest.addr = some addr)
      (hencoded : EncodedDestination sha3_256 addr addr_type dest_bytes)
      (hreply : SuccessReply reply) :
      Route sha3_256 (some proxy) dest proxy.proxy proxy.timeout
        ([5, 1, 0] ++ [5, 1, 0, addr_type] ++ dest_bytes ++ (to_be 2 dest.port.toNat).toList) reply
  | direct {dest : Destination} {ip : IpAddr} (hip : direct_ip dest.addr = some ip) :
      Route sha3_256 none dest ⟨ip, dest.port⟩ TCP_TIMEOUT [] []

theorem EncodedDestination.bytes_eq {sha3_256 : List.Vector UInt8 48 → List.Vector UInt8 32}
    {addr : SocksDestination} {addr_type other_type : UInt8} {dest_bytes other : List UInt8}
    (hencoded : EncodedDestination sha3_256 addr addr_type dest_bytes)
    (hother : EncodedDestination sha3_256 addr other_type other) : dest_bytes = other := by
  cases hencoded with
  | ipv4 | ipv6 =>
    cases hother
    rfl
  | onion ed25519 host hhost =>
    cases hother with
    | onion _ other hother => rw [Option.some.inj (hhost.symm.trans hother)]

theorem map_completed_iff {result : Option Handshaken} {completed : CompletedHandshake}
    {last : TcpStream} :
    (result.map fun (result, tcp_stream) => result.map fun completed => (completed, tcp_stream)) =
        some (.ok (completed, last)) ↔
      result = some (.ok completed, last) := by
  rcases result with _ | ⟨_ | _, _⟩ <;> simp [Except.map]

section

variable {sha3_256 : List.Vector UInt8 48 → List.Vector UInt8 32} {rawInst : RawNetworkMessage}
    {magic : Magic} {connect_timeout : SocketAddr → Duration → Except std.io.Error TcpStream}
    {conf : ConnectionConfig} {unix_time : Duration} {nonce : UInt64} {read_timeout : Duration}

/-- Once the input of the other side ends, the attempt does. A peer that goes on with
    feature messages could keep it going. -/
theorem connect_ends {dest : Destination} {proxy : Option Socks5Proxy} : ∃ result,
    connect sha3_256 rawInst magic connect_timeout conf unix_time nonce dest proxy read_timeout =
      some result := by
  have hhandshake : ∀ tcp_stream, ∃ result,
      ((ConnectionExt.handshake rawInst magic conf unix_time nonce tcp_stream).map
        fun (result, tcp_stream) => result.map fun completed => (completed, tcp_stream)) =
          some result := by
    intro tcp_stream
    obtain ⟨result, hresult⟩ : ∃ result, ConnectionExt.handshake rawInst magic conf unix_time nonce
      tcp_stream = some result := ConnectionExt.handshake_ends
    exact ⟨_, by rw [hresult]; rfl⟩
  cases proxy with
  | some proxy =>
    cases haddr : socks_destination dest.addr with
    | none => exact ⟨_, by simp only [connect, haddr]; rfl⟩
    | some addr =>
      obtain ⟨_ | conn, hconn⟩ := proxy.connect_ends sha3_256 connect_timeout addr dest.port
        read_timeout
      · exact ⟨_, by simp only [connect, haddr, hconn]; rfl⟩
      · simpa only [connect, haddr, hconn, Option.bind_some] using hhandshake conn
  | none =>
    cases hip : direct_ip dest.addr with
    | none => exact ⟨_, by simp only [connect, hip]; rfl⟩
    | some ip =>
      simp only [connect, hip, ConnectionExt.open_connection]
      cases connect_timeout ⟨ip, dest.port⟩ TimeoutParams.new.tcp with
      | error e => exact ⟨_, rfl⟩
      | ok tcp_stream =>
        have hset := TcpStream.Ends.bind (TcpStream.ends_set_read_timeout (some read_timeout))
          fun _ => TcpStream.ends_set_write_timeout TimeoutParams.new.write
        obtain ⟨⟨_ | _, tcp_stream⟩, hrun⟩ := hset tcp_stream
        · exact ⟨_, by simp only [hrun]; rfl⟩
        · simpa only [hrun, Option.bind_some] using hhandshake tcp_stream

theorem connect_proxied_iff {dest : Destination} {proxy : Socks5Proxy}
    {completed : CompletedHandshake} {last : TcpStream} :
    connect sha3_256 rawInst magic connect_timeout conf unix_time nonce dest (some proxy)
        read_timeout = some (.ok (completed, last)) ↔
      ∃ addr conn, socks_destination dest.addr = some addr ∧
        proxy.connect sha3_256 connect_timeout addr dest.port read_timeout = some (.ok conn) ∧
        ConnectionExt.handshake rawInst magic conf unix_time nonce conn =
          some (.ok completed, last) := by
  cases haddr : socks_destination dest.addr with
  | none => simp [connect, haddr]
  | some addr =>
    simp only [connect, haddr, Option.bind_eq_some_iff]
    constructor
    · rintro ⟨_ | conn, hconn, hhandshake⟩
      · cases hhandshake
      · exact ⟨addr, conn, rfl, hconn, map_completed_iff.mp hhandshake⟩
    · rintro ⟨_, conn, ⟨⟩, hconn, hhandshake⟩
      exact ⟨.ok conn, hconn, map_completed_iff.mpr hhandshake⟩

variable (htimeout : read_timeout ≠ .from_secs 0)
    (hfresh : ∀ address timeout tcp_stream, connect_timeout address timeout = .ok tcp_stream →
      ∃ incoming, tcp_stream = .new incoming)

include htimeout hfresh

theorem open_connection_eq_ok_iff {address : SocketAddr} {completed : CompletedHandshake}
    {last : TcpStream} :
    ConnectionExt.open_connection rawInst magic connect_timeout conf unix_time nonce address
        { TimeoutParams.new with read := some read_timeout } = some (.ok (completed, last)) ↔
      ∃ incoming, connect_timeout address TCP_TIMEOUT = .ok (.new incoming) ∧
        ConnectionExt.handshake rawInst magic conf unix_time nonce
          { TcpStream.new incoming with read_timeout := some read_timeout } =
            some (.ok completed, last) := by
  rw [ConnectionExt.open_connection]
  cases hconnect : connect_timeout address TCP_TIMEOUT with
  | error e => simp [TimeoutParams.new, hconnect]
  | ok tcp_stream =>
    obtain ⟨incoming, rfl⟩ := hfresh _ _ _ hconnect
    have hset : (do
        TcpStream.set_read_timeout (some read_timeout)
        TcpStream.set_write_timeout none : Exchange Unit).run.run (.new incoming) =
          some (.ok (), { TcpStream.new incoming with read_timeout := some read_timeout }) :=
      TcpStream.run_bind_eq_ok_iff.mpr ⟨(), _,
        TcpStream.run_set_read_timeout_iff.mpr ⟨by simpa using htimeout, rfl⟩,
        TcpStream.run_set_write_timeout_iff.mpr ⟨by decide, rfl⟩⟩
    simp only [TimeoutParams.new, hconnect, hset, Option.bind_some]
    rw [map_completed_iff]
    constructor
    · exact fun hhandshake => ⟨incoming, rfl, hhandshake⟩
    · rintro ⟨other, hsame, hhandshake⟩
      obtain rfl : incoming = other := congrArg TcpStream.incoming (Except.ok.inj hsame)
      exact hhandshake

theorem proxied_eq_ok_iff {proxy : Socks5Proxy} {addr : SocksDestination} {port : UInt16}
    {tcp_stream : TcpStream} :
    proxy.connect sha3_256 connect_timeout addr port read_timeout = some (.ok tcp_stream) ↔
      ∃ dest_bytes reply middle, EncodedDestination sha3_256 addr addr.TYPE_BYTE dest_bytes ∧
        SuccessReply reply ∧
        connect_timeout proxy.proxy proxy.timeout = .ok (.new (.of_bytes reply ++ middle)) ∧
        tcp_stream = {
          incoming := middle
          sent := [5, 1, 0] ++ [5, 1, 0, addr.TYPE_BYTE] ++ dest_bytes ++
            (to_be 2 port.toNat).toList
          read_timeout := some read_timeout
          write_timeout := none } := by
  obtain ⟨dest_bytes, hencode, hencoded⟩ := encode_spec sha3_256 addr
  cases hconnect : connect_timeout proxy.proxy proxy.timeout with
  | error e => simp [Socks5Proxy.connect, hconnect]
  | ok reached =>
    obtain ⟨incoming, rfl⟩ := hfresh _ _ _ hconnect
    rw [Socks5Proxy.connect_reached_iff hconnect, Socks5Proxy.exchange_iff htimeout]
    constructor
    · rintro ⟨bytes, reply, middle, hbytes, hreply, hincoming, rfl⟩
      obtain rfl := Option.some.inj (hencode.symm.trans hbytes)
      obtain rfl : incoming = .of_bytes reply ++ middle := hincoming
      exact ⟨dest_bytes, reply, middle, hencoded, hreply, rfl, rfl⟩
    · rintro ⟨bytes, reply, middle, hbytes, hreply, hsame, rfl⟩
      obtain rfl := hencoded.bytes_eq hbytes
      exact ⟨dest_bytes, reply, middle, hencode, hreply,
        congrArg TcpStream.incoming (Except.ok.inj hsame), rfl⟩

/-- A connection is made exactly where the route is open and the peer says what the
    handshake asks for. What is sent is the request to a proxy and the messages of
    the handshake, and nothing that the peer sends later is taken. -/
theorem connect_eq_ok_iff {dest : Destination} {proxy : Option Socks5Proxy}
    {completed : CompletedHandshake} {last : TcpStream} :
    connect sha3_256 rawInst magic connect_timeout conf unix_time nonce dest proxy read_timeout =
        some (.ok (completed, last)) ↔
      ∃ address timeout request reply middle version features rest,
        Route sha3_256 proxy dest address timeout request reply ∧
        connect_timeout address timeout = .ok (.new (.of_bytes reply ++ middle)) ∧
        Decodes rawInst magic middle (.Version version :: (features ++ [.Verack])) rest ∧
        conf.Accepts nonce version ∧ (∀ feature ∈ features, is_feature feature) ∧
        completed = ⟨(conf.after_version unix_time version nonce).feeler,
          announced_preferences features⟩ ∧
        last = {
          incoming := rest
          sent := request ++ frames rawInst magic (greeting conf unix_time nonce version)
          read_timeout := some read_timeout
          write_timeout := none } := by
  cases proxy with
  | some proxy =>
    simp only [connect_proxied_iff, proxied_eq_ok_iff htimeout hfresh,
      ConnectionExt.handshake_eq_ok_iff]
    constructor
    · rintro ⟨addr, _, haddr, ⟨dest_bytes, reply, middle, hencoded, hreply, hreached, rfl⟩, version,
        features, rest, hdecodes, haccepts, hfeatures, rfl, rfl⟩
      exact ⟨_, _, _, reply, middle, version, features, rest, .proxied haddr hencoded hreply,
        hreached, hdecodes, haccepts, hfeatures, rfl, rfl⟩
    · rintro ⟨_, _, _, reply, middle, version, features, rest, hroute, hreached, hdecodes, haccepts,
        hfeatures, rfl, rfl⟩
      cases hroute with
      | @proxied _ _ addr addr_type dest_bytes _ haddr hencoded hreply =>
        obtain rfl : addr_type = addr.TYPE_BYTE := by cases hencoded <;> rfl
        exact ⟨addr, _, haddr, ⟨dest_bytes, reply, middle, hencoded, hreply, hreached, rfl⟩,
          version, features, rest, hdecodes, haccepts, hfeatures, rfl, rfl⟩
  | none =>
    cases hip : direct_ip dest.addr with
    | none =>
      simp only [connect, hip]
      refine iff_of_false (by simp) ?_
      rintro ⟨_, _, _, _, _, _, _, _, ⟨⟩, _⟩
      simp_all
    | some ip =>
      simp only [connect, hip, open_connection_eq_ok_iff htimeout hfresh,
        ConnectionExt.handshake_eq_ok_iff]
      constructor
      · rintro ⟨middle, hreached, version, features, rest, hdecodes, haccepts, hfeatures, rfl, rfl⟩
        exact ⟨_, _, _, [], middle, version, features, rest, .direct hip, hreached, hdecodes,
          haccepts, hfeatures, rfl, rfl⟩
      · rintro ⟨_, _, _, _, middle, version, features, rest, hroute, hreached, hdecodes, haccepts,
          hfeatures, rfl, rfl⟩
        cases hroute with
        | direct hother =>
          obtain rfl := Option.some.inj (hip.symm.trans hother)
          exact ⟨middle, hreached, version, features, rest, hdecodes, haccepts, hfeatures, rfl,
            rfl⟩

/-- An attempt ends once the input of the other side does. It succeeds exactly where
    the route is open and the peer says what the handshake asks for: what is sent is
    then the request to a proxy and the messages of the handshake, and nothing that
    the peer sends later is taken. With a proxy, no other address is contacted. -/
theorem connected_iff {dest : Destination} {proxy : Option Socks5Proxy} :
    (∃ result, connect sha3_256 rawInst magic connect_timeout conf unix_time nonce dest proxy
      read_timeout = some result) ∧
    (∀ completed last,
      connect sha3_256 rawInst magic connect_timeout conf unix_time nonce dest proxy read_timeout =
          some (.ok (completed, last)) ↔
        ∃ address timeout request reply middle version features rest,
          Route sha3_256 proxy dest address timeout request reply ∧
          connect_timeout address timeout = .ok (.new (.of_bytes reply ++ middle)) ∧
          Decodes rawInst magic middle (.Version version :: (features ++ [.Verack])) rest ∧
          conf.Accepts nonce version ∧ (∀ feature ∈ features, is_feature feature) ∧
          completed = ⟨(conf.after_version unix_time version nonce).feeler,
            announced_preferences features⟩ ∧
          last = {
            incoming := rest
            sent := request ++ frames rawInst magic (greeting conf unix_time nonce version)
            read_timeout := some read_timeout
            write_timeout := none }) ∧
    ∀ through other, proxy = some through →
      other through.proxy through.timeout = connect_timeout through.proxy through.timeout →
      connect sha3_256 rawInst magic other conf unix_time nonce dest proxy read_timeout =
        connect sha3_256 rawInst magic connect_timeout conf unix_time nonce dest proxy
          read_timeout := by
  refine ⟨connect_ends, fun completed last => connect_eq_ok_iff htimeout hfresh, ?_⟩
  rintro through other rfl hsame
  simp only [connect, Socks5Proxy.connect, hsame]

end

def version_command : List.Vector UInt8 12 :=
  ⟨[0x76, 0x65, 0x72, 0x73, 0x69, 0x6f, 0x6e, 0, 0, 0, 0, 0], rfl⟩

def address_bytes (address : bitcoin.Address) : List UInt8 :=
  (to_le 8 address.services.toNat).toList ++
    address.address.toList.flatMap (fun word => (to_be 2 word.toNat).toList) ++
    (to_be 2 address.port.toNat).toList

/-- The payload of a version message with a short user agent. -/
def version_bytes (version : VersionMessage) : List UInt8 :=
  (to_le 4 version.version.toNat).toList ++ (to_le 8 version.services.toNat).toList ++
    (to_le 8 version.timestamp.toUInt64.toNat).toList ++ address_bytes version.receiver ++
    address_bytes version.sender ++ (to_le 8 version.nonce.toNat).toList ++
    (.ofNat version.user_agent.utf8ByteSize :: version.user_agent.toUTF8.toList) ++
    (to_le 4 version.start_height.toUInt32.toNat).toList ++ [version.relay.toUInt8]

def hello_encode : NetworkMessage → Option (List.Vector UInt8 12 × List UInt8)
  | .Version version => some (version_command, version_bytes version)
  | .Verack => some (verack_command, [])
  | _ => none

def hello_decode (command payload : List UInt8) : Except String NetworkMessage :=
  if command = version_command.toList ∧ payload = version_bytes mock_version then
    .ok (.Version mock_version)
  else if command = verack_command.toList ∧ payload = [] then .ok .Verack
  else .error "unknown message"

/-- The codec on `verack` messages and on the version of one peer. -/
def hello_raw : RawNetworkMessage := checked_raw hello_encode hello_decode

theorem hello_version_framed (magic : Magic) :
    Framed hello_raw magic (.Version mock_version) := by
  refine checked_framed magic rfl (by decide +kernel) (by simp [hello_decode]) ?_
  intro other bytes hmessage
  simp only [hello_decode] at hmessage
  split_ifs at hmessage with hversion hverack
  · rw [hversion.2]
  · cases hmessage

theorem hello_verack_framed (magic : Magic) : Framed hello_raw magic .Verack :=
  checked_framed magic rfl (by decide) (by decide) fun _ _ _ => Nat.zero_le _

/-- The peer behind the proxy says hello, and the first byte of a message follows. -/
def onion_peer_replies (_ : SocketAddr) (_ : Duration) : Except std.io.Error TcpStream :=
  .ok (.new (.of_bytes [5, 0, 5, 0, 0, 1, 0, 0, 0, 0, 0, 0] ++
    (.of_bytes (frames hello_raw .REGTEST [.Version mock_version, .Verack]) ++ .of_bytes [0xfa])))

theorem connected_iff_onion : ∃ completed tcp_stream,
    connect (fun _ => List.Vector.replicate 32 7) hello_raw .REGTEST onion_peer_replies .new
      (.from_secs 1700000000) 43 ⟨.TorV3 (List.Vector.replicate 32 1), 8333⟩ (some local_proxy)
      (.from_secs 60) = some (.ok (completed, tcp_stream)) ∧
    tcp_stream.incoming = .of_bytes [0xfa] := by
  have htimeout : Duration.from_secs 60 ≠ .from_secs 0 := by decide
  have hfresh : ∀ address timeout tcp_stream,
      onion_peer_replies address timeout = .ok tcp_stream →
        ∃ incoming, tcp_stream = .new incoming := by
    rintro _ _ _ ⟨⟩
    exact ⟨_, rfl⟩
  obtain ⟨_, _, hencoded⟩ := encode_spec (fun _ => List.Vector.replicate 32 7)
    (.OnionAddress (List.Vector.replicate 32 1))
  have hreply : SuccessReply [5, 0, 5, 0, 0, 1, 0, 0, 0, 0, 0, 0] :=
    ⟨0, _, .ipv4 (List.Vector.replicate 4 0) (List.Vector.replicate 2 0), rfl⟩
  have hframed : ∀ message ∈ [NetworkMessage.Version mock_version, .Verack],
      Framed hello_raw .REGTEST message := by
    simp [hello_version_framed, hello_verack_framed]
  exact ⟨_, _, ((connected_iff htimeout hfresh).2.1 _ _).mpr ⟨_, _, _, _, _, mock_version, [], _,
    .proxied rfl hencoded hreply, rfl, Decodes.of_frames hframed _, by decide, by simp, rfl, rfl⟩,
    rfl⟩

end net
