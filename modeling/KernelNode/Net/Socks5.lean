import KernelNode.Collections.SocketAddr
import KernelNode.Net.Onion

open std.array std.bytes std.io std.net std.time

namespace std.net

/-- An open connection: what the other side sends, what has been sent to it, and
    the timeouts. A read that times out is an error between two of its bytes. -/
structure TcpStream where
  incoming : Reader
  sent : List UInt8
  read_timeout : Option Duration
  write_timeout : Option Duration

/-- A connection that has just been opened. -/
def TcpStream.new (incoming : Reader) : TcpStream := ⟨incoming, [], none, none⟩

/-- Code that talks over a connection. A panic is `none`. -/
abbrev Exchange := ExceptT std.io.Error (StateT TcpStream Option)

namespace TcpStream

def write_all (bytes : List UInt8) : Exchange Unit :=
  ExceptT.mk fun stream => some (.ok (), { stream with sent := stream.sent ++ bytes })

def read_exact (len : Nat) : Exchange (List.Vector UInt8 len) :=
  ExceptT.mk fun stream =>
    let (result, incoming) := stream.incoming.take_exact len
    some (result, { stream with incoming })

/-- The error for a timeout of no time. Its kind is none of those that the node
    tells apart. -/
def zero_timeout : std.io.Error := ⟨.Other, "cannot set a 0 duration timeout"⟩

def set_read_timeout (timeout : Option Duration) : Exchange Unit :=
  ExceptT.mk fun stream =>
    if timeout = some (.from_secs 0) then some (.error zero_timeout, stream)
    else some (.ok (), { stream with read_timeout := timeout })

def set_write_timeout (timeout : Option Duration) : Exchange Unit :=
  ExceptT.mk fun stream =>
    if timeout = some (.from_secs 0) then some (.error zero_timeout, stream)
    else some (.ok (), { stream with write_timeout := timeout })

/-- A value whose computation may panic. -/
def computed {A : Type} (value : Option A) : Exchange A :=
  ExceptT.mk fun stream => value.map fun value => (.ok value, stream)

section

variable {A B : Type} {stream last : TcpStream}

/-- Code succeeds where both of its parts do. -/
theorem run_bind_eq_ok_iff {first : Exchange A} {second : A → Exchange B} {result : B} :
    (first >>= second).run.run stream = some (.ok result, last) ↔
      ∃ value middle, first.run.run stream = some (.ok value, middle) ∧
        (second value).run.run middle = some (.ok result, last) := by
  simp only [ExceptT.run_bind, StateT.run_bind]
  rcases first.run.run stream with _ | ⟨_ | value, middle⟩
  · simp
  · simp
  · simp

theorem run_write_all_iff {bytes : List UInt8} {result : Unit} :
    (write_all bytes).run.run stream = some (.ok result, last) ↔
      last = { stream with sent := stream.sent ++ bytes } := by
  change some (Except.ok (), _) = some (.ok (), last) ↔ _
  simp only [Option.some.injEq, Prod.mk.injEq, true_and, eq_comm]

theorem run_read_exact_iff {len : Nat} {bytes : List.Vector UInt8 len} :
    (read_exact len).run.run stream = some (.ok bytes, last) ↔
      ∃ rest, stream.incoming = .of_bytes bytes.toList ++ rest ∧
        last = { stream with incoming := rest } := by
  change some ((stream.incoming.take_exact len).1,
    { stream with incoming := (stream.incoming.take_exact len).2 }) = some (.ok bytes, last) ↔ _
  rw [Option.some.injEq, Prod.mk.injEq]
  constructor
  · rintro ⟨hbytes, rfl⟩
    exact ⟨_, run_read_exact_eq_ok.mp (Prod.ext hbytes rfl), rfl⟩
  · rintro ⟨rest, hincoming, rfl⟩
    rw [hincoming, Reader.take_exact_of_bytes]
    exact ⟨rfl, rfl⟩

theorem unless_zero_timeout_iff {timeout : Option Duration} {changed : TcpStream} {result : Unit} :
    (if timeout = some (.from_secs 0) then some (Except.error zero_timeout, stream)
      else some (Except.ok (), changed)) = some (.ok result, last) ↔
      timeout ≠ some (.from_secs 0) ∧ last = changed := by
  split <;> simp [*, eq_comm]

theorem run_set_read_timeout_iff {timeout : Option Duration} {result : Unit} :
    (set_read_timeout timeout).run.run stream = some (.ok result, last) ↔
      timeout ≠ some (.from_secs 0) ∧ last = { stream with read_timeout := timeout } :=
  unless_zero_timeout_iff

theorem run_set_write_timeout_iff {timeout : Option Duration} {result : Unit} :
    (set_write_timeout timeout).run.run stream = some (.ok result, last) ↔
      timeout ≠ some (.from_secs 0) ∧ last = { stream with write_timeout := timeout } :=
  unless_zero_timeout_iff

theorem run_computed_iff {value : Option A} {result : A} :
    (computed value).run.run stream = some (.ok result, last) ↔
      value = some result ∧ last = stream := by
  change value.map (fun value => (Except.ok value, stream)) = some (.ok result, last) ↔ _
  simp [eq_comm]

theorem run_pure_iff {value result : A} :
    (pure value : Exchange A).run.run stream = some (.ok result, last) ↔
      value = result ∧ last = stream := by
  change some (Except.ok value, stream) = some (.ok result, last) ↔ _
  simp [eq_comm]

theorem run_throw_ne {e : std.io.Error} {result : A} :
    (throw e : Exchange A).run.run stream ≠ some (.ok result, last) := by
  intro hrun
  cases hrun

/-- Code goes on after a check that is passed. -/
theorem run_check_iff {condition : Prop} [Decidable condition] {e : std.io.Error} {result : B}
    {rest : Exchange B} :
    (if condition then do
      (throw e : Exchange Unit)
      rest
    else rest).run.run stream = some (.ok result, last) ↔
      ¬condition ∧ rest.run.run stream = some (.ok result, last) := by
  split
  · rename_i hfailed
    refine iff_of_false (fun hrun => ?_) fun hpassed => hpassed.1 hfailed
    obtain ⟨_, _, hthrow, _⟩ := run_bind_eq_ok_iff.mp hrun
    exact run_throw_ne hthrow
  · rename_i hpassed
    exact (and_iff_right hpassed).symm

end

end TcpStream

end std.net

namespace net

def VERSION : UInt8 := 5
def NOAUTH : UInt8 := 0
def METHODS : UInt8 := 1
def CMD_CONNECT : UInt8 := 1
def RESPONSE_SUCCESS : UInt8 := 0
def RSV : UInt8 := 0
def ADDR_TYPE_IPV4 : UInt8 := 1
def ADDR_TYPE_DOMAIN : UInt8 := 3
def ADDR_TYPE_IPV6 : UInt8 := 4

def TOR_BOOTSTRAP_TIMEOUT : Duration := .from_secs 15
def SOCKS_SERVER_TIMEOUT : Duration := .from_secs 1

/-- The destinations that a proxy is asked for. -/
inductive SocksDestination where
  | OnionAddress (ed25519 : List.Vector UInt8 32)
  | Ipv4Addr (octets : List.Vector UInt8 4)
  | Ipv6Addr (octets : List.Vector UInt8 16)

def SocksDestination.TYPE_BYTE : SocksDestination → UInt8
  | .OnionAddress _ => ADDR_TYPE_DOMAIN
  | .Ipv4Addr _ => ADDR_TYPE_IPV4
  | .Ipv6Addr _ => ADDR_TYPE_IPV6

def SocksDestination.encode (sha3_256 : List.Vector UInt8 48 → List.Vector UInt8 32) :
    SocksDestination → Option (List UInt8)
  | .OnionAddress ed25519 => do
    let service ← pubkey_to_service sha3_256 ed25519
    let out := List.Vector.replicate 63 0
    let out := copy_from_slice out 0 (singleton 62) (by decide)
    let out := copy_from_slice out 1 service (by decide)
    return out.toList
  | .Ipv4Addr octets => some octets.toList
  | .Ipv6Addr octets => some octets.toList

structure Socks5Proxy where
  proxy : SocketAddr
  timeout : Duration

def Socks5Proxy.from_proxy_socket_addr (proxy : SocketAddr) : Socks5Proxy :=
  ⟨proxy, SOCKS_SERVER_TIMEOUT⟩

/-- A bound address: its type, its bytes, after their number for a host name, and
    the port. -/
inductive BoundAddress : List UInt8 → Prop where
  | ipv4 (octets : List.Vector UInt8 4) (port : List.Vector UInt8 2) :
      BoundAddress (1 :: octets.toList ++ port.toList)
  | ipv6 (octets : List.Vector UInt8 16) (port : List.Vector UInt8 2) :
      BoundAddress (4 :: octets.toList ++ port.toList)
  | domain (len : UInt8) (name : List.Vector UInt8 len.toNat) (port : List.Vector UInt8 2) :
      BoundAddress (3 :: len :: name.toList ++ port.toList)

/-- What a proxy sends when it has made the connection. -/
def SuccessReply (bytes : List UInt8) : Prop :=
  ∃ reserved bound, BoundAddress bound ∧ bytes = [5, 0, 5, 0, reserved] ++ bound

namespace Socks5Proxy

open TcpStream

/-- The choice of the authentication method. -/
def negotiate : Exchange Unit := do
  write_all [VERSION, METHODS, NOAUTH]
  let resp_buf ← read_exact 2
  if resp_buf.get ⟨0, by decide⟩ ≠ VERSION then
    throw ⟨.Other, "unsupported socks protocol version"⟩
  if resp_buf.get ⟨1, by decide⟩ ≠ NOAUTH then
    throw ⟨.Other, "socks proxy requires authentication"⟩
  return

def send_request (sha3_256 : List.Vector UInt8 48 → List.Vector UInt8 32) (addr : SocksDestination)
    (port : UInt16) : Exchange Unit := do
  let dest_bytes ← computed (addr.encode sha3_256)
  write_all [VERSION, CMD_CONNECT, RSV, addr.TYPE_BYTE]
  write_all dest_bytes
  write_all (to_be 2 port.toNat).toList

/-- The bound address of the given type and its port are read and not looked at. -/
def read_bound_address (addr_type : UInt8) : Exchange Unit :=
  if addr_type = ADDR_TYPE_IPV4 then do
    let _ ← read_exact 6
  else if addr_type = ADDR_TYPE_IPV6 then do
    let _ ← read_exact 18
  else if addr_type = ADDR_TYPE_DOMAIN then do
    let len ← read_exact 1
    let _ ← read_exact (len.head.toNat + 2)
  else throw ⟨.Other, "response failure"⟩

def read_reply : Exchange Unit := do
  let resp_buf ← read_exact 4
  if resp_buf.get 0 ≠ VERSION then
    throw ⟨.Other, "unsupported socks protocol version"⟩
  if resp_buf.get 1 ≠ RESPONSE_SUCCESS then
    throw ⟨.Other, "response failure"⟩
  read_bound_address (resp_buf.get 3)

/-- What is said over a connection to the proxy. -/
def exchange (sha3_256 : List.Vector UInt8 48 → List.Vector UInt8 32) (addr : SocksDestination)
    (port : UInt16) (read_timeout : Duration) : Exchange Unit := do
  set_read_timeout (some TOR_BOOTSTRAP_TIMEOUT)
  set_write_timeout (some TOR_BOOTSTRAP_TIMEOUT)
  negotiate
  send_request sha3_256 addr port
  read_reply
  set_read_timeout (some read_timeout)
  set_write_timeout none

/-- A connection to the destination through the proxy, on what comes of the attempt
    to reach the proxy. -/
def connect (sha3_256 : List.Vector UInt8 48 → List.Vector UInt8 32)
    (connect_timeout : SocketAddr → Duration → Except std.io.Error TcpStream) (self : Socks5Proxy)
    (addr : SocksDestination) (port : UInt16) (read_timeout : Duration) :
    Option (Except std.io.Error TcpStream) :=
  match connect_timeout self.proxy self.timeout with
  | .error e => some (.error e)
  | .ok tcp_stream =>
    ((exchange sha3_256 addr port read_timeout).run.run tcp_stream).map fun (result, tcp_stream) =>
      result.map fun _ => tcp_stream

theorem toList_two (bytes : List.Vector UInt8 2) :
    bytes.toList = [bytes.get ⟨0, by decide⟩, bytes.get ⟨1, by decide⟩] := by
  obtain ⟨first, bytes, rfl⟩ := bytes.exists_eq_cons
  obtain ⟨second, bytes, rfl⟩ := bytes.exists_eq_cons
  rw [bytes.eq_nil]
  rfl

theorem toList_four (bytes : List.Vector UInt8 4) :
    bytes.toList = [bytes.get 0, bytes.get 1, bytes.get 2, bytes.get 3] := by
  obtain ⟨first, bytes, rfl⟩ := bytes.exists_eq_cons
  obtain ⟨second, bytes, rfl⟩ := bytes.exists_eq_cons
  obtain ⟨third, bytes, rfl⟩ := bytes.exists_eq_cons
  obtain ⟨fourth, bytes, rfl⟩ := bytes.exists_eq_cons
  rw [bytes.eq_nil]
  rfl

/-- An address of a fixed length and its port. -/
theorem split_port {len : Nat} (bytes : List.Vector UInt8 (len + 2)) :
    ∃ (address : List.Vector UInt8 len) (port : List.Vector UInt8 2),
      bytes.toList = address.toList ++ port.toList := by
  refine ⟨slice bytes 0 len (by omega), slice bytes len 2 (Nat.le_refl _), ?_⟩
  have hport : (bytes.toList.drop len).take 2 = bytes.toList.drop len :=
    List.take_of_length_le (by simp)
  simp only [slice, List.Vector.toList_mk, List.drop_zero, hport, List.take_append_drop]

section

variable {stream last : TcpStream} {result : Unit}

theorem send_request_iff {sha3_256 : List.Vector UInt8 48 → List.Vector UInt8 32}
    {addr : SocksDestination} {port : UInt16} :
    (send_request sha3_256 addr port).run.run stream = some (.ok result, last) ↔
      ∃ dest_bytes, addr.encode sha3_256 = some dest_bytes ∧
        last = { stream with
          sent := stream.sent ++ [VERSION, CMD_CONNECT, RSV, addr.TYPE_BYTE] ++ dest_bytes ++
            (to_be 2 port.toNat).toList } := by
  simp only [send_request, run_bind_eq_ok_iff, run_write_all_iff, run_computed_iff]
  constructor
  · rintro ⟨dest_bytes, _, ⟨hencode, rfl⟩, _, _, rfl, _, _, rfl, rfl⟩
    exact ⟨dest_bytes, hencode, rfl⟩
  · rintro ⟨dest_bytes, hencode, rfl⟩
    exact ⟨dest_bytes, _, ⟨hencode, rfl⟩, (), _, rfl, (), _, rfl, rfl⟩

/-- Bytes that are read and not looked at. -/
theorem run_skip_iff {len : Nat} :
    (do let _ ← read_exact len : Exchange Unit).run.run stream = some (.ok result, last) ↔
      ∃ (bytes : List.Vector UInt8 len) (rest : Reader),
        stream.incoming = .of_bytes bytes.toList ++ rest ∧
        last = { stream with incoming := rest } := by
  simp only [run_bind_eq_ok_iff, run_read_exact_iff, run_pure_iff]
  constructor
  · rintro ⟨bytes, _, ⟨rest, hincoming, rfl⟩, _, rfl⟩
    exact ⟨bytes, rest, hincoming, rfl⟩
  · rintro ⟨bytes, rest, hincoming, rfl⟩
    exact ⟨bytes, _, ⟨rest, hincoming, rfl⟩, trivial, rfl⟩

/-- An address of a fixed length and its port are skipped together. -/
theorem run_skip_of_split {len : Nat} (address : List.Vector UInt8 len)
    (port : List.Vector UInt8 2) {rest : Reader}
    (hincoming : stream.incoming = .of_bytes (address.toList ++ port.toList) ++ rest) :
    (do let _ ← read_exact (len + 2) : Exchange Unit).run.run stream =
      some (.ok result, { stream with incoming := rest }) :=
  run_skip_iff.mpr ⟨⟨address.toList ++ port.toList, by simp⟩, rest, hincoming, rfl⟩

/-- What is read is the rest of a bound address of the type. -/
theorem read_bound_address_iff {addr_type : UInt8} :
    (read_bound_address addr_type).run.run stream = some (.ok result, last) ↔
      ∃ bound rest, BoundAddress (addr_type :: bound) ∧
        stream.incoming = .of_bytes bound ++ rest ∧ last = { stream with incoming := rest } := by
  constructor
  · intro hrun
    rw [read_bound_address] at hrun
    split_ifs at hrun with hipv4 hipv6 hdomain
    · obtain ⟨bytes, rest, hincoming, rfl⟩ := run_skip_iff.mp hrun
      obtain ⟨octets, port, hbytes⟩ := split_port bytes
      exact ⟨_, rest, hipv4 ▸ .ipv4 octets port, hbytes ▸ hincoming, rfl⟩
    · obtain ⟨bytes, rest, hincoming, rfl⟩ := run_skip_iff.mp hrun
      obtain ⟨octets, port, hbytes⟩ := split_port bytes
      exact ⟨_, rest, hipv6 ▸ .ipv6 octets port, hbytes ▸ hincoming, rfl⟩
    · obtain ⟨len, _, hlen, hrun⟩ := run_bind_eq_ok_iff.mp hrun
      obtain ⟨middle, hincoming, rfl⟩ := run_read_exact_iff.mp hlen
      obtain ⟨bytes, rest, hmiddle, rfl⟩ := run_skip_iff.mp hrun
      obtain ⟨name, port, hbytes⟩ := split_port bytes
      refine ⟨len.head :: name.toList ++ port.toList, rest,
        hdomain ▸ BoundAddress.domain len.head name port, ?_, rfl⟩
      have hsingle : len.toList = [len.head] := by
        obtain ⟨byte, empty, rfl⟩ := len.exists_eq_cons
        rw [empty.eq_nil]
        rfl
      dsimp only at hmiddle
      rw [hincoming, hmiddle, hsingle, hbytes]
      rfl
    · exact absurd hrun run_throw_ne
  · rintro ⟨bound, rest, hbound, hincoming, rfl⟩
    cases hbound with
    | ipv4 octets port => exact run_skip_of_split octets port hincoming
    | ipv6 octets port => exact run_skip_of_split octets port hincoming
    | domain len name port =>
      refine run_bind_eq_ok_iff.mpr ⟨singleton len, _, run_read_exact_iff.mpr
        ⟨_, hincoming, rfl⟩, ?_⟩
      exact run_skip_of_split name port rfl

theorem negotiate_iff :
    negotiate.run.run stream = some (.ok result, last) ↔
      ∃ rest, stream.incoming = .of_bytes [VERSION, NOAUTH] ++ rest ∧
        last = { stream with
          incoming := rest
          sent := stream.sent ++ [VERSION, METHODS, NOAUTH] } := by
  simp only [negotiate, run_bind_eq_ok_iff, run_write_all_iff, run_read_exact_iff, run_check_iff,
    run_pure_iff]
  constructor
  · rintro ⟨_, _, rfl, resp_buf, _, ⟨rest, hincoming, rfl⟩, hversion, hmethod, _, rfl⟩
    refine ⟨rest, ?_, rfl⟩
    rw [hincoming, toList_two, not_not.mp hversion, not_not.mp hmethod]
  · rintro ⟨rest, hincoming, rfl⟩
    exact ⟨(), _, rfl, ⟨[VERSION, NOAUTH], rfl⟩, _, ⟨rest, hincoming, rfl⟩, not_not_intro rfl,
      not_not_intro rfl, trivial, rfl⟩

theorem read_reply_iff :
    read_reply.run.run stream = some (.ok result, last) ↔
      ∃ reserved bound rest, BoundAddress bound ∧
        stream.incoming = .of_bytes ([VERSION, RESPONSE_SUCCESS, reserved] ++ bound) ++ rest ∧
        last = { stream with incoming := rest } := by
  simp only [read_reply, run_bind_eq_ok_iff, run_read_exact_iff, run_check_iff,
    read_bound_address_iff]
  constructor
  · rintro ⟨resp_buf, _, ⟨middle, hincoming, rfl⟩, hversion, hsuccess, bound, rest, hbound, hmiddle,
      rfl⟩
    refine ⟨resp_buf.get 2, _, rest, hbound, ?_, rfl⟩
    dsimp only at hmiddle
    rw [hincoming, hmiddle, toList_four, not_not.mp hversion, not_not.mp hsuccess]
    rfl
  · rintro ⟨reserved, bound, rest, hbound, hincoming, rfl⟩
    obtain ⟨addr_type, tail, rfl⟩ : ∃ addr_type tail, bound = addr_type :: tail := by
      cases hbound <;> exact ⟨_, _, rfl⟩
    exact ⟨⟨[VERSION, RESPONSE_SUCCESS, reserved, addr_type], rfl⟩, _, ⟨_, hincoming, rfl⟩,
      not_not_intro rfl, not_not_intro rfl, tail, rest, hbound, rfl, rfl⟩

end

theorem exchange_iff {sha3_256 : List.Vector UInt8 48 → List.Vector UInt8 32}
    {addr : SocksDestination} {port : UInt16} {read_timeout : Duration}
    (htimeout : read_timeout ≠ .from_secs 0) {stream last : TcpStream} {result : Unit} :
    (exchange sha3_256 addr port read_timeout).run.run stream = some (.ok result, last) ↔
      ∃ dest_bytes reply rest, addr.encode sha3_256 = some dest_bytes ∧ SuccessReply reply ∧
        stream.incoming = .of_bytes reply ++ rest ∧
        last = {
          incoming := rest
          sent := stream.sent ++ [5, 1, 0] ++ [5, 1, 0, addr.TYPE_BYTE] ++ dest_bytes ++
            (to_be 2 port.toNat).toList
          read_timeout := some read_timeout
          write_timeout := none } := by
  simp only [exchange, run_bind_eq_ok_iff, run_set_read_timeout_iff, run_set_write_timeout_iff,
    negotiate_iff, send_request_iff, read_reply_iff]
  constructor
  · rintro ⟨_, _, ⟨_, rfl⟩, _, _, ⟨_, rfl⟩, _, _, ⟨middle, hincoming, rfl⟩, _, _,
      ⟨dest_bytes, hencode, rfl⟩, _, _, ⟨reserved, bound, rest, hbound, hmiddle, rfl⟩, _, _,
      ⟨_, rfl⟩, _, rfl⟩
    refine ⟨dest_bytes, _, rest, hencode, ⟨reserved, bound, hbound, rfl⟩, ?_, rfl⟩
    dsimp only at hincoming hmiddle
    rw [hincoming, hmiddle]
    rfl
  · rintro ⟨dest_bytes, _, rest, hencode, ⟨reserved, bound, hbound, rfl⟩, hincoming, rfl⟩
    exact ⟨(), _, ⟨by decide, rfl⟩, (), _, ⟨by decide, rfl⟩, (), _, ⟨_, hincoming, rfl⟩, (), _,
      ⟨dest_bytes, hencode, rfl⟩, (), _, ⟨reserved, bound, rest, hbound, rfl, rfl⟩, (), _,
      ⟨by simpa using htimeout, rfl⟩, by decide, rfl⟩

end Socks5Proxy

/-- The type and the bytes of a destination in a request. -/
inductive EncodedDestination (sha3_256 : List.Vector UInt8 48 → List.Vector UInt8 32) :
    SocksDestination → UInt8 → List UInt8 → Prop where
  | ipv4 (octets : List.Vector UInt8 4) :
      EncodedDestination sha3_256 (.Ipv4Addr octets) 1 octets.toList
  | ipv6 (octets : List.Vector UInt8 16) :
      EncodedDestination sha3_256 (.Ipv6Addr octets) 4 octets.toList
  | onion (ed25519 : List.Vector UInt8 32) (host : List.Vector UInt8 62)
      (hhost : pubkey_to_service sha3_256 ed25519 = some host) :
      EncodedDestination sha3_256 (.OnionAddress ed25519) 3
        (UInt8.ofNat host.toList.length :: host.toList)

theorem encode_spec (sha3_256 : List.Vector UInt8 48 → List.Vector UInt8 32)
    (addr : SocksDestination) :
    ∃ dest_bytes, addr.encode sha3_256 = some dest_bytes ∧
      EncodedDestination sha3_256 addr addr.TYPE_BYTE dest_bytes := by
  cases addr with
  | Ipv4Addr octets => exact ⟨_, rfl, .ipv4 octets⟩
  | Ipv6Addr octets => exact ⟨_, rfl, .ipv6 octets⟩
  | OnionAddress ed25519 =>
    obtain ⟨_, _, host, _, _, hhost, _⟩ := pubkey_to_service_spec sha3_256 ed25519
    refine ⟨_, ?_, .onion ed25519 host hhost⟩
    simp only [SocksDestination.encode, hhost, Option.bind_eq_bind, Option.bind_some,
      Option.pure_def, Option.some.injEq]
    simp [copy_from_slice, std.array.singleton]

/-- The client takes exactly the replies that report success, and reads nothing
    beyond them. What it sends is the greeting and the request. -/
theorem socks5_connect_iff (sha3_256 : List.Vector UInt8 48 → List.Vector UInt8 32)
    {connect_timeout : SocketAddr → Duration → Except std.io.Error TcpStream} {self : Socks5Proxy}
    {incoming : Reader}
    (hreached : connect_timeout self.proxy self.timeout = .ok (.new incoming))
    (addr : SocksDestination) (port : UInt16) {read_timeout : Duration}
    (htimeout : read_timeout ≠ .from_secs 0) :
    ∃ addr_type dest_bytes, EncodedDestination sha3_256 addr addr_type dest_bytes ∧
      ∀ tcp_stream,
        self.connect sha3_256 connect_timeout addr port read_timeout = some (.ok tcp_stream) ↔
          ∃ reply rest, SuccessReply reply ∧ incoming = .of_bytes reply ++ rest ∧
            tcp_stream = {
              incoming := rest
              sent := [5, 1, 0] ++ [5, 1, 0, addr_type] ++ dest_bytes ++
                (to_be 2 port.toNat).toList
              read_timeout := some read_timeout
              write_timeout := none } := by
  obtain ⟨dest_bytes, hencode, hencoded⟩ := encode_spec sha3_256 addr
  refine ⟨addr.TYPE_BYTE, dest_bytes, hencoded, fun tcp_stream => ?_⟩
  have hconnect : self.connect sha3_256 connect_timeout addr port read_timeout =
        some (.ok tcp_stream) ↔
      (Socks5Proxy.exchange sha3_256 addr port read_timeout).run.run (.new incoming) =
        some (.ok (), tcp_stream) := by
    rw [Socks5Proxy.connect, hreached]
    dsimp only
    rcases (Socks5Proxy.exchange sha3_256 addr port read_timeout).run.run (.new incoming) with
      _ | ⟨_ | _, last⟩ <;> simp [Except.map]
  rw [hconnect, Socks5Proxy.exchange_iff htimeout]
  constructor
  · rintro ⟨_, reply, rest, hbytes, hreply, hincoming, rfl⟩
    rw [hencode, Option.some.injEq] at hbytes
    exact ⟨reply, rest, hreply, hincoming, by rw [hbytes]; rfl⟩
  · rintro ⟨reply, rest, hreply, hincoming, rfl⟩
    exact ⟨dest_bytes, reply, rest, hencode, hreply, hincoming, rfl⟩

/-- A proxy on the local machine. -/
def local_proxy : Socks5Proxy :=
  .from_proxy_socket_addr ⟨.V4 (127 ::ᵥ 0 ::ᵥ 0 ::ᵥ 1 ::ᵥ .nil), 9050⟩

/-- It makes the connection, and the first byte of the peer follows its reply. -/
def local_proxy_replies (_ : SocketAddr) (_ : Duration) : Except std.io.Error TcpStream :=
  .ok (.new (.of_bytes [5, 0, 5, 0, 0, 1, 0, 0, 0, 0, 0, 0, 0xf9]))

theorem socks5_connect_iff_onion :
    ∃ tcp_stream : TcpStream,
      local_proxy.connect (fun _ => List.Vector.replicate 32 7) local_proxy_replies
        (.OnionAddress (List.Vector.replicate 32 1)) 8333 (.from_secs 60) = some (.ok tcp_stream) ∧
      tcp_stream.incoming = .of_bytes [0xf9] := by
  have hreached : local_proxy_replies local_proxy.proxy local_proxy.timeout =
      .ok (.new (.of_bytes [5, 0, 5, 0, 0, 1, 0, 0, 0, 0, 0, 0, 0xf9])) := rfl
  have htimeout : Duration.from_secs 60 ≠ .from_secs 0 := by decide
  obtain ⟨_, _, _, hconnect⟩ := socks5_connect_iff (fun _ => List.Vector.replicate 32 7) hreached
    (.OnionAddress (List.Vector.replicate 32 1)) 8333 htimeout
  have hreply : SuccessReply [5, 0, 5, 0, 0, 1, 0, 0, 0, 0, 0, 0] :=
    ⟨0, _, .ipv4 (List.Vector.replicate 4 0) (List.Vector.replicate 2 0), rfl⟩
  exact ⟨_, (hconnect _).mpr ⟨_, .of_bytes [0xf9], hreply, rfl, rfl⟩, rfl⟩

end net
