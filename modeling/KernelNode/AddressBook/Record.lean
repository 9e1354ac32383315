import KernelNode.Bitcoin.Message
import KernelNode.Collections.Bytes
import KernelNode.Collections.System

open bitcoin std.array std.bytes std.hash std.net std.time

namespace address_book

structure SourceId where
  bytes : List.Vector UInt8 4
deriving DecidableEq

structure DestinationId where
  bytes : List.Vector UInt8 4
deriving DecidableEq

/-- `hash.to_le_bytes()[..4]`. -/
def first_four (hash : UInt64) : List.Vector UInt8 4 :=
  slice (to_le 8 hash.toNat) 0 4 (by decide)

/-- The group of a peer's address: the hash of its first two octets, or of its
    first four for IPv6. -/
def source_id (hasherInst : DefaultHasher) : IpAddr → SourceId
  | .V4 octets => ⟨first_four (hasherInst.hash_bytes (octets.toList.take 2))⟩
  | .V6 octets => ⟨first_four (hasherInst.hash_bytes (octets.toList.take 4))⟩

/-- Addresses without a kind of their own share one id. -/
def destination_id (hasherInst : DefaultHasher) : AddrV2 → DestinationId
  | .Ipv4 octets => ⟨first_four (hasherInst.hash_bytes octets.toList)⟩
  | .Ipv6 octets => ⟨first_four (hasherInst.hash_bytes octets.toList)⟩
  | .I2p key => ⟨first_four (hasherInst.hash_bytes key.toList)⟩
  | .TorV3 key => ⟨first_four (hasherInst.hash_bytes key.toList)⟩
  | .Cjdns octets => ⟨first_four (hasherInst.hash_bytes octets.toList)⟩
  | _ => ⟨first_four (hasherInst.hash_str "unknown network address")⟩

/-- A record of a potential peer. -/
structure Record where
  addr : AddrV2
  port : UInt16
  source : SourceId
  services : UInt64
  failed_attempts : UInt8
  last_connection : Option Duration
  last_attempt : Option Duration
deriving DecidableEq

namespace Record

/-- A record that has not been tried yet. -/
def untried (addr : AddrV2) (port : UInt16) (services : UInt64) (source : SourceId) : Record where
  addr
  port
  source
  services
  failed_attempts := 0
  last_connection := none
  last_attempt := none

def new (hasherInst : DefaultHasher) (addr : AddrV2) (port : UInt16) (services : UInt64)
    (source : IpAddr) : Record :=
  untried addr port services (source_id hasherInst source)

/-- All the mixnets go in the same source. -/
def new_from_addrv2_source (hasherInst : DefaultHasher) (addr : AddrV2) (port : UInt16)
    (services : UInt64) (source : AddrV2) : Record :=
  let source := match source with
    | .Ipv4 ip => source_id hasherInst (.V4 ip)
    | .Ipv6 ip => source_id hasherInst (.V6 ip)
    | _ => ⟨List.Vector.replicate 4 1⟩
  untried addr port services source

def network_addr (self : Record) : AddrV2 × UInt16 := (self.addr, self.port)

def is_serializable (self : Record) : Bool :=
  match self.addr with
  | .Unknown _ _ => false
  | _ => true

/-- The occupant of a slot after a connection to it has been reported. The two
    times are read one after the other; the service flags are the reported ones. -/
def connected (self : Record) (services : UInt64) (attempt connection : Duration) : Record :=
  { self with
    last_attempt := some attempt
    last_connection := some connection
    failed_attempts := 0
    services }

def saturating_add_one (count : UInt8) : UInt8 := if count = 255 then 255 else count + 1

/-- The occupant of a slot after a failed attempt has been reported. -/
def failed (self : Record) (now : Duration) : Record :=
  { self with
    last_attempt := some now
    failed_attempts := saturating_add_one self.failed_attempts }

end Record

end address_book
