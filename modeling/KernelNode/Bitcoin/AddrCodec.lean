import KernelNode.Bitcoin.Message

namespace bitcoin

namespace AddrV2

/-- The network id of BIP 155. -/
def network_id : AddrV2 → UInt8
  | .Ipv4 _ => 1
  | .Ipv6 _ => 2
  | .TorV2 _ => 3
  | .TorV3 _ => 4
  | .I2p _ => 5
  | .Cjdns _ => 6
  | .Unknown network _ => network

def bytes : AddrV2 → List UInt8
  | .Ipv4 octets => octets.toList
  | .Ipv6 octets => octets.toList
  | .TorV2 key => key.toList
  | .TorV3 key => key.toList
  | .I2p key => key.toList
  | .Cjdns octets => octets.toList
  | .Unknown _ address => address

def is_known : AddrV2 → Bool
  | .Unknown _ _ => false
  | _ => true

/-- The first bytes of an IPv4-mapped IPv6 address. -/
def MAPPED : List UInt8 := [0, 0, 0, 0, 0, 0, 0, 0, 0, 0, 0xff, 0xff]

/-- The first bytes of an IPv6 address that wraps an onion address. -/
def ONION : List UInt8 := [0xfd, 0x87, 0xd8, 0x7e, 0xeb, 0x43]

/-- An address that the decoder takes for its network: no other kind of address
    wrapped in IPv6, and the marker of CJDNS. -/
def is_accepted : AddrV2 → Bool
  | .Ipv6 octets => octets.toList.take 12 ≠ MAPPED && octets.toList.take 6 ≠ ONION
  | .Cjdns octets => octets.toList.take 1 = [0xfc]
  | _ => true

end AddrV2

/-- The consensus codec of an address. The decoder gives the address and the
    number of bytes read, or the text of its error. -/
structure AddrV2Codec where
  serialize : AddrV2 → List UInt8
  deserialize_partial : List UInt8 → Except String (AddrV2 × Nat)

/-- An address of a known network is written as its network id, its length and its
    bytes. -/
def AddrV2Codec.Writes (codecInst : AddrV2Codec) : Prop :=
  ∀ addr : AddrV2, addr.is_known →
    codecInst.serialize addr = addr.network_id :: UInt8.ofNat addr.bytes.length :: addr.bytes

/-- The codec of BIP 155 on the known networks. -/
structure AddrV2Codec.Bip155 (codecInst : AddrV2Codec) : Prop where
  writes : codecInst.Writes
  accepts : ∀ (addr : AddrV2) rest, addr.is_known → addr.is_accepted →
    codecInst.deserialize_partial (codecInst.serialize addr ++ rest) =
      .ok (addr, (codecInst.serialize addr).length)
  rejects : ∀ (addr : AddrV2) rest, addr.is_known → addr.is_accepted = false →
    ∃ e, codecInst.deserialize_partial (codecInst.serialize addr ++ rest) = .error e

/-- The address is read back from its bytes, whatever follows them. -/
def AddrV2Codec.RoundTrips (codecInst : AddrV2Codec) (addr : AddrV2) : Prop :=
  ∀ rest, codecInst.deserialize_partial (codecInst.serialize addr ++ rest) =
    .ok (addr, (codecInst.serialize addr).length)

/-- The decoder makes no address of a known network that it would not read back. -/
def AddrV2Codec.Stable (codecInst : AddrV2Codec) : Prop :=
  ∀ bytes addr len, codecInst.deserialize_partial bytes = .ok (addr, len) → addr.is_known →
    codecInst.RoundTrips addr

/-- An address of a fixed length, where that is the length announced and there
    are enough bytes. -/
def read_address (len : Nat) (announced : UInt8) (bytes : List UInt8)
    (of_bytes : List.Vector UInt8 len → AddrV2) : Except String (AddrV2 × Nat) :=
  if announced.toNat ≠ len then .error "invalid address length"
  else if h : (bytes.take len).length = len then .ok (of_bytes ⟨bytes.take len, h⟩, len + 2)
  else .error "unexpected end of file"

/-- The address after the network id and a length of one byte. -/
def read_network (network len : UInt8) (bytes : List UInt8) : Except String (AddrV2 × Nat) :=
  match network with
  | 1 => read_address 4 len bytes .Ipv4
  | 2 => read_address 16 len bytes .Ipv6
  | 3 => read_address 10 len bytes .TorV2
  | 4 => read_address 32 len bytes .TorV3
  | 5 => read_address 32 len bytes .I2p
  | 6 => read_address 16 len bytes .Cjdns
  | _ => if bytes.length < len.toNat then .error "unexpected end of file"
    else .ok (.Unknown network (bytes.take len.toNat), len.toNat + 2)

/-- The codec on addresses whose length takes one byte. -/
def bip155 : AddrV2Codec where
  serialize addr := addr.network_id :: UInt8.ofNat addr.bytes.length :: addr.bytes
  deserialize_partial
    | network :: len :: bytes =>
      match read_network network len bytes with
      | .error e => .error e
      | .ok (addr, read) =>
        if addr.is_accepted then .ok (addr, read) else .error "address of another network"
    | _ => .error "unexpected end of file"

theorem read_address_append {len : Nat} (hlen : len < 256) (bytes : List.Vector UInt8 len)
    (rest : List UInt8) (of_bytes : List.Vector UInt8 len → AddrV2) :
    read_address len (UInt8.ofNat len) (bytes.toList ++ rest) of_bytes =
      .ok (of_bytes bytes, len + 2) := by
  have htake : (bytes.toList ++ rest).take len = bytes.toList :=
    List.take_left' bytes.toList_length
  have hannounced : (UInt8.ofNat len).toNat = len := UInt8.toNat_ofNat_of_lt' hlen
  simp only [read_address, hannounced, htake, bytes.toList_length, ne_eq, not_true_eq_false,
    if_false, dite_true]
  rfl

theorem read_network_append {addr : AddrV2} (hknown : addr.is_known) (rest : List UInt8) :
    read_network addr.network_id (UInt8.ofNat addr.bytes.length) (addr.bytes ++ rest) =
      .ok (addr, addr.bytes.length + 2) := by
  cases addr with
  | Unknown network address => cases hknown
  | _ bytes =>
    simp only [AddrV2.bytes, List.Vector.toList_length]
    exact read_address_append (by decide) bytes rest _

/-- Every known address is read, and then checked. -/
theorem bip155_deserialize_short {addr : AddrV2} (hknown : addr.is_known) (rest : List UInt8) :
    bip155.deserialize_partial (bip155.serialize addr ++ rest) =
      if addr.is_accepted then .ok (addr, (bip155.serialize addr).length)
      else .error "address of another network" := by
  simp only [bip155, List.cons_append, read_network_append hknown, List.length_cons]

theorem bip155_lawful : bip155.Bip155 where
  writes _ _ := rfl
  accepts addr rest hknown haccepted := by
    rw [bip155_deserialize_short hknown rest, if_pos haccepted]
  rejects addr rest hknown hrejected := by
    rw [bip155_deserialize_short hknown rest, if_neg (by simp [hrejected])]
    exact ⟨_, rfl⟩

theorem bip155_stable : bip155.Stable := by
  intro bytes addr len hdecoded hknown
  have haccepted : addr.is_accepted := by
    rcases bytes with _ | ⟨network, _ | ⟨announced, bytes⟩⟩
    · cases hdecoded
    · cases hdecoded
    · simp only [bip155] at hdecoded
      cases hread : read_network network announced bytes with
      | error e => simp [hread] at hdecoded
      | ok found =>
        simp only [hread] at hdecoded
        split at hdecoded
        · rename_i haccepted
          cases hdecoded
          exact haccepted
        · cases hdecoded
  exact fun rest => bip155_lawful.accepts addr rest hknown haccepted

end bitcoin
