import KernelNode.Bitcoin.Types

namespace bitcoin

/-- A network address of BIP 155. -/
inductive AddrV2 where
  | Ipv4 (address : List.Vector UInt8 4)
  | Ipv6 (address : List.Vector UInt8 16)
  | TorV2 (key : List.Vector UInt8 10)
  | TorV3 (key : List.Vector UInt8 32)
  | I2p (key : List.Vector UInt8 32)
  | Cjdns (address : List.Vector UInt8 16)
  | Unknown (network : UInt8) (address : List UInt8)
deriving DecidableEq

structure AddrV2Message where
  time : UInt32
  services : UInt64
  addr : AddrV2
  port : UInt16
deriving DecidableEq

inductive Inventory where
  | Block (hash : BlockHash)
  | WitnessBlock (hash : BlockHash)
  /-- A transaction, a compact block or an unknown kind. -/
  | Other (inv_type : UInt32) (hash : List.Vector UInt8 32)
deriving DecidableEq

/-- The hash of a block that is announced without witness data. -/
def Inventory.block_hash : Inventory → Option BlockHash
  | .Block hash => some hash
  | _ => none

/-- The content of `GetHeadersMessage` and of `GetBlocksMessage`. -/
structure LocatorMessage where
  version : UInt32
  locator_hashes : List BlockHash
  stop_hash : BlockHash
deriving DecidableEq

def BlockHash.all_zeros : BlockHash := ⟨List.Vector.replicate 32 0⟩

/-- The first bytes of every message on a network. -/
structure Magic where
  bytes : List.Vector UInt8 4
deriving DecidableEq

def Magic.REGTEST : Magic := ⟨⟨[0xfa, 0xbf, 0xb5, 0xda], rfl⟩⟩

abbrev ServiceFlags := UInt64

def ServiceFlags.NONE : ServiceFlags := 0

def ServiceFlags.has (self flags : ServiceFlags) : Bool := self ||| flags = self

/-- The address of a peer in a version message. -/
structure Address where
  services : ServiceFlags
  address : List.Vector UInt16 8
  port : UInt16
deriving DecidableEq

structure VersionMessage where
  version : UInt32
  services : ServiceFlags
  timestamp : Int64
  receiver : Address
  sender : Address
  nonce : UInt64
  user_agent : String
  start_height : Int32
  relay : Bool
deriving DecidableEq

structure SendCmpct where
  send_compact : Bool
  version : UInt64
deriving DecidableEq

/-- The messages the node sends or reacts to. -/
inductive NetworkMessage where
  | Version (version : VersionMessage)
  | Verack
  | WtxidRelay
  | SendAddrV2
  | SendHeaders
  | SendCmpct (cmpct : SendCmpct)
  | FeeFilter (fee_filter : Int64)
  | GetAddr
  | Ping (nonce : UInt64)
  | Pong (nonce : UInt64)
  | Addr (payload : List (UInt32 × Address))
  | AddrV2 (payload : List AddrV2Message)
  | Headers (headers : List Header)
  | Inv (inventory : List Inventory)
  | Block (block : Block)
  | GetData (inventory : List Inventory)
  | GetHeaders (message : LocatorMessage)
  | GetBlocks (message : LocatorMessage)
  /-- Any other message, by its command and payload. -/
  | Other (command : String) (payload : List UInt8)
deriving DecidableEq

def NetworkMessage.command : NetworkMessage → String
  | .Version _ => "version"
  | .Verack => "verack"
  | .WtxidRelay => "wtxidrelay"
  | .SendAddrV2 => "sendaddrv2"
  | .SendHeaders => "sendheaders"
  | .SendCmpct _ => "sendcmpct"
  | .FeeFilter _ => "feefilter"
  | .GetAddr => "getaddr"
  | .Ping _ => "ping"
  | .Pong _ => "pong"
  | .Addr _ => "addr"
  | .AddrV2 _ => "addrv2"
  | .Headers _ => "headers"
  | .Inv _ => "inv"
  | .Block _ => "block"
  | .GetData _ => "getdata"
  | .GetHeaders _ => "getheaders"
  | .GetBlocks _ => "getblocks"
  | .Other command _ => command

/-- The blocks a message asks for. -/
def NetworkMessage.requested : NetworkMessage → List BlockHash
  | .GetData inventory => inventory.filterMap fun
    | .Block hash | .WitnessBlock hash => some hash
    | .Other _ _ => none
  | _ => []

end bitcoin
