import Mathlib.Algebra.Group.Nat.Defs
import Mathlib.Data.Vector.Defs

namespace bitcoin

/-- The double SHA-256 of a transaction, as the bytes it is transmitted in. -/
structure Txid where
  bytes : List.Vector UInt8 32
deriving DecidableEq

/-- The double SHA-256 of a block header, as the bytes it is transmitted in. -/
structure BlockHash where
  bytes : List.Vector UInt8 32
deriving DecidableEq

structure OutPoint where
  txid : Txid
  vout : UInt32
deriving DecidableEq

/-- The outpoint a coinbase input carries instead of a spent output. -/
def OutPoint.null : OutPoint where
  txid := ⟨List.Vector.replicate 32 0⟩
  vout := 0xffffffff

/-- A number of satoshis, in the order of the numbers. -/
structure Amount where
  sat : UInt64
deriving DecidableEq

abbrev ScriptBuf := List UInt8

/-- A block header by what the node reads of it: its own hash and its parent's.
    The hash function itself is not modelled, so a header carries its hash. -/
structure Header where
  block_hash : BlockHash
  prev_blockhash : BlockHash
deriving DecidableEq

end bitcoin

namespace bitcoinkernel

open bitcoin

structure TxIn where
  outpoint : OutPoint
  script_sig : List UInt8
  witness_stack : List (List UInt8)
deriving DecidableEq

structure TxOut where
  value : Int64
  script_pubkey : List UInt8
deriving DecidableEq

/-- A transaction with its txid. The deserializer bounds the number of outputs
    far below `2 ^ 32`, so that every output has its own 32-bit index and none
    has the index of the null outpoint. -/
structure Transaction where
  txid : Txid
  inputs : List TxIn
  outputs : List TxOut
  outputs_indexed : outputs.length < 2 ^ 32
deriving DecidableEq

structure Block where
  header : Header
  transactions : List Transaction
deriving DecidableEq

def Block.hash (self : Block) : BlockHash :=
  self.header.block_hash

def Block.txids (self : Block) : List Txid :=
  self.transactions.map Transaction.txid

/-- The outputs one transaction spends, one per input. -/
structure TransactionSpentOutputs where
  coins : List TxOut
deriving DecidableEq

/-- The undo data of a block: one entry per transaction after the coinbase. -/
structure BlockSpentOutputs where
  transactions : List TransactionSpentOutputs
deriving DecidableEq

def TransactionSpentOutputs.coin (self : TransactionSpentOutputs) (index : Nat) : Option TxOut :=
  self.coins[index]?

end bitcoinkernel

namespace bitcoin

structure TxIn where
  previous_output : OutPoint
  script_sig : ScriptBuf
  sequence : UInt32
  witness : List (List UInt8)
deriving DecidableEq

structure TxOut where
  value : Amount
  script_pubkey : ScriptBuf
deriving DecidableEq

/-- A transaction that the wallet builds or that a block from the network holds. -/
structure Transaction where
  version : Int32
  lock_time : UInt32
  input : List TxIn
  output : List TxOut
deriving DecidableEq

def Transaction.outpoints (self : Transaction) : List OutPoint :=
  self.input.map TxIn.previous_output

/-- A fee rate in satoshis per thousand weight units. -/
structure FeeRate where
  sat_per_kwu : UInt64
deriving DecidableEq

/-- `LockTime::from_height`, refused from the number on where lock times are
    dates. -/
def lock_time_from_height (height : UInt32) : Option UInt32 :=
  if height < 500000000 then some height else none

/-- A block as it arrives from the network. -/
structure Block where
  header : Header
  txdata : List Transaction
deriving DecidableEq

def Block.block_hash (self : Block) : BlockHash :=
  self.header.block_hash

/-- The transaction as the kernel reads it, with its txid. -/
def Transaction.read_by_kernel (self : Transaction) (txid : Txid)
    (h : self.output.length < 2 ^ 32) : bitcoinkernel.Transaction where
  txid
  inputs := self.input.map fun txin => ⟨txin.previous_output, txin.script_sig, txin.witness⟩
  outputs := self.output.map fun out => ⟨out.value.sat.toInt64, out.script_pubkey⟩
  outputs_indexed := by rwa [List.length_map]

end bitcoin
