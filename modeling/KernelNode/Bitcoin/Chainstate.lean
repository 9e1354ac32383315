import Mathlib.Data.List.Nodup
import KernelNode.Bitcoin.Regtest

open bitcoin

namespace bitcoinkernel

/-- An entry of the block tree with its ancestors: its hash first, then its
    parent's and so on down to the genesis block. Heights are 32-bit. -/
structure BlockTreeEntry where
  hashes : List BlockHash
  ne_nil : hashes ≠ []
  nodup : hashes.Nodup
  length_le : hashes.length ≤ 2 ^ 31

namespace BlockTreeEntry

def block_hash (self : BlockTreeEntry) : BlockHash :=
  self.hashes.head self.ne_nil

def height (self : BlockTreeEntry) : Int32 :=
  Int32.ofNat (self.hashes.length - 1)

/-- The hash of the ancestor at a height, `none` outside the chain. -/
def ancestor (self : BlockTreeEntry) (height : Int32) : Option BlockHash :=
  if height < 0 then none else self.hashes.reverse[height.toNatClampNeg]?

end BlockTreeEntry

inductive ProcessBlockHeaderResult where
  | Valid
  | Invalid
deriving DecidableEq

/-- The kernel as the node calls it: its chainstate manager, with its state passed
    along, and its decoding of blocks. The active chain is known by the hashes of
    its blocks. -/
structure ChainstateManager (C : Type) where
  /-- The result and the state after it; an error of the call is `none`. -/
  process_block_header : C → Header → Option ProcessBlockHeaderResult × C
  /-- The node ignores the result. -/
  process_block : C → Block → C
  get_block_tree_entry : C → BlockHash → Option BlockTreeEntry
  active_contains : C → BlockHash → Bool
  active_tip : C → BlockTreeEntry
  /-- The entry of the most-work header chain. -/
  best_entry : C → Option BlockTreeEntry
  /-- `Block::try_from` on the serialization of a block; an error is `none`. -/
  block_try_from : bitcoin.Block → Option Block
  /-- What is decoded has the header that was serialized. -/
  block_try_from_header : ∀ {block decoded}, block_try_from block = some decoded →
    decoded.header = block.header

end bitcoinkernel

namespace bitcoin

variable {C : Type} {kernelInst : bitcoinkernel.ChainstateManager C}

/-- The kernel's block with the same serialization. Where the kernel does not
    decode it the `unwrap` panics, here `none`. -/
def Block.convert (kernelInst : bitcoinkernel.ChainstateManager C) (self : Block) :
    Option bitcoinkernel.Block :=
  kernelInst.block_try_from self

theorem Block.convert_header {self : Block} {converted : bitcoinkernel.Block}
    (hconvert : self.convert kernelInst = some converted) : converted.header = self.header :=
  kernelInst.block_try_from_header hconvert

theorem Block.convert_hash {self : Block} {converted : bitcoinkernel.Block}
    (hconvert : self.convert kernelInst = some converted) : converted.hash = self.block_hash :=
  congrArg Header.block_hash (Block.convert_header hconvert)

end bitcoin

namespace regtest

open bitcoinkernel

/-- An entry on top of another one. -/
def child (parent : BlockTreeEntry) (hash : BlockHash) : Option BlockTreeEntry :=
  if h : hash ∉ parent.hashes ∧ parent.hashes.length < 2 ^ 31 then
    some ⟨hash :: parent.hashes, List.cons_ne_nil _ _, List.nodup_cons.mpr ⟨h.1, parent.nodup⟩, h.2⟩
  else none

def genesis : BlockTreeEntry :=
    ⟨[block_hash 0], List.cons_ne_nil _ _, List.nodup_singleton _, by decide⟩

/-- The block tree, its newest entry first, and the blocks processed. -/
structure Chainstate where
  entries : List BlockTreeEntry
  processed : List BlockHash

def Chainstate.find (self : Chainstate) (hash : BlockHash) : Option BlockTreeEntry :=
  self.entries.find? fun entry => entry.block_hash = hash

/-- The kernel's decoding of a transaction. One without inputs is serialized with
    a witness, which the kernel refuses as superfluous. The coinbase transactions
    of the blocks below all have one txid. -/
def decode_transaction (tx : bitcoin.Transaction) : Option bitcoinkernel.Transaction :=
  if h : tx.input ≠ [] ∧ tx.output.length < 2 ^ 32 then
    some (tx.read_by_kernel (txid 0xcb) h.2)
  else none

def decode_block (block : bitcoin.Block) : Option bitcoinkernel.Block :=
  (block.txdata.mapM decode_transaction).map fun transactions =>
    { header := block.header, transactions }

/-- The kernel on a single branch: it accepts a header on top of a known one,
    and a processed block is on the active chain. -/
def kernel : ChainstateManager Chainstate where
  process_block_header chainman header :=
    match chainman.find header.block_hash with
    | some _ => (some .Valid, chainman)
    | none =>
      match (chainman.find header.prev_blockhash).bind fun parent =>
        child parent header.block_hash with
      | some entry => (some .Valid, { chainman with entries := entry :: chainman.entries })
      | none => (some .Invalid, chainman)
  process_block chainman block := { chainman with processed := block.hash :: chainman.processed }
  get_block_tree_entry chainman hash := chainman.find hash
  active_contains chainman hash := hash ∈ chainman.processed
  active_tip chainman :=
    (chainman.entries.find? fun entry => entry.block_hash ∈ chainman.processed).getD genesis
  best_entry chainman := chainman.entries.head?
  block_try_from := decode_block
  block_try_from_header hdecoded := by
    obtain ⟨_, _, rfl⟩ := Option.map_eq_some_iff.mp hdecoded
    rfl

def chainstate : Chainstate := ⟨[genesis], [block_hash 0]⟩

end regtest
