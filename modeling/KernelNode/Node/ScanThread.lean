import KernelNode.Transition
import KernelNode.Wallet.Ledger
import KernelNode.Wallet.Store

open bitcoin secp256k1 silentpayments std.collections transition wallet wallet.wallet_store

namespace node

/-- What the scan thread reads of the kernel's block tree, by block hash: the
    height of an entry and the block's undo data. -/
structure BlockIndex where
  get_block_tree_entry : BlockHash → Option UInt32
  read_spent_outputs : BlockHash → Except String bitcoinkernel.BlockSpentOutputs

/-- The kernel knows a block it has connected, with its height and undo data. -/
def BlockIndex.Knows (self : BlockIndex) (next : ChainBlock) : Prop :=
  self.get_block_tree_entry next.block.hash = some next.block_height ∧
    self.read_spent_outputs next.block.hash = .ok next.spent_outputs

inductive ScanEvent where
  | Connected (block : bitcoinkernel.Block) (block_hash : BlockHash)
  | Disconnected (block : bitcoinkernel.Block) (block_height : UInt32)

/-- Save after an event, with whether the file system takes the file. Where the
    wallet cannot be encoded or the file cannot be written, the old file stays and
    a shutdown is requested; a panic is `none`. -/
def save_scanned (wallet : Wallet) (file : Option (List UInt8)) (written : Bool) :
    Option (Wallet × Option (List UInt8)) :=
  match wallet_to_bytes wallet with
  | some (.ok bytes) => some (wallet, if written then some bytes else file)
  | some (.error _) => some (wallet, file)
  | none => none

/-- The body of the scan thread's loop for one received event. A block that the
    tree does not have, or whose undo data cannot be read, is skipped with a
    request to shut down. -/
def handle_event (secpInst : secp256k1.Api) (spInst : silentpayments.Api)
    (chainman_for_scan : BlockIndex) (wallet : Wallet) (file : Option (List UInt8))
    (written : Bool) : ScanEvent → Option (Wallet × Option (List UInt8))
  | .Connected block block_hash =>
    match chainman_for_scan.get_block_tree_entry block_hash with
    | none => some (wallet, file)
    | some block_height =>
      match chainman_for_scan.read_spent_outputs block_hash with
      | .error _ => some (wallet, file)
      | .ok spent_outputs => do
        let (wallet, _) ← wallet.scan_block secpInst spInst block spent_outputs block_height
        save_scanned wallet file written
  | .Disconnected block _ => save_scanned (wallet.process_disconnect block) file written

/-- The wallet of `main`: loaded where there is a file, new otherwise. A file
    that cannot be loaded ends the process, here `none`. -/
def initial_wallet (wallet_store : WalletStore) (file : Option (List UInt8)) : Option Wallet :=
  match file with
  | some bytes =>
    match wallet_store.load bytes with
    | .ok loaded => some loaded
    | .error _ => none
  | none => some (Wallet.new wallet_store.network)

/-- Import the keys file at startup; a failure is a panic, here `none`. -/
def auto_import_keys (secpInst : secp256k1.Api) (spInst : silentpayments.Api) (wallet : Wallet)
    (file : SilentPaymentKeysFile) : Option Wallet :=
  let result := match file.spend_key with
    | .Secret spend_secret => wallet.import_signing_keys secpInst spInst file.scan_key spend_secret
    | .XOnlyPublic spend_xonly => wallet.import_keys secpInst spInst file.scan_key spend_xonly
  match result with
  | .ok imported => some imported
  | .error _ => none

/-- Where the scan thread is: about to test the running flag, waiting for an
    event, or ended, which drops the receiving end of the channel. -/
inductive ScanThread where
  | loop_head
  | receiving
  | stopped
deriving DecidableEq

/-- The kernel's active chain is `below ++ connected`, where `connected` are the
    blocks connected during the run. It survives a restart, as the wallet file
    does; the rest belongs to the process. -/
structure State where
  below : List ChainBlock
  connected : List ChainBlock
  file : Option (List UInt8)
  up : Bool
  running : Bool
  scan_thread : ScanThread
  channel : List ScanEvent
  wallet : Wallet

/-- The channel after a send, which fails once the receiver is gone. -/
def State.send (self : State) (event : ScanEvent) : List ScanEvent :=
  if self.scan_thread = .stopped then self.channel else self.channel ++ [event]

theorem State.send_eq {self : State} (hthread : self.scan_thread ≠ .stopped) (event : ScanEvent) :
    self.send event = self.channel ++ [event] :=
  if_neg hthread

inductive Action where
  | connect (next : ChainBlock)
  | disconnect (tip : ChainBlock)
  | check_running
  | receive (written : Bool)
  | timeout
  | shutdown
  | exit
  | restart

/-- The steps of the kernel's callbacks, the scan thread, the main thread and
    the operator. The blocks of the kernel keep being connected and disconnected
    until the process exits. A panic has no next state. -/
inductive Step (secpInst : secp256k1.Api) (spInst : silentpayments.Api) (index : BlockIndex)
    (wallet_store : WalletStore) (keys_file : SilentPaymentKeysFile) : State → Action →
      State → Prop where
  | connect {state : State} {next : ChainBlock} (hup : state.up) (hknown : index.Knows next)
      (hvalid : bitcoinkernel.Consensus
        ((state.below ++ (state.connected ++ [next])).map ChainBlock.block)) :
      Step secpInst spInst index wallet_store keys_file state (.connect next)
        { state with
          connected := state.connected ++ [next]
          channel := if state.wallet.keys.isNone then state.channel
            else state.send (.Connected next.block next.block.hash) }
  | disconnect {state : State} {connected : List ChainBlock} {tip : ChainBlock} (hup : state.up)
      (htip : state.connected = connected ++ [tip]) :
      Step secpInst spInst index wallet_store keys_file state (.disconnect tip)
        { state with connected, channel := state.send (.Disconnected tip.block tip.block_height) }
  | disconnect_below {state : State} {below : List ChainBlock} {tip : ChainBlock} (hup : state.up)
      (hconnected : state.connected = []) (htip : state.below = below ++ [tip]) :
      Step secpInst spInst index wallet_store keys_file state (.disconnect tip)
        { state with below, channel := state.send (.Disconnected tip.block tip.block_height) }
  | keep_running {state : State} (hup : state.up) (hthread : state.scan_thread = .loop_head)
      (hflag : state.running) :
      Step secpInst spInst index wallet_store keys_file state .check_running { state with
        scan_thread := .receiving }
  | stop_running {state : State} (hup : state.up) (hthread : state.scan_thread = .loop_head)
      (hflag : state.running = false) :
      Step secpInst spInst index wallet_store keys_file state .check_running
        { state with scan_thread := .stopped, channel := [] }
  | receive {state : State} {event : ScanEvent} {rest : List ScanEvent} {wallet : Wallet}
      {file : Option (List UInt8)} {written : Bool} (hup : state.up)
      (hthread : state.scan_thread = .receiving)
      (hchannel : state.channel = event :: rest)
      (hevent : handle_event secpInst spInst index state.wallet state.file written event =
        some (wallet, file)) :
      Step secpInst spInst index wallet_store keys_file state (.receive written)
        { state with scan_thread := .loop_head, channel := rest, wallet, file }
  | timeout {state : State} (hup : state.up) (hthread : state.scan_thread = .receiving)
      (hchannel : state.channel = []) :
      Step secpInst spInst index wallet_store keys_file state .timeout { state with
        scan_thread := .loop_head }
  | shutdown {state : State} (hup : state.up) :
      Step secpInst spInst index wallet_store keys_file state .shutdown { state with
        running := false }
  | exit {state : State} (hup : state.up) (hthread : state.scan_thread = .stopped) :
      Step secpInst spInst index wallet_store keys_file state .exit { state with up := false }
  | restart {state : State} {loaded wallet : Wallet} (hdown : state.up = false)
      (hloaded : initial_wallet wallet_store state.file = some loaded)
      (himported : auto_import_keys secpInst spInst loaded keys_file = some wallet) :
      Step secpInst spInst index wallet_store keys_file state .restart
        { state with up := true, running := true, scan_thread := .loop_head, channel := [], wallet }

end node
