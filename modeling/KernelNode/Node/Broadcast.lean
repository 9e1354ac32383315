import KernelNode.Transition
import KernelNode.Wallet.Block
import KernelNode.Wallet.Sending

open bitcoin secp256k1 silentpayments std.collections transition wallet

namespace node

/-- The operations on 64-bit floats that the fee rates of a request go through. -/
structure FloatApi (F : Type) where
  is_finite : F → Bool
  /-- `x < 0.0`. -/
  is_negative : F → Bool
  /-- `(x * 250.0).ceil() as u64`. -/
  sat_per_kwu : F → UInt64

structure SendToAddressParams (F : Type) where
  address : String
  amount_sat : UInt64
  fee_rate_sat_per_vb : F
  consolidate_fee_rate_sat_per_vb : F

/-- An answer to a request: the result fields, or a failure with its text. -/
abbrev Response := Except String (Bool × String)

/-- Where a queued transaction comes from: the request that built it, by its
    number, or the outside. -/
inductive Origin where
  | sent (request : Nat)
  | raw
deriving DecidableEq

structure Queued where
  origin : Origin
  tx : Transaction
deriving DecidableEq

/-- The bounded channel to the broadcast thread, which has room for one
    transaction; `none` once the thread has ended. -/
abbrev Channel := Option (List Queued)

def try_send (channel : Channel) (queued : Queued) : Except String Channel :=
  match channel with
  | none => .error "sending on a closed channel"
  | some queue =>
    if queue.length < 1 then .ok (some (queue ++ [queued])) else .error "sending on a full channel"

/-- A fee rate of a request, rounded up to whole satoshis per thousand weight
    units so that it is never below what was asked. -/
def parse_fee_rate {F : Type} (floatInst : FloatApi F) (sat_per_vb : F) (message : String) :
    Except String FeeRate :=
  if !floatInst.is_finite sat_per_vb || floatInst.is_negative sat_per_vb then .error message
  else .ok ⟨floatInst.sat_per_kwu sat_per_vb⟩

section

variable {F : Type} (floatInst : FloatApi F) (secpInst : secp256k1.Api)
    (spInst : silentpayments.Api)
  (csInst : bdk_coin_select.Api) (btcInst : bitcoin.Api)

/-- The transaction that a `send_to_address` request builds. An error the user
    can act on is an answer, any other is a failure of the request. -/
def build_request (rng : Rng) (wallet : Wallet) (params : SendToAddressParams F) :
    Except Response Transaction :=
  match parse_fee_rate floatInst params.fee_rate_sat_per_vb
    "fee rate must be a non-negative number" with
  | .error message => .error (.error message)
  | .ok fee_rate =>
    match parse_fee_rate floatInst params.consolidate_fee_rate_sat_per_vb
      "consolidate fee rate must be a non-negative number" with
    | .error message => .error (.error message)
    | .ok long_term_fee_rate =>
      match (Recipient.parse spInst btcInst params.address wallet.network).bind fun recipient =>
        wallet.build_transaction secpInst spInst csInst btcInst rng recipient
          ⟨params.amount_sat⟩ fee_rate
          long_term_fee_rate with
      | .ok tx => .ok tx
      | .error e =>
        .error (if e.is_user_error then .ok (false, e.to_string) else .error e.to_string)

/-- A `send_to_address` request, which holds the wallet's lock from the build to
    the reservation: the answer, and the wallet, the channel and the transaction
    where one was queued. -/
def send_to_address (rng : Rng) (wallet : Wallet) (broadcast_tx : Channel) (request : Nat)
    (params : SendToAddressParams F) : Response × Option (Wallet × Channel × Transaction) :=
  match build_request floatInst secpInst spInst csInst btcInst rng wallet params with
  | .error response => (response, none)
  | .ok tx =>
    match try_send broadcast_tx ⟨.sent request, tx⟩ with
    | .error e => (.error ("broadcast unavailable: " ++ e), none)
    | .ok channel =>
      (.ok (true, "Successfully broadcast transaction " ++ btcInst.compute_txid_string tx),
        some (wallet.reserve_coins tx.outpoints, channel, tx))

/-- A `broadcast_raw_tx` request: the answer with the transaction id, and the
    channel. The wallet is not involved. -/
def broadcast_raw_tx (broadcast_tx : Channel) (raw : List UInt8) : Except String String × Channel :=
  match btcInst.consensus_decode raw with
  | .error e => (.error ("invalid transaction: " ++ e), broadcast_tx)
  | .ok tx =>
    match try_send broadcast_tx ⟨.raw, tx⟩ with
    | .error e => (.error ("broadcast unavailable: " ++ e), broadcast_tx)
    | .ok channel => (.ok (btcInst.compute_txid_string tx), channel)

end

/-- The wallet, the channel, the transaction that the broadcast thread is busy
    with, and the number of the next request. `live` are the transactions that
    requests have queued and whose own broadcast has not been reported failed. -/
structure BroadcastState where
  wallet : Wallet
  channel : Channel
  broadcasting : Option Queued
  request : Nat
  live : List (Nat × Transaction)

inductive BroadcastAction (F : Type) where
  | send_to_address (rng : Rng) (params : SendToAddressParams F)
  | broadcast_raw_tx (raw : List UInt8)
  | receive
  | succeed
  | fail
  | stop
  | scan_block (block : bitcoinkernel.Block) (spent_outputs : bitcoinkernel.BlockSpentOutputs)
      (block_height : UInt32)
  | process_disconnect (block : bitcoinkernel.Block)

/-- The transactions of a broadcast that has been reported failed are no longer
    live; one from the outside never was. -/
def Origin.retire (live : List (Nat × Transaction)) : Origin → List (Nat × Transaction)
  | .sent request => live.filter fun entry => entry.1 ≠ request
  | .raw => live

/-- The requests, the broadcast thread and the scan thread, one step each. The
    broadcast thread releases the inputs of every transaction that fails. -/
inductive BroadcastStep {F : Type} (floatInst : FloatApi F) (secpInst : secp256k1.Api)
    (spInst : silentpayments.Api) (csInst : bdk_coin_select.Api) (btcInst : bitcoin.Api) :
    BroadcastState → BroadcastAction F → BroadcastState → Prop where
  | send_queued {state : BroadcastState} {rng : Rng} {params : SendToAddressParams F}
      {response : Response} {wallet : Wallet} {channel : Channel} {tx : Transaction}
      (hsend : send_to_address floatInst secpInst spInst csInst btcInst rng state.wallet
        state.channel state.request params = (response, some (wallet, channel, tx))) :
      BroadcastStep floatInst secpInst spInst csInst btcInst state (.send_to_address rng params)
        { state with
          wallet
          channel
          request := state.request + 1
          live := state.live ++ [(state.request, tx)] }
  | send_refused {state : BroadcastState} {rng : Rng} {params : SendToAddressParams F}
      {response : Response}
      (hsend : send_to_address floatInst secpInst spInst csInst btcInst rng state.wallet
        state.channel state.request params = (response, none)) :
      BroadcastStep floatInst secpInst spInst csInst btcInst state
        (.send_to_address rng params) state
  | broadcast_raw_tx {state : BroadcastState} (raw : List UInt8) :
      BroadcastStep floatInst secpInst spInst csInst btcInst state (.broadcast_raw_tx raw)
        { state with channel := (broadcast_raw_tx btcInst state.channel raw).2 }
  | receive {state : BroadcastState} {queued : Queued} {rest : List Queued}
      (hidle : state.broadcasting = none) (hchannel : state.channel = some (queued :: rest)) :
      BroadcastStep floatInst secpInst spInst csInst btcInst state .receive
        { state with channel := some rest, broadcasting := some queued }
  | succeed {state : BroadcastState} {queued : Queued} (hbusy : state.broadcasting = some queued) :
      BroadcastStep floatInst secpInst spInst csInst btcInst state .succeed
        { state with broadcasting := none }
  | fail {state : BroadcastState} {queued : Queued} (hbusy : state.broadcasting = some queued) :
      BroadcastStep floatInst secpInst spInst csInst btcInst state .fail
        { state with
          broadcasting := none
          wallet := state.wallet.release_coins queued.tx.outpoints
          live := queued.origin.retire state.live }
  | stop {state : BroadcastState} (hidle : state.broadcasting = none) :
      BroadcastStep floatInst secpInst spInst csInst btcInst state .stop
        { state with channel := none }
  | scan_block {state : BroadcastState} {block : bitcoinkernel.Block}
      {spent_outputs : bitcoinkernel.BlockSpentOutputs} {block_height : UInt32}
      {wallet : Wallet} {count : Nat}
      (hscan : state.wallet.scan_block secpInst spInst block spent_outputs block_height =
        some (wallet, count)) :
      BroadcastStep floatInst secpInst spInst csInst btcInst state
        (.scan_block block spent_outputs block_height)
        { state with wallet }
  | process_disconnect {state : BroadcastState} {block : bitcoinkernel.Block} :
      BroadcastStep floatInst secpInst spInst csInst btcInst state (.process_disconnect block)
        { state with wallet := state.wallet.process_disconnect block }

/-- One process lifetime, from a wallet without reservations. -/
def broadcast_system {F : Type} (floatInst : FloatApi F) (secpInst : secp256k1.Api)
    (spInst : silentpayments.Api) (csInst : bdk_coin_select.Api) (btcInst : bitcoin.Api) :
    System BroadcastState (BroadcastAction F) where
  init state := state.wallet.reserved = ∅ ∧ state.channel = some [] ∧ state.broadcasting = none ∧
    state.live = []
  step := BroadcastStep floatInst secpInst spInst csInst btcInst

/-- A failed transaction from the outside spends no coin that is reserved. -/
def RawSpendsNoReserved {F : Type} (state : BroadcastState) : BroadcastAction F → Prop
  | .fail =>
    ∀ tx, state.broadcasting = some ⟨.raw, tx⟩ → ∀ outpoint ∈ tx.outpoints,
    outpoint ∉ state.wallet.reserved
  | _ => True

end node
