import KernelNode.Node.Broadcast

open bitcoin secp256k1 silentpayments std.collections transition wallet

namespace node

/-- A queued transaction with the request that built it. -/
def Queued.sent? (self : Queued) : Option (Nat × Transaction) :=
  match self.origin with
  | .sent request => some (request, self.tx)
  | .raw => none

/-- The transactions of requests that are on their way to the peers, in the
    order they will be sent. -/
def BroadcastState.pipeline (self : BroadcastState) : List (Nat × Transaction) :=
  (self.broadcasting.toList ++ self.channel.getD []).filterMap Queued.sent?

/-- The inputs of every live transaction are reserved and no two live
    transactions share one. -/
structure ReservationInvariant (state : BroadcastState) : Prop where
  reserved : ∀ entry ∈ state.live, ∀ outpoint ∈ entry.2.outpoints, outpoint ∈ state.wallet.reserved
  disjoint : ∀ first ∈ state.live, ∀ second ∈ state.live, first.1 ≠ second.1 →
    first.2.outpoints.Disjoint second.2.outpoints
  numbered : ∀ entry ∈ state.live, entry.1 < state.request
  queued : state.pipeline ⊆ state.live
  once : (state.pipeline.map Prod.fst).Nodup

theorem try_send_eq_ok {channel after : Channel} {queued : Queued}
    (hsend : try_send channel queued = .ok after) :
    after.getD [] = channel.getD [] ++ [queued] := by
  cases channel with
  | none => cases hsend
  | some queue =>
    simp only [try_send] at hsend
    split at hsend
    · cases hsend
      rfl
    · cases hsend

section

variable {F : Type} {floatInst : FloatApi F} {secpInst : secp256k1.Api}
    {spInst : silentpayments.Api}
  {csInst : bdk_coin_select.Api} {btcInst : bitcoin.Api}

theorem build_request_outpoints {rng : Rng} {wallet : Wallet} {params : SendToAddressParams F}
    {tx : Transaction}
    (hbuild : build_request floatInst secpInst spInst csInst btcInst rng wallet params = .ok tx)
    {outpoint : OutPoint} (houtpoint : outpoint ∈ tx.outpoints) : outpoint ∉ wallet.reserved := by
  simp only [build_request] at hbuild
  split at hbuild
  · cases hbuild
  · split at hbuild
    · cases hbuild
    · split at hbuild
      · rename_i hok
        cases hbuild
        obtain ⟨recipient, _, htx⟩ := std.result.bind_eq_ok_iff.mp hok
        exact (Wallet.build_transaction_outpoints htx houtpoint).2
      · cases hbuild

theorem send_to_address_eq_some {rng : Rng} {wallet after : Wallet} {channel channel' : Channel}
    {request : Nat} {params : SendToAddressParams F} {response : Response} {tx : Transaction}
    (hsend : send_to_address floatInst secpInst spInst csInst btcInst rng wallet channel
      request params =
      (response, some (after, channel', tx))) :
    build_request floatInst secpInst spInst csInst btcInst rng wallet params = .ok tx ∧
      try_send channel ⟨.sent request, tx⟩ = .ok channel' ∧
        after = wallet.reserve_coins tx.outpoints := by
  simp only [send_to_address] at hsend
  split at hsend
  · cases hsend
  · rename_i hbuild
    split at hsend
    · cases hsend
    · rename_i hqueue
      cases hsend
      exact ⟨hbuild, hqueue, rfl⟩

/-- A step that keeps the live transactions and the reservations and at most
    drops transactions from the pipeline keeps the invariant. -/
theorem ReservationInvariant.of_sublist {state after : BroadcastState}
    (hinv : ReservationInvariant state) (hlive : after.live = state.live)
    (hreserved : after.wallet.reserved = state.wallet.reserved)
    (hrequest : after.request = state.request) (hpipeline : after.pipeline.Sublist state.pipeline) :
    ReservationInvariant after := by
  obtain ⟨reserved, disjoint, numbered, queued, once⟩ := hinv
  refine ⟨?_, ?_, ?_, ?_, once.sublist (hpipeline.map _)⟩
  · rwa [hlive, hreserved]
  · rwa [hlive]
  · rwa [hlive, hrequest]
  · rw [hlive]
    exact fun entry hentry => queued (hpipeline.subset hentry)

/-- A transaction from the outside does not enter the pipeline. -/
theorem broadcast_raw_tx_pipeline (btcInst : bitcoin.Api) (state : BroadcastState)
    (raw : List UInt8) :
    { state with channel := (broadcast_raw_tx btcInst state.channel raw).2 }.pipeline =
      state.pipeline := by
  simp only [broadcast_raw_tx]
  split
  · rfl
  · split
    · rfl
    · rename_i channel hsend
      simp [BroadcastState.pipeline, try_send_eq_ok hsend, Queued.sent?]

theorem ReservationInvariant.send {state : BroadcastState} {tx : Transaction} {channel : Channel}
    (hinv : ReservationInvariant state)
    (hfree : ∀ outpoint ∈ tx.outpoints, outpoint ∉ state.wallet.reserved)
    (hsend : try_send state.channel ⟨.sent state.request, tx⟩ = .ok channel) :
    ReservationInvariant { state with
      wallet := state.wallet.reserve_coins tx.outpoints
      channel
      request := state.request + 1
      live := state.live ++ [(state.request, tx)] } := by
  obtain ⟨reserved, disjoint, numbered, queued, once⟩ := hinv
  have hpipeline : (state.broadcasting.toList ++ channel.getD []).filterMap Queued.sent? =
      state.pipeline ++ [(state.request, tx)] := by
    simp [try_send_eq_ok hsend, BroadcastState.pipeline, Queued.sent?]
  have hnew : ∀ entry ∈ state.live, entry.2.outpoints.Disjoint tx.outpoints :=
    fun entry hentry outpoint hold hnew => hfree outpoint hnew (reserved entry hentry outpoint hold)
  refine ⟨?_, ?_, ?_, ?_, ?_⟩
  · intro entry hentry outpoint houtpoint
    rw [Wallet.mem_reserve_coins]
    rcases List.mem_append.mp hentry with hentry | hentry
    · exact .inr (reserved entry hentry outpoint houtpoint)
    · obtain rfl := List.mem_singleton.mp hentry
      exact .inl houtpoint
  · intro first hfirst second hsecond hne
    rcases List.mem_append.mp hfirst with hfirst | hfirst <;> rcases List.mem_append.mp hsecond with
      hsecond | hsecond
    · exact disjoint first hfirst second hsecond hne
    · obtain rfl := List.mem_singleton.mp hsecond
      exact hnew first hfirst
    · obtain rfl := List.mem_singleton.mp hfirst
      exact List.disjoint_comm.mp (hnew second hsecond)
    · obtain rfl := List.mem_singleton.mp hfirst
      obtain rfl := List.mem_singleton.mp hsecond
      exact absurd rfl hne
  · intro entry hentry
    rcases List.mem_append.mp hentry with hentry | hentry
    · exact Nat.lt_succ_of_lt (numbered entry hentry)
    · obtain rfl := List.mem_singleton.mp hentry
      exact Nat.lt_succ_self _
  · simp only [BroadcastState.pipeline, hpipeline]
    exact List.append_subset.mpr ⟨fun _ hentry => List.mem_append_left _ (queued hentry),
      List.subset_append_right _ _⟩
  · simp only [BroadcastState.pipeline, hpipeline]
    rw [List.map_append]
    refine List.nodup_append'.mpr ⟨once, List.nodup_singleton _, ?_⟩
    intro request hrequest hlast
    obtain rfl := List.mem_singleton.mp hlast
    obtain ⟨entry, hentry, hnumber⟩ := List.mem_map.mp hrequest
    exact (numbered entry (queued hentry)).ne hnumber

theorem Origin.mem_retire_sent {live : List (Nat × Transaction)} {request : Nat}
    {entry : Nat × Transaction} :
    entry ∈ Origin.retire live (.sent request) ↔ entry ∈ live ∧ entry.1 ≠ request := by
  simp [Origin.retire]

/-- Releasing the inputs of a failed transaction leaves those of the other live
    transactions reserved. -/
theorem ReservationInvariant.fail {state : BroadcastState} {failed : Queued}
    (hinv : ReservationInvariant state) (hbusy : state.broadcasting = some failed)
    (hraw : failed.origin = .raw → ∀ outpoint ∈ failed.tx.outpoints,
      outpoint ∉ state.wallet.reserved) :
    ReservationInvariant { state with
      broadcasting := none
      wallet := state.wallet.release_coins failed.tx.outpoints
      live := failed.origin.retire state.live } := by
  obtain ⟨reserved, disjoint, numbered, queued, once⟩ := hinv
  obtain ⟨origin, tx⟩ := failed
  cases origin with
  | raw =>
    have hpipeline : state.pipeline = (state.channel.getD []).filterMap Queued.sent? := by
      rw [BroadcastState.pipeline, hbusy]
      rfl
    rw [hpipeline] at queued once
    refine ⟨?_, disjoint, numbered, queued, once⟩
    intro entry hentry outpoint houtpoint
    have hreserved := reserved entry hentry outpoint houtpoint
    rw [Wallet.mem_release_coins]
    exact ⟨fun hreleased => hraw rfl outpoint hreleased hreserved, hreserved⟩
  | sent request =>
    have hpipeline : state.pipeline = (request, tx) :: (state.channel.getD []).filterMap
      Queued.sent? := by
      rw [BroadcastState.pipeline, hbusy]
      rfl
    rw [hpipeline] at queued once
    obtain ⟨hfirst, hrest⟩ := List.nodup_cons.mp once
    obtain ⟨hfailed, hqueued⟩ := List.cons_subset.mp queued
    refine ⟨?_, ?_, fun entry hentry => numbered entry (Origin.mem_retire_sent.mp hentry).1, ?_,
      hrest⟩
    · intro entry hentry outpoint houtpoint
      obtain ⟨hlive, hne⟩ := Origin.mem_retire_sent.mp hentry
      rw [Wallet.mem_release_coins]
      exact ⟨fun hreleased => disjoint _ hlive _ hfailed hne houtpoint hreleased,
        reserved entry hlive outpoint houtpoint⟩
    · intro first hfirst second hsecond
      exact disjoint first (Origin.mem_retire_sent.mp hfirst).1 second
        (Origin.mem_retire_sent.mp hsecond).1
    · intro entry hentry
      refine Origin.mem_retire_sent.mpr ⟨hqueued hentry, ?_⟩
      rintro rfl
      exact hfirst (List.mem_map.mpr ⟨entry, hentry, rfl⟩)

theorem ReservationInvariant.step {state after : BroadcastState} {action : BroadcastAction F}
    (hinv : ReservationInvariant state) (hallowed : RawSpendsNoReserved state action)
    (hstep : BroadcastStep floatInst secpInst spInst csInst btcInst state action after) :
    ReservationInvariant after := by
  cases hstep with
  | send_queued hsend =>
    obtain ⟨hbuild, hqueue, rfl⟩ := send_to_address_eq_some hsend
    exact hinv.send (fun _ => build_request_outpoints hbuild) hqueue
  | send_refused => exact hinv
  | broadcast_raw_tx raw =>
    refine hinv.of_sublist rfl rfl rfl ?_
    rw [broadcast_raw_tx_pipeline]
  | @receive queued rest hidle hchannel =>
    refine hinv.of_sublist rfl rfl rfl ?_
    simp [BroadcastState.pipeline, hidle, hchannel]
  | succeed hbusy =>
    refine hinv.of_sublist rfl rfl rfl (List.Sublist.filterMap _ ?_)
    simp
  | fail hbusy =>
    refine hinv.fail hbusy fun horigin => hallowed _ ?_
    rw [hbusy, ← horigin]
  | stop hidle =>
    refine hinv.of_sublist rfl rfl rfl (List.Sublist.filterMap _ ?_)
    simp
  | scan_block hscan =>
    exact hinv.of_sublist rfl (by rw [Wallet.scan_block_frame hscan]) rfl (List.Sublist.refl _)
  | process_disconnect => exact hinv.of_sublist rfl rfl rfl (List.Sublist.refl _)

end

/-- In every run in which no transaction from the outside that fails spends a
    reserved coin: what a request builds shares no input with a transaction that
    an earlier request queued, unless that one's own broadcast was reported
    failed. -/
theorem build_request_disjoint_live {F : Type} (floatInst : FloatApi F) (secpInst : secp256k1.Api)
    (spInst : silentpayments.Api) (csInst : bdk_coin_select.Api) (btcInst : bitcoin.Api)
    {state : BroadcastState}
    (hreach : ((broadcast_system floatInst secpInst spInst csInst btcInst).restrict
      RawSpendsNoReserved).Reachable state)
    {rng : Rng} {params : SendToAddressParams F} {tx : Transaction}
    (hbuild : build_request floatInst secpInst spInst csInst btcInst rng state.wallet params =
      .ok tx) :
    ∀ entry ∈ state.live, tx.outpoints.Disjoint entry.2.outpoints := by
  have hinv : ReservationInvariant state := by
    refine hreach.invariant ?_ fun _ _ _ hinv hstep => hinv.step hstep.1 hstep.2
    rintro first ⟨_, hchannel, hidle, hlive⟩
    refine ⟨by simp [hlive], by simp [hlive], by simp [hlive], ?_, ?_⟩ <;>
      simp [BroadcastState.pipeline, hchannel, hidle]
  intro entry hentry outpoint houtpoint hlive
  exact build_request_outpoints hbuild houtpoint (hinv.reserved entry hentry outpoint hlive)

/-- Requests with whole satoshis per virtual byte. -/
def regtest_float : FloatApi Nat where
  is_finite _ := true
  is_negative _ := false
  sat_per_kwu sat_per_vb := UInt64.ofNat (sat_per_vb * 250)

def regtest_params : SendToAddressParams Nat := ⟨regtest.sender_address, 9700, 1, 10⟩

def regtest_broadcast : System BroadcastState (BroadcastAction Nat) :=
  broadcast_system regtest_float regtest.secp regtest.sp regtest.cs regtest.btc

/-- The node with the given coins, before any request. -/
def regtest_idle (coins : List (Sigma fun _ : OutPoint => Coin)) : BroadcastState where
  wallet := regtest.funded_wallet coins
  channel := some []
  broadcasting := none
  request := 0
  live := []

/-- The node after the first request, which spends the first coin. -/
def regtest_sent (coins : List (Sigma fun _ : OutPoint => Coin)) : BroadcastState where
  wallet := (regtest.funded_wallet coins).reserve_coins regtest.first_send_back.tx.outpoints
  channel := some [⟨.sent 0, regtest.first_send_back.tx⟩]
  broadcasting := none
  request := 1
  live := [(0, regtest.first_send_back.tx)]

/-- With two coins, a second request while the first transaction is live spends
    the second coin. -/
theorem build_request_disjoint_live_second_coin :
    ((regtest_broadcast.restrict RawSpendsNoReserved).Reachable (regtest_sent regtest.coins)) ∧
      build_request regtest_float regtest.secp regtest.sp regtest.cs regtest.btc regtest.rng
        (regtest_sent regtest.coins).wallet regtest_params = .ok regtest.second_send_back.tx ∧
      regtest.second_send_back.tx.outpoints.Disjoint regtest.first_send_back.tx.outpoints := by
  have hidle : (regtest_broadcast.restrict RawSpendsNoReserved).Reachable
    (regtest_idle regtest.coins) :=
    .of_init ⟨rfl, rfl, rfl, rfl⟩
  have hsend : send_to_address regtest_float regtest.secp regtest.sp regtest.cs
    regtest.btc regtest.rng
      (regtest_idle regtest.coins).wallet (some []) 0 regtest_params =
      (.ok (true, "Successfully broadcast transaction " ++ regtest.first_send_back.txid),
        some ((regtest_sent regtest.coins).wallet, (regtest_sent regtest.coins).channel,
          regtest.first_send_back.tx)) :=
    rfl
  have hsent := hidle.step_restrict (BroadcastStep.send_queued hsend) trivial
  have hbuild : build_request regtest_float regtest.secp regtest.sp regtest.cs
    regtest.btc regtest.rng
      (regtest_sent regtest.coins).wallet regtest_params = .ok regtest.second_send_back.tx := by
        decide +kernel
  refine ⟨hsent, hbuild, ?_⟩
  exact build_request_disjoint_live regtest_float regtest.secp regtest.sp regtest.cs
    regtest.btc hsent hbuild
    (0, regtest.first_send_back.tx) (List.mem_singleton_self _)

/-- With one coin, the transaction of the first request is broadcast, then
    handed in again from the outside, where it fails: its input is released and
    a second request spends the same coin. -/
theorem raw_failure_releases_live_coin :
    ∃ state tx, regtest_broadcast.Reachable state ∧
      build_request regtest_float regtest.secp regtest.sp regtest.cs regtest.btc
        regtest.rng state.wallet
        regtest_params = .ok tx ∧
      ∃ entry ∈ state.live, ¬ tx.outpoints.Disjoint entry.2.outpoints := by
  have hidle : regtest_broadcast.Reachable (regtest_idle (regtest.coins.take 1)) :=
    .of_init ⟨rfl, rfl, rfl, rfl⟩
  have hsend : send_to_address regtest_float regtest.secp regtest.sp regtest.cs
    regtest.btc regtest.rng
      (regtest_idle (regtest.coins.take 1)).wallet (some []) 0 regtest_params =
      (.ok (true, "Successfully broadcast transaction " ++ regtest.first_send_back.txid),
        some ((regtest_sent (regtest.coins.take 1)).wallet,
          (regtest_sent (regtest.coins.take 1)).channel,
          regtest.first_send_back.tx)) := rfl
  have hsent : regtest_broadcast.Reachable (regtest_sent (regtest.coins.take 1)) :=
    hidle.step (BroadcastStep.send_queued hsend)
  have hsucceeded : regtest_broadcast.Reachable { regtest_sent (regtest.coins.take 1) with
    channel := some [] } :=
    (hsent.step (BroadcastStep.receive rfl rfl)).step (BroadcastStep.succeed rfl)
  have hraw : (broadcast_raw_tx regtest.btc (some []) regtest.first_send_back.raw).2 =
      some [⟨.raw, regtest.first_send_back.tx⟩] := by decide +kernel
  have hagain : regtest_broadcast.Reachable { regtest_sent (regtest.coins.take 1) with
      channel := some [⟨.raw, regtest.first_send_back.tx⟩] } := by
    rw [← hraw]
    exact hsucceeded.step (BroadcastStep.broadcast_raw_tx regtest.first_send_back.raw)
  have hfailed := (hagain.step (BroadcastStep.receive rfl rfl)).step (BroadcastStep.fail rfl)
  have hbuild : build_request regtest_float regtest.secp regtest.sp regtest.cs
    regtest.btc regtest.rng
      ((regtest_sent (regtest.coins.take 1)).wallet.release_coins
        regtest.first_send_back.tx.outpoints)
      regtest_params = .ok regtest.first_send_back.tx := by decide +kernel
  refine ⟨_, _, hfailed, hbuild, (0, regtest.first_send_back.tx), List.mem_singleton_self _, ?_⟩
  exact fun hdisjoint => hdisjoint (List.mem_singleton_self _) (List.mem_singleton_self _)

end node
