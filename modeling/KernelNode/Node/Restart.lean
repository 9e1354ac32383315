import KernelNode.Node.ScanThread
import KernelNode.Wallet.Reorg

open bitcoin secp256k1 silentpayments std.collections transition wallet wallet.wallet_store

namespace node

/-- Runs of the node that start with the keys file imported into a wallet
    without coins, before any block of the run is connected. -/
def scan_system (secpInst : secp256k1.Api) (spInst : silentpayments.Api) (index : BlockIndex)
    (wallet_store : WalletStore) (keys_file : SilentPaymentKeysFile) : System State Action where
  init state := state.connected = [] ∧ bitcoinkernel.Consensus (state.below.map ChainBlock.block) ∧
    state.up ∧
    state.running ∧ state.scan_thread = .loop_head ∧ state.channel = [] ∧
    ∃ loaded, initial_wallet wallet_store state.file = some loaded ∧ loaded.utxos = ∅ ∧
      auto_import_keys secpInst spInst loaded keys_file = some state.wallet
  step := Step secpInst spInst index wallet_store keys_file

/-- The wallet's coins are those of a new wallet with the same keys that scans
    the blocks of the active chain that were connected during the run. -/
def State.Scanned (secpInst : secp256k1.Api) (spInst : silentpayments.Api)
    (wallet_store : WalletStore) (keys_file : SilentPaymentKeysFile) (self : State) : Prop :=
  ∃ fresh scanned, auto_import_keys secpInst spInst (Wallet.new wallet_store.network) keys_file =
    some fresh ∧
    scan_chain secpInst spInst fresh self.connected = some scanned ∧
    ∀ outpoint, self.wallet.utxos.lookup outpoint = scanned.utxos.lookup outpoint

/-- A step that loses no event: the scan thread does not end with events left in
    its channel, the kernel sends none after the thread has ended, and the wallet
    file is written after each one. -/
def NoEventLost (state : State) : Action → Prop
  | .connect _ | .disconnect _ => state.scan_thread ≠ .stopped
  | .check_running => state.running = false → state.channel = []
  | .receive written => written = true
  | _ => True

/-- The events that lead from the blocks the wallet has scanned to the blocks
    that are connected. -/
inductive Delivers (index : BlockIndex) : List ChainBlock → List ScanEvent →
    List ChainBlock → Prop where
  | nil (chain : List ChainBlock) : Delivers index chain [] chain
  | connected {chain final : List ChainBlock} {next : ChainBlock} {events : List ScanEvent}
      (hknown : index.Knows next)
      (hvalid : bitcoinkernel.Coherent ((chain ++ [next]).map ChainBlock.block))
      (hrest : Delivers index (chain ++ [next]) events final) :
      Delivers index chain (.Connected next.block next.block.hash :: events) final
  | disconnected {chain final : List ChainBlock} {tip : ChainBlock} {events : List ScanEvent}
      (hvalid : bitcoinkernel.Coherent ((chain ++ [tip]).map ChainBlock.block))
      (hrest : Delivers index chain events final) :
      Delivers index (chain ++ [tip]) (.Disconnected tip.block tip.block_height :: events) final
  | disconnected_below {final : List ChainBlock} {tip : ChainBlock} {events : List ScanEvent}
      (hrest : Delivers index [] events final) :
      Delivers index [] (.Disconnected tip.block tip.block_height :: events) final

theorem Delivers.append {index : BlockIndex} {chain middle final : List ChainBlock}
    {events later : List ScanEvent} (hdelivers : Delivers index chain events middle)
    (hlater : Delivers index middle later final) :
    Delivers index chain (events ++ later) final := by
  induction hdelivers with
  | nil => exact hlater
  | connected hknown hvalid _ ih => exact .connected hknown hvalid (ih hlater)
  | disconnected hvalid _ ih => exact .disconnected hvalid (ih hlater)
  | disconnected_below _ ih => exact .disconnected_below (ih hlater)

/-- The keys that importing the keys file gives. They do not depend on what else
    is in the wallet. -/
def ImportsKeys (secpInst : secp256k1.Api) (spInst : silentpayments.Api)
    (network : silentpayments.Network) (keys_file : SilentPaymentKeysFile)
    (keys : SilentPaymentKeys) : Prop :=
  build_receiver secpInst spInst keys_file.scan_key
      (.from_x_only_public_key (keys_file.spend_key.xonly secpInst) .Even) network =
      .ok keys.receiver ∧
    keys.scan_key = keys_file.scan_key

section

variable {secpInst : secp256k1.Api} {spInst : silentpayments.Api} {index : BlockIndex}
    {wallet_store : WalletStore}
variable {keys_file : SilentPaymentKeysFile} {keys : SilentPaymentKeys}

theorem ImportsKeys.unique {network : silentpayments.Network} {first second : SilentPaymentKeys}
    (hfirst : ImportsKeys secpInst spInst network keys_file first)
    (hsecond : ImportsKeys secpInst spInst network keys_file second) : first = second := by
  obtain ⟨receiver, scan_key⟩ := first
  obtain ⟨hreceiver, hscan⟩ := hfirst
  obtain ⟨hreceiver', hscan'⟩ := hsecond
  rw [hreceiver] at hreceiver'
  cases second
  congr
  · exact Except.ok.inj hreceiver'
  · exact hscan.trans hscan'.symm

theorem auto_import_keys_spec {wallet imported : Wallet}
    (himported : auto_import_keys secpInst spInst wallet keys_file = some imported) :
    imported.utxos = wallet.utxos ∧ imported.network = wallet.network ∧
      ∃ keys, ImportsKeys secpInst spInst wallet.network keys_file keys ∧
        imported.keys = some keys := by
  obtain ⟨scan_key, spend_key⟩ := keys_file
  cases spend_key with
  | Secret spend_secret =>
    simp only [auto_import_keys] at himported
    split at himported
    · rename_i hresult
      obtain rfl := Option.some.inj himported
      obtain ⟨watching, hwatching, rfl⟩ :=
        (Wallet.import_signing_keys_eq_ok_iff secpInst spInst).mp hresult
      obtain ⟨receiver, hreceiver, rfl⟩ :=
        (Wallet.import_keys_eq_ok_iff secpInst spInst).mp hwatching
      exact ⟨rfl, rfl, ⟨receiver, scan_key⟩, ⟨hreceiver, rfl⟩, rfl⟩
    · cases himported
  | XOnlyPublic spend_xonly =>
    simp only [auto_import_keys] at himported
    split at himported
    · rename_i hresult
      obtain rfl := Option.some.inj himported
      obtain ⟨receiver, hreceiver, rfl⟩ := (Wallet.import_keys_eq_ok_iff secpInst spInst).mp hresult
      exact ⟨rfl, rfl, ⟨receiver, scan_key⟩, ⟨hreceiver, rfl⟩, rfl⟩
    · cases himported

theorem ImportsKeys.exists_imported {wallet : Wallet}
    (hkeys : ImportsKeys secpInst spInst wallet.network keys_file keys) :
    ∃ imported, auto_import_keys secpInst spInst wallet keys_file = some imported := by
  obtain ⟨scan_key, spend_key⟩ := keys_file
  have hwatching := (Wallet.import_keys_eq_ok_iff secpInst spInst).mpr ⟨keys.receiver, hkeys.1, rfl⟩
  cases spend_key with
  | Secret spend_secret =>
    obtain ⟨imported, hresult⟩ : ∃ imported,
        wallet.import_signing_keys secpInst spInst scan_key spend_secret = .ok imported :=
      ⟨_, (Wallet.import_signing_keys_eq_ok_iff secpInst spInst).mpr ⟨_, hwatching, rfl⟩⟩
    exact ⟨imported, by simp only [auto_import_keys, hresult]⟩
  | XOnlyPublic spend_xonly =>
    obtain ⟨imported, hresult⟩ : ∃ imported,
        wallet.import_keys secpInst spInst scan_key spend_xonly = .ok imported := ⟨_, hwatching⟩
    exact ⟨imported, by simp only [auto_import_keys, hresult]⟩

theorem initial_wallet_network {file : Option (List UInt8)} {loaded : Wallet}
    (hloaded : initial_wallet wallet_store file = some loaded) :
    loaded.network = wallet_store.network := by
  simp only [initial_wallet, WalletStore.load] at hloaded
  split at hloaded
  · split at hloaded
    · rename_i hload
      obtain rfl := Option.some.inj hloaded
      split at hload
      · cases hload
      · split at hload
        · cases hload
        · rename_i hsame
          obtain rfl := Except.ok.inj hload
          exact not_not.mp hsame
    · cases hloaded
  · obtain rfl := Option.some.inj hloaded
    rfl

/-- A saved wallet is loaded with the same coins. -/
theorem initial_wallet_of_saved {wallet : Wallet} {bytes : List UInt8}
    (hnetwork : wallet.network = wallet_store.network)
    (hbytes : wallet_to_bytes wallet = some (.ok bytes)) :
    ∃ loaded, initial_wallet wallet_store (some bytes) = some loaded ∧
      ∀ outpoint, loaded.utxos.lookup outpoint = wallet.utxos.lookup outpoint := by
  obtain ⟨utxos, hdecoded, hcoins⟩ := wallet_from_bytes_to_bytes hbytes
  refine ⟨Wallet.from_parts wallet.scan_height wallet.network utxos, ?_, hcoins⟩
  simp [initial_wallet, WalletStore.load, hdecoded, Wallet.from_parts, hnetwork]

/-- The wallet has scanned some chain and the events in the channel lead from it
    to the blocks that are connected; the file holds the wallet's coins. -/
structure ScanInvariant (secpInst : secp256k1.Api) (spInst : silentpayments.Api)
    (index : BlockIndex) (wallet_store : WalletStore) (keys : SilentPaymentKeys) (state : State) :
    Prop where
  network : state.wallet.network = wallet_store.network
  tracks : ∃ chain, state.wallet.Tracks secpInst spInst keys chain ∧
    (∀ next ∈ chain, (next.found secpInst spInst keys).isSome) ∧
    Delivers index chain state.channel state.connected
  valid : bitcoinkernel.Consensus ((state.below ++ state.connected).map ChainBlock.block)
  saved : ∃ loaded, initial_wallet wallet_store state.file = some loaded ∧
    ∀ outpoint, loaded.utxos.lookup outpoint = state.wallet.utxos.lookup outpoint
  stopped : state.scan_thread = .stopped → state.channel = []
  down : state.up = false → state.scan_thread = .stopped

/-- The coins of a wallet that tracks a chain are saved whole. -/
theorem save_scanned_spec {chain : List ChainBlock} {wallet after : Wallet}
    {file file' : Option (List UInt8)} (htracks : wallet.Tracks secpInst spInst keys chain)
    (hnetwork : wallet.network = wallet_store.network)
    (hsave : save_scanned wallet file true = some (after, file')) :
    after = wallet ∧ ∃ loaded, initial_wallet wallet_store file' = some loaded ∧
      ∀ outpoint, loaded.utxos.lookup outpoint = wallet.utxos.lookup outpoint := by
  simp only [save_scanned] at hsave
  split at hsave
  · rename_i bytes hbytes
    cases hsave
    exact ⟨rfl, initial_wallet_of_saved hnetwork hbytes⟩
  · rename_i e hbytes
    have hcount : wallet.utxos.entries.length < 2 ^ 32 := by
      by_contra hcount
      rw [wallet_to_bytes_eq_none_iff.mpr hcount] at hbytes
      cases hbytes
    obtain ⟨bytes, hok⟩ := exists_wallet_to_bytes_iff.mpr ⟨hcount, fun _ _ => htracks.script⟩
    rw [hok] at hbytes
    cases hbytes
  · cases hsave

/-- Handling the next event moves the wallet along the chain and saves it. -/
theorem handle_event_spec {chain final : List ChainBlock} {event : ScanEvent}
    {rest : List ScanEvent} {wallet after : Wallet} {file file' : Option (List UInt8)}
    (hnetwork : wallet.network = wallet_store.network)
    (htracks : wallet.Tracks secpInst spInst keys chain)
    (hfound : ∀ next ∈ chain, (next.found secpInst spInst keys).isSome)
    (hdelivers : Delivers index chain (event :: rest) final)
    (hevent : handle_event secpInst spInst index wallet file true event = some (after, file')) :
    after.network = wallet_store.network ∧
    (∃ chain', after.Tracks secpInst spInst keys chain' ∧
      (∀ next ∈ chain', (next.found secpInst spInst keys).isSome) ∧
        Delivers index chain' rest final) ∧
    ∃ loaded, initial_wallet wallet_store file' = some loaded ∧
      ∀ outpoint, loaded.utxos.lookup outpoint = after.utxos.lookup outpoint := by
  cases hdelivers with
  | @connected _ _ next _ hknown hvalid hrest =>
    simp only [handle_event, hknown.1, hknown.2, Option.bind_eq_bind,
      Option.bind_eq_some_iff] at hevent
    obtain ⟨⟨scanned, count⟩, hscan, hsave⟩ := hevent
    have hscanned := htracks.scan_block hvalid hscan
    have hsame : scanned.network = wallet_store.network := by
      rw [Wallet.scan_block_frame hscan, hnetwork]
    obtain ⟨rfl, hsaved⟩ := save_scanned_spec hscanned hsame hsave
    exact ⟨hsame, ⟨_, hscanned, htracks.found_snoc hfound hscan, hrest⟩, hsaved⟩
  | @disconnected chain _ tip _ hvalid hrest =>
    have hscanned := htracks.process_disconnect hvalid
    obtain ⟨rfl, hsaved⟩ := save_scanned_spec hscanned hnetwork hevent
    exact ⟨hnetwork, ⟨chain, hscanned, fun block hblock =>
      hfound block (List.mem_append_left _ hblock), hrest⟩, hsaved⟩
  | @disconnected_below _ tip _ hrest =>
    -- a block from before the run: the wallet has no coin it could touch
    have hscanned : (wallet.process_disconnect tip.block).Tracks secpInst spInst keys [] := by
      refine ⟨htracks.1, ?_⟩
      intro outpoint
      rw [Wallet.lookup_process_disconnect, htracks.2]
      simp [ledger, created]
    obtain ⟨rfl, hsaved⟩ := save_scanned_spec hscanned hnetwork hevent
    exact ⟨hnetwork, ⟨[], hscanned, hfound, hrest⟩, hsaved⟩

theorem ScanInvariant.step {state after : State} {action : Action}
    (hkeys : ImportsKeys secpInst spInst wallet_store.network keys_file keys)
    (hinv : ScanInvariant secpInst spInst index wallet_store keys state)
    (hallowed : NoEventLost state action)
    (hstep : Step secpInst spInst index wallet_store keys_file state action after) :
    ScanInvariant secpInst spInst index wallet_store keys after := by
  obtain ⟨hnetwork, ⟨chain, htracks, hfound, hdelivers⟩, hvalid, hsaved, hstopped, hdown⟩ := hinv
  cases hstep with
  | @connect next hup hknown hnext =>
    simp only [htracks.1, Option.isNone_some, Bool.false_eq_true, if_false, State.send_eq hallowed]
    refine ⟨hnetwork, ⟨chain, htracks, hfound, hdelivers.append (.connected hknown ?_ (.nil _))⟩,
      hnext, hsaved,
      fun h => absurd h hallowed, hdown⟩
    rw [List.map_append] at hnext
    exact hnext.coherent _
  | @disconnect connected tip hup htip =>
    simp only [State.send_eq hallowed]
    rw [htip] at hdelivers hvalid
    have hbelow := hvalid
    rw [List.map_append] at hvalid
    rw [← List.append_assoc, List.map_append, List.map_singleton] at hbelow
    exact ⟨hnetwork,
      ⟨chain, htracks, hfound, hdelivers.append (.disconnected (hvalid.coherent _) (.nil _))⟩,
      hbelow.of_snoc, hsaved, fun h => absurd h hallowed, hdown⟩
  | @disconnect_below below tip hup hconnected htip =>
    simp only [State.send_eq hallowed]
    rw [hconnected] at hdelivers hvalid ⊢
    rw [htip, List.append_nil, List.map_append, List.map_singleton] at hvalid
    exact ⟨hnetwork, ⟨chain, htracks, hfound, hdelivers.append (.disconnected_below (.nil _))⟩,
      by simpa using hvalid.of_snoc, hsaved, fun h => absurd h hallowed, hdown⟩
  | keep_running hup hthread hflag =>
    exact ⟨hnetwork, ⟨chain, htracks, hfound, hdelivers⟩, hvalid, hsaved, nofun, by simp [hup]⟩
  | stop_running hup hthread hflag =>
    rw [hallowed hflag] at hdelivers
    exact ⟨hnetwork, ⟨chain, htracks, hfound, hdelivers⟩, hvalid, hsaved, fun _ => rfl, fun _ =>
      rfl⟩
  | @receive event rest wallet file written hup hthread hchannel hevent =>
    obtain rfl : written = true := hallowed
    rw [hchannel] at hdelivers
    obtain ⟨hnetwork, htracks, hsaved⟩ := handle_event_spec hnetwork htracks hfound hdelivers hevent
    exact ⟨hnetwork, htracks, hvalid, hsaved, nofun, by simp [hup]⟩
  | timeout hup hthread hchannel =>
    exact ⟨hnetwork, ⟨chain, htracks, hfound, hdelivers⟩, hvalid, hsaved, nofun, by simp [hup]⟩
  | shutdown hup =>
    exact ⟨hnetwork, ⟨chain, htracks, hfound, hdelivers⟩, hvalid, hsaved, hstopped, hdown⟩
  | exit hup hthread =>
    exact ⟨hnetwork, ⟨chain, htracks, hfound, hdelivers⟩, hvalid, hsaved, hstopped, fun _ =>
      hthread⟩
  | @restart loaded wallet hoff hloaded himported =>
    obtain ⟨saved, hinitial, hcoins⟩ := hsaved
    obtain rfl : loaded = saved := Option.some.inj (hloaded.symm.trans hinitial)
    have hload := initial_wallet_network hloaded
    obtain ⟨hutxos, hsame, keys', hkeys', himport⟩ := auto_import_keys_spec himported
    rw [hload] at hkeys'
    obtain rfl := hkeys.unique hkeys'
    rw [hstopped (hdown hoff)] at hdelivers
    refine ⟨hsame.trans hload, ⟨chain, ⟨himport, ?_⟩, hfound, hdelivers⟩, hvalid,
      ⟨loaded, hinitial, ?_⟩, nofun, by simp⟩
    · intro outpoint
      rw [hutxos, hcoins, htracks.2]
    · simp [hutxos]

theorem ScanInvariant.of_init {state : State}
    (hinit : (scan_system secpInst spInst index wallet_store keys_file).init state)
    (hkeys : ImportsKeys secpInst spInst wallet_store.network keys_file keys) :
    ScanInvariant secpInst spInst index wallet_store keys state := by
  obtain ⟨hconnected, hvalid, hup, _, hthread, hchannel, loaded, hloaded, hempty, himported⟩ :=
    hinit
  have hload := initial_wallet_network hloaded
  obtain ⟨hutxos, hsame, keys', hkeys', himport⟩ := auto_import_keys_spec himported
  rw [hload] at hkeys'
  obtain rfl := hkeys.unique hkeys'
  refine ⟨hsame.trans hload, ⟨[], Wallet.tracks_nil secpInst spInst himport
    (hutxos.trans hempty), by simp, ?_⟩, ?_,
    ⟨loaded, hloaded, by simp [hutxos]⟩, by simp [hthread], by simp [hup]⟩
  · rw [hchannel, hconnected]
    exact .nil []
  · rwa [hconnected, List.append_nil]

/-- In every run that loses no event, over any number of shutdowns and restarts:
    whenever the channel is empty, the wallet's coins are those of scanning the
    blocks of the active chain that were connected during the run. -/
theorem scanned_of_channel_empty (secpInst : secp256k1.Api) (spInst : silentpayments.Api)
    (index : BlockIndex) (wallet_store : WalletStore) (keys_file : SilentPaymentKeysFile)
    {state : State} (hreach : ((scan_system secpInst spInst index wallet_store keys_file).restrict
      NoEventLost).Reachable state)
    (hempty : state.channel = []) : state.Scanned secpInst spInst wallet_store keys_file := by
  obtain ⟨first, actions, hfirst, hrun⟩ := hreach
  obtain ⟨_, _, _, _, _, _, loaded, hloaded, _, himported⟩ := id hfirst
  obtain ⟨_, _, keys, hkeys, _⟩ := auto_import_keys_spec himported
  rw [initial_wallet_network hloaded] at hkeys
  have hinv : ScanInvariant secpInst spInst index wallet_store keys state :=
    hrun.preserves (fun _ _ _ hinv hstep => hinv.step hkeys hstep.1 hstep.2) (.of_init hfirst hkeys)
  obtain ⟨chain, htracks, hfound, hdelivers⟩ := hinv.tracks
  rw [hempty] at hdelivers
  cases hdelivers
  obtain ⟨fresh, hfresh⟩ :
      ∃ fresh, auto_import_keys secpInst spInst (Wallet.new wallet_store.network) keys_file =
        some fresh :=
    hkeys.exists_imported
  obtain ⟨hutxos, _, keys', hkeys', himport⟩ := auto_import_keys_spec hfresh
  obtain rfl := hkeys.unique hkeys'
  have hvalid := hinv.valid
  rw [List.map_append] at hvalid
  obtain ⟨scanned, hscanned, hsame⟩ :=
    scan_chain_tracks (Wallet.tracks_nil secpInst spInst himport hutxos)
    (hvalid.coherent _) hfound
  exact ⟨fresh, scanned, hfresh, hscanned, fun outpoint => (htracks.2 outpoint).trans
    (hsame.2 outpoint).symm⟩

end

/-- The regtest blocks as the kernel knows them. -/
def regtest_index : BlockIndex where
  get_block_tree_entry hash :=
    ([regtest_funding, regtest_payment].find? fun known => known.block.hash = hash).map
      ChainBlock.block_height
  read_spent_outputs hash :=
    match [regtest_funding, regtest_payment].find? fun known => known.block.hash = hash with
    | some known => .ok known.spent_outputs
    | none => .error "no undo data"

def regtest_keys_file : SilentPaymentKeysFile := ⟨regtest.scan_key, .Secret regtest.spend_secret⟩

/-- A first start: no wallet file and no block of the run yet. -/
def regtest_start : State where
  below := []
  connected := []
  file := none
  up := true
  running := true
  scan_thread := .loop_head
  channel := []
  wallet := regtest_wallet

def regtest_system : System State Action :=
  scan_system regtest.secp regtest.sp regtest_index ⟨.Regtest⟩ regtest_keys_file

theorem regtest_start_init : regtest_system.init regtest_start :=
  ⟨rfl, bitcoinkernel.Consensus.nil, rfl, rfl, rfl, rfl, Wallet.new .Regtest, rfl, rfl, rfl⟩

/-- The state after the two blocks are connected, with both events queued. -/
def regtest_queued : State :=
  { regtest_start with
    connected := [regtest_funding, regtest_payment]
    channel := [.Connected regtest_funding.block regtest_funding.block.hash,
      .Connected regtest_payment.block regtest_payment.block.hash] }

theorem regtest_connect_payment :
    Step regtest.secp regtest.sp regtest_index ⟨.Regtest⟩ regtest_keys_file
      { regtest_start with
        connected := [regtest_funding]
        channel := [.Connected regtest_funding.block regtest_funding.block.hash] }
      (.connect regtest_payment) regtest_queued :=
  .connect rfl ⟨rfl, rfl⟩ (by decide +kernel)

/-- Both events are handled before the node is shut down: after the restart the
    wallet has the coins of the two blocks. -/
theorem scanned_after_restart :
    ∃ state, (regtest_system.restrict NoEventLost).Reachable state ∧
      state.connected = [regtest_funding, regtest_payment] ∧
      state.Scanned regtest.secp regtest.sp ⟨.Regtest⟩ regtest_keys_file := by
  have hstart : (regtest_system.restrict NoEventLost).Reachable regtest_start :=
    .of_init regtest_start_init
  have hqueued : (regtest_system.restrict NoEventLost).Reachable regtest_queued :=
    (hstart.step_restrict (Step.connect rfl ⟨rfl, rfl⟩ (by decide +kernel)) nofun).step_restrict
      regtest_connect_payment nofun
  have hevents : ((handle_event regtest.secp regtest.sp regtest_index regtest_wallet none true
      (.Connected regtest_funding.block regtest_funding.block.hash)).bind fun first =>
      (handle_event regtest.secp regtest.sp regtest_index first.1 first.2 true
        (.Connected regtest_payment.block regtest_payment.block.hash)).bind fun second =>
      (initial_wallet ⟨.Regtest⟩ second.2).bind fun loaded =>
      auto_import_keys regtest.secp regtest.sp loaded regtest_keys_file).isSome := by decide +kernel
  simp only [Option.isSome_iff_exists, Option.bind_eq_some_iff] at hevents
  obtain ⟨wallet, ⟨first, file⟩, hfirst, ⟨second, file'⟩, hsecond, loaded, hloaded, himported⟩ :=
    hevents
  have hhandled := (((hqueued.step_restrict (Step.keep_running rfl rfl rfl) nofun).step_restrict
    (Step.receive rfl rfl rfl hfirst) rfl).step_restrict (Step.keep_running rfl rfl rfl)
      nofun).step_restrict
    (Step.receive rfl rfl rfl hsecond) rfl
  have hexited := ((hhandled.step_restrict (Step.shutdown rfl) trivial).step_restrict
    (Step.stop_running rfl rfl rfl) fun _ => rfl).step_restrict (Step.exit rfl rfl) trivial
  have hrestarted := hexited.step_restrict (Step.restart rfl hloaded himported) trivial
  exact ⟨_, hrestarted, rfl, scanned_of_channel_empty _ _ _ _ _ hrestarted rfl⟩

/-- Two blocks are connected, the node is shut down before the scan thread has
    taken their events, and after the restart the payment is missing although the
    channel is empty. -/
theorem shutdown_loses_queued_blocks :
    ∃ state, regtest_system.Reachable state ∧ state.up ∧ state.channel = [] ∧
      ¬ state.Scanned regtest.secp regtest.sp ⟨.Regtest⟩ regtest_keys_file := by
  have hqueued : regtest_system.Reachable regtest_queued :=
    ((System.Reachable.of_init regtest_start_init).step
      (Step.connect rfl ⟨rfl, rfl⟩ (by decide +kernel))).step regtest_connect_payment
  have hexited : regtest_system.Reachable
      { regtest_queued with
        running := false
        scan_thread := .stopped
        channel := []
        up := false } :=
    ((hqueued.step (Step.shutdown rfl)).step (Step.stop_running rfl rfl rfl)).step
      (Step.exit rfl rfl)
  have hrestarted : regtest_system.Reachable { regtest_queued with channel := [] } :=
    hexited.step (Step.restart rfl rfl rfl)
  refine ⟨_, hrestarted, rfl, rfl, ?_⟩
  rintro ⟨fresh, scanned, hfresh, hscanned, hsame⟩
  obtain rfl : regtest_wallet = fresh := Option.some.inj hfresh
  have hcoin : (scan_chain regtest.secp regtest.sp regtest_wallet
    [regtest_funding, regtest_payment]).any
      (fun scanned => (scanned.utxos.lookup ⟨regtest.txid 0xaa, 0⟩).isSome) = true := by
        decide +kernel
  rw [show scan_chain regtest.secp regtest.sp regtest_wallet [regtest_funding, regtest_payment] =
    some scanned
    from hscanned, Option.any_some, ← hsame] at hcoin
  cases hcoin

end node
