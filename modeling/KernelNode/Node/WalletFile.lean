import KernelNode.Disk
import KernelNode.Node.ScanThread
import KernelNode.Wallet.FileCodec

open bitcoin disk silentpayments std.collections transition wallet wallet.wallet_store

namespace wallet.wallet_store

/-- The temporary file next to a path. -/
def tmp_path (path : String) : String := path ++ ".tmp"

def save_atomic (path : String) (bytes : List UInt8) : List (Op String) :=
  let tmp := tmp_path path
  [.create tmp, .write_all tmp bytes, .sync_data tmp, .rename tmp path]

/-- The operations of a save: none where the wallet cannot be encoded, which is a
    panic or an error. -/
def WalletStore.save (path : String) (wallet : Wallet) :
    Option (Except WalletPersistenceError (List (Op String))) :=
  (wallet_to_bytes wallet).map fun encoded => encoded.map (save_atomic path)

/-- A save on a disk. A panic ends the thread before the disk is touched. -/
inductive WalletStore.Saves (path : String) (wallet : Wallet) (before : Disk String) :
    Outcome → Disk String → Prop where
  | panicked (hsave : WalletStore.save path wallet = none) : Saves path wallet before .killed before
  | refused {e : WalletPersistenceError} (hsave : WalletStore.save path wallet = some (.error e)) :
      Saves path wallet before .error before
  | written {ops : List (Op String)} {outcome : Outcome} {after : Disk String}
      (hsave : WalletStore.save path wallet = some (.ok ops))
      (hexec : Exec before ops outcome after) : Saves path wallet before outcome after

theorem tmp_path_ne (path : String) : tmp_path path ≠ path := by
  intro heq
  have hlength := congrArg String.length heq
  simp [tmp_path, String.length_append] at hlength

/-- The bytes that loading turns into one of the given wallets. -/
def LoadsAs (network : silentpayments.Network) (saved : List Wallet) (bytes : List UInt8) : Prop :=
  ∃ wallet ∈ saved, ∃ loaded, WalletStore.load ⟨network⟩ bytes = .ok loaded ∧
    wallet.stored.Same loaded

theorem load_of_wallet_to_bytes {wallet : Wallet} {bytes : List UInt8}
    (hbytes : wallet_to_bytes wallet = some (.ok bytes)) :
    ∃ loaded, WalletStore.load ⟨wallet.network⟩ bytes = .ok loaded ∧
      wallet.stored.Same loaded := by
  obtain ⟨loaded, hload, hsame⟩ := loaded_same_stored hbytes
  refine ⟨loaded, ?_, hsame⟩
  obtain ⟨_, _, _, _, hnetwork, _, _⟩ := hsame
  have hnetwork : loaded.network = wallet.network := hnetwork.symm
  simp only [WalletStore.load, hload, hnetwork, ne_eq, not_true_eq_false, if_false]

end wallet.wallet_store

namespace node

/-- The disk and every wallet that a save was called with. -/
structure StoreState where
  disk : Disk String
  saved : List Wallet

inductive StoreAction where
  | save (wallet : Wallet) (outcome : Outcome)
  | power_loss

/-- Saves of wallets of the configured network, each of which may fail or be cut
    off, and power losses between or after them. -/
inductive StoreStep (path : String) (network : silentpayments.Network) : StoreState → StoreAction →
    StoreState → Prop where
  | save {state : StoreState} {wallet : Wallet} {outcome : Outcome} {after : Disk String}
      (hnetwork : wallet.network = network)
      (hsave : WalletStore.Saves path wallet state.disk outcome after) :
      StoreStep path network state (.save wallet outcome) ⟨after, wallet :: state.saved⟩
  | power_loss {state : StoreState} {after : Disk String} (hloss : PowerLoss state.disk after) :
      StoreStep path network state .power_loss ⟨after, state.saved⟩

def store_system (path : String) (network : silentpayments.Network) :
    System StoreState StoreAction where
  init state := state = ⟨.empty, []⟩
  step := StoreStep path network

section

variable {path : String} {network : silentpayments.Network}

/-- The wallet file is complete on every directory that the device may hold. -/
def StoreState.Sound (path : String) (network : silentpayments.Network) (state : StoreState) :
    Prop :=
  Replaced true (tmp_path path) path (LoadsAs network state.saved) state.disk

/-- A save keeps the file complete, and ends as a replacement does. -/
theorem saves_spec {state : StoreState} (hsound : state.Sound path network) {wallet : Wallet}
    (hnetwork : wallet.network = network) {outcome : Outcome} {after : Disk String}
    (hsave : WalletStore.Saves path wallet state.disk outcome after) :
    StoreState.Sound path network ⟨after, wallet :: state.saved⟩ ∧
      (outcome = .ok → ∃ bytes, wallet_to_bytes wallet = some (.ok bytes) ∧
        after.read path = some bytes) ∧
      (outcome = .error → after.read path = state.disk.read path) := by
  have hkept : StoreState.Sound path network ⟨state.disk, wallet :: state.saved⟩ :=
    hsound.mono fun _ ⟨saved, hmem, hloads⟩ => ⟨saved, List.mem_cons_of_mem _ hmem, hloads⟩
  cases hsave with
  | panicked => exact ⟨hkept, by simp, by simp⟩
  | refused => exact ⟨hkept, by simp, by simp⟩
  | written hops hexec =>
    obtain ⟨encoded, hencoded, hops⟩ := Option.map_eq_some_iff.mp hops
    cases encoded with
    | error e => cases hops
    | ok bytes =>
      cases hops
      obtain ⟨loaded, hload, hsame⟩ := load_of_wallet_to_bytes hencoded
      rw [hnetwork] at hload
      have hloads : LoadsAs network (wallet :: state.saved) bytes :=
        ⟨wallet, List.mem_cons_self, loaded, hload, hsame⟩
      obtain ⟨hafter, hends⟩ := triple_replace true (tmp_path_ne path) hloads state.disk outcome
        after ⟨hkept, rfl⟩ hexec
      refine ⟨hafter, ?_, ?_⟩
      · rintro rfl
        exact ⟨bytes, hencoded, hends⟩
      · rintro rfl
        exact hends

/-- The scan thread's saves are saves on the disk: it goes on with the file that they
    leave. -/
theorem save_scanned_eq {state : StoreState} (hsound : state.Sound path network) {wallet : Wallet}
    (hnetwork : wallet.network = network) {outcome : Outcome} {after : Disk String}
    (hsave : WalletStore.Saves path wallet state.disk outcome after) (halive : outcome ≠ .killed) :
    save_scanned wallet (state.disk.read path) (outcome = .ok) =
      some (wallet, after.read path) := by
  obtain ⟨_, hok, herror⟩ := saves_spec hsound hnetwork hsave
  cases outcome with
  | ok =>
    obtain ⟨bytes, hbytes, hread⟩ := hok rfl
    simp [save_scanned, hbytes, hread]
  | error =>
    have hencoded : wallet_to_bytes wallet ≠ none := by
      intro hnone
      cases hsave with
      | refused hsave | written hsave => simp [WalletStore.save, hnone] at hsave
    obtain ⟨encoded, hencoded⟩ := Option.ne_none_iff_exists'.mp hencoded
    rw [herror rfl]
    cases encoded <;> simp [save_scanned, hencoded]
  | killed => exact absurd rfl halive

theorem StoreStep.sound {state next : StoreState} {action : StoreAction}
    (hsound : state.Sound path network) (hstep : StoreStep path network state action next) :
    next.Sound path network := by
  cases hstep with
  | save hnetwork hsave => exact (saves_spec hsound hnetwork hsave).1
  | power_loss hloss => exact hsound.power_loss hloss

theorem store_sound {state : StoreState} (hreach : (store_system path network).Reachable state) :
    state.Sound path network := by
  refine hreach.invariant (P := StoreState.Sound path network) ?_ fun _ _ _ hsound hstep =>
    StoreStep.sound hsound hstep
  rintro _ rfl
  exact Replaced.empty true (tmp_path path) path _

end

/-- The node restarts from its wallet file after any saves, errors, kills and
    power losses: the file is missing or loads as a wallet that was saved. A save
    that reports success is the one that loads, and a save that reports an error
    has changed nothing. -/
theorem wallet_file_survives (path : String) (network : silentpayments.Network)
    {state : StoreState} (hreach : (store_system path network).Reachable state) :
    (∃ loaded, initial_wallet ⟨network⟩ (state.disk.read path) = some loaded ∧
      (state.disk.read path = none ∧ loaded = Wallet.new network ∨
        ∃ wallet ∈ state.saved, wallet.stored.Same loaded)) ∧
    ∀ wallet outcome next, StoreStep path network state (.save wallet outcome) next →
      (outcome = .ok → ∃ loaded, initial_wallet ⟨network⟩ (next.disk.read path) = some loaded ∧
        wallet.stored.Same loaded) ∧
      (outcome = .error → next.disk.read path = state.disk.read path) := by
  have hsound := store_sound hreach
  constructor
  · cases hread : state.disk.read path with
    | none => exact ⟨Wallet.new network, rfl, .inl ⟨rfl, rfl⟩⟩
    | some bytes =>
      obtain ⟨wallet, hmem, loaded, hload, hsame⟩ := hsound.accepted_of_read hread
      exact ⟨loaded, by simp [initial_wallet, hload], .inr ⟨wallet, hmem, hsame⟩⟩
  · intro wallet outcome next hstep
    cases hstep with
    | save hnetwork hsave =>
      obtain ⟨_, hok, herror⟩ := saves_spec hsound hnetwork hsave
      refine ⟨?_, herror⟩
      intro houtcome
      obtain ⟨bytes, hbytes, hread⟩ := hok houtcome
      obtain ⟨loaded, hload, hsame⟩ := load_of_wallet_to_bytes hbytes
      rw [hnetwork] at hload
      exact ⟨loaded, by simp [hread, initial_wallet, hload], hsame⟩

/-- A wallet and the same wallet one block later. -/
def first_saved : Wallet := Wallet.new .Regtest
def second_saved : Wallet := { first_saved with scan_height := 1 }

/-- The disk after the first save, and after a second one that was killed while it
    wrote. -/
def first_disk : Disk String :=
  (((Disk.empty.create "wallet.bin.tmp").append "wallet.bin.tmp"
    [0x53, 0x50, 0x57, 0x46, 1, 2, 0, 0, 0, 0, 0, 0, 0, 0]).sync "wallet.bin.tmp").rename
      "wallet.bin.tmp" "wallet.bin"

def killed_disk : Disk String :=
  (first_disk.create "wallet.bin.tmp").append "wallet.bin.tmp" [0x53, 0x50, 0x57]

/-- What the device is left with: the directory, and nothing of what was not
    synced. -/
def lost_disk : Disk String where
  inodes := killed_disk.inodes.map fun inode => ⟨if inode.synced then inode.content else [], true⟩
  dir := killed_disk.dir
  older := []

theorem lost_disk_power_loss : PowerLoss killed_disk lost_disk where
  dir := List.mem_cons_self
  older := rfl
  length := List.length_map ..
  inodes number inode hinode := by
    refine ⟨⟨if inode.synced then inode.content else [], true⟩, ?_, rfl, ?_⟩
    · rw [lost_disk, List.getElem?_map, hinode]
      rfl
    · intro hsynced
      exact if_pos hsynced

/-- A save, a second save that is killed while it writes, and a power loss. -/
theorem wallet_file_survives_power_loss :
    (store_system "wallet.bin" .Regtest).Reachable ⟨lost_disk, [second_saved, first_saved]⟩ ∧
    (∃ loaded, initial_wallet ⟨.Regtest⟩ (first_disk.read "wallet.bin") = some loaded ∧
      first_saved.stored.Same loaded) ∧
    ∃ loaded, initial_wallet ⟨.Regtest⟩ (lost_disk.read "wallet.bin") = some loaded ∧
      (lost_disk.read "wallet.bin" = none ∧ loaded = Wallet.new .Regtest ∨
        ∃ wallet ∈ [second_saved, first_saved], wallet.stored.Same loaded) := by
  have hempty : (store_system "wallet.bin" .Regtest).Reachable ⟨.empty, []⟩ := .of_init rfl
  have hfirst : StoreStep "wallet.bin" .Regtest ⟨.empty, []⟩ (.save first_saved .ok)
      ⟨first_disk, [first_saved]⟩ :=
    .save rfl (.written rfl (.next .create (.next .write_all (.next .sync_data
      (.next .rename .nil)))))
  have hsecond : StoreStep "wallet.bin" .Regtest ⟨first_disk, [first_saved]⟩
      (.save second_saved .killed) ⟨killed_disk, [second_saved, first_saved]⟩ :=
    .save rfl (.written rfl (.next .create (.stop (.write_part (by decide) (by decide))
      (by decide))))
  have hlost := ((hempty.step hfirst).step hsecond).step (.power_loss lost_disk_power_loss)
  exact ⟨hlost, ((wallet_file_survives _ _ hempty).2 _ _ _ hfirst).1 rfl,
    (wallet_file_survives _ _ hlost).1⟩

end node
