import KernelNode.Collections.Traverse
import KernelNode.Wallet.State

open bitcoin secp256k1 silentpayments std.collections std.bytes std.array

namespace wallet.wallet_store

/-- The bytes of `SPWF`. -/
def MAGIC : List UInt8 := [0x53, 0x50, 0x57, 0x46]
def VERSION : UInt8 := 1

abbrev HEADER_LEN : Nat := 10
abbrev COUNT_LEN : Nat := 4
abbrev RECORD_LEN : Nat := 192
abbrev SCRIPT_LEN : Nat := 34

def NETWORK_MAINNET : UInt8 := 0
def NETWORK_TESTNET : UInt8 := 1
def NETWORK_REGTEST : UInt8 := 2

def SPENT_FLAG_UNSPENT : UInt8 := 0
def SPENT_FLAG_SPENT : UInt8 := 1

def LABEL_TAG_NONE : UInt8 := 0
def LABEL_TAG_SOME : UInt8 := 1

abbrev R_SPENT_FLAG : Nat := 0
abbrev R_TXID : Nat := R_SPENT_FLAG + 1
abbrev R_VOUT : Nat := R_TXID + 32
abbrev R_VALUE : Nat := R_VOUT + 4
abbrev R_SCRIPT : Nat := R_VALUE + 8
abbrev R_TWEAK : Nat := R_SCRIPT + SCRIPT_LEN
abbrev R_LABEL_TAG : Nat := R_TWEAK + 32
abbrev R_LABEL_SCALAR : Nat := R_LABEL_TAG + 1
abbrev R_BLOCK_HEIGHT : Nat := R_LABEL_SCALAR + 32
abbrev R_SPENT_TXID : Nat := R_BLOCK_HEIGHT + 4
abbrev R_SPENT_HEIGHT : Nat := R_SPENT_TXID + 32

inductive WalletPersistenceError where
  | BadMagic
  | WrongVersion (version : UInt8)
  | UnknownNetwork (network : UInt8)
  | UnknownSpentFlag (flag : UInt8)
  | UnknownLabelTag (tag : UInt8)
  | InvalidScalar
  | NonP2trScript (got : Nat)
  | TruncatedFile
deriving DecidableEq

def encode_network : silentpayments.Network → UInt8
  | .Mainnet => NETWORK_MAINNET
  | .Testnet => NETWORK_TESTNET
  | .Regtest => NETWORK_REGTEST

def decode_network (b : UInt8) : Except WalletPersistenceError silentpayments.Network :=
  if b = NETWORK_MAINNET then .ok .Mainnet
  else if b = NETWORK_TESTNET then .ok .Testnet
  else if b = NETWORK_REGTEST then .ok .Regtest
  else .error (.UnknownNetwork b)

/-- The label tag, and the label's bytes if there is one. -/
def encode_label (buf : List.Vector UInt8 RECORD_LEN) : Option Scalar → List.Vector UInt8 RECORD_LEN
  | some label =>
    let buf := copy_from_slice buf R_LABEL_TAG (singleton LABEL_TAG_SOME) (by decide)
    copy_from_slice buf R_LABEL_SCALAR label.to_be_bytes (by decide)
  | none => copy_from_slice buf R_LABEL_TAG (singleton LABEL_TAG_NONE) (by decide)

/-- The spending transaction and its height if there is one. -/
def encode_spent_by (buf : List.Vector UInt8 RECORD_LEN) : Option SpentBy →
    List.Vector UInt8 RECORD_LEN
  | some spent_by =>
    let buf := copy_from_slice buf R_SPENT_TXID spent_by.txid.bytes (by decide)
    copy_from_slice buf R_SPENT_HEIGHT (to_le 4 spent_by.block_height.toNat) (by decide)
  | none => buf

/-- One coin in its fixed-width record, refused where the script does not have
    the length of a taproot script. -/
def encode_record (outpoint : OutPoint) (coin : Coin) :
    Except WalletPersistenceError (List.Vector UInt8 RECORD_LEN) :=
  if hscript : coin.script_pubkey.length = SCRIPT_LEN then
    let buf := List.Vector.replicate RECORD_LEN 0
    let flag := if coin.spent_by.isSome then SPENT_FLAG_SPENT else SPENT_FLAG_UNSPENT
    let buf := copy_from_slice buf R_SPENT_FLAG (singleton flag) (by decide)
    let buf := copy_from_slice buf R_TXID outpoint.txid.bytes (by decide)
    let buf := copy_from_slice buf R_VOUT (to_le 4 outpoint.vout.toNat) (by decide)
    let buf := copy_from_slice buf R_VALUE (to_le 8 coin.value.sat.toNat) (by decide)
    let buf := copy_from_slice buf R_SCRIPT (from_list coin.script_pubkey hscript) (by decide)
    let buf := copy_from_slice buf R_TWEAK coin.tweak.to_be_bytes (by decide)
    let buf := encode_label buf coin.label
    let buf := copy_from_slice buf R_BLOCK_HEIGHT (to_le 4 coin.block_height.toNat) (by decide)
    .ok (encode_spent_by buf coin.spent_by)
  else .error (.NonP2trScript coin.script_pubkey.length)

def decode_label (buf : List.Vector UInt8 RECORD_LEN) :
    Except WalletPersistenceError (Option Scalar) :=
  let tag := (slice buf R_LABEL_TAG 1 (by decide)).head
  if tag = LABEL_TAG_NONE then .ok none
  else if tag = LABEL_TAG_SOME then
    match Scalar.from_be_bytes (slice buf R_LABEL_SCALAR 32 (by decide)) with
    | some label => .ok (some label)
    | none => .error .InvalidScalar
  else .error (.UnknownLabelTag tag)

def decode_spent_by (buf : List.Vector UInt8 RECORD_LEN) (spent_flag : UInt8) : Option SpentBy :=
  if spent_flag = SPENT_FLAG_SPENT then
    some {
      txid := ⟨slice buf R_SPENT_TXID 32 (by decide)⟩
      block_height := .ofNat (of_le (slice buf R_SPENT_HEIGHT 4 (by decide)).toList) }
  else none

/-- The coin of a record. The flag, the tweak and the label are checked in this
    order. -/
def decode_record (buf : List.Vector UInt8 RECORD_LEN) : Except WalletPersistenceError
    (OutPoint × Coin) :=
  let spent_flag := (slice buf R_SPENT_FLAG 1 (by decide)).head
  if spent_flag ≠ SPENT_FLAG_UNSPENT ∧ spent_flag ≠ SPENT_FLAG_SPENT then .error
    (.UnknownSpentFlag spent_flag) else
  let outpoint : OutPoint := {
    txid := ⟨slice buf R_TXID 32 (by decide)⟩
    vout := .ofNat (of_le (slice buf R_VOUT 4 (by decide)).toList) }
  match Scalar.from_be_bytes (slice buf R_TWEAK 32 (by decide)) with
  | none => .error .InvalidScalar
  | some tweak => do
    let label ← decode_label buf
    return (outpoint, {
      value := ⟨.ofNat (of_le (slice buf R_VALUE 8 (by decide)).toList)⟩
      script_pubkey := (slice buf R_SCRIPT SCRIPT_LEN (by decide)).toList
      tweak
      label
      block_height := .ofNat (of_le (slice buf R_BLOCK_HEIGHT 4 (by decide)).toList)
      spent_by := decode_spent_by buf spent_flag })

/-- The whole file. A coin count that does not fit in 32 bits is a panic, here
    `none`. -/
def wallet_to_bytes (wallet : Wallet) : Option (Except WalletPersistenceError (List UInt8)) :=
  let coin_count := wallet.utxos.entries.length
  if coin_count < 2 ^ 32 then
    some do
      let records ← wallet.utxos.entries.mapM fun ⟨outpoint, coin⟩ => encode_record outpoint coin
      return MAGIC ++ [VERSION, encode_network wallet.network] ++
        (to_le 4 wallet.scan_height.toNat).toList ++
        (to_le 4 coin_count).toList ++ records.flatMap List.Vector.toList
  else none

/-- The loop over the records of a file whose length has been checked. -/
def decode_records : (coin_count : Nat) → (bytes : List UInt8) → bytes.length =
    coin_count * RECORD_LEN →
    Except WalletPersistenceError (List (OutPoint × Coin))
  | 0, _, _ => .ok []
  | coin_count + 1, bytes, hlength => do
    let entry ← decode_record (from_list (bytes.take RECORD_LEN) (by simp [hlength, Nat.succ_mul]))
    let entries ← decode_records coin_count (bytes.drop RECORD_LEN)
      (by simp [hlength, Nat.succ_mul])
    return entry :: entries

def wallet_from_bytes (bytes : List UInt8) : Except WalletPersistenceError Wallet :=
  if hheader : bytes.length < HEADER_LEN + COUNT_LEN then .error .TruncatedFile else
  have hbound : 14 ≤ bytes.length := Nat.le_of_not_lt hheader
  if bytes.take 4 ≠ MAGIC then .error .BadMagic else
  if bytes[4] ≠ VERSION then .error (.WrongVersion bytes[4]) else do
    let network ← decode_network bytes[5]
    let scan_height := UInt32.ofNat (of_le ((bytes.drop 6).take 4))
    let coin_count := (UInt32.ofNat (of_le ((bytes.drop 10).take 4))).toNat
    if hlength : bytes.length = HEADER_LEN + COUNT_LEN + coin_count * RECORD_LEN then
      let entries ← decode_records coin_count (bytes.drop (HEADER_LEN + COUNT_LEN))
        (by simp [hlength])
      return Wallet.from_parts scan_height network (HashMap.extend ∅ entries)
    else .error .TruncatedFile

inductive WalletStoreError where
  | Persistence (e : WalletPersistenceError)
  | NetworkMismatch (file expected : silentpayments.Network)
deriving DecidableEq

structure WalletStore where
  network : silentpayments.Network

/-- Load a wallet file and refuse one of another network. -/
def WalletStore.load (self : WalletStore) (file : List UInt8) : Except WalletStoreError Wallet :=
  match wallet_from_bytes file with
  | .error e => .error (.Persistence e)
  | .ok wallet =>
    if wallet.network ≠ self.network then .error (.NetworkMismatch wallet.network self.network)
    else .ok wallet

/-- The number of coins that a file announces. -/
def announced_coins (bytes : List UInt8) : Nat :=
  (UInt32.ofNat (of_le ((bytes.drop HEADER_LEN).take COUNT_LEN))).toNat

/-- The records of a file hold one coin each, with a script of taproot length. -/
theorem decode_records_eq_ok {coin_count : Nat} {bytes : List UInt8}
    {hlength : bytes.length = coin_count * RECORD_LEN} {entries : List (OutPoint × Coin)}
    (hdecode : decode_records coin_count bytes hlength = .ok entries) :
    entries.length = coin_count ∧ ∀ entry ∈ entries, entry.2.script_pubkey.length = SCRIPT_LEN := by
  induction coin_count generalizing bytes entries with
  | zero =>
    cases hdecode
    exact ⟨rfl, by simp⟩
  | succ coin_count ih =>
    simp only [decode_records, std.result.bind_eq_ok_iff] at hdecode
    obtain ⟨entry, hentry, rest, hrest, hentries⟩ := hdecode
    cases hentries
    obtain ⟨hcount, hscripts⟩ := ih hrest
    refine ⟨congrArg (· + 1) hcount, List.forall_mem_cons.mpr ⟨?_, hscripts⟩⟩
    simp only [decode_record] at hentry
    split at hentry
    · cases hentry
    · split at hentry
      · cases hentry
      · simp only [std.result.bind_eq_ok_iff] at hentry
        obtain ⟨label, _, hcoin⟩ := hentry
        cases hcoin
        exact List.Vector.toList_length _

/-- A file that is accepted has the length its header announces. The wallet has
    the coins of its records and no keys. -/
theorem wallet_from_bytes_eq_ok {bytes : List UInt8} {wallet : Wallet}
    (hload : wallet_from_bytes bytes = .ok wallet) :
    bytes.length = HEADER_LEN + COUNT_LEN + announced_coins bytes * RECORD_LEN ∧
      ∃ scan_height network entries,
        wallet = Wallet.from_parts scan_height network (HashMap.extend ∅ entries) ∧
        entries.length = announced_coins bytes ∧
        ∀ entry ∈ entries, entry.2.script_pubkey.length = SCRIPT_LEN := by
  simp only [wallet_from_bytes] at hload
  split_ifs at hload with _ _ _ hlength <;> simp only [std.result.bind_eq_ok_iff] at hload
  · obtain ⟨network, _, entries, hentries, hwallet⟩ := hload
    cases hwallet
    obtain ⟨hcount, hscripts⟩ := decode_records_eq_ok hentries
    exact ⟨hlength, _, network, entries, rfl, hcount, hscripts⟩
  · obtain ⟨_, _, hrefused⟩ := hload
    cases hrefused

theorem decode_network_encode_network (network : silentpayments.Network) :
    decode_network (encode_network network) = .ok network := by
  cases network <;> decide

/-- Reading a record back gives the coin it was written from. -/
theorem decode_record_encode_record {outpoint : OutPoint} {coin : Coin}
    {record : List.Vector UInt8 RECORD_LEN} (hrecord : encode_record outpoint coin = .ok record) :
    decode_record record = .ok (outpoint, coin) := by
  simp only [encode_record] at hrecord
  split at hrecord
  · rename_i hscript
    obtain rfl := Except.ok.inj hrecord
    obtain ⟨value, script_pubkey, tweak, label, block_height, spent_by⟩ := coin
    -- each field is read where it was written and no later copy overlaps it
    cases label <;> cases spent_by <;>
      simp (disch := decide) only [decode_record, decode_label, decode_spent_by, encode_label,
        encode_spent_by,
        slice_copy_disjoint, slice_copy_same, head_singleton, toList_from_list,
          of_le_u32, of_le_u64,
        Scalar.from_be_bytes_to_be_bytes] <;> rfl
  · cases hrecord

theorem decode_records_flatMap {records : List (List.Vector UInt8 RECORD_LEN)}
    {entries : List (OutPoint × Coin)}
    (hrecords : List.Forall₂ (fun record entry => decode_record record = .ok entry) records entries)
    {coin_count : Nat} (hcount : entries.length = coin_count)
    (hlength : (records.flatMap List.Vector.toList).length = coin_count * RECORD_LEN) :
    decode_records coin_count (records.flatMap List.Vector.toList) hlength = .ok entries := by
  subst hcount
  induction hrecords with
  | nil => rfl
  | @cons record entry records entries hrecord _ ih =>
    have htake : ((record :: records).flatMap List.Vector.toList).take RECORD_LEN =
      record.toList := by
      rw [List.flatMap_cons, List.take_left' (by simp)]
    have hdrop : ((record :: records).flatMap List.Vector.toList).drop RECORD_LEN =
        records.flatMap List.Vector.toList := by
      rw [List.flatMap_cons, List.drop_left' (by simp)]
    simp only [List.length_cons, decode_records, htake, hdrop]
    rw [show from_list record.toList record.toList_length = record from rfl, hrecord, ih]
    rfl

/-- Reading a file with a good header and the announced length. -/
theorem wallet_from_bytes_eq (network : silentpayments.Network) (scan_height : UInt32)
    {bytes records : List UInt8} {coin_count : Nat} (hmagic : bytes.take 4 = MAGIC)
    (hversion : bytes[4]? = some VERSION) (hnetwork : bytes[5]? = some (encode_network network))
    (hheight : UInt32.ofNat (of_le ((bytes.drop 6).take 4)) = scan_height)
    (hcount : (UInt32.ofNat (of_le ((bytes.drop 10).take 4))).toNat = coin_count)
    (hdrop : bytes.drop (HEADER_LEN + COUNT_LEN) = records)
    (hlength : bytes.length = HEADER_LEN + COUNT_LEN + coin_count * RECORD_LEN)
    (hrecords : records.length = coin_count * RECORD_LEN) :
    wallet_from_bytes bytes = (decode_records coin_count records hrecords).map fun entries =>
      Wallet.from_parts scan_height network (HashMap.extend ∅ entries) := by
  have hheader : ¬ bytes.length < HEADER_LEN + COUNT_LEN := by
    rw [hlength]
    exact Nat.not_lt.mpr (Nat.le_add_right _ _)
  obtain ⟨_, hversion⟩ := List.getElem?_eq_some_iff.mp hversion
  obtain ⟨_, hnetwork⟩ := List.getElem?_eq_some_iff.mp hnetwork
  subst hheight hcount hdrop
  rw [wallet_from_bytes, dif_neg hheader, if_neg (not_not.mpr hmagic),
    if_neg (not_not.mpr hversion), hnetwork,
    decode_network_encode_network]
  simp only [bind, Except.bind, dif_pos hlength]
  cases decode_records _ (bytes.drop (HEADER_LEN + COUNT_LEN)) hrecords <;> rfl

/-- What a successful save writes: the header and one record per coin. -/
theorem wallet_to_bytes_eq_some_iff {wallet : Wallet} {bytes : List UInt8} :
    wallet_to_bytes wallet = some (.ok bytes) ↔
      wallet.utxos.entries.length < 2 ^ 32 ∧ ∃ records,
        List.Forall₂ (fun entry record => encode_record entry.1 entry.2 = .ok record)
          wallet.utxos.entries records ∧
        bytes = MAGIC ++ [VERSION, encode_network wallet.network] ++
          (to_le 4 wallet.scan_height.toNat).toList ++
          (to_le 4 wallet.utxos.entries.length).toList ++ records.flatMap List.Vector.toList := by
  simp only [← std.result.mapM_eq_ok_iff, wallet_to_bytes]
  split
  · rename_i hcount
    cases wallet.utxos.entries.mapM fun entry => encode_record entry.1 entry.2 with
    | error e => simp [bind, Except.bind]
    | ok records =>
      simp only [bind, Except.bind, pure, Except.pure, Option.some.injEq, Except.ok.injEq,
        exists_eq_left', hcount,
        true_and]
      exact eq_comm
  · rename_i hcount
    simp only [reduceCtorEq, hcount, false_and]

theorem wallet_to_bytes_eq_none_iff {wallet : Wallet} :
    wallet_to_bytes wallet = none ↔ ¬ wallet.utxos.entries.length < 2 ^ 32 := by
  simp only [wallet_to_bytes]
  split <;> simp_all only [reduceCtorEq, not_true, not_false_iff]

theorem exists_encode_record_iff {outpoint : OutPoint} {coin : Coin} :
    (∃ record, encode_record outpoint coin = .ok record) ↔ coin.script_pubkey.length =
      SCRIPT_LEN := by
  rw [encode_record]
  split
  · rename_i hscript
    simp only [Except.ok.injEq, exists_eq', hscript]
  · rename_i hscript
    simp only [reduceCtorEq, exists_false, hscript]

/-- Saving succeeds exactly where the count fits and every script has the
    length of a taproot script. -/
theorem exists_wallet_to_bytes_iff {wallet : Wallet} :
    (∃ bytes, wallet_to_bytes wallet = some (.ok bytes)) ↔
      wallet.utxos.entries.length < 2 ^ 32 ∧
        ∀ outpoint coin, wallet.utxos.lookup outpoint = some coin →
          coin.script_pubkey.length = SCRIPT_LEN := by
  have hrecords := std.result.exists_mapM_eq_ok_iff
    (fun entry : Σ _ : OutPoint, Coin => encode_record entry.1 entry.2)
    wallet.utxos.entries
  simp only [std.result.mapM_eq_ok_iff, exists_encode_record_iff] at hrecords
  simp only [wallet_to_bytes_eq_some_iff]
  constructor
  · rintro ⟨_, hcount, records, hencoded, _⟩
    refine ⟨hcount, ?_⟩
    intro outpoint coin hcoin
    exact hrecords.mp ⟨records, hencoded⟩ ⟨outpoint, coin⟩ (AList.mem_lookup_iff.mp hcoin)
  · rintro ⟨hcount, hscripts⟩
    obtain ⟨records, hencoded⟩ := hrecords.mpr fun entry hentry =>
      hscripts entry.1 entry.2 (AList.mem_lookup_iff.mpr hentry)
    exact ⟨_, hcount, records, hencoded, rfl⟩

/-- What is saved is loaded: the height, the network and every coin, without
    keys and reservations. -/
theorem wallet_from_bytes_to_bytes {wallet : Wallet} {bytes : List UInt8}
    (hbytes : wallet_to_bytes wallet = some (.ok bytes)) :
    ∃ utxos, wallet_from_bytes bytes =
      .ok (Wallet.from_parts wallet.scan_height wallet.network utxos) ∧
      ∀ outpoint, utxos.lookup outpoint = wallet.utxos.lookup outpoint := by
  obtain ⟨hcount, records, hrecords, rfl⟩ := wallet_to_bytes_eq_some_iff.mp hbytes
  refine ⟨HashMap.extend ∅ (wallet.utxos.entries.map fun entry => (entry.1, entry.2)), ?_,
    wallet.utxos.lookup_extend_entries⟩
  have hlength : (records.flatMap List.Vector.toList).length = wallet.utxos.entries.length *
    RECORD_LEN := by
    simp [hrecords.length_eq, List.length_flatMap]
  have hdecoded : List.Forall₂ (fun record entry => decode_record record = .ok entry) records
      (wallet.utxos.entries.map fun entry => (entry.1, entry.2)) := by
    rw [List.forall₂_map_right_iff]
    exact hrecords.flip.imp fun _ _ => decode_record_encode_record
  have hword : (UInt32.ofNat (of_le (to_le 4 wallet.utxos.entries.length).toList)).toNat =
      wallet.utxos.entries.length := by
    rw [of_le_to_le, Nat.mod_eq_of_lt (by simpa using hcount)]
    exact UInt32.toNat_ofNat_of_lt' hcount
  rw [wallet_from_bytes_eq wallet.network wallet.scan_height ?magic ?version ?network ?height ?count
    ?records ?length
    hlength, decode_records_flatMap hdecoded (by simp) hlength]
  case height => exact of_le_u32 wallet.scan_height
  case count => exact hword
  case length =>
    rw [List.length_append, hlength]
    congr 1
  all_goals rfl

end wallet.wallet_store
