import KernelNode.Wallet.Sending
import KernelNode.Wallet.Store

open bitcoin secp256k1 silentpayments std.collections

namespace wallet

/-- Two wallets with the same fields, their coin maps compared as maps. -/
structure Wallet.Same (self other : Wallet) : Prop where
  scan_height : self.scan_height = other.scan_height
  keys : self.keys = other.keys
  spend_key : self.spend_key = other.spend_key
  spend_secret : self.spend_secret = other.spend_secret
  network : self.network = other.network
  utxos : ∀ outpoint, self.utxos.lookup outpoint = other.utxos.lookup outpoint
  reserved : self.reserved = other.reserved

/-- What a file keeps of a wallet: neither keys nor reservations. -/
def Wallet.stored (self : Wallet) : Wallet :=
  Wallet.from_parts self.scan_height self.network self.utxos

namespace wallet_store

theorem loaded_same_stored {wallet : Wallet} {bytes : List UInt8}
    (hbytes : wallet_to_bytes wallet = some (.ok bytes)) :
    ∃ loaded, wallet_from_bytes bytes = .ok loaded ∧ wallet.stored.Same loaded := by
  obtain ⟨utxos, hload, hutxos⟩ := wallet_from_bytes_to_bytes hbytes
  exact ⟨_, hload, rfl, rfl, rfl, rfl, rfl, fun outpoint => (hutxos outpoint).symm, rfl⟩

/-- Of two accepted files neither is a part of the other: they agree on the
    header, which fixes the length. -/
theorem accepted_prefix_eq {bytes other : List UInt8} {wallet wallet' : Wallet}
    (hload : wallet_from_bytes bytes = .ok wallet) (hother : wallet_from_bytes other = .ok wallet')
    (hpart : bytes <+: other) : bytes = other := by
  have hlength := (wallet_from_bytes_eq_ok hload).1
  have hlength' := (wallet_from_bytes_eq_ok hother).1
  have hcount : announced_coins bytes = announced_coins other := by
    obtain ⟨rest, rfl⟩ := hpart
    have hheader : HEADER_LEN + COUNT_LEN ≤ bytes.length := by omega
    simp only [announced_coins, List.take_drop]
    rw [List.take_append_of_le_length hheader]
  exact hpart.eq_of_length (by rw [hlength, hlength', hcount])

/-- A file that is accepted can be written again, and reading that gives the
    same wallet. -/
theorem accepted_saved_again {bytes : List UInt8} {loaded : Wallet}
    (hload : wallet_from_bytes bytes = .ok loaded) :
    ∃ again reloaded, wallet_to_bytes loaded = some (.ok again) ∧
      wallet_from_bytes again = .ok reloaded ∧ loaded.Same reloaded := by
  obtain ⟨_, scan_height, network, entries, rfl, hcount, hscripts⟩ := wallet_from_bytes_eq_ok hload
  have hfits : (HashMap.extend ∅ entries).entries.length < 2 ^ 32 := by
    have hextend := HashMap.length_extend_le ∅ entries
    have hword := (UInt32.ofNat (std.bytes.of_le ((bytes.drop HEADER_LEN).take COUNT_LEN))).toNat_lt
    simp only [announced_coins] at hcount
    simp only [AList.empty_entries, List.length_nil] at hextend
    omega
  have hencodable : ∀ outpoint coin,
      (HashMap.extend ∅ entries).lookup outpoint = some coin →
        coin.script_pubkey.length = SCRIPT_LEN := by
    intro outpoint coin hcoin
    rw [HashMap.lookup_extend, AList.lookup_empty, Option.or_none] at hcoin
    exact hscripts (outpoint, coin) (HashMap.last_value_mem hcoin)
  obtain ⟨again, hagain⟩ := exists_wallet_to_bytes_iff.mpr
    (⟨hfits, hencodable⟩ : (Wallet.from_parts scan_height network
      (HashMap.extend ∅ entries)).utxos.entries.length < 2 ^ 32 ∧ _)
  obtain ⟨reloaded, hreload, hsame⟩ := loaded_same_stored hagain
  exact ⟨again, reloaded, hagain, hreload, hsame⟩

/-- A wallet is refused exactly where some script does not have the length of a
    taproot script. -/
theorem wallet_to_bytes_error_iff {wallet : Wallet}
    (hcount : wallet.utxos.entries.length < 2 ^ 32) :
    (∃ e, wallet_to_bytes wallet = some (.error e)) ↔
      ∃ outpoint coin, wallet.utxos.lookup outpoint = some coin ∧
        coin.script_pubkey.length ≠ SCRIPT_LEN := by
  constructor
  · rintro ⟨e, herror⟩
    by_contra hall
    push Not at hall
    obtain ⟨bytes, hbytes⟩ := exists_wallet_to_bytes_iff.mpr ⟨hcount, hall⟩
    rw [herror] at hbytes
    cases hbytes
  · rintro ⟨outpoint, coin, hcoin, hscript⟩
    cases hresult : wallet_to_bytes wallet with
    | none => exact absurd hcount (wallet_to_bytes_eq_none_iff.mp hresult)
    | some result =>
      cases result with
      | error e => exact ⟨e, rfl⟩
      | ok bytes =>
        obtain ⟨_, hall⟩ := exists_wallet_to_bytes_iff.mp ⟨bytes, hresult⟩
        exact absurd (hall outpoint coin hcoin) hscript

/-- The wallet file: what can be written is read back whatever the order of the
    coins in it, no part and no extension of a written file is accepted, and
    what is accepted can be written again. -/
theorem wallet_file_round_trip :
    (∀ wallet : Wallet, wallet.utxos.entries.length < 2 ^ 32 →
      ((∃ e, wallet_to_bytes wallet = some (.error e)) ↔
        ∃ outpoint coin, wallet.utxos.lookup outpoint = some coin ∧
          coin.script_pubkey.length ≠ SCRIPT_LEN) ∧
      ((∀ outpoint coin, wallet.utxos.lookup outpoint = some coin →
          coin.script_pubkey.length = SCRIPT_LEN) →
        ∀ utxos : HashMap OutPoint Coin, utxos.entries.Perm wallet.utxos.entries →
          ∃ bytes, wallet_to_bytes { wallet with utxos } = some (.ok bytes) ∧
            (∃ loaded, wallet_from_bytes bytes = .ok loaded ∧ wallet.stored.Same loaded) ∧
            ∀ other, other ≠ bytes → other <+: bytes ∨ bytes <+: other →
              ∃ e, wallet_from_bytes other = .error e)) ∧
    ∀ bytes loaded, wallet_from_bytes bytes = .ok loaded →
      ∃ again reloaded, wallet_to_bytes loaded = some (.ok again) ∧
        wallet_from_bytes again = .ok reloaded ∧ loaded.Same reloaded := by
  refine ⟨fun wallet hcount => ⟨wallet_to_bytes_error_iff hcount, ?_⟩,
    fun bytes loaded => accepted_saved_again⟩
  intro hscripts utxos hperm
  have hlookup : ∀ outpoint, utxos.lookup outpoint = wallet.utxos.lookup outpoint :=
    fun outpoint => AList.perm_lookup hperm
  obtain ⟨bytes, hbytes⟩ : ∃ bytes, wallet_to_bytes { wallet with utxos } = some (.ok bytes) := by
    refine exists_wallet_to_bytes_iff.mpr ⟨hperm.length_eq ▸ hcount, ?_⟩
    intro outpoint coin hcoin
    exact hscripts outpoint coin ((hlookup outpoint).symm.trans hcoin)
  obtain ⟨loaded, hload, hsame⟩ := loaded_same_stored hbytes
  obtain ⟨hheight, hkeys, hspend, hsecret, hnetwork, hutxos, hreserved⟩ := hsame
  refine ⟨bytes, hbytes, ⟨loaded, hload, hheight, hkeys, hspend, hsecret, hnetwork, ?_,
    hreserved⟩, ?_⟩
  · intro outpoint
    exact (hlookup outpoint).symm.trans (hutxos outpoint)
  · intro other hne hpart
    cases hother : wallet_from_bytes other with
    | error e => exact ⟨e, rfl⟩
    | ok wallet' =>
      exfalso
      rcases hpart with hbefore | hafter
      · exact hne (accepted_prefix_eq hother hload hbefore)
      · exact hne (accepted_prefix_eq hload hother hafter).symm

/-- A spent coin with a label, and an unspent one without. -/
def regtest_stored_coins : List (Sigma fun _ : OutPoint => Coin) := [
  ⟨⟨regtest.txid 0xaa, 0⟩, { regtest.coin 7 ⟨std.bytes.to_be 32 8⟩ with
    label := some 5
    spent_by := some ⟨regtest.txid 0xbb, 3⟩ }⟩,
  ⟨⟨regtest.txid 0xab, 1⟩, regtest.coin 9 ⟨std.bytes.to_be 32 10⟩⟩]

/-- The two coins are read back from a file that lists them the other way
    round, and the file with one more byte is refused. -/
theorem wallet_file_round_trip_two_coins :
    ∃ bytes loaded, wallet_to_bytes (regtest.funded_wallet regtest_stored_coins.reverse) =
        some (.ok bytes) ∧
      wallet_from_bytes bytes = .ok loaded ∧
      (regtest.funded_wallet regtest_stored_coins).stored.Same loaded ∧
      ∃ e, wallet_from_bytes (bytes ++ [0]) = .error e := by
  have hscripts : ∀ outpoint coin,
      (regtest.funded_wallet regtest_stored_coins).utxos.lookup outpoint = some coin →
        coin.script_pubkey.length = SCRIPT_LEN := by
    intro outpoint coin hcoin
    have hall : ∀ entry ∈ (regtest.funded_wallet regtest_stored_coins).utxos.entries,
        entry.2.script_pubkey.length = SCRIPT_LEN := by decide
    exact hall ⟨outpoint, coin⟩ (AList.mem_lookup_iff.mp hcoin)
  have hperm : (regtest.funded_wallet regtest_stored_coins.reverse).utxos.entries.Perm
      (regtest.funded_wallet regtest_stored_coins).utxos.entries := by decide
  obtain ⟨bytes, hbytes, ⟨loaded, hload, hsame⟩, hrefused⟩ :=
    (wallet_file_round_trip.1 (regtest.funded_wallet regtest_stored_coins) (by decide)).2 hscripts
      (regtest.funded_wallet regtest_stored_coins.reverse).utxos hperm
  exact ⟨bytes, loaded, hbytes, hload, hsame,
    hrefused (bytes ++ [0]) (by simp) (.inr (List.prefix_append _ _))⟩

end wallet_store

end wallet
