import Mathlib.Algebra.BigOperators.Group.List.Basic
import Mathlib.Algebra.Order.BigOperators.Group.List
import Mathlib.Algebra.Order.Group.Nat
import Mathlib.Algebra.Order.Ring.Int
import KernelNode.Wallet.Reorg

open bitcoin secp256k1 silentpayments std.collections transition

namespace bitcoin

/-- Addition of amounts, which panics on overflow, here `none`. -/
def Amount.checked_add (left right : Amount) : Option Amount :=
  if left.sat.toNat + right.sat.toNat < UInt64.size then some ⟨left.sat + right.sat⟩ else none

end bitcoin

namespace wallet

inductive HistoryEntry where
  | Received (outpoint : OutPoint) (value : Amount) (block_height : UInt32)
  | Spent (outpoint : OutPoint) (value : Amount) (spent_at : UInt32)
deriving DecidableEq

/-- The height by which the history is sorted. -/
def HistoryEntry.height : HistoryEntry → UInt32
  | .Received _ _ block_height => block_height
  | .Spent _ _ spent_at => spent_at

/-- The one or two entries of a coin. -/
def coin_entries (entry : Σ _ : OutPoint, Coin) : List HistoryEntry :=
  .Received entry.1 entry.2.value entry.2.block_height ::
    (entry.2.spent_by.map fun s => .Spent entry.1 entry.2.value s.block_height).toList

/-- The entries of all coins, in the order in which the map is iterated, sorted
    by height with a stable sort. -/
def Wallet.history (self : Wallet) (order : Reorder (Σ _ : OutPoint, Coin)) : List HistoryEntry :=
  ((order.apply self.utxos.entries).flatMap coin_entries).mergeSort fun a b => a.height ≤ b.height

/-- The sum of the unspent values, in the order in which the map is iterated. -/
def Wallet.balance (self : Wallet) (order : Reorder Coin) : Option Amount :=
  (((order.apply self.utxos.values).filter fun u => u.spent_by.isNone).map Coin.value).foldlM
    Amount.checked_add ⟨0⟩

namespace HistoryEntry

def is_received (outpoint : OutPoint) : HistoryEntry → Bool
  | .Received received _ _ => received = outpoint
  | .Spent _ _ _ => false

def is_spent (outpoint : OutPoint) : HistoryEntry → Bool
  | .Received _ _ _ => false
  | .Spent spent _ _ => spent = outpoint

/-- What the entry adds to the total. -/
def delta : HistoryEntry → Int
  | .Received _ value _ => value.sat.toNat
  | .Spent _ value _ => -value.sat.toNat

/-- Received minus spent values. -/
def total (entries : List HistoryEntry) : Int := (entries.map delta).sum

/-- What was received, by outpoint. -/
def received : HistoryEntry → Option (OutPoint × Amount)
  | .Received outpoint value _ => some (outpoint, value)
  | .Spent _ _ _ => none

def spent : HistoryEntry → Option (OutPoint × Amount)
  | .Received _ _ _ => none
  | .Spent outpoint value _ => some (outpoint, value)

end HistoryEntry

/-- The sum of amounts by outpoint. -/
def amounts_sum (amounts : List (OutPoint × Amount)) : Nat :=
  (amounts.map fun amount => amount.2.sat.toNat).sum

/-- The total of a history is what it receives minus what it spends. -/
theorem HistoryEntry.total_eq (entries : List HistoryEntry) :
    total entries = (amounts_sum (entries.filterMap received) : Int) -
      amounts_sum (entries.filterMap spent) := by
  induction entries with
  | nil => rfl
  | cons entry entries ih =>
    have hcons : total (entry :: entries) = entry.delta + total entries := List.sum_cons
    rw [hcons, ih]
    cases entry with
    | Received outpoint value block_height =>
      simp only [List.filterMap_cons, received, spent, amounts_sum, List.map_cons, List.sum_cons,
        delta]
      omega
    | Spent outpoint value spent_at =>
      simp only [List.filterMap_cons, received, spent, amounts_sum, List.map_cons, List.sum_cons,
        delta]
      omega

/-- Different amounts that are all among others sum up to no more than those. -/
theorem amounts_sum_le {part whole : List (OutPoint × Amount)} (hnodup : part.Nodup)
    (hsubset : part ⊆ whole) : amounts_sum part ≤ amounts_sum whole := by
  obtain ⟨sub, hperm, hsub⟩ := List.subperm_of_subset hnodup hsubset
  rw [amounts_sum, ← (hperm.map _).sum_eq]
  exact (hsub.map _).sum_le_sum fun _ _ => Nat.zero_le _

section

variable {entries : List (Σ _ : OutPoint, Coin)}

/-- Entries picked out by an outpoint are those of the coin at the outpoint. -/
theorem filter_flatMap_of_key {E : Type} {f : (Σ _ : OutPoint, Coin) → List E} {p : E → Bool}
    {outpoint : OutPoint} (hkey : ∀ entry, ∀ item ∈ f entry, p item = true → entry.1 = outpoint)
    (hnodup : entries.NodupKeys) :
    (entries.flatMap f).filter p =
      ((entries.dlookup outpoint).map fun coin => (f ⟨outpoint, coin⟩).filter p).getD [] := by
  induction entries with
  | nil => rfl
  | cons entry entries ih =>
    obtain ⟨hfresh, hrest⟩ := List.nodupKeys_cons.mp hnodup
    rw [List.flatMap_cons, List.filter_append, ih hrest]
    by_cases hentry : entry.1 = outpoint
    · obtain ⟨_, coin⟩ := entry
      dsimp only at hentry hfresh
      subst hentry
      rw [List.dlookup_eq_none.mpr hfresh, List.dlookup_cons_eq]
      simp
    · have hnone : (f entry).filter p = [] :=
        List.filter_eq_nil_iff.mpr fun item hitem hp => hentry (hkey entry item hitem hp)
      rw [hnone, List.nil_append, List.dlookup_cons_ne _ _ (Ne.symm hentry)]

theorem mem_coin_entries {entry : Σ _ : OutPoint, Coin} {item : HistoryEntry} :
    item ∈ coin_entries entry ↔
      item = .Received entry.1 entry.2.value entry.2.block_height ∨
      ∃ s, entry.2.spent_by = some s ∧ item = .Spent entry.1 entry.2.value s.block_height := by
  simp only [coin_entries, List.mem_cons, Option.mem_toList, Option.map_eq_some_iff]
  tauto

/-- No entry comes twice. -/
theorem nodup_flatMap_coin_entries (hnodup : entries.NodupKeys) :
    (entries.flatMap coin_entries).Nodup := by
  refine List.nodup_flatMap.mpr ⟨?_, ?_⟩
  · intro entry _
    cases hspent : entry.2.spent_by <;> simp [coin_entries, hspent]
  · refine (List.nodupKeys_iff_pairwise.mp hnodup).imp ?_
    intro first second hkeys item hfirst hsecond
    rw [mem_coin_entries] at hfirst hsecond
    rcases hfirst with rfl | ⟨_, _, rfl⟩ <;> rcases hsecond with heq | ⟨_, _, heq⟩
    · exact hkeys (HistoryEntry.Received.inj heq).1
    · cases heq
    · cases heq
    · exact hkeys (HistoryEntry.Spent.inj heq).1

theorem filterMap_spent_flatMap :
    (entries.flatMap coin_entries).filterMap HistoryEntry.spent =
      entries.filterMap fun entry => entry.2.spent_by.map fun _ => (entry.1, entry.2.value) := by
  induction entries with
  | nil => rfl
  | cons entry entries ih =>
    rw [List.flatMap_cons, List.filterMap_append, ih]
    cases hspent : entry.2.spent_by with
    | none => simp [coin_entries, hspent, HistoryEntry.spent]
    | some s =>
      have hone : (coin_entries entry).filterMap HistoryEntry.spent =
          [(entry.1, entry.2.value)] := by
        simp only [coin_entries, hspent]
        rfl
      simp [hone, hspent]

/-- The sum of the unspent values. -/
def unspent_sum (coins : List Coin) : Nat :=
  ((coins.filter fun u => u.spent_by.isNone).map fun u => u.value.sat.toNat).sum

/-- The entries of all coins add up to what is unspent. -/
theorem total_flatMap (entries : List (Σ _ : OutPoint, Coin)) :
    HistoryEntry.total (entries.flatMap coin_entries) =
      unspent_sum (entries.map fun entry => entry.2) := by
  induction entries with
  | nil => rfl
  | cons entry entries ih =>
    have hsplit : HistoryEntry.total ((entry :: entries).flatMap coin_entries) =
        HistoryEntry.total (coin_entries entry) +
          HistoryEntry.total (entries.flatMap coin_entries) := by
      simp [HistoryEntry.total]
    rw [hsplit, ih]
    cases hspent : entry.2.spent_by <;>
      simp [coin_entries, HistoryEntry.total, HistoryEntry.delta, unspent_sum, hspent]

end

/-- Adding up amounts gives their sum, or a panic where that is no amount. -/
theorem foldlM_checked_add_eq_some_iff (amounts : List Amount) (first amount : Amount) :
    amounts.foldlM Amount.checked_add first = some amount ↔
      amount.sat.toNat = first.sat.toNat + (amounts.map fun value => value.sat.toNat).sum := by
  induction amounts generalizing first with
  | nil =>
    obtain ⟨sat⟩ := amount
    obtain ⟨first⟩ := first
    simp only [List.foldlM_nil, Option.pure_def, Option.some.injEq, Amount.mk.injEq, List.map_nil,
      List.sum_nil, Nat.add_zero, UInt64.toNat_inj]
    exact eq_comm
  | cons value amounts ih =>
    simp only [List.foldlM_cons, Amount.checked_add, List.map_cons, List.sum_cons]
    split
    · rename_i hfits
      have hsum : (first.sat + value.sat).toNat = first.sat.toNat + value.sat.toNat := by
        rw [UInt64.toNat_add]
        exact Nat.mod_eq_of_lt hfits
      simp only [Option.bind_eq_bind, Option.bind_some, ih, hsum]
      omega
    · rename_i hfits
      have hamount := amount.sat.toNat_lt
      simp only [Option.bind_eq_bind, Option.bind_none, reduceCtorEq, false_iff]
      simp only [UInt64.size] at hfits
      omega

namespace Wallet

variable (self : Wallet) (order : Reorder (Σ _ : OutPoint, Coin))

theorem balance_eq_some_iff (value_order : Reorder Coin) (amount : Amount) :
    self.balance value_order = some amount ↔ amount.sat.toNat = unspent_sum self.utxos.values := by
  have hperm := ((value_order.perm self.utxos.values).filter fun u => u.spent_by.isNone).map
    fun u => u.value.sat.toNat
  rw [balance, foldlM_checked_add_eq_some_iff, List.map_map, unspent_sum, ← hperm.sum_eq]
  simp [Function.comp_def]

theorem nodupKeys_apply : (order.apply self.utxos.entries).NodupKeys :=
  (List.perm_nodupKeys (order.perm _)).mpr self.utxos.nodupKeys

theorem dlookup_apply (outpoint : OutPoint) :
    (order.apply self.utxos.entries).dlookup outpoint = self.utxos.lookup outpoint :=
  List.perm_dlookup outpoint (nodupKeys_apply self order) (order.perm _)

theorem history_perm : (self.history order).Perm
    ((order.apply self.utxos.entries).flatMap coin_entries) :=
  List.mergeSort_perm _ _

theorem history_nodup : (self.history order).Nodup :=
  (history_perm self order).nodup_iff.mpr
    (nodup_flatMap_coin_entries (nodupKeys_apply self order))

theorem height_le_trans (a b c : HistoryEntry) (hab : decide (a.height ≤ b.height) = true)
    (hbc : decide (b.height ≤ c.height) = true) : decide (a.height ≤ c.height) = true := by
  simp only [decide_eq_true_eq] at hab hbc ⊢
  exact UInt32.le_trans hab hbc

theorem height_le_total (a b : HistoryEntry) :
    (decide (a.height ≤ b.height) || decide (b.height ≤ a.height)) = true := by
  simpa using UInt32.le_total a.height b.height

theorem history_sorted : (self.history order).Pairwise fun a b => a.height ≤ b.height := by
  have hsorted := List.pairwise_mergeSort height_le_trans height_le_total
    ((order.apply self.utxos.entries).flatMap coin_entries)
  exact hsorted.imp of_decide_eq_true

variable {self order}

/-- A property of entries that only those of one outpoint have picks at most
    the entries of the coin there out of the history. -/
theorem history_filter {p : HistoryEntry → Bool} (outpoint : OutPoint) {item : Option HistoryEntry}
    (hkey : ∀ entry, ∀ item ∈ coin_entries entry, p item = true → entry.1 = outpoint)
    (hcoin : ((self.utxos.lookup outpoint).map fun coin =>
      (coin_entries ⟨outpoint, coin⟩).filter p).getD [] = item.toList) :
    (self.history order).filter p = item.toList := by
  have hperm := (history_perm self order).filter p
  rw [filter_flatMap_of_key hkey (nodupKeys_apply self order), dlookup_apply, hcoin] at hperm
  cases item with
  | none => exact hperm.eq_nil
  | some item => exact List.perm_singleton.mp hperm

theorem history_received (outpoint : OutPoint) :
    (self.history order).filter (HistoryEntry.is_received outpoint) =
      ((self.utxos.lookup outpoint).map fun coin =>
        HistoryEntry.Received outpoint coin.value coin.block_height).toList := by
  refine history_filter outpoint ?_ ?_
  · intro entry item hitem hp
    rcases mem_coin_entries.mp hitem with rfl | ⟨_, _, rfl⟩
    · exact of_decide_eq_true hp
    · cases hp
  · cases self.utxos.lookup outpoint with
    | none => rfl
    | some coin => cases hspent : coin.spent_by <;>
        simp [coin_entries, hspent, HistoryEntry.is_received]

theorem history_spent (outpoint : OutPoint) :
    (self.history order).filter (HistoryEntry.is_spent outpoint) =
      ((self.utxos.lookup outpoint).bind fun coin => coin.spent_by.map fun s =>
        HistoryEntry.Spent outpoint coin.value s.block_height).toList := by
  refine history_filter outpoint ?_ ?_
  · intro entry item hitem hp
    rcases mem_coin_entries.mp hitem with rfl | ⟨_, _, rfl⟩
    · cases hp
    · exact of_decide_eq_true hp
  · cases self.utxos.lookup outpoint with
    | none => rfl
    | some coin => cases hspent : coin.spent_by <;>
        simp [coin_entries, hspent, HistoryEntry.is_spent]

/-- No coin is spent below the height at which it was received. -/
def SpendsRise (self : Wallet) : Prop :=
  ∀ outpoint coin s, self.utxos.lookup outpoint = some coin → coin.spent_by = some s →
    coin.block_height ≤ s.block_height

theorem mem_entries_of_mem_apply {entry : Σ _ : OutPoint, Coin}
    (hentry : entry ∈ order.apply self.utxos.entries) :
    self.utxos.lookup entry.1 = some entry.2 := by
  rw [← dlookup_apply self order]
  exact List.mem_dlookup (nodupKeys_apply self order) hentry

/-- The sort is stable, so that a coin's entries keep their order also when they
    have the same height. -/
theorem history_before (order : Reorder (Σ _ : OutPoint, Coin)) (hrise : self.SpendsRise)
    {outpoint : OutPoint} {coin : Coin} {s : SpentBy}
    (hcoin : self.utxos.lookup outpoint = some coin) (hspent : coin.spent_by = some s) :
    [HistoryEntry.Received outpoint coin.value coin.block_height,
      HistoryEntry.Spent outpoint coin.value s.block_height].Sublist (self.history order) := by
  have hheight := hrise outpoint coin s hcoin hspent
  rw [← dlookup_apply self order] at hcoin
  have hentry := List.of_mem_dlookup hcoin
  refine List.pair_sublist_mergeSort height_le_trans height_le_total (decide_eq_true hheight) ?_
  have hentries : coin_entries ⟨outpoint, coin⟩ =
      [HistoryEntry.Received outpoint coin.value coin.block_height,
        HistoryEntry.Spent outpoint coin.value s.block_height] := by
    simp only [coin_entries, hspent]
    rfl
  rw [← hentries]
  exact List.sublist_flatten_of_mem (List.mem_map_of_mem hentry)

/-- A part of the history from its start that has a coin's spent entry has its
    received entry. -/
theorem history_take_received (hrise : self.SpendsRise) {n : Nat} {outpoint : OutPoint}
    {value : Amount} {spent_at : UInt32}
    (hspent : HistoryEntry.Spent outpoint value spent_at ∈ (self.history order).take n) :
    ∃ block_height, HistoryEntry.Received outpoint value block_height ∈
      (self.history order).take n := by
  have hitem := (history_perm self order).subset (List.mem_of_mem_take hspent)
  obtain ⟨entry, hentry, hitem⟩ := List.mem_flatMap.mp hitem
  rcases mem_coin_entries.mp hitem with heq | ⟨s, hs, heq⟩
  · cases heq
  cases heq
  have hbefore := history_before order hrise (mem_entries_of_mem_apply hentry) hs
  have hnodup := history_nodup self order
  rw [← List.take_append_drop n (self.history order)] at hbefore hnodup
  refine ⟨entry.2.block_height, ?_⟩
  obtain ⟨front, back, hsplit, hfront, hback⟩ := List.sublist_append_iff.mp hbefore
  cases front with
  | nil =>
    -- then the spent entry comes again in the rest
    rw [List.nil_append] at hsplit
    have hagain : HistoryEntry.Spent entry.1 entry.2.value s.block_height ∈
        (self.history order).drop n := hback.subset (by simp [← hsplit])
    exact absurd hagain ((List.nodup_append'.mp hnodup).2.2 hspent)
  | cons received front =>
    obtain ⟨rfl, _⟩ := List.cons.inj hsplit
    exact hfront.subset (by simp)

theorem history_spent_nodup (n : Nat) :
    (((self.history order).take n).filterMap HistoryEntry.spent).Nodup := by
  have hsub := ((self.history order).take_sublist n).filterMap HistoryEntry.spent
  refine hsub.nodup ?_
  rw [((history_perm self order).filterMap HistoryEntry.spent).nodup_iff, filterMap_spent_flatMap]
  refine List.pairwise_filterMap.mpr
    ((List.nodupKeys_iff_pairwise.mp (nodupKeys_apply self order)).imp ?_)
  intro first second hkeys one hone two htwo heq
  obtain ⟨_, _, rfl⟩ := Option.map_eq_some_iff.mp hone
  obtain ⟨_, _, rfl⟩ := Option.map_eq_some_iff.mp htwo
  exact hkeys (Prod.mk.inj heq).1

theorem history_total_nonneg (hrise : self.SpendsRise) (n : Nat) :
    0 ≤ HistoryEntry.total ((self.history order).take n) := by
  have hle : amounts_sum (((self.history order).take n).filterMap HistoryEntry.spent) ≤
      amounts_sum (((self.history order).take n).filterMap HistoryEntry.received) := by
    refine amounts_sum_le (history_spent_nodup n) ?_
    rintro ⟨outpoint, value⟩ hpair
    obtain ⟨entry, hentry, hpair⟩ := List.mem_filterMap.mp hpair
    cases entry with
    | Received => cases hpair
    | Spent =>
      cases hpair
      obtain ⟨block_height, hreceived⟩ := history_take_received hrise hentry
      exact List.mem_filterMap.mpr ⟨_, hreceived, rfl⟩
  rw [HistoryEntry.total_eq]
  omega

theorem history_total : HistoryEntry.total (self.history order) =
    unspent_sum self.utxos.values := by
  have hperm := (history_perm self order).map HistoryEntry.delta
  have hvalues := ((order.perm self.utxos.entries).map fun entry => entry.2).filter
    fun u => u.spent_by.isNone
  rw [HistoryEntry.total, hperm.sum_eq]
  rw [← HistoryEntry.total, total_flatMap, unspent_sum, (hvalues.map _).sum_eq]
  rfl

end Wallet

/-- No block of the chain is higher than the one that is connected. -/
def Rises (state : List ChainBlock × Wallet) : ReorgEvent → Prop
  | .Connected next => ∀ block ∈ state.1, block.block_height ≤ next.block_height
  | .Disconnected => True

/-- Every coin was received in a block of the chain and not spent below it. -/
def Wallet.Dated (self : Wallet) (chain : List ChainBlock) : Prop :=
  ∀ outpoint coin, self.utxos.lookup outpoint = some coin →
    (∃ block ∈ chain, outpoint.txid ∈ block.block.txids ∧
      coin.block_height = block.block_height) ∧
    ∀ s, coin.spent_by = some s → coin.block_height ≤ s.block_height

section

variable {secpInst : secp256k1.Api} {spInst : silentpayments.Api}

theorem Wallet.Dated.spendsRise {self : Wallet} {chain : List ChainBlock}
    (hdated : self.Dated chain) : self.SpendsRise :=
  fun outpoint coin s hcoin hspent => (hdated outpoint coin hcoin).2 s hspent

theorem Wallet.Dated.scan_block {self after : Wallet} {chain : List ChainBlock}
    {next : ChainBlock} {count : Nat} (hdated : self.Dated chain)
    (hrises : ∀ block ∈ chain, block.block_height ≤ next.block_height)
    (hscan : self.scan_block secpInst spInst next.block next.spent_outputs next.block_height =
      some (after, count)) :
    after.Dated (chain ++ [next]) := by
  intro outpoint coin hcoin
  cases hkeys : self.keys with
  | none =>
    rw [Wallet.scan_block, hkeys] at hscan
    cases hscan
    obtain ⟨⟨block, hblock, hrest⟩, hspent⟩ := hdated outpoint coin hcoin
    exact ⟨⟨block, List.mem_append_left _ hblock, hrest⟩, hspent⟩
  | some keys =>
    obtain ⟨found, hfound, hafter⟩ :=
      (Wallet.scan_block_eq_some_iff secpInst spInst hkeys).mp hscan
    cases hafter
    rw [lookup_scanned] at hcoin
    obtain ⟨before, hbefore, rfl⟩ := Option.map_eq_some_iff.mp hcoin
    -- the coin before the block's spends are marked
    have hold : (∃ block ∈ chain ++ [next], outpoint.txid ∈ block.block.txids ∧
        before.block_height = block.block_height) ∧ before.block_height ≤ next.block_height ∧
        ∀ s, before.spent_by = some s → before.block_height ≤ s.block_height := by
      rcases Option.or_eq_some_iff.mp hbefore with hnew | ⟨_, hkept⟩
      · have hmem := HashMap.last_value_mem hnew
        obtain ⟨htxid, _, hunspent, _⟩ := scan_block_inner_spec hfound hmem
        have hheight := scan_block_inner_height hfound hmem
        refine ⟨⟨next, by simp, htxid, hheight⟩, hheight ▸ UInt32.le_refl _, ?_⟩
        simp [hunspent]
      · obtain ⟨⟨block, hblock, htxid, hheight⟩, hspent⟩ := hdated outpoint before hkept
        exact ⟨⟨block, List.mem_append_left _ hblock, htxid, hheight⟩,
          hheight ▸ hrises block hblock, hspent⟩
    obtain ⟨hblock, hnext, hspent⟩ := hold
    cases last_spender next.block.transactions outpoint with
    | none => exact ⟨hblock, hspent⟩
    | some txid =>
      refine ⟨hblock, ?_⟩
      rintro _ ⟨⟩
      exact hnext

theorem Wallet.Dated.process_disconnect {self : Wallet} {chain : List ChainBlock}
    {tip : ChainBlock} (hdated : self.Dated (chain ++ [tip])) :
    (self.process_disconnect tip.block).Dated chain := by
  intro outpoint coin hcoin
  rw [Wallet.lookup_process_disconnect] at hcoin
  split at hcoin
  · cases hcoin
  rename_i hkept
  obtain ⟨before, hbefore, rfl⟩ := Option.map_eq_some_iff.mp hcoin
  obtain ⟨⟨block, hblock, htxid, hheight⟩, hspent⟩ := hdated outpoint before hbefore
  have hbelow : block ∈ chain := by
    rcases List.mem_append.mp hblock with hblock | hblock
    · exact hblock
    · obtain rfl := List.mem_singleton.mp hblock
      exact absurd htxid hkept
  rw [Coin.unspend_block_height]
  refine ⟨⟨block, hbelow, htxid, hheight⟩, ?_⟩
  intro s hmarked
  exact hspent s (Coin.spent_by_of_unspend hmarked)

/-- A wallet without coins that follows a walk has only dated coins. -/
theorem run_dated {start self : Wallet} {below chain : List ChainBlock} {events : List ReorgEvent}
    (hempty : start.utxos = ∅)
    (hrun : ((reorg_system secpInst spInst start).restrict Rises).Run (below, start) events
      (chain, self)) :
    self.Dated chain := by
  refine hrun.preserves (P := fun state => state.2.Dated state.1) ?_ ?_
  · rintro ⟨chain, self⟩ event ⟨chain', self'⟩ hdated ⟨hrises, hstep⟩
    cases event with
    | Connected next =>
      obtain ⟨_, rfl, count, hscan⟩ := hstep
      exact hdated.scan_block hrises hscan
    | Disconnected =>
      obtain ⟨tip, hchain, rfl⟩ := hstep
      dsimp only at hchain
      subst hchain
      exact hdated.process_disconnect
  · intro outpoint coin hcoin
    simp [hempty] at hcoin

end

/-- The history of a wallet that has followed a walk over valid chains, from any
    chain and with no coins: it is sorted by height; it has one received entry
    for each coin and one spent entry for each spent coin, the received entry
    first; what it has received up to any point covers what it has spent; and in
    total it comes to the balance, which panics exactly if that is no amount. -/
theorem history_reconciles (secpInst : secp256k1.Api) (spInst : silentpayments.Api)
    {start self : Wallet} {below chain : List ChainBlock} {events : List ReorgEvent}
    (hempty : start.utxos = ∅)
    (hrun : ((reorg_system secpInst spInst start).restrict Rises).Run (below, start) events
      (chain, self))
    (order : Reorder (Σ _ : OutPoint, Coin)) (value_order : Reorder Coin) :
    ((self.history order).Pairwise fun a b => a.height ≤ b.height) ∧
    (∀ outpoint,
      (self.history order).filter (HistoryEntry.is_received outpoint) =
        ((self.utxos.lookup outpoint).map fun coin =>
          HistoryEntry.Received outpoint coin.value coin.block_height).toList ∧
      (self.history order).filter (HistoryEntry.is_spent outpoint) =
        ((self.utxos.lookup outpoint).bind fun coin => coin.spent_by.map fun s =>
          HistoryEntry.Spent outpoint coin.value s.block_height).toList) ∧
    (∀ outpoint coin s, self.utxos.lookup outpoint = some coin → coin.spent_by = some s →
      [HistoryEntry.Received outpoint coin.value coin.block_height,
        HistoryEntry.Spent outpoint coin.value s.block_height].Sublist (self.history order)) ∧
    (∀ n, 0 ≤ HistoryEntry.total ((self.history order).take n)) ∧
    ∀ amount, self.balance value_order = some amount ↔
      (amount.sat.toNat : Int) = HistoryEntry.total (self.history order) := by
  have hrise := (run_dated hempty hrun).spendsRise
  refine ⟨Wallet.history_sorted self order, ?_, ?_, Wallet.history_total_nonneg hrise, ?_⟩
  · intro outpoint
    exact ⟨Wallet.history_received outpoint, Wallet.history_spent outpoint⟩
  · intro outpoint coin s hcoin hspent
    exact Wallet.history_before order hrise hcoin hspent
  · intro amount
    rw [Wallet.balance_eq_some_iff, Wallet.history_total]
    omega

/-- The payment is received and spent: the wallet's balance is zero again. -/
theorem history_reconciles_spend : ∃ paid spent coin s,
    regtest_wallet.scan_block regtest.secp regtest.sp regtest_payment.block
      regtest_payment.spent_outputs regtest_payment.block_height = some (paid, 1) ∧
    paid.scan_block regtest.secp regtest.sp regtest_spending.block
      regtest_spending.spent_outputs regtest_spending.block_height = some (spent, 0) ∧
    spent.utxos.lookup ⟨regtest.txid 0xaa, 0⟩ = some coin ∧ coin.spent_by = some s ∧
    [HistoryEntry.Received ⟨regtest.txid 0xaa, 0⟩ coin.value coin.block_height,
      HistoryEntry.Spent ⟨regtest.txid 0xaa, 0⟩ coin.value s.block_height].Sublist
        (spent.history .id) ∧
    HistoryEntry.total (spent.history .id) = 0 := by
  obtain ⟨paid, spent, coin, s, hpaid, hspent, hcoin, hs, hbalance⟩ : ∃ paid spent coin s,
      regtest_wallet.scan_block regtest.secp regtest.sp regtest_payment.block
        regtest_payment.spent_outputs regtest_payment.block_height = some (paid, 1) ∧
      paid.scan_block regtest.secp regtest.sp regtest_spending.block
        regtest_spending.spent_outputs regtest_spending.block_height = some (spent, 0) ∧
      spent.utxos.lookup ⟨regtest.txid 0xaa, 0⟩ = some coin ∧ coin.spent_by = some s ∧
      spent.balance .id = some ⟨0⟩ := ⟨_, _, _, _, rfl, rfl, rfl, rfl, rfl⟩
  have hpayment : bitcoinkernel.Consensus
      (([regtest_funding] ++ [regtest_payment]).map ChainBlock.block) := by
    decide +kernel
  have hspending : bitcoinkernel.Consensus
      (([regtest_funding] ++ [regtest_payment] ++ [regtest_spending]).map ChainBlock.block) := by
    decide +kernel
  have hlower : ∀ block ∈ [regtest_funding], block.block_height ≤ regtest_payment.block_height := by
    decide
  have hrises : ∀ block ∈ [regtest_funding] ++ [regtest_payment],
      block.block_height ≤ regtest_spending.block_height := by
    decide
  have hfirst : ((reorg_system regtest.secp regtest.sp regtest_wallet).restrict Rises).step
      ([regtest_funding], regtest_wallet) (.Connected regtest_payment)
      ([regtest_funding] ++ [regtest_payment], paid) :=
    ⟨hlower, hpayment, rfl, 1, hpaid⟩
  have hsecond : ((reorg_system regtest.secp regtest.sp regtest_wallet).restrict Rises).step
      ([regtest_funding] ++ [regtest_payment], paid) (.Connected regtest_spending)
      ([regtest_funding] ++ [regtest_payment] ++ [regtest_spending], spent) :=
    ⟨hrises, hspending, rfl, 0, hspent⟩
  have hrun := ((System.Run.nil _).snoc hfirst).snoc hsecond
  obtain ⟨_, _, hbefore, _, htotal⟩ :=
    history_reconciles regtest.secp regtest.sp rfl hrun .id .id
  exact ⟨paid, spent, coin, s, hpaid, hspent, hcoin, hs, hbefore _ coin s hcoin hs,
    ((htotal ⟨0⟩).mp hbalance).symm⟩

end wallet
