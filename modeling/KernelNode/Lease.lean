import Mathlib.Data.Set.Lattice
import Mathlib.Order.CompletePartialOrder

namespace lease

/-- Items that parties take and give back: the items that count as taken, and
    what each party believes to hold. -/
@[ext]
structure Ledger (P A : Type) where
  taken : Set A
  held : P → Set A

namespace Ledger

variable {P A : Type}

/-- Every taken item is held by some party. -/
def Covered (self : Ledger P A) : Prop :=
  ∀ item ∈ self.taken, ∃ party, item ∈ self.held party

/-- The taken items are exactly the held ones, and no two parties hold the
    same item. -/
structure Exclusive (ledger : Ledger P A) : Prop where
  taken_iff : ∀ item, item ∈ ledger.taken ↔ ∃ party, item ∈ ledger.held party
  disjoint : Pairwise fun first second => Disjoint (ledger.held first) (ledger.held second)

theorem Exclusive.covered {self : Ledger P A} (hexclusive : self.Exclusive) : self.Covered :=
  fun item htaken => (hexclusive.taken_iff item).mp htaken

variable [DecidableEq P]

def acquire (self : Ledger P A) (party : P) (items : Set A) : Ledger P A where
  taken := self.taken ∪ items
  held := Function.update self.held party (self.held party ∪ items)

def give_back (self : Ledger P A) (party : P) (items : Set A) : Ledger P A where
  taken := self.taken \ items
  held := Function.update self.held party (self.held party \ items)

/-- A party disappears, and what it held stays taken. -/
def forget (self : Ledger P A) (party : P) : Ledger P A :=
  { self with held := Function.update self.held party ∅ }

variable {self : Ledger P A} {party : P} {items : Set A}

theorem mem_acquire_held {other : P} {item : A} :
    item ∈ (self.acquire party items).held other ↔ item ∈ self.held other ∨ other = party ∧
      item ∈ items := by
  by_cases hparty : other = party
  · subst hparty
    simp [acquire]
  · simp [acquire, hparty]

theorem mem_give_back_held {other : P} {item : A} :
    item ∈ (self.give_back party items).held other ↔ item ∈ self.held other ∧
      (other = party → item ∉ items) := by
  by_cases hparty : other = party
  · subst hparty
    simp [give_back]
  · simp [give_back, hparty]

theorem Covered.acquire (hcovered : self.Covered) : (self.acquire party items).Covered := by
  rintro item (htaken | hitem)
  · obtain ⟨holder, hheld⟩ := hcovered item htaken
    exact ⟨holder, mem_acquire_held.mpr (.inl hheld)⟩
  · exact ⟨party, mem_acquire_held.mpr (.inr ⟨rfl, hitem⟩)⟩

/-- Covered even where a party gives back what another one took. -/
theorem Covered.give_back (hcovered : self.Covered) : (self.give_back party items).Covered := by
  rintro item ⟨htaken, hkept⟩
  obtain ⟨holder, hheld⟩ := hcovered item htaken
  exact ⟨holder, mem_give_back_held.mpr ⟨hheld, fun _ => hkept⟩⟩

/-- Covered where what the party held and what is taken is held by another one. -/
theorem Covered.forget (hcovered : self.Covered) (hother : ∀ item ∈ self.held party,
    item ∈ self.taken → ∃ other, other ≠ party ∧ item ∈ self.held other) :
    (self.forget party).Covered := by
  intro item htaken
  obtain ⟨holder, hheld⟩ := hcovered item htaken
  obtain ⟨other, hne, hheld⟩ : ∃ other, other ≠ party ∧ item ∈ self.held other := by
    by_cases hparty : holder = party
    · exact hother item (hparty ▸ hheld) htaken
    · exact ⟨holder, hparty, hheld⟩
  refine ⟨other, ?_⟩
  simpa only [Ledger.forget, Function.update_of_ne hne] using hheld

theorem forget_eq_self (hnone : self.held party = ∅) : self.forget party = self := by
  rw [forget, ← hnone, Function.update_eq_self]

/-- Only items that nobody has taken are acquired. -/
theorem Exclusive.acquire (hexclusive : self.Exclusive) (hfree : Disjoint items self.taken) :
    (self.acquire party items).Exclusive := by
  have hunheld : ∀ holder item, item ∈ items → item ∉ self.held holder := by
    intro holder item hitem hheld
    exact Set.disjoint_left.mp hfree hitem ((hexclusive.taken_iff item).mpr ⟨holder, hheld⟩)
  refine ⟨fun item => ⟨fun htaken => hexclusive.covered.acquire item htaken, ?_⟩, ?_⟩
  · rintro ⟨holder, hheld⟩
    rcases mem_acquire_held.mp hheld with hheld | ⟨_, hitem⟩
    · exact .inl ((hexclusive.taken_iff item).mpr ⟨holder, hheld⟩)
    · exact .inr hitem
  · intro first second hne
    rw [Set.disjoint_left]
    intro item hfirst hsecond
    rcases mem_acquire_held.mp hfirst with hold | ⟨hparty, hitem⟩
    · rcases mem_acquire_held.mp hsecond with hold' | ⟨_, hitem⟩
      · exact Set.disjoint_left.mp (hexclusive.disjoint hne) hold hold'
      · exact hunheld first item hitem hold
    · rcases mem_acquire_held.mp hsecond with hold | ⟨hparty', _⟩
      · exact hunheld second item hitem hold
      · exact hne (hparty.trans hparty'.symm)

/-- A party gives back only what it holds. -/
theorem Exclusive.give_back (hexclusive : self.Exclusive) (hown : items ⊆ self.held party) :
    (self.give_back party items).Exclusive := by
  refine ⟨fun item => ⟨fun htaken => hexclusive.covered.give_back item htaken, ?_⟩, ?_⟩
  · rintro ⟨holder, hheld⟩
    obtain ⟨hheld, hkept⟩ := mem_give_back_held.mp hheld
    refine ⟨(hexclusive.taken_iff item).mpr ⟨holder, hheld⟩, fun hitem => ?_⟩
    by_cases hparty : holder = party
    · exact hkept hparty hitem
    · exact Set.disjoint_left.mp (hexclusive.disjoint hparty) hheld (hown hitem)
  · intro first second hne
    rw [Set.disjoint_left]
    intro item hfirst hsecond
    exact Set.disjoint_left.mp (hexclusive.disjoint hne) (mem_give_back_held.mp hfirst).1
      (mem_give_back_held.mp hsecond).1

/-- A party gives something back and acquires what is free then. -/
structure Trade (before : Ledger P A) (party : P) (returned acquired : Set A)
    (after : Ledger P A) : Prop where
  eq : after = (before.give_back party returned).acquire party acquired
  free : Disjoint acquired (before.taken \ returned)

/-- A trade, item by item. -/
theorem Trade.of_mem {after : Ledger P A} {returned acquired : Set A}
    (htaken : ∀ item, item ∈ after.taken ↔
      item ∈ self.taken ∧ item ∉ returned ∨ item ∈ acquired)
    (hheld : ∀ other item, item ∈ after.held other ↔
      item ∈ self.held other ∧ (other = party → item ∉ returned) ∨ other = party ∧ item ∈ acquired)
    (hfree : ∀ item ∈ acquired, item ∈ self.taken → item ∈ returned) :
    self.Trade party returned acquired after := by
  constructor
  · refine Ledger.ext (Set.ext htaken) (funext fun other => Set.ext fun item => ?_)
    rw [hheld, mem_acquire_held, mem_give_back_held]
  · rw [Set.disjoint_left]
    rintro item hacquired ⟨htaken, hkept⟩
    exact hkept (hfree item hacquired htaken)

theorem Trade.refl (self : Ledger P A) (party : P) : self.Trade party ∅ ∅ self :=
  .of_mem (by simp) (by simp) (by simp)

theorem Covered.trade {after : Ledger P A} {returned acquired : Set A} (hcovered : self.Covered)
    (htrade : self.Trade party returned acquired after) : after.Covered := by
  rw [htrade.eq]
  exact hcovered.give_back.acquire

theorem Exclusive.trade {after : Ledger P A} {returned acquired : Set A}
    (hexclusive : self.Exclusive) (htrade : self.Trade party returned acquired after)
    (hown : returned ⊆ self.held party) : after.Exclusive := by
  rw [htrade.eq]
  exact (hexclusive.give_back hown).acquire htrade.free

end Ledger

end lease
