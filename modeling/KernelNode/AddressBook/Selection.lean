import KernelNode.AddressBook.Runs

open bitcoin std.hash std.time

namespace address_book

section

variable {n : Nat} [NeZero n] {A : Type}

/-- The index `k` places after the one that follows `start`. -/
def cyclic_step (start : Fin n) (k : Nat) : Fin n := Fin.ofNat n (start + 1 + k)

/-- The search loops: from `tmp` on until `start` comes round again. A visit that
    does not end, and a loop that needs more rounds than `fuel`, is `none`. -/
def search_loop (start : Fin n) (visit : Fin n → Option (Option A)) :
    Nat → Fin n → Option (Option A)
  | 0, _ => none
  | fuel + 1, tmp =>
    if tmp = start then some none else
    match visit tmp with
    | none => none
    | some (some found) => some (some found)
    | some none => search_loop start visit fuel (Fin.ofNat n (tmp + 1))

theorem cyclic_after_eq (start : Fin n) :
    cyclic_after start = (List.range' 0 (n - 1)).map (cyclic_step start) := by
  rw [cyclic_after, List.range_eq_range']
  rfl

theorem cyclic_step_ne {start : Fin n} {k : Nat} (hk : k + 1 < n) :
    cyclic_step start k ≠ start := by
  intro heq
  have hval : (start + 1 + k) % n = start := congrArg Fin.val heq
  have hstart := start.isLt
  rcases Nat.lt_or_ge (start + 1 + k) n with hlt | hge
  · rw [Nat.mod_eq_of_lt hlt] at hval
    omega
  · rw [Nat.mod_eq_sub_mod hge, Nat.mod_eq_of_lt (by omega)] at hval
    omega

theorem cyclic_step_last (start : Fin n) : cyclic_step start (n - 1) = start := by
  apply Fin.ext
  have hpos := Nat.pos_of_neZero n
  change (start + 1 + (n - 1)) % n = start
  rw [show start.val + 1 + (n - 1) = start + n by omega, Nat.add_mod_right,
    Nat.mod_eq_of_lt start.isLt]

theorem cyclic_step_succ (start : Fin n) (k : Nat) :
    Fin.ofNat n (cyclic_step start k + 1) = cyclic_step start (k + 1) := by
  apply Fin.ext
  change ((start + 1 + k) % n + 1) % n = (start + 1 + (k + 1)) % n
  rw [Nat.mod_add_mod]
  rfl

theorem cyclic_step_ofNat (draw k : Nat) :
    cyclic_step (Fin.ofNat n draw) k = Fin.ofNat n (draw + (k + 1)) := by
  apply Fin.ext
  change (draw % n + 1 + k) % n = (draw + (k + 1)) % n
  rw [Nat.add_assoc, Nat.mod_add_mod, Nat.add_comm 1 k]

/-- Every index but `start` comes up before `start` does. -/
theorem exists_cyclic_step {start index : Fin n} (hne : index ≠ start) :
    ∃ k, k + 1 < n ∧ cyclic_step start k = index := by
  have hval : index.val ≠ start.val := fun heq => hne (Fin.ext heq)
  have hindex := index.isLt
  have hstart := start.isLt
  rcases Nat.lt_or_ge start index with hlt | hge
  · refine ⟨index - start - 1, by omega, Fin.ext ?_⟩
    change (start + 1 + (index - start - 1)) % n = index
    rw [show start.val + 1 + (index - start - 1) = index by omega, Nat.mod_eq_of_lt hindex]
  · refine ⟨index + n - start - 1, by omega, Fin.ext ?_⟩
    change (start + 1 + (index + n - start - 1)) % n = index
    rw [show start.val + 1 + (index + n - start - 1) = index + n by omega, Nat.add_mod_right,
      Nat.mod_eq_of_lt hindex]

theorem search_loop_step {start : Fin n} {visit : Fin n → Option (Option A)}
    {poll : Fin n → Option A} (hvisit : ∀ index, visit index = some (poll index))
    {rounds k fuel : Nat} (hrounds : k + rounds = n - 1) (hfuel : rounds < fuel) :
    search_loop start visit fuel (cyclic_step start k) =
      some (((List.range' k rounds).map (cyclic_step start)).findSome? poll) := by
  have hpos := Nat.pos_of_neZero n
  induction rounds generalizing k fuel with
  | zero =>
    obtain ⟨fuel, rfl⟩ := Nat.exists_eq_succ_of_ne_zero (Nat.ne_of_gt hfuel)
    obtain rfl : k = n - 1 := hrounds
    simp [search_loop, cyclic_step_last]
  | succ rounds ih =>
    obtain ⟨fuel, rfl⟩ := Nat.exists_eq_succ_of_ne_zero (Nat.ne_zero_of_lt hfuel)
    have hne : cyclic_step start k ≠ start := cyclic_step_ne (by omega)
    simp only [search_loop, if_neg hne, hvisit, List.range'_succ, List.map_cons,
      List.findSome?_cons]
    cases poll (cyclic_step start k) with
    | some found => rfl
    | none =>
      simp only
      rw [cyclic_step_succ]
      exact ih (by omega) (by omega)

/-- Enough rounds bring the loop to its end, with the first thing found. -/
theorem search_loop_eq (start : Fin n) {visit : Fin n → Option (Option A)} {poll : Fin n → Option A}
    (hvisit : ∀ index, visit index = some (poll index)) {fuel : Nat} (hfuel : n ≤ fuel) :
    search_loop start visit fuel (Fin.ofNat n (start + 1)) =
      some ((cyclic_after start).findSome? poll) := by
  have hpos := Nat.pos_of_neZero n
  rw [cyclic_after_eq]
  exact search_loop_step hvisit (Nat.zero_add (n - 1)) (by omega)

theorem findSome?_range {f : Nat → Option A} {m : Nat} {found : A}
    (hfound : (List.range m).findSome? f = some found) :
    ∃ k < m, f k = some found ∧ ∀ j < k, f j = none := by
  induction m with
  | zero => cases hfound
  | succ m ih =>
    rw [List.range_succ, List.findSome?_append, Option.or_eq_some_iff] at hfound
    rcases hfound with hearlier | ⟨hnone, hlast⟩
    · obtain ⟨k, hk, hfirst⟩ := ih hearlier
      exact ⟨k, Nat.lt_succ_of_lt hk, hfirst⟩
    · refine ⟨m, Nat.lt_succ_self m, by simpa using hlast, ?_⟩
      intro j hj
      exact List.findSome?_eq_none_iff.mp hnone j (List.mem_range.mpr hj)

/-- What a round finds first lies after indices where there was nothing. -/
theorem findSome?_cyclic_after {start : Fin n} {poll : Fin n → Option A} {found : A}
    (hfound : (cyclic_after start).findSome? poll = some found) :
    ∃ k, k + 1 < n ∧ poll (cyclic_step start k) = some found ∧
      ∀ j < k, poll (cyclic_step start j) = none := by
  rw [cyclic_after_eq, List.findSome?_map, ← List.range_eq_range'] at hfound
  obtain ⟨k, hk, hfirst⟩ := findSome?_range hfound
  exact ⟨k, by omega, hfirst⟩

theorem findSome?_cyclic_after_eq_none {start index : Fin n} {poll : Fin n → Option A}
    (hnone : (cyclic_after start).findSome? poll = none) (hne : index ≠ start) :
    poll index = none := by
  obtain ⟨k, hk, rfl⟩ := exists_cyclic_step hne
  rw [cyclic_after_eq, List.findSome?_eq_none_iff] at hnone
  exact hnone _ (List.mem_map_of_mem (List.mem_range'_1.mpr (by omega)))

end

/-- The record was attempted within the last minute. -/
def Record.AttemptedWithinMinute (self : Record) (now : Duration) : Prop :=
  ∃ last_attempt, self.last_attempt = some last_attempt ∧
    (now.saturating_sub last_attempt).as_nanos ≤ ONE_MINUTE.as_nanos

theorem Record.attempted_iff {record : Record} {now : Duration} :
    record.AttemptedWithinMinute now ↔ record.rested now = false := by
  cases hlast : record.last_attempt <;> simp [AttemptedWithinMinute, rested, hlast]

namespace Bucket

variable {S : Nat} {self : Bucket S}

theorem is_empty_iff : self.is_empty = true ↔ ∀ slot, self.records slot = none := by
  simp [is_empty]

/-- The record that is taken where none of the others has rested. -/
def fallback (self : Bucket S) (slot_index : Fin S) : Option Record :=
  (self.records slot_index).or ((List.finRange S).findSome? self.records)

/-- The fallback is a record of the bucket, and there is none only in an empty
    bucket. -/
theorem fallback_spec (slot_index : Fin S) :
    (self.fallback slot_index = none → self.is_empty = true) ∧
      ∀ record, self.fallback slot_index = some record →
        ∃ slot, self.records slot = some record := by
  constructor
  · intro hnone
    rw [fallback, Option.or_eq_none_iff, List.findSome?_eq_none_iff] at hnone
    exact is_empty_iff.mpr fun slot => hnone.2 slot (List.mem_finRange slot)
  · intro record hrecord
    rw [fallback, Option.or_eq_some_iff] at hrecord
    rcases hrecord with hrecord | ⟨_, hfirst⟩
    · exact ⟨slot_index, hrecord⟩
    · obtain ⟨slot, _, hrecord⟩ := List.exists_of_findSome?_eq_some hfirst
      exact ⟨slot, hrecord⟩

variable [NeZero S]

/-- `random_from_bucket` with its loop. -/
def random_from_bucket_loop (self : Bucket S) (fuel : Nat) (draw : UInt32) (now : Duration) :
    Option (Option Record) :=
  if self.is_empty then some none else
  let slot_index := Fin.ofNat S draw.toNat
  match search_loop slot_index (fun tmp => some ((self.records tmp).filter (·.rested now))) fuel
    (Fin.ofNat S (slot_index + 1)) with
  | none => none
  | some (some record) => some (some record)
  | some none => some (self.fallback slot_index)

theorem random_from_bucket_eq (self : Bucket S) (draw : UInt32) (now : Duration) :
    self.random_from_bucket draw now = if self.is_empty then none else
      ((cyclic_after (Fin.ofNat S draw.toNat)).findSome? fun tmp =>
        (self.records tmp).filter (·.rested now)).or (self.fallback (Fin.ofNat S draw.toNat)) :=
  rfl

theorem random_from_bucket_loop_eq (self : Bucket S) {fuel : Nat} (hfuel : S ≤ fuel)
    (draw : UInt32) (now : Duration) :
    self.random_from_bucket_loop fuel draw now = some (self.random_from_bucket draw now) := by
  rw [random_from_bucket_eq, random_from_bucket_loop]
  split
  · rfl
  · simp only
    rw [search_loop_eq (Fin.ofNat S draw.toNat) (fun _ => rfl) hfuel]
    cases (cyclic_after (Fin.ofNat S draw.toNat)).findSome? fun tmp =>
      (self.records tmp).filter (·.rested now) <;> rfl

/-- A bucket that is not empty gives a record, and one that was attempted within
    the last minute only where every other record was too. -/
theorem random_from_bucket_spec (self : Bucket S) (draw : UInt32) (now : Duration) :
    (self.random_from_bucket draw now = none ↔ self.is_empty = true) ∧
      ∀ record, self.random_from_bucket draw now = some record →
        (∃ slot, self.records slot = some record) ∧
        (record.AttemptedWithinMinute now → ∀ slot other, self.records slot = some other →
          other.AttemptedWithinMinute now) := by
  obtain ⟨hempty, hstored⟩ := self.fallback_spec (Fin.ofNat S draw.toNat)
  rw [random_from_bucket_eq]
  split
  · rename_i hnone
    exact ⟨iff_of_true rfl hnone, nofun⟩
  · rename_i hsome
    refine ⟨?_, ?_⟩
    · rw [Option.or_eq_none_iff]
      exact ⟨fun hnone => hempty hnone.2, fun hnone => absurd hnone hsome⟩
    · intro record hrecord
      rcases Option.or_eq_some_iff.mp hrecord with hrested | ⟨hnone, hfallback⟩
      · -- found by the loop, so it has rested
        obtain ⟨k, _, hfound, _⟩ := findSome?_cyclic_after hrested
        obtain ⟨hslot, hrested⟩ := Option.filter_eq_some_iff.mp hfound
        refine ⟨⟨_, hslot⟩, fun hattempted => ?_⟩
        rw [Record.attempted_iff, hrested] at hattempted
        cases hattempted
      · refine ⟨hstored record hfallback, fun hattempted slot other hother => ?_⟩
        rw [Record.attempted_iff] at hattempted ⊢
        by_cases hslot : slot = Fin.ofNat S draw.toNat
        · -- the drawn slot is taken before any other
          subst hslot
          rw [fallback, hother, Option.some_or, Option.some.injEq] at hfallback
          rwa [hfallback]
        · have hfilter := findSome?_cyclic_after_eq_none hnone hslot
          rw [hother] at hfilter
          simpa using hfilter

end Bucket

namespace Table

variable {B S W : Nat}

theorem is_empty_iff {self : Table B S W} :
    self.is_empty = true ↔ ∀ bucket, (self.buckets bucket).is_empty = true := by
  simp [is_empty]

/-- The first bucket in cyclic order from the drawn one that is not empty. -/
def FirstFull [NeZero B] (self : Table B S W) (draw : UInt32) (bucket : Fin B) : Prop :=
  (self.buckets bucket).is_empty = false ∧ ∃ steps < B,
    bucket = Fin.ofNat B (draw.toNat + steps) ∧
    ∀ earlier < steps, (self.buckets (Fin.ofNat B (draw.toNat + earlier))).is_empty = true

theorem exists_full_of_not_empty {self : Table B S W} (hsome : self.is_empty = false) :
    ∃ bucket, (self.buckets bucket).is_empty = false := by
  by_contra hnone
  have hempty : self.is_empty = true := is_empty_iff.mpr fun bucket =>
    Bool.of_not_eq_false fun hfull => hnone ⟨bucket, hfull⟩
  rw [hsome] at hempty
  cases hempty

variable [NeZero B] [NeZero S]

/-- `select` with its loops. -/
def select_loop (self : Table B S W) (fuel : Nat) (draw : UInt32)
    (polls : Fin B → UInt32 × Duration) : Option (Option Record) :=
  if self.is_empty then some none else
  let bucket_index := Fin.ofNat B draw.toNat
  let poll (bucket : Fin B) := (self.buckets bucket).random_from_bucket_loop fuel
    (polls bucket).1 (polls bucket).2
  if (self.buckets bucket_index).is_empty then
    search_loop bucket_index poll fuel (Fin.ofNat B (bucket_index + 1))
  else poll bucket_index

theorem select_loop_eq (self : Table B S W) {fuel : Nat} (hbuckets : B ≤ fuel) (hslots : S ≤ fuel)
    (draw : UInt32) (polls : Fin B → UInt32 × Duration) :
    self.select_loop fuel draw polls = some (self.select draw polls) := by
  have hpoll (bucket : Fin B) := (self.buckets bucket).random_from_bucket_loop_eq hslots
    (polls bucket).1 (polls bucket).2
  simp only [select_loop, select]
  split
  · rfl
  · split
    · exact search_loop_eq _ hpoll hbuckets
    · exact hpoll _

/-- A table that is not empty polls its first full bucket. -/
theorem select_eq_poll {self : Table B S W} (hsome : self.is_empty = false) (draw : UInt32)
    (polls : Fin B → UInt32 × Duration) :
    ∃ bucket, self.FirstFull draw bucket ∧ self.select draw polls =
      (self.buckets bucket).random_from_bucket (polls bucket).1 (polls bucket).2 := by
  have hpoll (bucket : Fin B) := ((self.buckets bucket).random_from_bucket_spec (polls bucket).1
    (polls bucket).2).1
  rw [select, if_neg (by simp [hsome])]
  simp only
  by_cases hdrawn : (self.buckets (Fin.ofNat B draw.toNat)).is_empty = true
  · rw [if_pos hdrawn]
    obtain ⟨full, hfull⟩ := exists_full_of_not_empty hsome
    have hne : full ≠ Fin.ofNat B draw.toNat := by
      rintro rfl
      rw [hdrawn] at hfull
      cases hfull
    cases hfound : (cyclic_after (Fin.ofNat B draw.toNat)).findSome? fun bucket =>
      (self.buckets bucket).random_from_bucket (polls bucket).1 (polls bucket).2 with
    | none =>
      have hempty := (hpoll full).mp (findSome?_cyclic_after_eq_none hfound hne)
      simp [hfull] at hempty
    | some record =>
      obtain ⟨k, hk, hrecord, hnone⟩ := findSome?_cyclic_after hfound
      refine ⟨_, ⟨?_, k + 1, hk, cyclic_step_ofNat draw.toNat k, ?_⟩, hrecord.symm⟩
      · refine Bool.eq_false_iff.mpr fun hempty => ?_
        rw [(hpoll _).mpr hempty] at hrecord
        cases hrecord
      · intro earlier hearlier
        cases earlier with
        | zero => exact hdrawn
        | succ j =>
          rw [← cyclic_step_ofNat]
          exact (hpoll _).mp (hnone j (Nat.lt_of_succ_lt_succ hearlier))
  · rw [if_neg hdrawn]
    exact ⟨_, ⟨by simpa using hdrawn, 0, Nat.pos_of_neZero B, rfl, nofun⟩, rfl⟩

/-- `select` ends, finds a record wherever there is one, in the first full bucket
    from the drawn one on, and takes one that was attempted within the last
    minute only where the whole bucket was. -/
theorem select_rested (self : Table B S W) (draw : UInt32) (polls : Fin B → UInt32 × Duration) :
    (∀ fuel, B ≤ fuel → S ≤ fuel →
      self.select_loop fuel draw polls = some (self.select draw polls)) ∧
    (self.select draw polls = none ↔ ∀ cell, self.cells cell = none) ∧
    ∀ record, self.select draw polls = some record → ∃ bucket, self.FirstFull draw bucket ∧
      (∃ slot, self.cells (bucket, slot) = some record) ∧
      (record.AttemptedWithinMinute (polls bucket).2 →
        ∀ slot other, self.cells (bucket, slot) = some other →
          other.AttemptedWithinMinute (polls bucket).2) := by
  refine ⟨fun fuel hbuckets hslots => self.select_loop_eq hbuckets hslots draw polls, ?_, ?_⟩
  · have hcells : self.is_empty = true ↔ ∀ cell, self.cells cell = none := by
      simp only [is_empty_iff, Bucket.is_empty_iff, Prod.forall]
      rfl
    rw [← hcells]
    cases hempty : self.is_empty with
    | true => simp [select, hempty]
    | false =>
      obtain ⟨bucket, ⟨hfull, _⟩, hselect⟩ := select_eq_poll hempty draw polls
      rw [hselect, ((self.buckets bucket).random_from_bucket_spec _ _).1, hfull]
  · intro record hrecord
    cases hempty : self.is_empty with
    | true => simp [select, hempty] at hrecord
    | false =>
      obtain ⟨bucket, hfirst, hselect⟩ := select_eq_poll hempty draw polls
      exact ⟨bucket, hfirst,
        ((self.buckets bucket).random_from_bucket_spec _ _).2 record (hselect ▸ hrecord)⟩

/-- A table with one record, drawn at another bucket: the record is found. -/
theorem select_rested_relayed :
    (relayed_table (.Ipv4 ⟨[10, 0, 0, 1], rfl⟩)).select_loop 16 3 (fun _ => (5, .from_secs 0)) =
      some ((relayed_table (.Ipv4 ⟨[10, 0, 0, 1], rfl⟩)).select 3 fun _ => (5, .from_secs 0)) ∧
    (relayed_table (.Ipv4 ⟨[10, 0, 0, 1], rfl⟩)).select 3 (fun _ => (5, .from_secs 0)) ≠ none := by
  obtain ⟨hloop, hnone, _⟩ := select_rested (relayed_table (.Ipv4 ⟨[10, 0, 0, 1], rfl⟩)) 3
    fun _ => (5, .from_secs 0)
  refine ⟨hloop 16 (Nat.le_refl 16) (Nat.le_refl 16), fun hselect => ?_⟩
  have hcell := hnone.mp hselect (place .sip 16 16 4 (relayed (.Ipv4 ⟨[10, 0, 0, 1], rfl⟩)))
  rw [relayed_table_cells, if_pos rfl] at hcell
  cases hcell

end Table

end address_book
