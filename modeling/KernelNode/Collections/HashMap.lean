import Mathlib.Data.List.AList

namespace std.collections

/-- A hash map is its entries in iteration order, with distinct keys. The order
    is part of the value because `iter`, `keys` and `values` expose it; two maps
    are the same map when their lookups agree. -/
abbrev HashMap (K V : Type) := AList fun _ : K => V

/-- A hash set is a hash map to the unit type, as in the Rust library. -/
abbrev HashSet (K : Type) := HashMap K Unit

/-- An order for the elements of any list: a shuffle, or the order in which a
    hash map happens to be iterated. -/
structure Reorder (A : Type) where
  apply : List A → List A
  perm : ∀ list, (apply list).Perm list

@[simp]
theorem Reorder.mem_apply {A : Type} (self : Reorder A) {list : List A} {element : A} :
    element ∈ self.apply list ↔ element ∈ list :=
  (self.perm list).mem_iff

/-- The elements in the order they are given. -/
def Reorder.id {A : Type} : Reorder A := ⟨fun list => list, List.Perm.refl⟩

namespace HashMap

variable {K V : Type}

/-- The values in iteration order. -/
def values (self : HashMap K V) : List V :=
  self.entries.map fun entry => entry.2

/-- The entries for which `keep` holds, in the same order. -/
def retain (self : HashMap K V) (keep : K → V → Bool) : HashMap K V :=
  ⟨self.entries.filter fun entry => keep entry.1 entry.2, self.nodupKeys.sublist
    List.filter_sublist⟩

/-- Every value rewritten in place, with its key at hand. -/
def map_entries (self : HashMap K V) (f : K → V → V) : HashMap K V :=
  ⟨self.entries.map (Sigma.map id f), List.NodupKeys.map₂ f _ self.nodupKeys⟩

/-- Every value rewritten in place through `values_mut`. -/
def map_values (self : HashMap K V) (f : V → V) : HashMap K V :=
  self.map_entries fun _ => f

theorem mem_values {self : HashMap K V} {value : V} :
    value ∈ self.values ↔ ∃ key, (⟨key, value⟩ : Σ _ : K, V) ∈ self.entries := by
  simp only [values, List.mem_map]
  constructor
  · rintro ⟨entry, hentry, rfl⟩
    exact ⟨entry.1, hentry⟩
  · rintro ⟨key, hentry⟩
    exact ⟨_, hentry, rfl⟩

variable [DecidableEq K]

/-- The value under `key` rewritten in place through `get_mut`; a missing key
    leaves the map alone. -/
def modify (self : HashMap K V) (key : K) (f : V → V) : HashMap K V :=
  self.map_entries fun entry value => if entry = key then f value else value

/-- `insert` for every pair, in order, so that a later pair wins. -/
def extend (self : HashMap K V) (pairs : List (K × V)) : HashMap K V :=
  pairs.foldl (fun map pair => map.insert pair.1 pair.2) self

/-- The value of the last pair with the given key. -/
def last_value (pairs : List (K × V)) (key : K) : Option V :=
  (pairs.reverse.find? fun pair => pair.1 = key).map Prod.snd

theorem mem_values_iff_lookup {self : HashMap K V} {value : V} :
    value ∈ self.values ↔ ∃ key, self.lookup key = some value := by
  simp only [mem_values, ← AList.mem_lookup_iff, Option.mem_def]

@[simp]
theorem lookup_retain (self : HashMap K V) (keep : K → V → Bool) (key : K) :
    (self.retain keep).lookup key = (self.lookup key).filter (keep key) := by
  ext value
  rw [← Option.mem_def, AList.mem_lookup_iff, Option.filter_eq_some_iff, ← Option.mem_def,
    AList.mem_lookup_iff]
  simp [retain]

@[simp]
theorem lookup_map_entries (self : HashMap K V) (f : K → V → V) (key : K) :
    (self.map_entries f).lookup key = (self.lookup key).map (f key) :=
  List.dlookup_map₂ (f := f) key

@[simp]
theorem lookup_map_values (self : HashMap K V) (f : V → V) (key : K) :
    (self.map_values f).lookup key = (self.lookup key).map f :=
  self.lookup_map_entries _ key

theorem lookup_modify (self : HashMap K V) (key query : K) (f : V → V) :
    (self.modify key f).lookup query =
      (self.lookup query).map fun value => if query = key then f value else value :=
  self.lookup_map_entries _ query

theorem last_value_cons (pair : K × V) (pairs : List (K × V)) (key : K) :
    last_value (pair :: pairs) key =
      (last_value pairs key).or (if pair.1 = key then some pair.2 else none) := by
  simp only [last_value, List.reverse_cons, List.find?_append, List.find?_singleton]
  cases hfind : pairs.reverse.find? fun pair => pair.1 = key with
  | some found => simp
  | none => by_cases hkey : pair.1 = key <;> simp [hkey]

/-- Extending a map is decided by the last pair with the key, and by the old
    map where no pair has it. -/
theorem lookup_extend (self : HashMap K V) (pairs : List (K × V)) (key : K) :
    (self.extend pairs).lookup key = (last_value pairs key).or (self.lookup key) := by
  induction pairs generalizing self with
  | nil => simp [extend, last_value]
  | cons pair pairs ih =>
    change (extend (self.insert pair.1 pair.2) pairs).lookup key = _
    rw [ih, last_value_cons, Option.or_assoc]
    congr 1
    by_cases hkey : pair.1 = key
    · subst hkey
      simp
    · rw [AList.lookup_insert_ne (Ne.symm hkey)]
      simp [hkey]

theorem exists_last_value {pairs : List (K × V)} {key : K} {value : V}
    (hmem : (key, value) ∈ pairs) : ∃ last, last_value pairs key = some last := by
  cases hlast : last_value pairs key with
  | some last => exact ⟨last, rfl⟩
  | none =>
    simp only [last_value, Option.map_eq_none_iff, List.find?_eq_none, List.mem_reverse] at hlast
    simpa using hlast _ hmem

theorem last_value_mem {pairs : List (K × V)} {key : K} {value : V}
    (hlast : last_value pairs key = some value) : (key, value) ∈ pairs := by
  simp only [last_value, Option.map_eq_some_iff] at hlast
  obtain ⟨pair, hfind, rfl⟩ := hlast
  have hkey : pair.1 = key := by simpa using List.find?_some hfind
  subst hkey
  simpa using List.mem_of_find?_eq_some hfind

/-- Inserting the entries of a map one by one rebuilds it. -/
theorem lookup_extend_entries (self : HashMap K V) (key : K) :
    (extend (∅ : HashMap K V) (self.entries.map fun entry => (entry.1, entry.2))).lookup key =
      self.lookup key := by
  have hentries : ∀ value, last_value (self.entries.map fun entry => (entry.1, entry.2)) key =
    some value →
      self.lookup key = some value := by
    intro value hlast
    have hmem := last_value_mem hlast
    simp only [List.mem_map, Prod.mk.injEq] at hmem
    obtain ⟨⟨_, _⟩, hentry, rfl, rfl⟩ := hmem
    exact AList.mem_lookup_iff.mpr hentry
  rw [lookup_extend, AList.lookup_empty, Option.or_none]
  cases hlast : last_value (self.entries.map fun entry => (entry.1, entry.2)) key with
  | some value => exact (hentries value hlast).symm
  | none =>
    simp only [last_value, Option.map_eq_none_iff, List.find?_eq_none,
      List.mem_reverse, List.mem_map,
      forall_exists_index, and_imp, decide_eq_true_eq] at hlast
    symm
    rw [AList.lookup_eq_none]
    intro hkey
    obtain ⟨value, hvalue⟩ := Option.isSome_iff_exists.mp (AList.lookup_isSome.mpr hkey)
    exact hlast (key, value) ⟨key, value⟩ (AList.mem_lookup_iff.mp hvalue) rfl rfl

theorem length_extend_le (self : HashMap K V) (pairs : List (K × V)) :
    (self.extend pairs).entries.length ≤ self.entries.length + pairs.length := by
  induction pairs generalizing self with
  | nil => exact Nat.le_refl _
  | cons pair pairs ih =>
    have hinsert : (self.insert pair.1 pair.2).entries.length ≤ self.entries.length + 1 := by
      simpa using (List.kerase_sublist pair.1 self.entries).length_le
    have hrest := ih (self.insert pair.1 pair.2)
    simp only [extend, List.foldl_cons, List.length_cons] at hrest ⊢
    omega

/-- Erasing a key takes its value out of the values. -/
theorem values_perm_erase {self : HashMap K V} {key : K} {value : V}
    (hlookup : self.lookup key = some value) :
    self.values.Perm (value :: values (self.erase key)) := by
  have hentry : (⟨key, value⟩ : Σ _ : K, V) ∈ self.entries := AList.mem_lookup_iff.mp hlookup
  have hkey : key ∈ self.entries.keys := List.mem_keys_of_mem hentry
  obtain ⟨found, before, after, _, hsplit, herase⟩ := List.exists_of_kerase hkey
  have hfound : (⟨key, found⟩ : Σ _ : K, V) ∈ self.entries := by simp [hsplit]
  obtain rfl : found = value := self.nodupKeys.eq_of_mk_mem hfound hentry
  have hrest : (self.erase key).entries = before ++ after := herase
  simp only [values, hsplit, hrest, List.map_append, List.map_cons]
  exact List.perm_middle

/-- `remove`: the value that was under the key, and the map without it. -/
def remove (self : HashMap K V) (key : K) : Option V × HashMap K V :=
  (self.lookup key, self.erase key)

end HashMap

namespace HashSet

variable {K : Type}

theorem keys_eq_nil_iff {set : HashSet K} : set.keys = [] ↔ ∀ element, element ∉ set :=
  List.eq_nil_iff_forall_not_mem

variable [DecidableEq K]

/-- The set of the elements of a list. -/
def collect (elements : List K) : HashSet K :=
  elements.foldl (fun set element => set.insert element ()) ∅

theorem mem_foldl_insert (set : HashSet K) (elements : List K) (element : K) :
    element ∈ elements.foldl (fun set element => set.insert element ()) set ↔ element ∈ elements ∨
      element ∈ set := by
  induction elements generalizing set with
  | nil => simp
  | cons head tail ih =>
    rw [List.foldl_cons, ih, AList.mem_insert, List.mem_cons]
    tauto

@[simp]
theorem mem_collect (elements : List K) (element : K) : element ∈ collect elements ↔
    element ∈ elements := by
  simp [collect, mem_foldl_insert]

theorem mem_foldl_erase (set : HashSet K) (elements : List K) (element : K) :
    element ∈ elements.foldl (fun set element => set.erase element) set ↔ element ∉ elements ∧
      element ∈ set := by
  induction elements generalizing set with
  | nil => simp
  | cons head tail ih =>
    rw [List.foldl_cons, ih, AList.mem_erase, List.mem_cons]
    tauto

end HashSet

end std.collections
