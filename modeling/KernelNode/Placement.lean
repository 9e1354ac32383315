import Mathlib.Data.Finset.Image
import Mathlib.Data.Fintype.Prod

namespace placement

variable {I A : Type} (place : A → I)

/-- Every item lies in the one cell that is computed from it. -/
def Placed (cells : I → Option A) : Prop :=
  ∀ index item, cells index = some item → place item = index

section

variable {place} {cells : I → Option A}

theorem Placed.empty : Placed place fun _ => none := nofun

/-- An item is stored somewhere exactly where its own cell holds it. -/
theorem Placed.stored_iff (hplaced : Placed place cells) {item : A} :
    (∃ index, cells index = some item) ↔ cells (place item) = some item := by
  constructor
  · rintro ⟨index, hitem⟩
    rwa [hplaced index item hitem]
  · exact fun hitem => ⟨place item, hitem⟩

/-- Two stored items with the same place are the same item in the same cell. -/
theorem Placed.eq_of_place_eq (hplaced : Placed place cells) {first second : I} {item other : A}
    (hitem : cells first = some item) (hother : cells second = some other)
    (hplace : place item = place other) : first = second ∧ item = other := by
  obtain rfl := hplaced first item hitem
  obtain rfl := hplaced second other hother
  rw [hplace, hother] at hitem
  exact ⟨hplace, (Option.some.inj hitem).symm⟩

end

variable [DecidableEq I]

/-- Put an item into its cell if that is free. -/
def add (cells : I → Option A) (item : A) : I → Option A :=
  match cells (place item) with
  | some _ => cells
  | none => Function.update cells (place item) (some item)

def add_all (cells : I → Option A) (items : List A) : I → Option A :=
  items.foldl (add place) cells

theorem add_apply (cells : I → Option A) (item : A) (index : I) :
    add place cells item index =
      (cells index).or (if place item = index then some item else none) := by
  by_cases hplace : place item = index
  · subst hplace
    cases hcell : cells (place item) <;> simp [add, hcell]
  · rw [if_neg hplace, Option.or_none]
    cases hcell : cells (place item) with
    | some occupied => simp [add, hcell]
    | none => simp [add, hcell, Ne.symm hplace]

/-- Of several items for a free cell the first one gets it. -/
theorem add_all_apply (cells : I → Option A) (items : List A) (index : I) :
    add_all place cells items index =
      (cells index).or (items.find? fun item => place item = index) := by
  induction items generalizing cells with
  | nil => simp [add_all]
  | cons item items ih =>
    change add_all place (add place cells item) items index = _
    rw [ih, add_apply, Option.or_assoc, List.find?_cons]
    by_cases hplace : place item = index <;> simp [hplace]

variable {place} {cells : I → Option A}

theorem Placed.update (hplaced : Placed place cells) {index : I} {value : Option A}
    (hvalue : ∀ item, value = some item → place item = index) :
    Placed place (Function.update cells index value) := by
  intro other item hitem
  by_cases hother : other = index
  · subst hother
    exact hvalue item (by simpa using hitem)
  · rw [Function.update_of_ne hother] at hitem
    exact hplaced other item hitem

/-- An item may change in its cell in what its place does not depend on. -/
theorem Placed.update_map (hplaced : Placed place cells) {change : A → A}
    (hchange : ∀ item, place (change item) = place item) (index : I) :
    Placed place (Function.update cells index ((cells index).map change)) := by
  refine hplaced.update fun item hitem => ?_
  obtain ⟨occupied, hoccupied, rfl⟩ := Option.map_eq_some_iff.mp hitem
  rw [hchange, hplaced index occupied hoccupied]

theorem Placed.add (hplaced : Placed place cells) (item : A) :
    Placed place (add place cells item) := by
  simp only [placement.add]
  split
  · exact hplaced
  · refine hplaced.update ?_
    rintro _ ⟨⟩
    rfl

theorem Placed.add_all (hplaced : Placed place cells) (items : List A) :
    Placed place (add_all place cells items) := by
  induction items generalizing cells with
  | nil => exact hplaced
  | cons item items ih => exact ih (hplaced.add item)

/-- Adding the stored items to an empty store, in any order, never conflicts and
    gives the store back. -/
theorem Placed.add_all_listing (hplaced : Placed place cells) {items : List A}
    (hitems : ∀ item, item ∈ items ↔ ∃ index, cells index = some item) :
    placement.add_all place (fun _ => none) items = cells := by
  funext index
  rw [add_all_apply, Option.none_or]
  cases hfind : items.find? fun item => place item = index with
  | some item =>
    have hmem := List.mem_of_find?_eq_some hfind
    have hplace : place item = index := by simpa using List.find?_some hfind
    rw [← hplace, hplaced.stored_iff.mp ((hitems item).mp hmem)]
  | none =>
    cases hcell : cells index with
    | none => rfl
    | some item =>
      have hmem := (hitems item).mpr ⟨index, hcell⟩
      have hother := List.find?_eq_none.mp hfind item hmem
      exact absurd (hplaced index item hcell) (by simpa using hother)

/-- Adding items changes only the cells they belong in. -/
theorem add_all_apply_of_not_mem {items : List A} {index : I} (hindex : index ∉ items.map place) :
    add_all place cells items index = cells index := by
  have hfind : items.find? (fun item => place item = index) = none := by
    rw [List.find?_eq_none]
    intro item hitem hplace
    exact hindex (List.mem_map.mpr ⟨item, hitem, by simpa using hplace⟩)
  rw [add_all_apply, hfind, Option.or_none]

end placement
