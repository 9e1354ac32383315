import Mathlib.Data.List.Forall2

namespace std.option

variable {A B : Type} {f : A → Option B} {source : List A} {target : List B}

/-- What a successful traversal returns comes from the elements traversed. -/
theorem exists_of_mem_mapM (hmap : source.mapM f = some target) {value : B}
    (hvalue : value ∈ target) : ∃ element ∈ source, f element = some value := by
  induction source generalizing target with
  | nil =>
    simp only [List.mapM_nil, Option.pure_def, Option.some.injEq] at hmap
    subst target
    simp at hvalue
  | cons head tail ih =>
    simp only [List.mapM_cons, Option.bind_eq_bind, Option.bind_eq_some_iff, Option.pure_def,
      Option.some.injEq] at hmap
    obtain ⟨first, hfirst, rest, hrest, rfl⟩ := hmap
    rcases List.mem_cons.mp hvalue with rfl | hvalue
    · exact ⟨head, List.mem_cons_self, hfirst⟩
    · obtain ⟨element, helement, hf⟩ := ih hrest hvalue
      exact ⟨element, List.mem_cons_of_mem _ helement, hf⟩

/-- A traversal succeeds with the results of its elements, in order. -/
theorem forall₂_of_mapM (hmap : source.mapM f = some target) :
    List.Forall₂ (fun a b => f a = some b) source target := by
  induction source generalizing target with
  | nil =>
    simp only [List.mapM_nil, Option.pure_def, Option.some.injEq] at hmap
    subst target
    exact .nil
  | cons head tail ih =>
    simp only [List.mapM_cons, Option.bind_eq_bind, Option.bind_eq_some_iff, Option.pure_def,
      Option.some.injEq] at hmap
    obtain ⟨first, hfirst, rest, hrest, rfl⟩ := hmap
    exact .cons hfirst (ih hrest)

/-- A traversal succeeds where every element has a result. -/
theorem exists_mapM_eq_some (hall : ∀ element ∈ source, ∃ value, f element = some value) :
    ∃ target, source.mapM f = some target := by
  induction source with
  | nil => exact ⟨[], rfl⟩
  | cons head tail ih =>
    obtain ⟨⟨first, hfirst⟩, htail⟩ := List.forall_mem_cons.mp hall
    obtain ⟨rest, hrest⟩ := ih htail
    exact ⟨first :: rest, by simp [hfirst, hrest]⟩

/-- The last element has the last result. -/
theorem getLast?_of_forall₂ {R : A → B → Prop} (hall : List.Forall₂ R source target) {last : A}
    (hlast : source.getLast? = some last) :
    ∃ value, target.getLast? = some value ∧ R last value := by
  induction hall with
  | nil => cases hlast
  | cons hhead htail ih =>
    cases htail with
    | nil =>
      cases hlast
      exact ⟨_, rfl, hhead⟩
    | cons hnext htail =>
      rw [List.getLast?_cons_cons] at hlast ⊢
      exact ih hlast

/-- Every element of a successful traversal has its result in what is returned. -/
theorem mem_of_mapM (hmap : source.mapM f = some target) {element : A}
    (helement : element ∈ source) {value : B} (hvalue : f element = some value) :
    value ∈ target := by
  have hall := forall₂_of_mapM hmap
  clear hmap
  induction hall with
  | nil => cases helement
  | cons hhead _ ih =>
    rcases List.mem_cons.mp helement with rfl | helement
    · rw [hhead, Option.some.injEq] at hvalue
      exact hvalue ▸ List.mem_cons_self
    · exact List.mem_cons_of_mem _ (ih helement)

/-- Every element of a successful traversal has a result. -/
theorem exists_mem_of_mapM (hmap : source.mapM f = some target) {element : A}
    (helement : element ∈ source) : ∃ value ∈ target, f element = some value := by
  have hall := forall₂_of_mapM hmap
  clear hmap
  induction hall with
  | nil => cases helement
  | cons hhead _ ih =>
    rcases List.mem_cons.mp helement with rfl | helement
    · exact ⟨_, List.mem_cons_self, hhead⟩
    · obtain ⟨value, hvalue, hf⟩ := ih helement
      exact ⟨value, List.mem_cons_of_mem _ hvalue, hf⟩

/-- A result of a successful traversal is that of the element at its index. -/
theorem getElem?_of_mapM_eq_some (hmap : source.mapM f = some target) {index : Nat} {value : B}
    (hvalue : target[index]? = some value) :
    ∃ element, source[index]? = some element ∧ f element = some value := by
  have hall := forall₂_of_mapM hmap
  clear hmap
  induction hall generalizing index with
  | nil => cases hvalue
  | @cons element _ _ _ hhead _ ih =>
    cases index with
    | zero =>
      obtain rfl := Option.some.inj hvalue
      exact ⟨element, rfl, hhead⟩
    | succ index => exact ih hvalue

/-- Two lists with the same values index by index map to the same list. -/
theorem map_eq_map_of_getElem? {C : Type} {left : List A} {right : List B} {f : A → C} {g : B → C}
    (hlength : left.length = right.length)
    (hvalue : ∀ (i : Nat) a, left[i]? = some a → ∃ b, right[i]? = some b ∧ f a = g b) :
    left.map f = right.map g := by
  refine List.ext_getElem? fun i => ?_
  rw [List.getElem?_map, List.getElem?_map]
  cases hleft : left[i]? with
  | some a =>
    obtain ⟨b, hright, hsame⟩ := hvalue i a hleft
    rw [hright, Option.map_some, Option.map_some, hsame]
  | none =>
    rw [List.getElem?_eq_none_iff, hlength] at hleft
    rw [List.getElem?_eq_none hleft]
    rfl

end std.option

namespace std.result

variable {A B E : Type} {f : A → Except E B} {source : List A} {target : List B}

/-- A sequence of two steps succeeds where both do. -/
theorem bind_eq_ok_iff {C : Type} {first : Except E A} {second : A → Except E C} {result : C} :
    first >>= second = .ok result ↔ ∃ value, first = .ok value ∧ second value = .ok result := by
  cases first <;> simp [bind, Except.bind]

theorem eq_ok_of_to_option {result : Except E A} {value : A}
    (hvalue : result.toOption = some value) : result = .ok value := by
  cases result with
  | error e => cases hvalue
  | ok other => exact congrArg Except.ok (Option.some.inj hvalue)

theorem exists_ok_of_any {result : Except E A} {P : A → Prop} [DecidablePred P]
    (hany : (result.toOption.any fun value => P value) = true) :
    ∃ value, result = .ok value ∧ P value := by
  cases result with
  | error e => cases hany
  | ok value => exact ⟨value, rfl, by simpa [Except.toOption] using hany⟩

/-- A traversal succeeds with the results of its elements, in order. -/
theorem mapM_eq_ok_iff : source.mapM f = .ok target ↔ List.Forall₂ (fun a b => f a = .ok b)
    source target := by
  induction source generalizing target with
  | nil => simp [pure, Except.pure, eq_comm]
  | cons head tail ih =>
    rw [List.mapM_cons, List.forall₂_cons_left_iff]
    cases hhead : f head with
    | error e => simp [bind, Except.bind]
    | ok first =>
      cases htail : tail.mapM f with
      | error e =>
        simp only [bind, Except.bind, reduceCtorEq, false_iff]
        rintro ⟨_, rest, _, hrest, _⟩
        rw [ih.mpr hrest] at htail
        cases htail
      | ok rest =>
        simp only [bind, Except.bind, pure, Except.pure, Except.ok.injEq]
        constructor
        · rintro rfl
          exact ⟨first, rest, rfl, ih.mp htail, rfl⟩
        · rintro ⟨_, rest', rfl, hrest, rfl⟩
          rw [ih.mpr hrest] at htail
          rw [Except.ok.inj htail]

/-- A successful traversal has a result at the index of each element. -/
theorem getElem?_of_mapM (hmap : source.mapM f = .ok target) {index : Nat} {element : A}
    (helement : source[index]? = some element) :
    ∃ value, target[index]? = some value ∧ f element = .ok value := by
  have hall := mapM_eq_ok_iff.mp hmap
  clear hmap
  induction hall generalizing index with
  | nil => cases helement
  | @cons head value tail values hhead _ ih =>
    cases index with
    | zero =>
      obtain rfl := Option.some.inj helement
      exact ⟨value, rfl, hhead⟩
    | succ index => exact ih helement

/-- A traversal succeeds exactly where every element does. -/
theorem exists_mapM_eq_ok_iff (f : A → Except E B) (source : List A) :
    (∃ target, source.mapM f = .ok target) ↔ ∀ a ∈ source, ∃ b, f a = .ok b := by
  simp only [mapM_eq_ok_iff]
  induction source with
  | nil => simp
  | cons head tail ih =>
    simp only [List.forall₂_cons_left_iff, List.forall_mem_cons, ← ih]
    constructor
    · rintro ⟨_, first, rest, hfirst, hrest, _⟩
      exact ⟨⟨first, hfirst⟩, rest, hrest⟩
    · rintro ⟨⟨first, hfirst⟩, rest, hrest⟩
      exact ⟨_, first, rest, hfirst, hrest, rfl⟩

end std.result
