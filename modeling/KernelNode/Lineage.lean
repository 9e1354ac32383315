import Mathlib.Data.Fintype.Card
import Mathlib.Data.Set.Finite.Basic
import Mathlib.Logic.Relation
import Mathlib.Order.WellFounded

namespace lineage

variable {A K : Type}

/-- Every listed element comes when the key of its parent is known: from the
    start, or since the parent has been listed. -/
def ParentsFirst (key parent : A → K) : (K → Prop) → List A → Prop
  | _, [] => True
  | known, element :: rest => known (parent element) ∧
      ParentsFirst key parent (fun name => known name ∨ name = key element) rest

/-- The line of parents of an element, through the stock, reaches a known key. -/
inductive Connectable (key parent : A → K) (known : K → Prop) (stock : A → Prop) : A → Prop
  | known {element : A} (hstock : stock element) (hknown : known (parent element)) :
      Connectable key parent known stock element
  | child {element elder : A} (hstock : stock element)
      (helder : Connectable key parent known stock elder) (hparent : parent element = key elder) :
      Connectable key parent known stock element

/-- No element of the stock is its own ancestor. -/
def Acyclic (key parent : A → K) (stock : A → Prop) : Prop :=
  ∀ element, ¬ Relation.TransGen
    (fun elder younger => stock elder ∧ stock younger ∧ parent younger = key elder) element element

variable {key parent : A → K} {known wider : K → Prop} {stock : A → Prop} {elements : List A}

theorem ParentsFirst.mono (hfirst : ParentsFirst key parent known elements)
    (hwider : ∀ name, known name → wider name) : ParentsFirst key parent wider elements := by
  induction elements generalizing known wider with
  | nil => trivial
  | cons element rest ih =>
    obtain ⟨hparent, hrest⟩ := hfirst
    refine ⟨hwider _ hparent, ih hrest ?_⟩
    intro name hname
    exact hname.imp (hwider name) id

theorem Connectable.in_stock {element : A}
    (helement : Connectable key parent known stock element) : stock element := by
  cases helement with
  | known hstock _ => exact hstock
  | child hstock _ _ => exact hstock

/-- An element that is connectable need not be known beforehand. -/
theorem Connectable.of_known_or {element elder : A}
    (helement : Connectable key parent (fun name => known name ∨ name = key elder) stock element)
    (helder : Connectable key parent known stock elder) :
    Connectable key parent known stock element := by
  induction helement with
  | known hstock hknown =>
    rcases hknown with hknown | hparent
    · exact .known hstock hknown
    · exact .child hstock helder hparent
  | child hstock _ hparent ih => exact .child hstock ih hparent

theorem ParentsFirst.connectable (hfirst : ParentsFirst key parent known elements)
    (hstock : ∀ element ∈ elements, stock element) {element : A} (helement : element ∈ elements) :
    Connectable key parent known stock element := by
  induction elements generalizing known with
  | nil => cases helement
  | cons head rest ih =>
    obtain ⟨hparent, hrest⟩ := hfirst
    have hhead : Connectable key parent known stock head :=
      .known (hstock head List.mem_cons_self) hparent
    rcases List.mem_cons.mp helement with rfl | helement
    · exact hhead
    · have hlater := ih hrest (fun other hother => hstock other (List.mem_cons_of_mem _ hother))
        helement
      exact hlater.of_known_or hhead

theorem Acyclic.subset {part : A → Prop} (hacyclic : Acyclic key parent stock)
    (hpart : ∀ element, part element → stock element) : Acyclic key parent part := by
  intro element hcycle
  refine hacyclic element (Relation.TransGen.mono ?_ element element hcycle)
  rintro elder younger ⟨helder, hyounger, hparent⟩
  exact ⟨hpart elder helder, hpart younger hyounger, hparent⟩

/-- Parents of a lower rank leave no room for a cycle. -/
theorem Acyclic.of_rank (rank : A → Nat)
    (hrank : ∀ elder, stock elder → ∀ younger, stock younger → parent younger = key elder →
      rank elder < rank younger) : Acyclic key parent stock := by
  intro element hcycle
  have hlower : ∀ last, Relation.TransGen
      (fun elder younger => stock elder ∧ stock younger ∧ parent younger = key elder) element last →
      rank element < rank last := by
    intro last hline
    induction hline with
    | single hstep => exact hrank _ hstep.1 _ hstep.2.1 hstep.2.2
    | tail _ hstep ih => exact ih.trans (hrank _ hstep.1 _ hstep.2.1 hstep.2.2)
  exact Nat.lt_irrefl _ (hlower element hcycle)

/-- Finitely many elements without a cycle have one whose parent is not among
    them. -/
theorem Acyclic.exists_root (hacyclic : Acyclic key parent (· ∈ elements))
    (hne : elements ≠ []) :
    ∃ root ∈ elements, ∀ element ∈ elements, parent root ≠ key element := by
  let Older : {element // element ∈ elements} → {element // element ∈ elements} → Prop :=
    fun elder younger => Relation.TransGen
      (fun elder younger => elder ∈ elements ∧ younger ∈ elements ∧ parent younger = key elder)
      elder.1 younger.1
  have htrans : IsTrans _ Older := ⟨fun _ _ _ => Relation.TransGen.trans⟩
  have hirrefl : Std.Irrefl Older := ⟨fun element => hacyclic element.1⟩
  have hfinite : Finite {element // element ∈ elements} := elements.finite_toSet.to_subtype
  have hwf : WellFounded Older := Finite.wellFounded_of_trans_of_irrefl Older
  obtain ⟨first, hfirst⟩ := List.exists_mem_of_ne_nil elements hne
  obtain ⟨⟨root, hroot⟩, _, hmin⟩ := hwf.has_min Set.univ ⟨⟨first, hfirst⟩, trivial⟩
  refine ⟨root, hroot, ?_⟩
  intro element helement hparent
  exact hmin ⟨element, helement⟩ trivial (.single ⟨helement, hroot, hparent⟩)

end lineage
