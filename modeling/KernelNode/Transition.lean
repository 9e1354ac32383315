import Mathlib.Logic.Relation

namespace transition

/-- A labelled transition system with a predicate for its initial states. -/
structure System (State Label : Type) where
  init : State → Prop
  step : State → Label → State → Prop

namespace System

variable {State Label : Type}

/-- A finite run, with its labels in the order of the steps. -/
inductive Run (sys : System State Label) : State → List Label → State → Prop where
  | nil (state : State) : Run sys state [] state
  | snoc {first last next : State} {labels : List Label} {label : Label}
      (hrun : Run sys first labels last) (hstep : sys.step last label next) :
      Run sys first (labels ++ [label]) next

/-- A state some run reaches from an initial state. -/
def Reachable (sys : System State Label) (state : State) : Prop :=
  ∃ first labels, sys.init first ∧ sys.Run first labels state

/-- The runs of `sys` whose steps all satisfy `allowed` in the state they leave. -/
def restrict (sys : System State Label) (allowed : State → Label → Prop) : System State Label where
  init := sys.init
  step state label next := allowed state label ∧ sys.step state label next

variable {sys : System State Label}

/-- What every step preserves, every run preserves. -/
theorem Run.preserves {P : State → Prop}
    (hstep : ∀ state label next, P state → sys.step state label next → P next)
    {first last : State} {labels : List Label} (hrun : sys.Run first labels last)
    (hfirst : P first) : P last := by
  induction hrun with
  | nil => exact hfirst
  | snoc _ h ih => exact hstep _ _ _ ih h

theorem Run.append {first middle last : State} {labels rest : List Label}
    (hrun : sys.Run first labels middle) (hrest : sys.Run middle rest last) :
    sys.Run first (labels ++ rest) last := by
  induction hrest with
  | nil => simpa using hrun
  | snoc _ hstep ih =>
    rw [← List.append_assoc]
    exact ih.snoc hstep

/-- A run up to one of its steps, the step, and the run after it. -/
theorem Run.split {first last : State} {before after : List Label} {label : Label}
    (hrun : sys.Run first (before ++ label :: after) last) :
    ∃ state next, sys.Run first before state ∧ sys.step state label next ∧
      sys.Run next after last := by
  generalize hlabels : before ++ label :: after = labels at hrun
  induction hrun generalizing after with
  | nil => simp at hlabels
  | @snoc middle last labels final hrun hstep ih =>
    rcases List.eq_nil_or_concat after with rfl | ⟨after, _, rfl⟩
    · obtain ⟨rfl, hfinal⟩ := List.append_inj' hlabels rfl
      obtain rfl := List.singleton_inj.mp hfinal
      exact ⟨middle, last, hrun, hstep, .nil last⟩
    · rw [List.concat_eq_append] at hlabels ⊢
      rw [← List.cons_append, ← List.append_assoc] at hlabels
      obtain ⟨hearlier, hfinal⟩ := List.append_inj' hlabels rfl
      obtain rfl := List.singleton_inj.mp hfinal
      obtain ⟨state, next, hbefore, hlabel, hafter⟩ := ih hearlier
      exact ⟨state, next, hbefore, hlabel, hafter.snoc hstep⟩

/-- The invariant rule: what holds initially and is preserved by every step
    holds in every reachable state. -/
theorem Reachable.invariant {P : State → Prop} (hinit : ∀ state, sys.init state → P state)
    (hstep : ∀ state label next, P state → sys.step state label next → P next)
    {state : State} (hreach : sys.Reachable state) : P state := by
  obtain ⟨first, labels, hfirst, hrun⟩ := hreach
  exact hrun.preserves hstep (hinit first hfirst)

theorem Reachable.run {state next : State} {labels : List Label} (hreach : sys.Reachable state)
    (hrun : sys.Run state labels next) : sys.Reachable next := by
  obtain ⟨first, earlier, hfirst, hbefore⟩ := hreach
  exact ⟨first, earlier ++ labels, hfirst, hbefore.append hrun⟩

theorem Reachable.step {state next : State} {label : Label} (hreach : sys.Reachable state)
    (hstep : sys.step state label next) : sys.Reachable next := by
  obtain ⟨first, labels, hfirst, hrun⟩ := hreach
  exact ⟨first, labels ++ [label], hfirst, hrun.snoc hstep⟩

theorem Reachable.step_restrict {allowed : State → Label → Prop} {state next : State}
    {label : Label} (hreach : (sys.restrict allowed).Reachable state)
    (hstep : sys.step state label next) (hallowed : allowed state label) :
    (sys.restrict allowed).Reachable next :=
  hreach.step ⟨hallowed, hstep⟩

/-- Dropping the condition on the steps loses no run. -/
theorem Reachable.of_restrict {allowed : State → Label → Prop} {state : State}
    (hreach : (sys.restrict allowed).Reachable state) : sys.Reachable state := by
  obtain ⟨first, labels, hfirst, hrun⟩ := hreach
  refine ⟨first, labels, hfirst, ?_⟩
  induction hrun with
  | nil => exact .nil _
  | snoc _ hstep ih => exact ih.snoc hstep.2

theorem Reachable.of_init {state : State} (hinit : sys.init state) : sys.Reachable state :=
  ⟨state, [], hinit, .nil state⟩

end System

end transition
