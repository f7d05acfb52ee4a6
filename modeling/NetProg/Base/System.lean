/-
# NetProg.Base.System -- guarded transition systems and their invariant rule.

A system is a start state and a guarded step: `step s e` is `some s'` when event `e` is enabled in `s`
and `none` otherwise.  One definition serves replay (`runFrom`, so that a concrete run is a computation)
and proof (`Reachable`, with one induction rule for all invariants).

`restrict` keeps the steps that satisfy a side condition.  A law that holds only of the runs that avoid
some schedule is stated over the restricted system; its steps are steps of the system (`restrict_step`), and
an invariant of it may use the condition in its step (`restrict_invariant`).
-/
import Mathlib.Data.List.Basic
import Mathlib.Tactic.Cases

namespace NetProg

/-- A transition system: a start state and a guarded step function. -/
structure System (S E : Type*) where
  init : S
  step : S → E → Option S

namespace System

variable {S E : Type*} (sys : System S E)

/-- The states that some finite sequence of enabled events leads to. -/
inductive Reachable : S → Prop
  | init : Reachable sys.init
  | step {s s' : S} (e : E) : Reachable s → sys.step s e = some s' → Reachable s'

/-- **The invariant rule.** What holds at the start and survives every enabled event holds of every
reachable state; the step may use that its own start state is reachable. -/
theorem invariant {P : S → Prop} (hinit : P sys.init)
    (hstep : ∀ s e s', sys.Reachable s → P s → sys.step s e = some s' → P s')
    {s : S} (h : sys.Reachable s) : P s := by
  induction h with
  | init => exact hinit
  | step e hr hs ih => exact hstep _ e _ hr ih hs

/-- Replay a list of events; `none` as soon as one of them is not enabled. -/
def runFrom : S → List E → Option S
  | s, [] => some s
  | s, e :: es =>
    match sys.step s e with
    | some s' => runFrom s' es
    | none => none

/-- Replay does not leave the reachable states. -/
theorem reachable_of_runFrom {s s' : S} (hs : sys.Reachable s) (es : List E)
    (h : sys.runFrom s es = some s') : sys.Reachable s' := by
  induction es generalizing s with
  | nil =>
    simp only [runFrom, Option.some.injEq] at h
    exact h ▸ hs
  | cons e es ih =>
    simp only [runFrom] at h
    cases hse : sys.step s e with
    | none => simp [hse] at h
    | some t =>
      simp only [hse] at h
      exact ih (.step e hs hse) h

/-- The end of a successful replay from the start state is reachable. -/
theorem reachable_of_run {s : S} (es : List E) (h : sys.runFrom sys.init es = some s) :
    sys.Reachable s :=
  sys.reachable_of_runFrom .init es h

/-- A replay that ends in a state with a computable property. -/
theorem exists_reachable_of_run (es : List E) (p : S → Bool)
    (h : (sys.runFrom sys.init es).any p = true) : ∃ s, sys.Reachable s ∧ p s = true := by
  cases hrun : sys.runFrom sys.init es with
  | none => simp [hrun] at h
  | some s => exact ⟨s, sys.reachable_of_run es hrun, by simpa [hrun] using h⟩

/-- A run lemma from a step lemma: what every enabled event of the list preserves, the run preserves. -/
theorem runFrom_induction {P : S → Prop} (es : List E)
    (hstep : ∀ s e s', e ∈ es → P s → sys.step s e = some s' → P s')
    {s s' : S} (hs : P s) (h : sys.runFrom s es = some s') : P s' := by
  induction es generalizing s with
  | nil =>
    simp only [runFrom, Option.some.injEq] at h
    exact h ▸ hs
  | cons e es ih =>
    simp only [runFrom] at h
    cases hse : sys.step s e with
    | none => simp [hse] at h
    | some t =>
      simp only [hse] at h
      refine ih (fun s e' s' he' => hstep s e' s' (List.mem_cons_of_mem e he')) ?_ h
      exact hstep s e t List.mem_cons_self hs hse

/-- Keep only the steps whose start state and event satisfy `C`. -/
def restrict (C : S → E → Prop) [∀ s e, Decidable (C s e)] : System S E where
  init := sys.init
  step s e := if C s e then sys.step s e else none

theorem restrict_step {C : S → E → Prop} [∀ s e, Decidable (C s e)] {s s' : S} {e : E} :
    (sys.restrict C).step s e = some s' ↔ C s e ∧ sys.step s e = some s' := by
  by_cases h : C s e <;> simp [restrict, h]

/-- The runs that meet a side condition are runs. -/
theorem reachable_of_restrict {C : S → E → Prop} [∀ s e, Decidable (C s e)] {s : S}
    (h : (sys.restrict C).Reachable s) : sys.Reachable s := by
  induction h with
  | init => exact .init
  | step e _ hs ih => exact .step e ih (sys.restrict_step.mp hs).2

/-- **The invariant rule, for the runs that meet a side condition.** -/
theorem restrict_invariant {C : S → E → Prop} [∀ s e, Decidable (C s e)] {P : S → Prop} (hinit : P sys.init)
    (hstep : ∀ s e s', sys.Reachable s → P s → C s e → sys.step s e = some s' → P s')
    {s : S} (h : (sys.restrict C).Reachable s) : P s := by
  refine (sys.restrict C).invariant hinit ?_ h
  intro s e s' hr hs hrestrict
  obtain ⟨hC, hstepped⟩ := sys.restrict_step.mp hrestrict
  exact hstep s e s' (sys.reachable_of_restrict hr) hs hC hstepped

theorem runFrom_of_restrict {C : S → E → Prop} [∀ s e, Decidable (C s e)] {s s' : S} (es : List E)
    (h : (sys.restrict C).runFrom s es = some s') : sys.runFrom s es = some s' := by
  induction es generalizing s with
  | nil => exact h
  | cons e es ih =>
    simp only [runFrom] at h ⊢
    cases hse : (sys.restrict C).step s e with
    | none => simp [hse] at h
    | some t =>
      simp only [hse] at h
      simp only [(sys.restrict_step.mp hse).2, ih h]

/-- A replay whose first event is enabled. -/
theorem runFrom_cons {s t u : S} {e : E} {es : List E} (he : sys.step s e = some t)
    (hes : sys.runFrom t es = some u) : sys.runFrom s (e :: es) = some u := by
  simp only [runFrom, he, hes]

/-! ## Where a state leads -/

/-- Some events lead from `s` to `t`. -/
def Leads (s t : S) : Prop := ∃ es, sys.runFrom s es = some t

namespace Leads

variable {sys} {s t u : S}

theorem refl (s : S) : sys.Leads s s := ⟨[], rfl⟩

theorem step {e : E} (he : sys.step s e = some t) (h : sys.Leads t u) : sys.Leads s u := by
  obtain ⟨es, hes⟩ := h
  exact ⟨e :: es, sys.runFrom_cons he hes⟩

theorem single {e : E} (he : sys.step s e = some t) : sys.Leads s t := step he (refl t)

theorem trans (h : sys.Leads s t) (h' : sys.Leads t u) : sys.Leads s u := by
  obtain ⟨es, hes⟩ := h
  induction es generalizing s with
  | nil =>
    cases hes
    exact h'
  | cons e es ih =>
    simp only [runFrom] at hes
    cases hse : sys.step s e with
    | none => simp [hse] at hes
    | some r =>
      simp only [hse] at hes
      exact step hse (ih hes)

theorem reachable (hs : sys.Reachable s) (h : sys.Leads s t) : sys.Reachable t := by
  obtain ⟨es, hes⟩ := h
  exact sys.reachable_of_runFrom hs es hes

end Leads

end System

end NetProg
