/-
# NetProg.Base.Progress -- when every run of a system comes to an end, and where.

A variant is a number that every step from a reachable state makes smaller: a run is then no longer than the number
at its start (`length_add_le`), whatever is scheduled.  If moreover a state that is not final always has a step, a
run that cannot be continued has ended in a final state, and every run can be continued to one
(`Terminates.leads`).  The two together are total correctness; what is true of the final states is an invariant.
-/
import NetProg.Base.System

namespace NetProg.System

variable {S E : Type*} (sys : System S E)

/-- Nothing can happen any more. -/
def Stuck (s : S) : Prop := ∀ e, sys.step s e = none

/-- Every step from a reachable state makes `μ` smaller. -/
def Decreases (μ : S → ℕ) : Prop :=
  ∀ s e s', sys.Reachable s → sys.step s e = some s' → μ s' < μ s

/-- Runs have at most `bound` steps, and only final states have none to take. -/
structure Terminates (bound : ℕ) (Final : S → Prop) : Prop where
  length : ∀ es s, sys.runFrom sys.init es = some s → es.length ≤ bound
  progress : ∀ s, sys.Reachable s → ¬ Final s → ∃ e s', sys.step s e = some s'

variable {sys} {μ : S → ℕ} {s t : S}

theorem Stuck.not_step (h : sys.Stuck s) {e : E} (hstep : sys.step s e = some t) : False := by
  rw [h e] at hstep
  cases hstep

theorem runFrom_snoc {es : List E} {e : E} (hes : sys.runFrom sys.init es = some s)
    (hstep : sys.step s e = some t) : sys.runFrom sys.init (es ++ [e]) = some t := by
  revert hes
  generalize sys.init = r
  induction es generalizing r with
  | nil =>
    intro hes
    obtain rfl := Option.some.inj hes
    exact sys.runFrom_cons hstep rfl
  | cons e' es ih =>
    intro hes
    simp only [runFrom] at hes
    cases hfirst : sys.step r e' with
    | none => simp [hfirst] at hes
    | some r' =>
      simp only [hfirst] at hes
      exact sys.runFrom_cons hfirst (ih r' hes)

/-- Events that lead from the start to `s`. -/
theorem exists_run (hs : sys.Reachable s) : ∃ es, sys.runFrom sys.init es = some s := by
  induction hs with
  | init => exact ⟨[], rfl⟩
  | step e _ hstep ih =>
    obtain ⟨es, hes⟩ := ih
    exact ⟨es ++ [e], runFrom_snoc hes hstep⟩

/-- **The variant rule.** -/
theorem Decreases.length_add_le (hμ : sys.Decreases μ) (hs : sys.Reachable s) {es : List E}
    (h : sys.runFrom s es = some t) : es.length + μ t ≤ μ s := by
  induction es generalizing s with
  | nil =>
    obtain rfl := Option.some.inj h
    exact Nat.le_of_eq (Nat.zero_add _)
  | cons e es ih =>
    simp only [runFrom] at h
    cases hstep : sys.step s e with
    | none => simp [hstep] at h
    | some r =>
      simp only [hstep] at h
      have hrest := ih (.step e hs hstep) h
      have hfirst := hμ s e r hs hstep
      rw [List.length_cons]
      omega

theorem Decreases.terminates (hμ : sys.Decreases μ) {Final : S → Prop}
    (hprogress : ∀ s, sys.Reachable s → ¬ Final s → ∃ e s', sys.step s e = some s') :
    sys.Terminates (μ sys.init) Final where
  length := by
    intro es s h
    have := hμ.length_add_le .init h
    omega
  progress := hprogress

namespace Terminates

variable {bound : ℕ} {Final : S → Prop}

/-- A run that cannot be continued has ended in a final state. -/
theorem final_of_stuck (h : sys.Terminates bound Final) (hs : sys.Reachable s) (hstuck : sys.Stuck s) :
    Final s := by
  by_contra hnot
  obtain ⟨e, s', hstep⟩ := h.progress s hs hnot
  exact hstuck.not_step hstep

/-- **Every run can be continued to a final state.** -/
theorem leads (h : sys.Terminates bound Final) (hs : sys.Reachable s) : ∃ t, sys.Leads s t ∧ Final t := by
  obtain ⟨es, hes⟩ := exists_run hs
  -- on the number of events that the bound leaves
  induction hn : bound + 1 - es.length generalizing s es with
  | zero =>
    have := h.length es s hes
    omega
  | succ n ih =>
    by_cases hfinal : Final s
    · exact ⟨s, .refl s, hfinal⟩
    · obtain ⟨e, s', hstep⟩ := h.progress s hs hfinal
      obtain ⟨t, hleads, ht⟩ := ih (.step e hs hstep) (es ++ [e]) (runFrom_snoc hes hstep) (by
        rw [List.length_append, List.length_singleton]
        omega)
      exact ⟨t, .step hstep hleads, ht⟩

end Terminates

/-! ## Deadlines -/

/-- Some events lead from `s` to `t`, `n` of them the event `a` (a tick, say). -/
def Takes [DecidableEq E] (sys : System S E) (a : E) (n : ℕ) (s t : S) : Prop :=
  ∃ es, sys.runFrom s es = some t ∧ es.count a = n

namespace Takes

variable [DecidableEq E] {a : E} {n m : ℕ} {u : S}

theorem refl (s : S) : sys.Takes a 0 s s := ⟨[], rfl, rfl⟩

theorem cons {e : E} (he : sys.step s e = some t) (h : sys.Takes a n t u) :
    sys.Takes a (n + if e = a then 1 else 0) s u := by
  obtain ⟨es, hes, hcount⟩ := h
  refine ⟨e :: es, sys.runFrom_cons he hes, ?_⟩
  simp [List.count_cons, hcount]

/-- An event that is not counted. -/
theorem skip {e : E} (hne : e ≠ a) (he : sys.step s e = some t) (h : sys.Takes a n t u) : sys.Takes a n s u := by
  simpa [hne] using h.cons he

theorem trans (h : sys.Takes a n s t) (h' : sys.Takes a m t u) : sys.Takes a (n + m) s u := by
  obtain ⟨es, hes, rfl⟩ := h
  induction es generalizing s with
  | nil =>
    obtain rfl := Option.some.inj hes
    simpa using h'
  | cons e es ih =>
    simp only [runFrom] at hes
    cases hfirst : sys.step s e with
    | none => simp [hfirst] at hes
    | some r =>
      simp only [hfirst] at hes
      have hrest := (ih hes).cons hfirst
      rw [List.count_cons]
      simpa [Nat.add_assoc, Nat.add_comm, Nat.add_left_comm] using hrest

theorem reachable (hs : sys.Reachable s) (h : sys.Takes a n s t) : sys.Reachable t := by
  obtain ⟨es, hes, -⟩ := h
  exact sys.reachable_of_runFrom hs es hes

/-- **The deadline rule.**  What each event carries on, with the count, a run carries on. -/
theorem induction {P : ℕ → S → Prop} (h : sys.Takes a n s t) {k : ℕ} (hs : P k s)
    (hstep : ∀ k s e s', P k s → sys.step s e = some s' → P (k + if e = a then 1 else 0) s') : P (k + n) t := by
  obtain ⟨es, hes, rfl⟩ := h
  induction es generalizing s k with
  | nil =>
    obtain rfl := Option.some.inj hes
    exact hs
  | cons e es ih =>
    simp only [runFrom] at hes
    cases hfirst : sys.step s e with
    | none => simp [hfirst] at hes
    | some r =>
      simp only [hfirst] at hes
      have hrest := ih (hstep k s e r hs hfirst) hes
      rw [List.count_cons]
      simpa [Nat.add_assoc, Nat.add_comm, Nat.add_left_comm] using hrest

end Takes

end NetProg.System
