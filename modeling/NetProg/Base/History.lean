/-
# NetProg.Base.History -- a system together with what was observed of its run.

A law about a run often speaks of what happened before: "since the last heartbeat", "the third failure in a
row".  When the states do not record it, `observe obs` does: it keeps, beside the state, the list of what `obs`
sees in each step, oldest first.  The history changes nothing: its runs are those of the system
(`reachable_of_observe`), and every run has one (`exists_observe_run`).
-/
import NetProg.Base.EventLog
import NetProg.Base.System

namespace NetProg.System

variable {S E O : Type*} (sys : System S E) (obs : S → E → List O)

/-- The system, with what was observed of its steps so far. -/
def observe : System (S × List O) E where
  init := (sys.init, [])
  step s e := (sys.step s.1 e).map fun s' => (s', s.2 ++ obs s.1 e)

variable {sys obs} {s s' : S} {l l' : List O} {e : E}

theorem observe_step :
    (sys.observe obs).step (s, l) e = some (s', l') ↔ sys.step s e = some s' ∧ l' = l ++ obs s e := by
  simp only [observe, Option.map_eq_some_iff, Prod.mk.injEq]
  constructor
  · rintro ⟨t, hstep, rfl, rfl⟩
    exact ⟨hstep, rfl⟩
  · rintro ⟨hstep, rfl⟩
    exact ⟨s', hstep, rfl, rfl⟩

theorem reachable_of_observe {p : S × List O} (h : (sys.observe obs).Reachable p) : sys.Reachable p.1 := by
  induction h with
  | init => exact .init
  | step e _ hstep ih => exact .step e ih (observe_step.mp hstep).1

/-- **The invariant rule, for the state and its history.** -/
theorem observe_invariant {P : S → List O → Prop} (hinit : P sys.init [])
    (hstep : ∀ s l e s', (sys.observe obs).Reachable (s, l) → P s l → sys.step s e = some s' →
      P s' (l ++ obs s e))
    {p : S × List O} (h : (sys.observe obs).Reachable p) : P p.1 p.2 := by
  refine (sys.observe obs).invariant (P := fun p => P p.1 p.2) hinit ?_ h
  rintro ⟨s, l⟩ e ⟨s', l'⟩ hr hs hobs
  obtain ⟨hse, rfl⟩ := observe_step.mp hobs
  exact hstep s l e s' hr hs hse

/-- The same rule, for the runs whose steps meet a condition on the state and its history. -/
theorem restrict_observe_invariant {C : S × List O → E → Prop} [∀ p e, Decidable (C p e)]
    {P : S → List O → Prop} (hinit : P sys.init [])
    (hstep : ∀ s l e s', sys.Reachable s → P s l → C (s, l) e → sys.step s e = some s' → P s' (l ++ obs s e))
    {p : S × List O} (h : ((sys.observe obs).restrict C).Reachable p) : P p.1 p.2 := by
  refine (sys.observe obs).restrict_invariant (P := fun p => P p.1 p.2) hinit ?_ h
  rintro ⟨s, l⟩ e ⟨s', l'⟩ hr hs hC hobs
  obtain ⟨hse, rfl⟩ := observe_step.mp hobs
  exact hstep s l e s' (reachable_of_observe hr) hs hC hse

/-- With the events themselves as the history, every part of a run from its start is a run. -/
theorem exists_reachable_before {l' : List E} {before after : List E}
    (h : (sys.observe fun _ e => [e]).Reachable (s, l')) (hcut : l' = before ++ after) :
    ∃ t, (sys.observe fun _ e => [e]).Reachable (t, before) := by
  generalize hp : (s, l') = p at h
  induction h generalizing s l' after with
  | init =>
    obtain ⟨-, rfl⟩ := Prod.mk.inj hp
    obtain ⟨rfl, -⟩ := List.append_eq_nil_iff.mp hcut.symm
    exact ⟨sys.init, .init⟩
  | @step p p' e hr hstep ih =>
    obtain rfl := hp
    obtain ⟨-, hl⟩ := observe_step.mp hstep
    rcases List.eq_nil_or_concat after with rfl | ⟨after, last, rfl⟩
    · rw [hcut, List.append_nil] at hstep
      exact ⟨s, .step e hr hstep⟩
    · rw [hcut, List.concat_eq_append, ← List.append_assoc] at hl
      exact ih (List.append_inj' hl rfl).1.symm rfl

/-- What the events of a run show, from a state on. -/
def observed (sys : System S E) (obs : S → E → List O) : S → List E → List O
  | _, [] => []
  | s, e :: es =>
    match sys.step s e with
    | some s' => obs s e ++ observed sys obs s' es
    | none => []

/-- A run has a history. -/
theorem exists_observe_run (es : List E) (h : sys.runFrom s es = some s') (l : List O) :
    (sys.observe obs).runFrom (s, l) es = some (s', l ++ observed sys obs s es) := by
  induction es generalizing s l with
  | nil =>
    cases h
    simp [runFrom, observed]
  | cons e es ih =>
    simp only [runFrom] at h
    cases hse : sys.step s e with
    | none => simp [hse] at h
    | some t =>
      simp only [hse] at h
      have hobs : (sys.observe obs).step (s, l) e = some (t, l ++ obs s e) := observe_step.mpr ⟨hse, rfl⟩
      rw [(sys.observe obs).runFrom_cons hobs (ih h (l ++ obs s e))]
      simp only [observed, hse, List.append_assoc]

theorem observe_leads {es : List E} (h : sys.runFrom s es = some s') {o : List O}
    (ho : observed sys obs s es = o) (l : List O) : (sys.observe obs).Leads (s, l) (s', l ++ o) :=
  ⟨es, ho ▸ exists_observe_run es h l⟩

/-- Events that show nothing. -/
theorem observe_leads_silent {es : List E} (h : sys.runFrom s es = some s')
    (ho : observed sys obs s es = []) (l : List O) : (sys.observe obs).Leads (s, l) (s', l) := by
  simpa using observe_leads h ho l

end NetProg.System
