/-
# NetProg.Base.Loop -- a C loop body and the `while (1)` around it.

A statement of a C loop body leaves in one of five ways: it falls through to the next statement, it
`continue`s the enclosing loop, it `return`s, it calls `exit`, or its behaviour is undefined.  `Flow`
names them and carries the state at that point; `andThen` is sequencing.

`whileLoop` runs a body for ever.  Its states are flows: `next s` is the loop head in state `s`, the
others are final.  `Admits s e` restricts the answers `e` that the kernel can give in state `s`.  An
invariant that the body keeps however it leaves (`Holds`) holds in every state of every run, and so does a law
of the state and what was observed of the passes (`whileLoop_observe_invariant`).
-/
import NetProg.Base.History
import NetProg.Base.System

namespace NetProg

/-- How a statement leaves, with the state at that point. -/
inductive Flow (σ : Type*) where
  | next (s : σ)
  | again (s : σ)
  | ret (s : σ)
  | exit (msg : String) (s : σ)
  | undef (s : σ)
  deriving DecidableEq

namespace Flow

variable {σ : Type*}

/-- The state at the point where the statement left. -/
def state : Flow σ → σ
  | next s | again s | ret s | exit _ s | undef s => s

/-- Sequencing: the second statement runs when the first falls through. -/
def andThen (f : Flow σ) (g : σ → Flow σ) : Flow σ :=
  match f with
  | next s => g s
  | f => f

/-- The end of a loop body and `continue` both go back to the loop head. -/
def loopBack : Flow σ → Flow σ
  | again s => next s
  | f => f

/-- Look at the state only through `φ`. -/
def map {τ : Type*} (φ : σ → τ) : Flow σ → Flow τ
  | next s => next (φ s)
  | again s => again (φ s)
  | ret s => ret (φ s)
  | exit msg s => exit msg (φ s)
  | undef s => undef (φ s)

@[simp] theorem andThen_next (s : σ) (g : σ → Flow σ) : (next s).andThen g = g s := rfl
@[simp] theorem andThen_again (s : σ) (g : σ → Flow σ) : (again s).andThen g = again s := rfl
@[simp] theorem andThen_ret (s : σ) (g : σ → Flow σ) : (ret s).andThen g = ret s := rfl
@[simp] theorem andThen_exit (m : String) (s : σ) (g : σ → Flow σ) :
    (exit m s).andThen g = exit m s := rfl
@[simp] theorem andThen_undef (s : σ) (g : σ → Flow σ) : (undef s).andThen g = undef s := rfl

theorem andThen_assoc (f : Flow σ) (g h : σ → Flow σ) :
    (f.andThen g).andThen h = f.andThen fun s => (g s).andThen h := by
  cases f <;> rfl

/-- A sequence returns if its first statement does, or the second one after the first fell through. -/
theorem andThen_eq_ret {f : Flow σ} {g : σ → Flow σ} {s : σ} :
    f.andThen g = ret s ↔ f = ret s ∨ ∃ t, f = next t ∧ g t = ret s := by
  cases f <;> simp [andThen]

/-- A sequence falls through if both statements do. -/
theorem andThen_eq_next {f : Flow σ} {g : σ → Flow σ} {s : σ} :
    f.andThen g = next s ↔ ∃ t, f = next t ∧ g t = next s := by
  cases f <;> simp [andThen]

/-- A sequence `continue`s if its first statement does, or the second one after the first fell through. -/
theorem andThen_eq_again {f : Flow σ} {g : σ → Flow σ} {s : σ} :
    f.andThen g = again s ↔ f = again s ∨ ∃ t, f = next t ∧ g t = again s := by
  cases f <;> simp [andThen]

@[simp] theorem state_loopBack (f : Flow σ) : f.loopBack.state = f.state := by
  cases f <;> rfl

theorem loopBack_eq_ret {f : Flow σ} {s : σ} : f.loopBack = ret s ↔ f = ret s := by
  cases f <;> simp [loopBack]

/-- `P` holds of the state in which the statement left, whichever way it left. -/
def Holds (P : σ → Prop) (f : Flow σ) : Prop := P f.state

/-- `P` holds if the statement falls through, `Q` if it leaves any other way. -/
def Splits (P Q : σ → Prop) : Flow σ → Prop
  | next s => P s
  | again s | ret s | exit _ s | undef s => Q s

theorem Splits.andThen {P P' Q : σ → Prop} {f : Flow σ} {g : σ → Flow σ}
    (hf : f.Splits P Q) (hg : ∀ s, P s → (g s).Splits P' Q) : (f.andThen g).Splits P' Q := by
  cases f with
  | next s => exact hg s hf
  | again s => exact hf
  | ret s => exact hf
  | exit m s => exact hf
  | undef s => exact hf

theorem Splits.holds {P : σ → Prop} {f : Flow σ} (hf : f.Splits P P) : f.Holds P := by
  cases f <;> exact hf

/-- `P` holds if control goes on to the next statement or back to the loop head. -/
def ToHead (P : σ → Prop) : Flow σ → Prop
  | next s | again s => P s
  | ret _ | exit _ _ | undef _ => True

theorem ToHead.andThen {P : σ → Prop} {f : Flow σ} {g : σ → Flow σ} (hf : f.ToHead P)
    (hg : ∀ s, P s → (g s).ToHead P) : (f.andThen g).ToHead P := by
  cases f with
  | next s => exact hg s hf
  | again s => exact hf
  | ret s => trivial
  | exit m s => trivial
  | undef s => trivial

end Flow

/-- The statement fell through, in a state with a computable property. -/
def Flow.nextHas {σ : Type*} (p : σ → Bool) : Flow σ → Bool
  | .next s => p s
  | _ => false

/-- The behaviour of the statement is undefined. -/
def Flow.isUndef {σ : Type*} : Flow σ → Bool
  | .undef _ => true
  | _ => false

@[simp] theorem Flow.isUndef_loopBack {σ : Type*} (f : Flow σ) : f.loopBack.isUndef = f.isUndef := by
  cases f <;> rfl

/-- `while (1) body`, over the kernel answers that `Admits` allows at the loop head. -/
def whileLoop {σ ε : Type*} (body : σ → ε → Flow σ) (Admits : σ → ε → Prop)
    [∀ s e, Decidable (Admits s e)] (s₀ : σ) : System (Flow σ) ε where
  init := .next s₀
  step f e :=
    match f with
    | .next s => if Admits s e then some (body s e).loopBack else none
    | _ => none

section WhileLoop

variable {σ ε : Type*} {body : σ → ε → Flow σ} {Admits : σ → ε → Prop}
  [∀ s e, Decidable (Admits s e)] {s₀ : σ}

/-- A loop head of some run. -/
def AtHead (sys : System (Flow σ) ε) (s : σ) : Prop := sys.Reachable (.next s)

theorem whileLoop_step {f f' : Flow σ} {e : ε} :
    (whileLoop body Admits s₀).step f e = some f' ↔
      ∃ s, f = .next s ∧ Admits s e ∧ f' = (body s e).loopBack := by
  cases f with
  | next s => by_cases h : Admits s e <;> simp [whileLoop, h, eq_comm]
  | again s => simp [whileLoop]
  | ret s => simp [whileLoop]
  | exit m s => simp [whileLoop]
  | undef s => simp [whileLoop]

/-- Off the loop head nothing happens. -/
theorem whileLoop_stuck {f : Flow σ} (h : ∀ s, f ≠ .next s) (e : ε) :
    (whileLoop body Admits s₀).step f e = none := by
  cases f with
  | next s => exact absurd rfl (h s)
  | again s | ret s | exit m s | undef s => rfl

/-- A replay that ends at a loop head with a computable property. -/
theorem exists_atHead_of_run (sys : System (Flow σ) ε) (es : List ε) (p : σ → Bool)
    (h : (sys.runFrom sys.init es).any (Flow.nextHas p) = true) : ∃ s, AtHead sys s ∧ p s = true := by
  obtain ⟨f, hf, hp⟩ := sys.exists_reachable_of_run es (Flow.nextHas p) h
  cases f with
  | next s => exact ⟨s, hf, hp⟩
  | again s | ret s | exit m s | undef s => exact absurd hp Bool.false_ne_true

theorem AtHead.start : AtHead (whileLoop body Admits s₀) s₀ := System.Reachable.init

/-- One admissible pass from a loop head is reachable, however it ends. -/
theorem AtHead.pass {s : σ} (hs : AtHead (whileLoop body Admits s₀) s) {e : ε} (he : Admits s e) :
    (whileLoop body Admits s₀).Reachable (body s e).loopBack :=
  System.Reachable.step e hs (whileLoop_step.mpr ⟨s, rfl, he, rfl⟩)

/-- **The loop rule.** An invariant that every pass keeps, however it ends, holds in every state. -/
theorem whileLoop_invariant {I : σ → Prop} (h₀ : I s₀)
    (hpass : ∀ s e, AtHead (whileLoop body Admits s₀) s → I s → Admits s e → (body s e).Holds I)
    {f : Flow σ} (hf : (whileLoop body Admits s₀).Reachable f) : f.Holds I := by
  refine System.invariant _ (P := fun f => f.Holds I) h₀ ?_ hf
  intro f e f' hreach hI hstep
  obtain ⟨s, rfl, he, rfl⟩ := whileLoop_step.mp hstep
  have := hpass s e hreach hI he
  simpa [Flow.Holds] using this

/-- The loop rule for a law of the loop heads only. -/
theorem atHead_invariant {I : σ → Prop} (h₀ : I s₀)
    (hpass : ∀ s e, AtHead (whileLoop body Admits s₀) s → I s → Admits s e → (body s e).ToHead I)
    {s : σ} (hs : AtHead (whileLoop body Admits s₀) s) : I s := by
  have key : ∀ f, (whileLoop body Admits s₀).Reachable f → ∀ t, f = .next t → I t := by
    intro f hf
    refine System.invariant _ (P := fun f => ∀ t, f = .next t → I t) ?_ ?_ hf
    · rintro t ⟨⟩
      exact h₀
    · rintro f e f' hreach hI hstep t rfl
      obtain ⟨s, rfl, he, hb⟩ := whileLoop_step.mp hstep
      have hto := hpass s e hreach (hI s rfl) he
      cases hbody : body s e <;> simp_all [Flow.loopBack, Flow.ToHead]
  exact key _ hs s rfl

/-- The loop rule for the state and what was observed of the passes. -/
theorem whileLoop_observe_invariant {O : Type*} {obs : Flow σ → ε → List O} {P : Flow σ → List O → Prop}
    (h₀ : P (.next s₀) [])
    (hpass : ∀ s l e, AtHead (whileLoop body Admits s₀) s → P (.next s) l → Admits s e →
      P (body s e).loopBack (l ++ obs (.next s) e))
    {f : Flow σ} {l : List O} (hf : ((whileLoop body Admits s₀).observe obs).Reachable (f, l)) : P f l := by
  refine System.observe_invariant (P := P) h₀ ?_ hf
  intro f l e f' hreach h hstep
  obtain ⟨s, rfl, he, rfl⟩ := whileLoop_step.mp hstep
  exact hpass s l e (System.reachable_of_observe hreach) h he

/-- A loop whose every pass back to the loop head makes `μ` larger makes it larger by the number of passes. -/
theorem whileLoop_progress {μ : σ → ℕ}
    (hpass : ∀ s e t, Admits s e → (body s e).loopBack = .next t → μ s < μ t) (es : List ε) {s t : σ}
    (hrun : (whileLoop body Admits s₀).runFrom (.next s) es = some (.next t)) : μ s + es.length ≤ μ t := by
  induction es generalizing s with
  | nil =>
    cases hrun
    exact Nat.le_refl _
  | cons e es ih =>
    simp only [System.runFrom] at hrun
    cases hstep : (whileLoop body Admits s₀).step (.next s) e with
    | none => simp [hstep] at hrun
    | some f =>
      rw [hstep] at hrun
      obtain ⟨s', hs', hadmits, rfl⟩ := whileLoop_step.mp hstep
      cases hs'
      cases hb : (body s e).loopBack with
      | next u =>
        rw [hb] at hrun
        have hmore := hpass s e u hadmits hb
        have hrest := ih hrun
        rw [List.length_cons]
        omega
      | again u | ret u | exit m u | undef u =>
        -- off the loop head the run cannot come back
        rw [hb] at hrun
        cases es <;> cases hrun

/-- The run lemma for a stream of answers of one kind: what each such pass keeps, going back to the loop
head, the run keeps. -/
theorem AtHead.stream {P : σ → Prop} {Q : ε → Prop}
    (hpass : ∀ s e, AtHead (whileLoop body Admits s₀) s → P s → Q e → Admits s e →
      ∃ t, (body s e).loopBack = .next t ∧ P t)
    {s : σ} (hs : AtHead (whileLoop body Admits s₀) s) (hP : P s) {es : List ε} (hes : ∀ e ∈ es, Q e)
    {f : Flow σ} (hrun : (whileLoop body Admits s₀).runFrom (.next s) es = some f) :
    ∃ t, f = .next t ∧ AtHead (whileLoop body Admits s₀) t ∧ P t := by
  have hstep : ∀ f e f', e ∈ es → (∃ t, f = .next t ∧ AtHead (whileLoop body Admits s₀) t ∧ P t) →
      (whileLoop body Admits s₀).step f e = some f' →
      ∃ t, f' = .next t ∧ AtHead (whileLoop body Admits s₀) t ∧ P t := by
    rintro f e f' he ⟨t, rfl, ht, hPt⟩ hf'
    obtain ⟨u, hu, hadmits, rfl⟩ := whileLoop_step.mp hf'
    cases hu
    obtain ⟨v, hv, hPv⟩ := hpass t e ht hPt (hes e he) hadmits
    have hhead := ht.pass hadmits
    rw [hv] at hhead ⊢
    exact ⟨v, rfl, hhead, hPv⟩
  exact System.runFrom_induction _ es hstep ⟨s, rfl, hs, hP⟩ hrun

end WhileLoop

end NetProg
