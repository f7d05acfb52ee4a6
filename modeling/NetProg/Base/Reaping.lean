/-
# NetProg.Base.Reaping -- a parent that waits for its children in a signal handler.

A child that exits is a zombie until the parent waits for it, and raises a signal.  Signals do not queue: one
that comes while another is pending is merged with it.  One that comes while the handler runs is delivered
after it.

A handler calls `wait` and decides after each call whether to call it again (`ChildHandler`).  If it goes on for
as long as it takes children, no zombie is left whenever nothing is pending and the handler does not run
(`no_zombie_of_drains`).  If it takes one child each time, the zombies are the exits that were merged, less the
signals that came with no zombie and found one to take (`zombies_of_single`): such a signal is that for a child
which somebody else waits for, like the shell of `system`.
-/
import NetProg.Base.History
import Mathlib.Data.List.Count

namespace NetProg

/-- What a handler does around `wait`: whether the call blocks when children run and none has exited, and
whether it is called again after it took a child, or found none. -/
structure ChildHandler where
  blocks : Bool
  again : Bool → Bool

/-- The children that run and those that have exited, whether a signal is pending, and whether the handler is
before a call of `wait`. -/
structure Family where
  running : ℕ
  zombies : ℕ
  pending : Bool
  handling : Bool
  deriving DecidableEq, Repr

namespace Family

/-- `signal` is the signal for a child that somebody else waits for: no zombie comes with it. -/
inductive Ev where
  | fork
  | exit
  | signal
  | deliver
  | wait
  deriving DecidableEq, Repr

def start : Family := ⟨0, 0, false, false⟩

def step (h : ChildHandler) (s : Family) : Ev → Option Family
  | .fork => if s.handling = false then some { s with running := s.running + 1 } else none
  | .exit =>
    if 0 < s.running then
      some { s with running := s.running - 1, zombies := s.zombies + 1, pending := true }
    else none
  | .signal => some { s with pending := true }
  | .deliver =>
    if s.pending = true ∧ s.handling = false then some { s with pending := false, handling := true } else none
  | .wait =>
    if s.handling = true then
      if 0 < s.zombies then some { s with zombies := s.zombies - 1, handling := h.again true }
      else if h.blocks = true ∧ 0 < s.running then none
      else some { s with handling := h.again false }
    else none

/-- No signal is pending and the handler does not run. -/
def Quiet (s : Family) : Prop := s.pending = false ∧ s.handling = false

instance (s : Family) : Decidable s.Quiet := inferInstanceAs (Decidable (_ ∧ _))

end Family

open Family

/-- A parent with this handler. -/
def family (h : ChildHandler) : System Family Family.Ev := ⟨Family.start, Family.step h⟩

/-- What is seen of a run: an exit, or a signal that no zombie came with, and whether it was merged with one that
was pending; and a `wait` that found no child. -/
inductive Mark where
  | exit (merged : Bool)
  | signal (merged : Bool)
  | vain
  deriving DecidableEq, Repr

def marks (s : Family) : Family.Ev → List Mark
  | .exit => [.exit s.pending]
  | .signal => [.signal s.pending]
  | .wait => if 0 < s.zombies then [] else [.vain]
  | .fork | .deliver => []

/-- What one step does. -/
theorem family_cases {h : ChildHandler} {s s' : Family} {e : Family.Ev} (hstep : (family h).step s e = some s') :
    (e = .fork ∧ s' = { s with running := s.running + 1 }) ∨
    (e = .exit ∧ s' = { s with running := s.running - 1, zombies := s.zombies + 1, pending := true }) ∨
    (e = .signal ∧ s' = { s with pending := true }) ∨
    (e = .deliver ∧ s.pending = true ∧ s.handling = false ∧ s' = { s with pending := false, handling := true }) ∨
    (e = .wait ∧ s.handling = true ∧
      (0 < s.zombies ∧ s' = { s with zombies := s.zombies - 1, handling := h.again true } ∨
        s.zombies = 0 ∧ s' = { s with handling := h.again false })) := by
  cases e with
  | fork =>
    simp only [family, Family.step] at hstep
    split_ifs at hstep
    cases hstep
    exact .inl ⟨rfl, rfl⟩
  | exit =>
    simp only [family, Family.step] at hstep
    split_ifs at hstep
    cases hstep
    exact .inr (.inl ⟨rfl, rfl⟩)
  | signal =>
    obtain rfl := Option.some.inj hstep
    exact .inr (.inr (.inl ⟨rfl, rfl⟩))
  | deliver =>
    simp only [family, Family.step] at hstep
    split_ifs at hstep with hmay
    cases hstep
    exact .inr (.inr (.inr (.inl ⟨rfl, hmay.1, hmay.2, rfl⟩)))
  | wait =>
    simp only [family, Family.step] at hstep
    split_ifs at hstep with hhandling hzombies hblocks
    · cases hstep
      exact .inr (.inr (.inr (.inr ⟨rfl, hhandling, .inl ⟨hzombies, rfl⟩⟩)))
    · cases hstep
      exact .inr (.inr (.inr (.inr ⟨rfl, hhandling, .inr ⟨Nat.eq_zero_of_not_pos hzombies, rfl⟩⟩)))

/-- **A handler that calls `wait` until it takes no child leaves no zombie.** -/
theorem no_zombie_of_drains {h : ChildHandler} (hdrains : h.again true = true) {s : Family}
    (hs : (family h).Reachable s) (hquiet : s.Quiet) : s.zombies = 0 := by
  have hkept : 0 < s.zombies → s.pending = true ∨ s.handling = true := by
    refine (family h).invariant
      (P := fun s => 0 < s.zombies → s.pending = true ∨ s.handling = true) ?_ ?_ hs
    · intro hpos
      exact absurd hpos (Nat.lt_irrefl 0)
    · intro s e s' _ ih hstep
      rcases family_cases hstep with
        ⟨-, rfl⟩ | ⟨-, rfl⟩ | ⟨-, rfl⟩ | ⟨-, -, -, rfl⟩ | ⟨-, hhandling, ⟨-, rfl⟩ | ⟨hzero, rfl⟩⟩
      · exact ih
      · exact fun _ => .inl rfl
      · exact fun _ => .inl rfl
      · exact fun _ => .inr rfl
      · exact fun _ => .inr hdrains
      · intro hpos
        exact absurd hpos (hzero ▸ Nat.lt_irrefl 0)
  by_contra hne
  rcases hkept (Nat.pos_of_ne_zero hne) with hpending | hhandling
  · rw [hquiet.1] at hpending
    cases hpending
  · rw [hquiet.2] at hhandling
    cases hhandling

/-- **A handler that takes one child each time**: there is a zombie for the pending signal, for the handler that
runs, for every exit that was merged and for every `wait` in vain, less one for every signal of its own that no
zombie came with. -/
theorem zombies_of_single {h : ChildHandler} (hsingle : ∀ took, h.again took = false)
    {p : Family × List Mark} (hp : ((family h).observe marks).Reachable p) :
    p.1.zombies + p.2.count (.signal false) =
      p.1.pending.toNat + p.1.handling.toNat + p.2.count (.exit true) + p.2.count .vain := by
  refine System.observe_invariant
    (P := fun s l => s.zombies + l.count (.signal false) =
      s.pending.toNat + s.handling.toNat + l.count (.exit true) + l.count .vain) rfl ?_ hp
  intro s l e s' _ ih hstep
  simp only [List.count_append]
  rcases family_cases hstep with
    ⟨rfl, rfl⟩ | ⟨rfl, rfl⟩ | ⟨rfl, rfl⟩ | ⟨rfl, hpending, hhandling, rfl⟩ |
    ⟨rfl, hhandling, ⟨hpos, rfl⟩ | ⟨hzero, rfl⟩⟩
  · exact ih
  · cases hpending : s.pending <;> simp_all [marks] <;> omega
  · cases hpending : s.pending <;> simp_all [marks] <;> omega
  · rw [hpending, hhandling] at ih
    exact ih
  · rw [hhandling] at ih
    simp only [marks, if_pos hpos, hsingle, List.count_nil, Bool.toNat_true, Bool.toNat_false] at ih ⊢
    omega
  · rw [hhandling] at ih
    simp only [marks, hzero, hsingle, Nat.lt_irrefl, if_false, Bool.toNat_true, Bool.toNat_false] at ih ⊢
    simp
    omega

/-- Every exit that was merged, and every `wait` in vain, is made good by a signal that no zombie came with. -/
def MadeGood (l : List Mark) : Prop := l.count (.exit true) + l.count .vain = l.count (.signal false)

instance (l : List Mark) : Decidable (MadeGood l) := inferInstanceAs (Decidable (_ = _))

section Single

variable {h : ChildHandler} {p : Family × List Mark}

/-- When all is quiet, nobody is left exactly if every merged exit was made good. -/
theorem no_zombie_iff_of_single (hsingle : ∀ took, h.again took = false)
    (hp : ((family h).observe marks).Reachable p) (hquiet : p.1.Quiet) : p.1.zombies = 0 ↔ MadeGood p.2 := by
  have hzombies := zombies_of_single hsingle hp
  rw [hquiet.1, hquiet.2] at hzombies
  simp only [Bool.toNat_false] at hzombies
  unfold MadeGood
  omega

/-- Without signals of another origin, no `wait` is in vain. -/
theorem no_vain (hsingle : ∀ took, h.again took = false)
    (hp : ((family h).observe marks).Reachable p) (hnone : .signal false ∉ p.2) : .vain ∉ p.2 := by
  refine System.observe_invariant (P := fun _ l => .signal false ∉ l → .vain ∉ l) (fun _ => List.not_mem_nil) ?_ hp
    hnone
  intro s l e s' hr ih hstep hnone
  rw [List.mem_append, not_or] at hnone ⊢
  refine ⟨ih hnone.1, ?_⟩
  have hzombies := zombies_of_single hsingle hr
  simp only [List.count_eq_zero.mpr hnone.1, Nat.add_zero] at hzombies
  rcases family_cases hstep with
    ⟨rfl, -⟩ | ⟨rfl, -⟩ | ⟨rfl, -⟩ | ⟨rfl, -⟩ | ⟨rfl, hhandling, ⟨hpos, -⟩ | ⟨hzero, -⟩⟩
  · simp [marks]
  · simp [marks]
  · simp [marks]
  · simp [marks]
  · simp [marks, hpos]
  · -- the handler that runs has a zombie
    rw [hhandling, hzero] at hzombies
    simp only [Bool.toNat_true] at hzombies
    omega

/-- So then no exit may have been merged. -/
theorem madeGood_iff (hsingle : ∀ took, h.again took = false)
    (hp : ((family h).observe marks).Reachable p) (hnone : .signal false ∉ p.2) :
    MadeGood p.2 ↔ .exit true ∉ p.2 := by
  unfold MadeGood
  rw [List.count_eq_zero.mpr hnone, List.count_eq_zero.mpr (no_vain hsingle hp hnone), Nat.add_zero,
    List.count_eq_zero]

end Single

end NetProg
