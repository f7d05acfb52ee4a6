/-
# NetProg.Base.Ledger -- what was received, what was shown of it, and what is still held.

A program takes elements from a source, holds some of them, and shows them later.  A `Move` is what one step
can do to such an account: more is received, or the front of what is held is shown and the elements after it
are lost.  Whatever the moves, what was shown and what is held stand in what was received, once and in order
(`InOrder`); and the number of elements that are missing (`Owes`) grows by exactly what each move loses.  An
account that never lost anything is complete.
-/
import Mathlib.Data.List.Basic
import Mathlib.Tactic.Cases

namespace NetProg

/-- The account of one source. -/
structure Ledger (α : Type*) where
  received : List α
  shown : List α
  held : List α

namespace Ledger

variable {α : Type*} {l l' : Ledger α} {lost : List α} {n : ℕ}

/-- One step, and what it loses. -/
inductive Move : List α → Ledger α → Ledger α → Prop where
  | receive (r s h b : List α) : Move [] ⟨r, s, h⟩ ⟨r ++ b, s, h ++ b⟩
  | pass (r s b lost h : List α) : Move lost ⟨r, s, b ++ (lost ++ h)⟩ ⟨r, s ++ b, h⟩

theorem Move.refl (l : Ledger α) : Move [] l l := by
  simpa using Move.receive l.received l.shown l.held []

theorem Move.of_eq (h : l' = l) : Move [] l l' := h ▸ .refl l'

/-- All that is held is lost. -/
theorem Move.drop (r s h : List α) : Move h ⟨r, s, h⟩ ⟨r, s, []⟩ := by
  simpa using Move.pass r s [] h []

/-- What was shown and what is held was received, once and in order. -/
def InOrder (l : Ledger α) : Prop := (l.shown ++ l.held).Sublist l.received

/-- `n` elements were received that were not shown and are not held. -/
def Owes (l : Ledger α) (n : ℕ) : Prop := l.received.length = l.shown.length + l.held.length + n

theorem Move.inOrder (hmove : Move lost l l') (h : l.InOrder) : l'.InOrder := by
  cases hmove with
  | receive r s held b =>
    show (s ++ (held ++ b)).Sublist (r ++ b)
    rw [← List.append_assoc]
    exact h.append_right b
  | pass r s b _ held =>
    refine List.Sublist.trans ?_ h
    show ((s ++ b) ++ held).Sublist (s ++ (b ++ (lost ++ held)))
    rw [List.append_assoc]
    have hheld : held.Sublist (lost ++ held) := List.sublist_append_right lost held
    exact (hheld.append_left b).append_left s

theorem Move.owes (hmove : Move lost l l') (h : l.Owes n) : l'.Owes (n + lost.length) := by
  cases hmove with
  | receive r s held b =>
    have h : r.length = s.length + held.length + n := h
    show (r ++ b).length = s.length + (held ++ b).length + (n + 0)
    rw [List.length_append, List.length_append, h]
    omega
  | pass r s b _ held =>
    have h : r.length = s.length + (b ++ (lost ++ held)).length + n := h
    show r.length = (s ++ b).length + held.length + (n + lost.length)
    simp only [List.length_append] at h ⊢
    omega

/-- An account in order owes something or other. -/
theorem InOrder.owes (h : l.InOrder) : ∃ n, l.Owes n := by
  have hle : (l.shown ++ l.held).length ≤ l.received.length := List.Sublist.length_le h
  rw [List.length_append] at hle
  exact ⟨l.received.length - (l.shown.length + l.held.length), by unfold Owes; omega⟩

/-- **Nothing owed: everything received was shown or is held.** -/
theorem InOrder.complete (h : l.InOrder) (howes : l.Owes 0) : l.received = l.shown ++ l.held := by
  refine (List.Sublist.eq_of_length h ?_).symm
  rw [List.length_append, howes, Nat.add_zero]

/-- What is owed was never shown. -/
theorem Owes.short (h : l.Owes n) (hpos : 0 < n) : l.shown.length < l.received.length := by
  unfold Owes at h
  omega

end Ledger

end NetProg
