/-
# NetProg.Base.ShrinkingLoop -- `for (i = 0; i < cnt; i++)` with a body that decrements `cnt`.

The loop looks at the items of a list of indices in ascending order and selects some.  A selected item
may take one off the bound that the next test uses, and it may end the loop.  `selected` is what the loop
gets to; `mem_selected` says in closed form which items those are: `i` is selected exactly when `i`, plus
what the items before it took off, is still below the bound, and none of them ended the loop.
-/
import Mathlib.Order.Fin.Basic
import Mathlib.Algebra.Order.Ring.Int

namespace NetProg

/-- The items that the loop selects: `want i` selects, `takes i` decrements, `ends i` ends the loop. -/
def selected {n : ℕ} (want takes ends : Fin n → Bool) : List (Fin n) → ℤ → List (Fin n)
  | [], _ => []
  | i :: is, cnt =>
    if (i : ℤ) < cnt then
      if want i then
        i :: if ends i then [] else selected want takes ends is (if takes i then cnt - 1 else cnt)
      else selected want takes ends is cnt
    else []

section Selected

variable {n : ℕ} {want takes ends : Fin n → Bool}

/-- Only the items of the list matter. -/
theorem selected_congr {want' : Fin n → Bool} {is : List (Fin n)} (hwant : ∀ i ∈ is, want i = want' i)
    (cnt : ℤ) : selected want takes ends is cnt = selected want' takes ends is cnt := by
  induction is generalizing cnt with
  | nil => rfl
  | cons i is ih =>
    have ih := ih fun j hj => hwant j (List.mem_cons_of_mem i hj)
    simp only [selected, hwant i List.mem_cons_self, ih]

theorem selected_sublist (is : List (Fin n)) (cnt : ℤ) :
    (selected want takes ends is cnt).Sublist is := by
  induction is generalizing cnt with
  | nil => exact List.Sublist.slnil
  | cons k is ih =>
    by_cases hlt : (k : ℤ) < cnt
    case neg => simp [selected, hlt]
    cases hwant : want k with
    | false => simpa [selected, hlt, hwant] using (ih cnt).cons k
    | true =>
      simp only [selected, hlt, hwant, if_true]
      apply List.Sublist.cons_cons k
      cases ends k with
      | true => exact List.nil_sublist is
      | false => exact ih _

/-- How much the selected items below `i` take off the bound. -/
def takenBefore (want takes : Fin n → Bool) (is : List (Fin n)) (i : Fin n) : ℕ :=
  is.countP fun j => decide (j < i) && want j && takes j

theorem takenBefore_cons_of_lt {i k : Fin n} {is : List (Fin n)} (hk : k < i) (hwant : want k = true) :
    takenBefore want takes (k :: is) i =
      takenBefore want takes is i + if takes k then 1 else 0 := by
  cases htakes : takes k <;> simp [takenBefore, hk, hwant, htakes]

theorem takenBefore_cons_of_not {i k : Fin n} {is : List (Fin n)}
    (hk : ¬ (k < i ∧ want k = true)) :
    takenBefore want takes (k :: is) i = takenBefore want takes is i := by
  by_cases hlt : k < i
  · have hwant : want k = false := by simpa using fun h => hk ⟨hlt, h⟩
    simp [takenBefore, hwant]
  · simp [takenBefore, hlt]

/-- **What the loop gets to.** -/
theorem mem_selected {is : List (Fin n)} (hsorted : is.Pairwise (· < ·)) {cnt : ℤ} {i : Fin n} :
    i ∈ selected want takes ends is cnt ↔
      i ∈ is ∧ want i = true ∧ (i : ℤ) + takenBefore want takes is i < cnt ∧
        ∀ j ∈ is, j < i → want j = true → ends j = false := by
  induction is generalizing cnt with
  | nil => simp [selected]
  | cons k is ih =>
    obtain ⟨hk, hsorted⟩ := List.pairwise_cons.mp hsorted
    have ih := fun c => @ih hsorted c
    have hzero : takenBefore want takes (k :: is) k = 0 := by
      apply List.countP_eq_zero.mpr
      intro j hj
      rcases List.mem_cons.mp hj with rfl | hj
      · simp
      · simp [not_lt.mpr (le_of_lt (hk j hj))]
    by_cases hlt : (k : ℤ) < cnt
    case neg =>
      -- the loop ends at its test, and every later index is larger
      simp only [selected, if_neg hlt, List.not_mem_nil, false_iff]
      rintro ⟨hi, -, hbound, -⟩
      rcases List.mem_cons.mp hi with rfl | hi
      · omega
      · have : (k : ℕ) < i := hk i hi
        omega
    by_cases hik : i = k
    · subst hik
      cases hwant : want i with
      | true =>
        simp only [selected, if_pos hlt, hwant, if_true, List.mem_cons_self, true_iff]
        refine ⟨trivial, trivial, by omega, fun j hj hji => ?_⟩
        rcases List.mem_cons.mp hj with rfl | hj
        · exact absurd hji (lt_irrefl _)
        · exact absurd hji (not_lt.mpr (le_of_lt (hk j hj)))
      | false => simp [selected, hlt, hwant, ih]
    · have hcons : ∀ {P : Fin n → Prop}, (∀ j ∈ k :: is, P j) ↔ P k ∧ ∀ j ∈ is, P j := by simp
      have hmem : i ∈ k :: is ↔ i ∈ is := by simp [hik]
      rw [hmem, hcons]
      cases hwant : want k with
      | false =>
        have hsame : takenBefore want takes (k :: is) i = takenBefore want takes is i :=
          takenBefore_cons_of_not (by simp [hwant])
        simp only [selected, if_pos hlt, hwant, Bool.false_eq_true, if_false, ih, hsame,
          false_implies, implies_true, true_and]
      | true =>
        simp only [selected, if_pos hlt, hwant, if_true, List.mem_cons, hik, false_or]
        by_cases hi : i ∈ is
        case neg => cases ends k <;> simp [ih, hi]
        have hki : k < i := hk i hi
        rw [takenBefore_cons_of_lt hki hwant]
        cases hends : ends k with
        | true => simp [hki]
        | false =>
          simp only [Bool.false_eq_true, if_false, ih]
          refine and_congr_right fun _ => and_congr_right fun _ => and_congr ?_ (by simp)
          cases takes k with
          | false => simp
          | true =>
            simp only [if_true]
            omega

end Selected

end NetProg
