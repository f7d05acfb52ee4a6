/-
# NetProg.Base.SlotTable -- a fixed table of descriptors with free slots marked by -1.

A table maps each of `n` slots to `-1` or to a descriptor, and no descriptor sits in two slots; both laws
are fields.  `put` stores a fresh descriptor in a free slot, `clear` frees a slot; `fds` is the set of
descriptors held and `count` the number of occupied slots.  The rules say how the two operations change
`fds` and `count`, so that users never look into the slots again.
-/
import Mathlib.Data.Fintype.Card
import Mathlib.Data.Fintype.Basic
import Mathlib.Data.Finset.Image
import Mathlib.Data.Finset.Card
import Mathlib.Order.Interval.Finset.Fin
import Mathlib.Algebra.Order.Ring.Int

namespace NetProg

/-- `n` slots, each free (`-1`) or holding a descriptor that no other slot holds. -/
structure SlotTable (n : ℕ) where
  slot : Fin n → ℤ
  free_or_fd : ∀ i, slot i = -1 ∨ 0 ≤ slot i
  distinct : ∀ i j, 0 ≤ slot i → slot i = slot j → i = j

namespace SlotTable

variable {n : ℕ}

/-- All slots free. -/
def empty : SlotTable n where
  slot := fun _ => -1
  free_or_fd := fun _ => Or.inl rfl
  distinct := by
    intro i j h
    omega

/-- The occupied slots. -/
def occupied (t : SlotTable n) : Finset (Fin n) := Finset.univ.filter fun i => 0 ≤ t.slot i

/-- The descriptors held. -/
def fds (t : SlotTable n) : Finset ℤ := t.occupied.image t.slot

/-- The number of occupied slots. -/
def count (t : SlotTable n) : ℕ := t.occupied.card

theorem mem_fds {t : SlotTable n} {fd : ℤ} : fd ∈ t.fds ↔ 0 ≤ fd ∧ ∃ i, t.slot i = fd := by
  simp only [fds, occupied, Finset.mem_image, Finset.mem_filter, Finset.mem_univ, true_and]
  constructor
  · rintro ⟨i, hi, rfl⟩
    exact ⟨hi, i, rfl⟩
  · rintro ⟨hfd, i, rfl⟩
    exact ⟨i, hfd, rfl⟩

theorem slot_mem_fds {t : SlotTable n} {i : Fin n} (hi : 0 ≤ t.slot i) : t.slot i ∈ t.fds :=
  mem_fds.mpr ⟨hi, i, rfl⟩

theorem slot_lt_zero_iff (t : SlotTable n) (i : Fin n) : t.slot i < 0 ↔ t.slot i = -1 := by
  rcases t.free_or_fd i with h | h <;> omega

@[simp] theorem fds_empty : (empty : SlotTable n).fds = ∅ := by
  ext fd
  simp only [mem_fds, empty, Finset.notMem_empty, iff_false]
  rintro ⟨hfd, i, rfl⟩
  omega

@[simp] theorem count_empty : (empty : SlotTable n).count = 0 := by
  simp [count, occupied, empty]

theorem count_le (t : SlotTable n) : t.count ≤ n := by
  simpa [count] using Finset.card_le_univ t.occupied

theorem card_fds (t : SlotTable n) : t.fds.card = t.count := by
  apply Finset.card_image_of_injOn
  intro i hi j _ hij
  have hi : 0 ≤ t.slot i := by simpa [occupied] using hi
  exact t.distinct i j hi hij

/-- A table that is not full has a free slot. -/
theorem exists_free {t : SlotTable n} (h : t.count < n) : ∃ i, t.slot i = -1 := by
  by_contra hno
  have hall : t.occupied = Finset.univ := by
    ext i
    have := t.free_or_fd i
    simp only [occupied, Finset.mem_filter, Finset.mem_univ, true_and, iff_true]
    exact this.resolve_left fun hi => hno ⟨i, hi⟩
  rw [count, hall, Finset.card_univ, Fintype.card_fin] at h
  exact lt_irrefl n h

/-- The slots whose descriptor lies in `R`, counted one by one, are as many as the descriptors. -/
theorem countP_fds_inter (t : SlotTable n) (R : Finset ℤ) :
    (List.finRange n).countP (fun i => decide (0 ≤ t.slot i ∧ t.slot i ∈ R)) =
      (t.fds ∩ R).card := by
  have himage : t.fds ∩ R = (Finset.univ.filter fun i => 0 ≤ t.slot i ∧ t.slot i ∈ R).image t.slot := by
    ext fd
    simp only [Finset.mem_inter, mem_fds, Finset.mem_image, Finset.mem_filter, Finset.mem_univ,
      true_and]
    constructor
    · rintro ⟨⟨hfd, i, rfl⟩, hR⟩
      exact ⟨i, ⟨hfd, hR⟩, rfl⟩
    · rintro ⟨i, ⟨hi, hR⟩, rfl⟩
      exact ⟨⟨hi, i, rfl⟩, hR⟩
  rw [himage, Finset.card_image_of_injOn]
  · rw [← List.Nodup.card_eq_countP (List.nodup_finRange n), List.toFinset_finRange]
  · intro i hi j _ hij
    have hi : 0 ≤ t.slot i ∧ t.slot i ∈ R := by simpa using hi
    exact t.distinct i j hi.1 hij

/-! ## Storing and clearing -/

/-- Store a descriptor that the table does not hold. -/
def put (t : SlotTable n) (i : Fin n) (fd : ℤ) (hfd : 0 ≤ fd) (hnew : fd ∉ t.fds) : SlotTable n where
  slot := Function.update t.slot i fd
  free_or_fd := by
    intro j
    by_cases hj : j = i
    · exact Or.inr (by simpa [hj] using hfd)
    · simpa [hj] using t.free_or_fd j
  distinct := by
    intro j k hj hjk
    have habsent : ∀ l, t.slot l ≠ fd := by
      intro l hl
      exact hnew (mem_fds.mpr ⟨hfd, l, hl⟩)
    by_cases hji : j = i <;> by_cases hki : k = i
    · rw [hji, hki]
    · simp only [hji, Function.update_self, Function.update_of_ne hki] at hjk
      exact absurd hjk.symm (habsent k)
    · simp only [hki, Function.update_self, Function.update_of_ne hji] at hjk
      exact absurd hjk (habsent j)
    · simp only [Function.update_of_ne hji, Function.update_of_ne hki] at hj hjk
      exact t.distinct j k hj hjk

/-- Free a slot. -/
def clear (t : SlotTable n) (i : Fin n) : SlotTable n where
  slot := Function.update t.slot i (-1)
  free_or_fd := by
    intro j
    by_cases hj : j = i
    · exact Or.inl (by simp [hj])
    · simpa [hj] using t.free_or_fd j
  distinct := by
    intro j k hj hjk
    have hji : j ≠ i := by
      rintro rfl
      simp at hj
    rw [Function.update_of_ne hji] at hj hjk
    have hki : k ≠ i := by
      rintro rfl
      rw [Function.update_self] at hjk
      omega
    rw [Function.update_of_ne hki] at hjk
    exact t.distinct j k hj hjk

section Put

variable {t : SlotTable n} {i : Fin n} {fd : ℤ} {hfd : 0 ≤ fd} {hnew : fd ∉ t.fds}

theorem fds_put (hi : t.slot i = -1) : (t.put i fd hfd hnew).fds = insert fd t.fds := by
  ext x
  simp only [mem_fds, Finset.mem_insert, put]
  constructor
  · rintro ⟨hx, j, rfl⟩
    by_cases hj : j = i
    · exact Or.inl (by simp [hj])
    · exact Or.inr ⟨hx, j, by simp [hj]⟩
  · rintro (rfl | ⟨hx, j, rfl⟩)
    · exact ⟨hfd, i, by simp⟩
    · refine ⟨hx, j, Function.update_of_ne ?_ _ _⟩
      rintro rfl
      omega

theorem count_put (hi : t.slot i = -1) : (t.put i fd hfd hnew).count = t.count + 1 := by
  rw [← card_fds, fds_put hi, Finset.card_insert_of_notMem hnew, card_fds]

end Put

section Clear

variable {t : SlotTable n} {i : Fin n}

theorem fds_clear (hi : 0 ≤ t.slot i) : (t.clear i).fds = t.fds.erase (t.slot i) := by
  ext x
  simp only [mem_fds, Finset.mem_erase, clear]
  constructor
  · rintro ⟨hx, j, rfl⟩
    have hj : j ≠ i := by
      rintro rfl
      simp at hx
    rw [Function.update_of_ne hj] at hx ⊢
    exact ⟨fun heq => hj (t.distinct j i hx heq), hx, j, rfl⟩
  · rintro ⟨hne, hx, j, rfl⟩
    refine ⟨hx, j, Function.update_of_ne ?_ _ _⟩
    rintro rfl
    exact hne rfl

theorem count_clear (hi : 0 ≤ t.slot i) : (t.clear i).count + 1 = t.count := by
  rw [← card_fds, fds_clear hi, Finset.card_erase_add_one (slot_mem_fds hi), card_fds]

end Clear

/-! ## The first slot with a property -/

/-- The first slot whose content satisfies `p`, as a `for` loop with `break` finds it. -/
def firstSlot (p : ℤ → Bool) (slot : Fin n → ℤ) : Option (Fin n) :=
  (List.finRange n).find? fun i => p (slot i)

theorem firstSlot_some {p : ℤ → Bool} {slot : Fin n → ℤ} {i : Fin n}
    (h : firstSlot p slot = some i) : p (slot i) = true :=
  (List.find?_eq_some_iff_append.mp h).1

theorem firstSlot_none {p : ℤ → Bool} {slot : Fin n → ℤ} (h : firstSlot p slot = none) (i : Fin n) :
    p (slot i) = false := by
  simpa using List.find?_eq_none.mp h i (List.mem_finRange i)

end SlotTable

end NetProg
