/-
# NetProg.Base.Window -- a fixed array and the bytes between two cursors.

`window mem a b` is the content of `mem[a..b)`, `store mem off xs` the array after `xs` was copied to
offset `off`.  Storing at the upper cursor appends to the window; advancing the lower cursor drops from
its front.

`Buffered mem o i q` says that `mem` with the cursors `o` (out) and `i` (in) holds the queue `q` under the
discipline "both cursors go back to the start when they meet": then a full array always holds something.
-/
import Mathlib.Data.List.Basic
import Mathlib.Tactic.Cases

namespace NetProg

variable {α : Type*} {n : ℕ}

/-- The elements of `mem` at the offsets `a ≤ i < b`. -/
def window (mem : Vector α n) (a b : ℕ) : List α := (mem.toList.take b).drop a

/-- `mem` after `xs` was copied to offset `off`; what does not fit is cut off. -/
def store (mem : Vector α n) (off : ℕ) (xs : List α) : Vector α n :=
  Vector.ofFn fun i => if off ≤ i.val then xs.getD (i.val - off) mem[i] else mem[i]

theorem getElem?_window (mem : Vector α n) (a b i : ℕ) :
    (window mem a b)[i]? = if a + i < b then mem[a + i]? else none := by
  simp [window, List.getElem?_drop, List.getElem?_take]

theorem getElem?_store (mem : Vector α n) (off : ℕ) (xs : List α) (i : ℕ) (hi : i < n) :
    (store mem off xs)[i]? =
      some (if off ≤ i then xs.getD (i - off) mem[i] else mem[i]) := by
  simp [store, hi]

@[simp] theorem window_self (mem : Vector α n) (a : ℕ) : window mem a a = [] := by
  simp [window]

theorem length_window (mem : Vector α n) {a b : ℕ} (hb : b ≤ n) :
    (window mem a b).length = b - a := by
  simp [window, Nat.min_eq_left hb]

/-- A window is empty exactly when its cursors meet. -/
theorem window_eq_nil_iff (mem : Vector α n) {a b : ℕ} (hab : a ≤ b) (hb : b ≤ n) :
    window mem a b = [] ↔ a = b := by
  rw [← List.length_eq_zero_iff, length_window mem hb]
  omega

theorem window_drop (mem : Vector α n) (a b k : ℕ) :
    (window mem a b).drop k = window mem (a + k) b := by
  simp [window, List.drop_drop]

theorem window_take (mem : Vector α n) {a b k : ℕ} (hk : a + k ≤ b) :
    (window mem a b).take k = window mem a (a + k) := by
  apply List.ext_getElem?
  intro i
  rw [List.getElem?_take, getElem?_window, getElem?_window]
  by_cases hi : i < k
  · rw [if_pos hi, if_pos (by omega), if_pos (by omega)]
  · rw [if_neg hi, if_neg (by omega)]

/-- **Storing at the upper cursor appends.** -/
theorem window_store (mem : Vector α n) {a b : ℕ} (xs : List α) (hab : a ≤ b)
    (hfit : b + xs.length ≤ n) :
    window (store mem b xs) a (b + xs.length) = window mem a b ++ xs := by
  have hlen : (window mem a b).length = b - a := length_window mem (by omega)
  apply List.ext_getElem?
  intro i
  rw [getElem?_window]
  by_cases hi : a + i < b
  · rw [if_pos (by omega), List.getElem?_append_left (by omega), getElem?_window, if_pos hi,
      getElem?_store mem b xs _ (by omega), if_neg (by omega)]
    simp [show a + i < n by omega]
  · rw [List.getElem?_append_right (by omega), hlen]
    by_cases hx : a + i < b + xs.length
    · rw [if_pos hx, getElem?_store mem b xs _ (by omega), if_pos (by omega)]
      have hj : a + i - b < xs.length := by omega
      rw [show i - (b - a) = a + i - b by omega, List.getElem?_eq_getElem hj]
      simp [List.getD_eq_getElem?_getD, List.getElem?_eq_getElem hj]
    · rw [if_neg hx, List.getElem?_eq_none (by omega)]

/-- What is stored replaces the elements at its place, and no others. -/
theorem toList_store_at (mem : Vector α n) {off : ℕ} {xs : List α} (hfit : off + xs.length ≤ n) :
    (store mem off xs).toList = mem.toList.take off ++ xs ++ mem.toList.drop (off + xs.length) := by
  have hoff : (mem.toList.take off).length = off := by
    rw [List.length_take, Vector.length_toList]
    omega
  apply List.ext_getElem?
  intro i
  rw [List.append_assoc]
  by_cases hi : i < n
  · have hget : (store mem off xs).toList[i]? =
        some (if off ≤ i then xs.getD (i - off) mem[i] else mem[i]) := by
      simpa using getElem?_store mem off xs i hi
    rw [hget]
    by_cases hle : off ≤ i
    · rw [if_pos hle, List.getElem?_append_right (by omega), hoff]
      by_cases hx : i - off < xs.length
      · rw [List.getElem?_append_left hx]
        simp [List.getD_eq_getElem?_getD, hx]
      · have hat : off + xs.length + (i - off - xs.length) = i := by omega
        have hnone : xs[i - off]? = none := List.getElem?_eq_none (by omega)
        rw [List.getElem?_append_right (by omega), List.getElem?_drop, hat]
        simp [List.getD_eq_getElem?_getD, hnone, hi]
    · rw [if_neg hle, List.getElem?_append_left (by omega), List.getElem?_take, if_pos (by omega)]
      simp [hi]
  · rw [List.getElem?_eq_none (by simpa using hi), List.getElem?_eq_none]
    simp only [List.length_append, List.length_drop, hoff, Vector.length_toList]
    omega

/-- What is stored at the start replaces the first elements. -/
theorem toList_store (mem : Vector α n) {xs : List α} (hfit : xs.length ≤ n) :
    (store mem 0 xs).toList = xs ++ mem.toList.drop xs.length := by
  have hat : 0 + xs.length ≤ n := by omega
  simpa using toList_store_at mem hat

/-- **Storing only the first `c` elements** leaves the whole only if the rest of it was there before. -/
theorem window_store_take_eq_iff (mem : Vector α n) {xs : List α} (hfit : xs.length ≤ n) (c : ℕ) :
    window (store mem 0 (xs.take c)) 0 xs.length = xs ↔ xs.drop c <+: mem.toList.drop c := by
  have htake : (xs.take c).length ≤ n := Nat.le_trans (List.length_take_le' c xs) hfit
  rw [window, List.drop_zero, toList_store mem htake]
  by_cases hc : xs.length ≤ c
  · rw [List.take_of_length_le hc, List.take_left, List.drop_eq_nil_of_le hc]
    exact iff_of_true rfl (List.nil_prefix)
  · have hlen : (xs.take c).length = c := by
      rw [List.length_take]
      omega
    have hrest : xs.length = c + (xs.drop c).length := by
      rw [List.length_drop]
      omega
    rw [List.prefix_iff_eq_take, hlen]
    nth_rewrite 1 [hrest]
    have hshift : (xs.take c ++ mem.toList.drop c).take (c + (xs.drop c).length) =
        xs.take c ++ (mem.toList.drop c).take (xs.drop c).length := by
      rw [List.take_append, hlen, Nat.add_sub_cancel_left, List.take_of_length_le (by omega)]
    rw [hshift]
    constructor
    · intro hall
      have hparts : xs.take c ++ (mem.toList.drop c).take (xs.drop c).length = xs.take c ++ xs.drop c := by
        rw [hall, List.take_append_drop]
      exact (List.append_cancel_left hparts).symm
    · intro heq
      rw [← heq, List.take_append_drop]

/-! ## A queue between two cursors that are reset when they meet -/

/-- `mem[o..i)` holds the queue `q`, and cursors that meet are both at the start. -/
structure Buffered (mem : Vector α n) (o i : ℕ) (q : List α) : Prop where
  le : o ≤ i
  bound : i ≤ n
  reset : o = i → i = 0
  queue : q = window mem o i

namespace Buffered

variable {mem : Vector α n} {o i : ℕ} {q : List α}

theorem start (mem : Vector α n) : Buffered mem 0 0 [] where
  le := Nat.le_refl 0
  bound := Nat.zero_le n
  reset := fun _ => rfl
  queue := (window_self mem 0).symm

theorem eq_nil_iff (h : Buffered mem o i q) : q = [] ↔ o = i := by
  rw [h.queue, window_eq_nil_iff mem h.le h.bound]

/-- A full buffer holds something. -/
theorem ne_nil_of_full (h : Buffered mem o i q) (hn : 0 < n) (hfull : n ≤ i) : o ≠ i := by
  intro hoi
  have := h.reset hoi
  omega

/-- Copying `xs` to the in-cursor queues `xs`. -/
theorem fill (h : Buffered mem o i q) {xs : List α} (hx : xs ≠ []) (hfit : i + xs.length ≤ n) :
    Buffered (store mem i xs) o (i + xs.length) (q ++ xs) where
  le := Nat.le_add_right_of_le h.le
  bound := hfit
  reset := by
    have := List.length_pos_iff.mpr hx
    have := h.le
    omega
  queue := by rw [window_store mem xs h.le hfit, h.queue]

/-- Advancing the out-cursor short of the in-cursor drops the front of the queue. -/
theorem drain (h : Buffered mem o i q) {k : ℕ} (hk : o + k < i) :
    Buffered mem (o + k) i (q.drop k) where
  le := Nat.le_of_lt hk
  bound := h.bound
  reset := by omega
  queue := by rw [h.queue, window_drop]

/-- Advancing the out-cursor to the in-cursor empties the queue, so both cursors are reset. -/
theorem drain_all (h : Buffered mem o i q) {k : ℕ} (hk : o + k = i) :
    Buffered mem 0 0 (q.drop k) := by
  have hnil : q.drop k = [] := by
    rw [h.queue, window_drop, hk, window_self]
  rw [hnil]
  exact start mem

end Buffered

end NetProg
