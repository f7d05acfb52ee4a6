/-
# NetProg.Base.LuaTable -- tables with holes, their borders, and `table.remove`.

A table maps positive integers to values.  The length operator `#` returns some border: a number `e` with
nothing behind it, and something at it unless it is zero.  A table with holes has several, and any of them
may be returned.

`table.remove (t, pos)` closes the gap at `pos` up to the border that `#` returned.  Up to Lua 5.1 it does
nothing when `pos` is behind that border; from Lua 5.2 on it clears `pos` when that is the next place, and
raises an error beyond.  What is removed is only `t[pos]`, whichever border was used (`removed_has_iff`).
-/
import Mathlib.Data.List.Basic
import Mathlib.Logic.Function.Basic
import Mathlib.Tactic.Cases

namespace NetProg

/-- The array part of a table. -/
abbrev LuaTable (α : Type*) := ℕ → Option α

namespace LuaTable

variable {α : Type*} {t : LuaTable α} {pos e k : ℕ} {x : α}

def empty : LuaTable α := fun _ => none

/-- `t[k] = x`. -/
def set (t : LuaTable α) (k : ℕ) (x : α) : LuaTable α := Function.update t k (some x)

/-- `#t` may be `e`. -/
def Border (t : LuaTable α) (e : ℕ) : Prop := (e = 0 ∨ (t e).isSome = true) ∧ (t (e + 1)).isNone = true

instance (t : LuaTable α) (e : ℕ) : Decidable (t.Border e) := inferInstanceAs (Decidable (_ ∧ _))

/-- The table with the values of a list at the keys `1, ..., n`. -/
def ofList (l : List α) : LuaTable α
  | 0 => none
  | k + 1 => l[k]?

/-- The elements behind `pos` move down by one up to `e`, and the last place is cleared. -/
def removed (t : LuaTable α) (pos e : ℕ) : LuaTable α := fun i =>
  if i < pos then t i
  else if i < e then t (i + 1)
  else if i = max pos e then none
  else t i

/-- The two behaviours of `table.remove`. -/
inductive Version where
  | lua51
  | lua52
  deriving DecidableEq, Repr

/-- `table.remove (t, pos)`, where `#t` was `e`; none when it raises an error. -/
def remove (v : Version) (t : LuaTable α) (pos e : ℕ) : Option (LuaTable α) :=
  match v with
  | .lua51 => some (if 1 ≤ pos ∧ pos ≤ e then t.removed pos e else t)
  | .lua52 => if pos = e ∨ 1 ≤ pos ∧ pos ≤ e + 1 then some (t.removed pos e) else none

/-- A value is in the table. -/
def Has (t : LuaTable α) (x : α) : Prop := ∃ k, t k = some x

/-- No value stands at two places. -/
def Once (t : LuaTable α) : Prop := ∀ k k' x, t k = some x → t k' = some x → k = k'

/-- The places in use are among `1, ..., n`. -/
def Within (t : LuaTable α) (n : ℕ) : Prop := ∀ k x, t k = some x → 1 ≤ k ∧ k ≤ n

variable {v : Version}

theorem set_self (t : LuaTable α) (k : ℕ) (x : α) : t.set k x k = some x := by simp [set]

theorem set_of_ne (t : LuaTable α) {k k' : ℕ} (x : α) (hne : k' ≠ k) : t.set k x k' = t k' := by
  simp [set, hne]

/-- Where an element other than the removed one goes. -/
def place (pos e k : ℕ) : ℕ := if k < pos ∨ e < k then k else k - 1

theorem removed_place (hpos : pos ≤ e + 1) (hk : k ≠ pos) : t.removed pos e (place pos e k) = t k := by
  unfold place
  split_ifs with hout
  · rcases hout with hlt | hgt
    · simp [removed, hlt]
    · have hbehind : ¬ k < pos := by omega
      have hnot : ¬ k < e := by omega
      have hne : ¬ k = max pos e := by omega
      simp [removed, hbehind, hnot, hne]
  · obtain ⟨j, rfl⟩ : ∃ j, k = j + 1 := ⟨k - 1, by omega⟩
    have hge : ¬ j < pos := by omega
    have hlt : j < e := by omega
    simp [removed, hge, hlt]

/-- What is in the table afterwards was at a place other than `pos`. -/
theorem exists_of_removed {i : ℕ} (hpos : pos ≤ e + 1) (hi : t.removed pos e i = some x) :
    ∃ k, k ≠ pos ∧ t k = some x ∧ place pos e k = i := by
  unfold removed at hi
  split_ifs at hi with hlt hmid hlast
  · exact ⟨i, by omega, hi, if_pos (.inl hlt)⟩
  · refine ⟨i + 1, by omega, hi, ?_⟩
    unfold place
    split_ifs
    all_goals omega
  · exact ⟨i, by omega, hi, if_pos (.inr (by omega))⟩

/-- **Nothing but the value at `pos` is removed.** -/
theorem removed_has_iff (hpos : pos ≤ e + 1) : (t.removed pos e).Has x ↔ ∃ k, k ≠ pos ∧ t k = some x := by
  constructor
  · rintro ⟨i, hi⟩
    obtain ⟨k, hk, htk, -⟩ := exists_of_removed hpos hi
    exact ⟨k, hk, htk⟩
  · rintro ⟨k, hk, htk⟩
    exact ⟨place pos e k, (removed_place hpos hk).trans htk⟩

theorem Once.removed (h : t.Once) (hpos : pos ≤ e + 1) : (t.removed pos e).Once := by
  intro i i' x hi hi'
  obtain ⟨k, -, hk, rfl⟩ := exists_of_removed hpos hi
  obtain ⟨k', -, hk', rfl⟩ := exists_of_removed hpos hi'
  rw [h k k' x hk hk']

theorem Within.removed {n : ℕ} (h : t.Within n) (h1 : 1 ≤ pos) (hpos : pos ≤ e + 1) :
    (t.removed pos e).Within n := by
  intro i x hi
  obtain ⟨k, hne, hk, rfl⟩ := exists_of_removed hpos hi
  have hle := h k x hk
  unfold place
  split_ifs <;> omega

/-- What `table.remove` does: it removes what stands at `pos`, or up to Lua 5.1 nothing, when `pos` is behind
the border. -/
theorem remove_cases {t' : LuaTable α} (h1 : 1 ≤ pos) (h : t.remove v pos e = some t') :
    t' = t.removed pos e ∧ pos ≤ e + 1 ∧ (v = .lua52 ∨ pos ≤ e) ∨ t' = t ∧ v = .lua51 ∧ e < pos := by
  cases v with
  | lua51 =>
    simp only [remove, Option.some.injEq] at h
    split_ifs at h with hin
    · exact .inl ⟨h.symm, by omega, .inr hin.2⟩
    · exact .inr ⟨h.symm, rfl, by omega⟩
  | lua52 =>
    simp only [remove] at h
    split_ifs at h with hin
    cases h
    exact .inl ⟨rfl, by omega, .inl rfl⟩

/-- An error is raised only from Lua 5.2 on. -/
theorem lua52_of_remove (h : t.remove v pos e = none) : v = .lua52 := by
  cases v with
  | lua51 => cases h
  | lua52 => rfl

/-- The value at `pos` is gone, if it was there once. -/
theorem not_removed_has (h : t.Once) (hpos : pos ≤ e + 1) (hx : t pos = some x) :
    ¬ (t.removed pos e).Has x := by
  rw [removed_has_iff hpos]
  rintro ⟨k, hk, htk⟩
  exact hk (h k pos x htk hx)

/-- A value that was not in the table. -/
theorem Once.set {n : ℕ} (h : t.Once) (hnew : ¬ t.Has x) : (t.set n x).Once := by
  intro k k' y hk hk'
  by_cases hn : k = n <;> by_cases hn' : k' = n
  · rw [hn, hn']
  · rw [hn, set_self, Option.some.injEq] at hk
    rw [set_of_ne t x hn', ← hk] at hk'
    exact absurd ⟨k', hk'⟩ hnew
  · rw [hn', set_self, Option.some.injEq] at hk'
    rw [set_of_ne t x hn, ← hk'] at hk
    exact absurd ⟨k, hk⟩ hnew
  · rw [set_of_ne t x hn] at hk
    rw [set_of_ne t x hn'] at hk'
    exact h k k' y hk hk'

theorem Within.set {n : ℕ} (h : t.Within n) (x : α) : (t.set (n + 1) x).Within (n + 1) := by
  intro k y hk
  by_cases hn : k = n + 1
  · omega
  · rw [set_of_ne t x hn] at hk
    have hle := h k y hk
    omega

theorem set_has_iff {n : ℕ} {y : α} (h : t.Within n) :
    (t.set (n + 1) x).Has y ↔ t.Has y ∨ y = x := by
  constructor
  · rintro ⟨k, hk⟩
    by_cases hn : k = n + 1
    · rw [hn, set_self, Option.some.injEq] at hk
      exact .inr hk.symm
    · rw [set_of_ne t x hn] at hk
      exact .inl ⟨k, hk⟩
  · rintro (⟨k, hk⟩ | rfl)
    · have hne : k ≠ n + 1 := by
        have := h k y hk
        omega
      exact ⟨k, (set_of_ne t x hne).trans hk⟩
    · exact ⟨n + 1, set_self t (n + 1) y⟩

/-! ## Tables without holes -/

section OfList

variable {l : List α}

theorem ofList_zero (l : List α) : ofList l 0 = none := rfl

theorem ofList_succ (l : List α) (k : ℕ) : ofList l (k + 1) = l[k]? := rfl

/-- A table without holes has one border. -/
theorem border_ofList_iff : (ofList l).Border e ↔ e = l.length := by
  cases e with
  | zero =>
    simp only [Border, ofList_succ, true_or, true_and, Option.isNone_iff_eq_none, List.getElem?_eq_none_iff]
    omega
  | succ e =>
    simp only [Border, ofList_succ, Option.isSome_iff_ne_none, ne_eq, Option.isNone_iff_eq_none,
      List.getElem?_eq_none_iff]
    omega

theorem removed_ofList (hk : k < l.length) : (ofList l).removed (k + 1) l.length = ofList (l.eraseIdx k) := by
  funext i
  cases i with
  | zero => simp [removed, ofList_zero]
  | succ i =>
    show (if i + 1 < k + 1 then l[i]? else if i + 1 < l.length then l[i + 1]?
      else if i + 1 = max (k + 1) l.length then none else l[i]?) = (l.eraseIdx k)[i]?
    rw [List.getElem?_eraseIdx]
    by_cases hbefore : i < k
    · rw [if_pos (Nat.succ_lt_succ hbefore), if_pos hbefore]
    · rw [if_neg (by omega), if_neg hbefore]
      by_cases hmoved : i + 1 < l.length
      · rw [if_pos hmoved]
      · -- at the last place and behind it there is nothing
        rw [if_neg hmoved, List.getElem?_eq_none (Nat.le_of_not_lt hmoved)]
        split_ifs with hlast
        · rfl
        · exact List.getElem?_eq_none (by omega)

/-- In a table without holes `table.remove` closes the gap, in either version. -/
theorem remove_ofList (v : Version) (hk : k < l.length) :
    (ofList l).remove v (k + 1) l.length = some (ofList (l.eraseIdx k)) := by
  cases v with
  | lua51 =>
    have hin : 1 ≤ k + 1 ∧ k + 1 ≤ l.length := ⟨Nat.le_add_left 1 k, hk⟩
    simp only [remove, if_pos hin, removed_ofList hk]
  | lua52 =>
    have hin : k + 1 = l.length ∨ 1 ≤ k + 1 ∧ k + 1 ≤ l.length + 1 := .inr ⟨by omega, by omega⟩
    simp only [remove, if_pos hin, removed_ofList hk]

end OfList

end LuaTable

end NetProg
