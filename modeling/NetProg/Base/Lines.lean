/-
# NetProg.Base.Lines -- the complete lines of a stream and its unfinished one.

`List.splitOn` cuts at every separator, so that its last part is what stands behind the last one.  The parts
before it are the complete lines of the stream.  A stream grows at its end: by something without a separator,
which only makes the unfinished line longer, or by something with one behind it, which completes the line
(`completeLines_append_sep`).
-/
import Mathlib.Data.List.Basic
import Mathlib.Tactic.Cases

namespace NetProg

variable {α : Type*} [DecidableEq α]

/-- The lines that end with a separator, without it. -/
def completeLines (sep : α) (l : List α) : List (List α) := (l.splitOn sep).dropLast

/-- What stands behind the last separator. -/
def unfinished (sep : α) (l : List α) : List α := (l.splitOn sep).getLast (List.splitOn_ne_nil sep l)

variable {sep : α}

theorem splitOn_eq (l : List α) : l.splitOn sep = completeLines sep l ++ [unfinished sep l] :=
  (List.dropLast_append_getLast (List.splitOn_ne_nil sep l)).symm

/-- What is appended without a separator goes to the last part. -/
theorem splitOn_append_of_not_mem (l : List α) {m : List α} (hm : sep ∉ m) :
    (l ++ m).splitOn sep = completeLines sep l ++ [unfinished sep l ++ m] := by
  by_cases hin : sep ∈ l
  · -- the last separator of `l` is the first one of its reverse
    obtain ⟨back, front, hrev, hback⟩ := List.eq_append_cons_of_mem (List.mem_reverse.mpr hin)
    have hl : l = front.reverse ++ sep :: back.reverse := by
      rw [← List.reverse_reverse l, hrev]
      simp
    have hback : sep ∉ back.reverse := by rwa [List.mem_reverse]
    have hparts : completeLines sep l ++ [unfinished sep l] = front.reverse.splitOn sep ++ [back.reverse] := by
      rw [← splitOn_eq, hl, List.splitOn_append_cons_self, List.splitOn_eq_singleton hback]
    obtain ⟨hlines, hlast⟩ := List.append_inj' hparts rfl
    have hrest : sep ∉ back.reverse ++ m := by
      rw [List.mem_append, not_or]
      exact ⟨hback, hm⟩
    rw [hlines, List.singleton_inj.mp hlast, hl, List.append_assoc, List.cons_append,
      List.splitOn_append_cons_self, List.splitOn_eq_singleton hrest]
  · have hparts : [] ++ [l] = completeLines sep l ++ [unfinished sep l] := by
      rw [← splitOn_eq, List.splitOn_eq_singleton hin]
      rfl
    obtain ⟨hlines, hlast⟩ := List.append_inj' hparts rfl
    have hrest : sep ∉ l ++ m := by
      rw [List.mem_append, not_or]
      exact ⟨hin, hm⟩
    rw [← hlines, ← List.singleton_inj.mp hlast, List.splitOn_eq_singleton hrest]
    rfl

theorem completeLines_append (l : List α) {m : List α} (hm : sep ∉ m) :
    completeLines sep (l ++ m) = completeLines sep l := by
  rw [completeLines, splitOn_append_of_not_mem l hm, List.dropLast_concat]

theorem unfinished_append (l : List α) {m : List α} (hm : sep ∉ m) :
    unfinished sep (l ++ m) = unfinished sep l ++ m := by
  have hparts := splitOn_append_of_not_mem l hm
  rw [splitOn_eq, completeLines_append l hm] at hparts
  exact List.singleton_inj.mp (List.append_cancel_left hparts)

theorem splitOn_append_sep (sep : α) (l : List α) : (l ++ [sep]).splitOn sep = l.splitOn sep ++ [[]] := by
  rw [List.splitOn_append_cons_self]
  rfl

/-- **A separator completes the unfinished line.** -/
theorem completeLines_append_sep (l : List α) {m : List α} (hm : sep ∉ m) :
    completeLines sep (l ++ m ++ [sep]) = completeLines sep l ++ [unfinished sep l ++ m] := by
  rw [completeLines, splitOn_append_sep, List.dropLast_concat, splitOn_append_of_not_mem l hm]

theorem unfinished_append_sep (l : List α) : unfinished sep (l ++ [sep]) = [] := by
  have hparts := splitOn_append_sep sep l
  rw [splitOn_eq (l ++ [sep])] at hparts
  exact List.singleton_inj.mp (List.append_inj' hparts rfl).2

end NetProg
