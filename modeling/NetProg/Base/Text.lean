/-
# NetProg.Base.Text -- writing text with a format, and cutting it into lines again.

`sprintf` replaces the conversions `%s` and `%ld` of a format by texts.  `cutAt` cuts a text at the first
occurrence of a separator, and `headerBlock` reads lines up to the first empty one.  What was joined by a
separator whose first character it does not contain is cut into the same parts again (`cutAt_append`,
`headerBlock_flatMap`).
-/
import Mathlib.Data.List.Basic
import Mathlib.Tactic.Cases

namespace NetProg

/-- `sprintf`, without the terminating NUL; the texts for the conversions are given in order. -/
def sprintf : List Char → List (List Char) → List Char
  | '%' :: 's' :: fmt, a :: args => a ++ sprintf fmt args
  | '%' :: 'l' :: 'd' :: fmt, a :: args => a ++ sprintf fmt args
  | c :: fmt, args => c :: sprintf fmt args
  | [], _ => []

section Cut

variable {α : Type*} [DecidableEq α]

/-- The parts before and after the first occurrence of `sep`. -/
def cutAt (sep : List α) : List α → Option (List α × List α)
  | [] => none
  | c :: l =>
    if sep.isPrefixOf (c :: l) then some ([], (c :: l).drop sep.length)
    else (cutAt sep l).map fun r => (c :: r.1, r.2)

theorem cutAt_append {x : α} {a : List α} (ha : x ∉ a) (sep b : List α) :
    cutAt (x :: sep) (a ++ (x :: sep) ++ b) = some (a, b) := by
  induction a with
  | nil =>
    have hprefix : (x :: sep).isPrefixOf (x :: (sep ++ b)) = true := by
      rw [List.isPrefixOf_iff_prefix]
      exact List.prefix_append (x :: sep) b
    simp [cutAt, hprefix]
  | cons c a ih =>
    rw [List.mem_cons, not_or] at ha
    have hnot : (x :: sep).isPrefixOf (c :: (a ++ (x :: sep) ++ b)) = false := by
      simp [List.isPrefixOf, ha.1]
    simp only [List.cons_append, cutAt, hnot, Bool.false_eq_true, if_false] at ih ⊢
    rw [ih ha.2]
    rfl

end Cut

/-- The end of a line. -/
def crlf : List Char := ['\r', '\n']

/-- The lines up to the first empty one, and the rest; `line` is the beginning of the first line. -/
def headerBlock : List Char → List Char → Option (List (List Char) × List Char)
  | line, '\r' :: '\n' :: rest =>
    if line = [] then some ([], rest)
    else (headerBlock [] rest).map fun r => (line :: r.1, r.2)
  | line, c :: rest => headerBlock (line ++ [c]) rest
  | _, [] => none

theorem headerBlock_line {a : List Char} (ha : '\r' ∉ a) (line rest : List Char) :
    headerBlock line (a ++ crlf ++ rest) = headerBlock (line ++ a) (crlf ++ rest) := by
  induction a generalizing line with
  | nil => rw [List.nil_append, List.append_nil]
  | cons c a ih =>
    rw [List.mem_cons, not_or] at ha
    have hc : c ≠ '\r' := Ne.symm ha.1
    have hstep : headerBlock line (c :: (a ++ crlf ++ rest)) =
        headerBlock (line ++ [c]) (a ++ crlf ++ rest) := by
      rw [headerBlock]
      rintro rest' hr
      exact absurd hr hc
    rw [List.cons_append, List.cons_append, hstep, ih ha.2, List.append_assoc, List.singleton_append]

/-- **Lines that are not empty and hold no carriage return are read as they are**, up to the empty one. -/
theorem headerBlock_flatMap {hs : List (List Char)} (h : ∀ a ∈ hs, a ≠ [] ∧ '\r' ∉ a) (rest : List Char) :
    headerBlock [] (hs.flatMap (· ++ crlf) ++ crlf ++ rest) = some (hs, rest) := by
  induction hs with
  | nil => rfl
  | cons a hs ih =>
    rw [List.forall_mem_cons] at h
    have htext : (a :: hs).flatMap (· ++ crlf) ++ crlf ++ rest =
        a ++ crlf ++ (hs.flatMap (· ++ crlf) ++ crlf ++ rest) := by
      simp only [List.flatMap_cons, List.append_assoc]
    rw [htext, headerBlock_line h.1.2, List.nil_append]
    simp only [crlf, List.cons_append, List.nil_append, headerBlock, if_neg h.1.1] at ih ⊢
    rw [ih h.2]
    rfl

end NetProg
