/-
# NetProg.Base.Stdio -- reading a text line by line into a buffer of a fixed size.

`fgets n text` is what one call of `fgets` with a buffer of `n + 1` bytes stores, and what is left of the
text: up to the first newline and with it, but at most `n` bytes.  The pieces that a loop of calls reads
are the text again (`fgets_append`); none of them is empty before the end (`fgets_ne_nil`).  A line of at most
`n` bytes is read in one piece (`fgets_of_textLines`).
-/
import Mathlib.Data.List.Basic
import Mathlib.Tactic.Cases

namespace NetProg

/-- The newline. -/
def newline : UInt8 := 10

/-- One call of `fgets`: the bytes stored, without the NUL behind them, and the rest of the text. -/
def fgets : ℕ → List UInt8 → List UInt8 × List UInt8
  | 0, text => ([], text)
  | _ + 1, [] => ([], [])
  | n + 1, c :: text =>
    if c = newline then ([c], text) else (c :: (fgets n text).1, (fgets n text).2)

/-- Nothing is lost between two calls. -/
theorem fgets_append (n : ℕ) (text : List UInt8) : (fgets n text).1 ++ (fgets n text).2 = text := by
  induction n, text using fgets.induct with
  | case1 text => rfl
  | case2 n => rfl
  | case3 n text => simp [fgets]
  | case4 n c text hc ih => simp [fgets, hc, ih]

/-- Before the end of the text a call stores something. -/
theorem fgets_ne_nil {n : ℕ} {text : List UInt8} (hn : 0 < n) (htext : text ≠ []) :
    (fgets n text).1 ≠ [] := by
  cases text with
  | nil => exact absurd rfl htext
  | cons c text =>
    obtain ⟨m, rfl⟩ := Nat.exists_eq_succ_of_ne_zero (Nat.pos_iff_ne_zero.mp hn)
    rw [fgets]
    split_ifs
    · exact List.cons_ne_nil _ _
    · exact List.cons_ne_nil _ _

theorem length_fgets_le (n : ℕ) (text : List UInt8) : (fgets n text).1.length ≤ n := by
  induction n, text using fgets.induct with
  | case1 text => exact Nat.zero_le _
  | case2 n => exact Nat.zero_le _
  | case3 n text => simp [fgets]
  | case4 n c text hc ih => simpa [fgets, hc] using ih

/-! ## The lines of a text -/

/-- The lines, each with its newline; the last one may have none. -/
def textLines : List UInt8 → List (List UInt8)
  | [] => []
  | c :: text =>
    if c = newline then [c] :: textLines text
    else
      match textLines text with
      | [] => [[c]]
      | line :: lines => (c :: line) :: lines

@[simp] theorem textLines_nil : textLines [] = [] := rfl

theorem textLines_cons_newline (text : List UInt8) :
    textLines (newline :: text) = [newline] :: textLines text := by
  rw [textLines, if_pos rfl]

theorem textLines_ne_nil {text : List UInt8} (htext : text ≠ []) : textLines text ≠ [] := by
  cases text with
  | nil => exact absurd rfl htext
  | cons c text =>
    rw [textLines]
    split_ifs
    · exact List.cons_ne_nil _ _
    · cases textLines text with
      | nil => exact List.cons_ne_nil _ _
      | cons line lines => exact List.cons_ne_nil _ _

/-- **A line that fits is read in one piece.** -/
theorem fgets_of_textLines {n : ℕ} {text line : List UInt8} {lines : List (List UInt8)}
    (hlines : textLines text = line :: lines) (hfit : line.length ≤ n) :
    (fgets n text).1 = line ∧ textLines (fgets n text).2 = lines := by
  induction n, text using fgets.induct generalizing line lines with
  | case1 text =>
    obtain rfl : line = [] := List.length_eq_zero_iff.mp (Nat.le_zero.mp hfit)
    cases text with
    | nil => cases hlines
    | cons c text =>
      -- no line of a text is empty
      rw [textLines] at hlines
      split_ifs at hlines
      · cases hlines
      · split at hlines <;> cases hlines
  | case2 n => cases hlines
  | case3 n text =>
    rw [textLines_cons_newline, List.cons.injEq] at hlines
    obtain ⟨rfl, rfl⟩ := hlines
    simp [fgets]
  | case4 n c text hc ih =>
    rw [textLines, if_neg hc] at hlines
    rw [fgets, if_neg hc]
    cases hrest : textLines text with
    | nil =>
      rw [hrest] at hlines
      cases hlines
      obtain rfl : text = [] := by
        by_contra htext
        exact textLines_ne_nil htext hrest
      cases n <;> exact ⟨rfl, rfl⟩
    | cons line' lines' =>
      rw [hrest] at hlines
      cases hlines
      obtain ⟨hfirst, hothers⟩ := ih hrest (Nat.le_of_succ_le_succ hfit)
      exact ⟨congrArg (c :: ·) hfirst, hothers⟩

/-- A call reads no more than one line. -/
theorem length_textLines_le (n : ℕ) (text : List UInt8) :
    (textLines text).length ≤ (textLines (fgets n text).2).length + 1 := by
  induction n, text using fgets.induct with
  | case1 text => exact Nat.le_succ _
  | case2 n => exact Nat.zero_le _
  | case3 n text => simp [fgets, textLines]
  | case4 n c text hc ih =>
    rw [fgets, textLines, if_neg hc, if_neg hc]
    cases hrest : textLines text with
    | nil => simp
    | cons line lines => simpa [hrest] using ih

/-! ## The pieces of a text -/

/-- What `k` calls store, as far as there is something to store. -/
def firstPieces (n : ℕ) : ℕ → List UInt8 → List (List UInt8)
  | 0, _ => []
  | k + 1, text => if text = [] then [] else (fgets n text).1 :: firstPieces n k (fgets n text).2

/-- What a loop of calls stores, up to the end of the text. -/
def pieces (n : ℕ) (text : List UInt8) : List (List UInt8) := firstPieces n text.length text

section Pieces

variable {n : ℕ} {text : List UInt8}

@[simp] theorem pieces_nil (n : ℕ) : pieces n [] = [] := rfl

/-- Each call leaves less. -/
theorem length_fgets_snd_lt (hn : 0 < n) (htext : text ≠ []) : (fgets n text).2.length < text.length := by
  have happend := congrArg List.length (fgets_append n text)
  have hpos := List.length_pos_iff.mpr (fgets_ne_nil hn htext)
  rw [List.length_append] at happend
  omega

/-- More calls than the text has bytes store nothing more. -/
theorem firstPieces_eq (hn : 0 < n) {k l : ℕ} (hk : text.length ≤ k) (hl : text.length ≤ l) :
    firstPieces n k text = firstPieces n l text := by
  induction k generalizing text l with
  | zero =>
    obtain rfl := List.length_eq_zero_iff.mp (Nat.le_zero.mp hk)
    cases l <;> rfl
  | succ k ih =>
    by_cases htext : text = []
    · subst htext
      cases l <;> rfl
    · have hlt := length_fgets_snd_lt hn htext
      obtain ⟨l, rfl⟩ := Nat.exists_eq_succ_of_ne_zero (show l ≠ 0 by omega)
      rw [firstPieces, firstPieces, if_neg htext, if_neg htext, ih (by omega) (show _ ≤ l by omega)]

theorem pieces_of_ne_nil (hn : 0 < n) (htext : text ≠ []) :
    pieces n text = (fgets n text).1 :: pieces n (fgets n text).2 := by
  have hlt := length_fgets_snd_lt hn htext
  rw [pieces, firstPieces_eq hn (Nat.le_refl _) (Nat.le_succ text.length), firstPieces, if_neg htext, pieces,
    firstPieces_eq hn (Nat.le_refl _) (Nat.le_of_lt hlt)]

end Pieces

end NetProg
