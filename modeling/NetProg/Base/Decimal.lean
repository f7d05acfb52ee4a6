/-
# NetProg.Base.Decimal -- `sprintf ("%d")` and `atoi`.

`showInt` writes an integer as C does, `atoi` reads one back: white space is skipped, a sign is taken,
and the digits up to the first character that is none are the value (zero when there are none).  The
round trip `atoi_showInt` holds in front of any text that does not go on with a digit.  `wrap32` is the
value that a 32-bit `int` keeps.
-/
import Mathlib.Algebra.Order.Ring.Int
import Mathlib.Tactic.Common

namespace NetProg

/-- `sprintf ("%d")`, without the terminating NUL. -/
def showInt : ℤ → List Char
  | .ofNat n => Nat.toDigits 10 n
  | .negSucc n => '-' :: Nat.toDigits 10 (n + 1)

/-- `isspace` in the C locale. -/
def isSpace (c : Char) : Bool := c = ' ' || (9 ≤ c.toNat && c.toNat ≤ 13)

/-- The value of the digits at the front of a text. -/
def leadingDigits (l : List Char) : ℕ := Nat.ofDigitChars 10 (l.takeWhile Char.isDigit) 0

/-- `atoi`. -/
def atoi (l : List Char) : ℤ :=
  match l.dropWhile isSpace with
  | '-' :: rest => -(leadingDigits rest : ℤ)
  | '+' :: rest => leadingDigits rest
  | rest => leadingDigits rest

/-- The value that a 32-bit `int` keeps of `v`. -/
def wrap32 (v : ℤ) : ℤ := Int.bmod v (2 ^ 32)

theorem leadingDigits_toDigits (n : ℕ) {c : Char} (hc : c.isDigit = false) (rest : List Char) :
    leadingDigits (Nat.toDigits 10 n ++ c :: rest) = n := by
  have hall : ∀ d ∈ Nat.toDigits 10 n, d.isDigit = true := fun d hd =>
    Nat.isDigit_of_mem_toDigits (by decide) (by decide) hd
  have htake : (Nat.toDigits 10 n ++ c :: rest).takeWhile Char.isDigit = Nat.toDigits 10 n := by
    rw [List.takeWhile_append_of_pos hall, List.takeWhile_cons_of_neg (by simp [hc]), List.append_nil]
  rw [leadingDigits, htake, Nat.ofDigitChars_ten_toDigits]

/-- A digit is neither white space nor a sign. -/
theorem digit_plain {d : Char} (hd : d.isDigit = true) : isSpace d = false ∧ d ≠ '-' ∧ d ≠ '+' := by
  have hrange : 48 ≤ d.toNat ∧ d.toNat ≤ 57 := by
    simp only [Char.isDigit, Bool.and_eq_true, decide_eq_true_eq, ge_iff_le,
      UInt32.le_iff_toNat_le] at hd
    exact hd
  refine ⟨?_, ?_, ?_⟩
  · have hblank : d ≠ ' ' := by
      rintro rfl
      exact absurd hrange.1 (by decide)
    simp only [isSpace, hblank, decide_false, Bool.false_or]
    have : ¬ d.toNat ≤ 13 := by omega
    simp [this]
  · rintro rfl
    exact absurd hrange.1 (by decide)
  · rintro rfl
    exact absurd hrange.1 (by decide)

/-- **The round trip.** -/
theorem atoi_showInt (v : ℤ) {c : Char} (hc : c.isDigit = false) (rest : List Char) :
    atoi (showInt v ++ c :: rest) = v := by
  cases v with
  | negSucc n =>
    have hminus : isSpace '-' = false := by decide
    simp only [showInt, List.cons_append, atoi, List.dropWhile_cons, hminus, Bool.false_eq_true,
      if_false, leadingDigits_toDigits _ hc, Int.negSucc_eq]
    norm_cast
  | ofNat n =>
    cases hdigits : Nat.toDigits 10 n with
    | nil => exact absurd hdigits Nat.toDigits_ne_nil
    | cons d ds =>
      have hd : d.isDigit = true :=
        Nat.isDigit_of_mem_toDigits (by decide) (by decide) (hdigits ▸ List.mem_cons_self)
      obtain ⟨hspace, hminus, hplus⟩ := digit_plain hd
      have hvalue := leadingDigits_toDigits n hc rest
      rw [hdigits] at hvalue
      simp only [showInt, hdigits, atoi, List.cons_append, List.dropWhile_cons, hspace,
        Bool.false_eq_true, if_false]
      split
      · exact absurd (List.cons.inj ‹_›).1 hminus
      · exact absurd (List.cons.inj ‹_›).1 hplus
      · exact congrArg Int.ofNat hvalue

/-- A number below `10 ^ k` takes at most a sign and `k` digits. -/
theorem length_showInt_le {v : ℤ} {k : ℕ} (hk : 0 < k) (hv : v.natAbs < 10 ^ k) :
    (showInt v).length ≤ k + 1 := by
  cases v with
  | ofNat n =>
    have := (Nat.length_toDigits_le_iff (by decide) hk).mpr (show n < 10 ^ k from hv)
    simp only [showInt]
    omega
  | negSucc n =>
    have := (Nat.length_toDigits_le_iff (by decide) hk).mpr (show n + 1 < 10 ^ k from hv)
    simp only [showInt, List.length_cons]
    omega

theorem wrap32_natAbs_le (v : ℤ) : (wrap32 v).natAbs ≤ 2 ^ 31 := by
  have hle : -(((2 ^ 32 : ℕ) : ℤ) / 2) ≤ wrap32 v := Int.le_bmod (by omega)
  have hlt : wrap32 v < (((2 ^ 32 : ℕ) : ℤ) + 1) / 2 := Int.bmod_lt (by omega)
  omega

/-- Counting up does not overshoot: the wrapped value is at most the sum. -/
theorem wrap32_le {v : ℤ} (hv : -(2 ^ 31) ≤ v) : wrap32 v ≤ v := by
  by_cases hlt : v < 2 ^ 31
  · rw [wrap32, Int.bmod_eq_of_le (by omega) (by omega)]
  · have : (wrap32 v).natAbs ≤ 2 ^ 31 := wrap32_natAbs_le v
    omega

theorem wrap32_eq {v : ℤ} (hlo : -(2 ^ 31) ≤ v) (hhi : v < 2 ^ 31) : wrap32 v = v := by
  rw [wrap32, Int.bmod_eq_of_le (by omega) (by omega)]

end NetProg
