/-
# NetProg.Base.CString -- strings that end with a NUL, in buffers of a fixed size.

A string in a buffer is what stands before its first NUL.  A buffer without one holds no string: to read it
as one is undefined (`cString` is `none`).  `sprintfS pre` is `sprintf (dst, "<pre>%s", src)`, undefined also
when the text and its NUL do not fit.

What a buffer holds after a store depends on what stood behind it before; in a cleared buffer it is the stored
string (`cString_store_cleared`).
-/
import Mathlib.Data.List.Induction
import Mathlib.Data.List.TakeWhile
import NetProg.Base.Window

namespace NetProg

/-! ## Up to the first NUL -/

/-- The characters before the first NUL. -/
def untilNul (mem : List UInt8) : List UInt8 := mem.takeWhile (· ≠ 0)

section UntilNul

variable {t mem : List UInt8}

theorem untilNul_append (h : (0 : UInt8) ∉ t) (mem : List UInt8) :
    untilNul (t ++ mem) = t ++ untilNul mem := by
  apply List.takeWhile_append_of_pos
  intro c hc
  have hne : c ≠ 0 := fun h0 => h (h0 ▸ hc)
  simpa using hne

theorem untilNul_of_not_mem (h : (0 : UInt8) ∉ t) : untilNul t = t := by
  simpa [untilNul] using untilNul_append h []

theorem untilNul_cons_nul (mem : List UInt8) : untilNul (0 :: mem) = [] := by simp [untilNul]

theorem not_mem_untilNul (mem : List UInt8) : (0 : UInt8) ∉ untilNul mem := by
  intro h
  simpa using List.mem_takeWhile_imp h

/-- A NUL ends the string, whatever follows. -/
theorem untilNul_append_of_mem (h : (0 : UInt8) ∈ t) (mem : List UInt8) :
    untilNul (t ++ mem) = untilNul t := by
  obtain ⟨a, b, rfl, ha⟩ := List.eq_append_cons_of_mem h
  rw [List.append_assoc, List.cons_append, untilNul_append ha, untilNul_append ha, untilNul_cons_nul,
    untilNul_cons_nul]

theorem length_untilNul_le (mem : List UInt8) : (untilNul mem).length ≤ mem.length :=
  (List.takeWhile_sublist _).length_le

/-- There is a NUL exactly when the string is shorter than the buffer. -/
theorem nul_mem_iff_length_lt : (0 : UInt8) ∈ mem ↔ (untilNul mem).length < mem.length := by
  constructor
  · intro h
    obtain ⟨a, b, rfl, ha⟩ := List.eq_append_cons_of_mem h
    rw [untilNul_append ha, untilNul_cons_nul]
    simp
  · intro hlt
    by_contra h
    rw [untilNul_of_not_mem h] at hlt
    exact Nat.lt_irrefl _ hlt

end UntilNul

/-! ## Strings in buffers -/

/-- The string at the start of a buffer; none if no NUL ends it there. -/
def cString (mem : List UInt8) : Option (List UInt8) :=
  if 0 ∈ mem then some (untilNul mem) else none

/-- `sprintf (dst, "<pre>%s", src)`. -/
def sprintfS {n : ℕ} (pre : List UInt8) (dst : Vector UInt8 n) (src : List UInt8) :
    Option (Vector UInt8 n) :=
  (cString src).bind fun t =>
    if (pre ++ t).length + 1 ≤ n then some (store dst 0 (pre ++ t ++ [0])) else none

/-- `bzero`. -/
def cleared (n : ℕ) : Vector UInt8 n := Vector.replicate n 0

section Buffers

variable {n : ℕ} {t mem : List UInt8}

theorem cString_of_mem (h : (0 : UInt8) ∈ mem) : cString mem = some (untilNul mem) := if_pos h

/-- A string that a NUL follows. -/
theorem cString_append_nul (h : (0 : UInt8) ∉ t) (mem : List UInt8) : cString (t ++ 0 :: mem) = some t := by
  rw [cString_of_mem (by simp), untilNul_append h, untilNul_cons_nul, List.append_nil]

/-- Text in front of a buffer is text in front of its string. -/
theorem cString_append (h : (0 : UInt8) ∉ t) (mem : List UInt8) :
    cString (t ++ mem) = (cString mem).map (t ++ ·) := by
  by_cases hnul : (0 : UInt8) ∈ mem
  · rw [cString_of_mem hnul, cString_of_mem (List.mem_append_right t hnul), untilNul_append h, Option.map_some]
  · have hnot : (0 : UInt8) ∉ t ++ mem := by
      rw [List.mem_append, not_or]
      exact ⟨h, hnul⟩
    rw [cString, cString, if_neg hnul, if_neg hnot, Option.map_none]

/-- The empty string is a NUL at the start. -/
theorem cString_eq_nil_iff : cString mem = some [] ↔ mem[0]? = some 0 := by
  cases mem with
  | nil => simp [cString]
  | cons b mem =>
    by_cases hb : b = 0
    · subst hb
      rw [cString_of_mem List.mem_cons_self, untilNul_cons_nul]
      simp
    · by_cases hnul : (0 : UInt8) ∈ mem
      · simp [cString_of_mem (List.mem_cons_of_mem b hnul), untilNul, hb]
      · simp [cString, hnul, hb, Ne.symm hb]

/-- What a text leaves behind it is what was there before: after texts without a NUL there is a NUL at `k` if
and only if there was one and no text reached it. -/
theorem getElem?_stores_eq_zero_iff {history : List (List UInt8)} (mem : Vector UInt8 n) {k : ℕ} (hk : k < n)
    (h : ∀ d ∈ history, (0 : UInt8) ∉ d) :
    (history.foldl (store · 0 ·) mem).toList[k]? = some 0 ↔
      mem.toList[k]? = some 0 ∧ ∀ d ∈ history, d.length ≤ k := by
  induction history using List.reverseRecOn with
  | nil => simp
  | append_singleton history d ih =>
    rw [List.forall_mem_append, List.forall_mem_singleton] at h
    have hstore : (store (history.foldl (store · 0 ·) mem) 0 d).toList[k]? =
        some (d.getD k (history.foldl (store · 0 ·) mem)[k]) := by
      simpa using getElem?_store (history.foldl (store · 0 ·) mem) 0 d k hk
    rw [List.foldl_append, List.foldl_cons, List.foldl_nil, hstore, List.forall_mem_append,
      List.forall_mem_singleton, ← and_assoc, ← ih h.1]
    by_cases hd : k < d.length
    · have hne : d[k] ≠ 0 := fun he => h.2 (he ▸ List.getElem_mem hd)
      have hreach : ¬ d.length ≤ k := by omega
      simp [List.getD_eq_getElem?_getD, hd, hne, hreach]
    · have hle : d.length ≤ k := by omega
      simp [List.getD_eq_getElem?_getD, hle, hk]

theorem cString_append_zeros (h : (0 : UInt8) ∉ t) {m : ℕ} (hm : 0 < m) :
    cString (t ++ List.replicate m 0) = some t := by
  obtain ⟨m, rfl⟩ := Nat.exists_eq_succ_of_ne_zero (Nat.ne_of_gt hm)
  rw [List.replicate_succ]
  exact cString_append_nul h _

theorem drop_cleared (k : ℕ) : (cleared n).toList.drop k = List.replicate (n - k) 0 := by simp [cleared]

/-- **A cleared buffer holds the bytes up to their NUL**, if one is left. -/
theorem cString_store_cleared (hlen : mem.length ≤ n) :
    cString (store (cleared n) 0 mem).toList =
      if (untilNul mem).length < n then some (untilNul mem) else none := by
  rw [toList_store _ hlen, drop_cleared]
  by_cases hnul : (0 : UInt8) ∈ mem
  · have hlt : (untilNul mem).length < n := Nat.lt_of_lt_of_le (nul_mem_iff_length_lt.mp hnul) hlen
    rw [if_pos hlt, cString_of_mem (List.mem_append_left _ hnul), untilNul_append_of_mem hnul]
  · rw [untilNul_of_not_mem hnul]
    by_cases hlt : mem.length < n
    · rw [if_pos hlt]
      exact cString_append_zeros hnul (Nat.sub_pos_of_lt hlt)
    · have hfull : n - mem.length = 0 := by omega
      rw [if_neg hlt, hfull]
      exact if_neg (by simpa using hnul)

/-- `sprintf` is defined when the argument is a string and the text fits, and then writes it. -/
theorem sprintfS_eq_some_iff {pre src : List UInt8} {dst dst' : Vector UInt8 n} :
    sprintfS pre dst src = some dst' ↔
      ∃ t, cString src = some t ∧ (pre ++ t).length + 1 ≤ n ∧ dst' = store dst 0 (pre ++ t ++ [0]) := by
  unfold sprintfS
  cases hsrc : cString src with
  | none => simp
  | some t =>
    simp only [Option.bind_some, Option.ite_none_right_eq_some, Option.some.injEq]
    constructor
    · rintro ⟨hfit, rfl⟩
      exact ⟨t, rfl, hfit, rfl⟩
    · rintro ⟨_, rfl, hfit, rfl⟩
      exact ⟨hfit, rfl⟩

theorem sprintfS_eq_none_iff {pre src : List UInt8} {dst : Vector UInt8 n} :
    sprintfS pre dst src = none ↔ ∀ t, cString src = some t → n < (pre ++ t).length + 1 := by
  unfold sprintfS
  cases cString src with
  | none => simp
  | some t =>
    rw [Option.bind_some]
    simp only [Option.some.injEq, forall_eq']
    split_ifs with hfit
    · simpa using hfit
    · simpa using hfit

/-- **What `sprintf` wrote is read back.** -/
theorem cString_sprintfS {pre src : List UInt8} {dst dst' : Vector UInt8 n} (hpre : (0 : UInt8) ∉ pre)
    (h : sprintfS pre dst src = some dst') : ∃ t, cString src = some t ∧
      cString dst'.toList = some (pre ++ t) := by
  obtain ⟨t, ht, hfit, rfl⟩ := sprintfS_eq_some_iff.mp h
  refine ⟨t, ht, ?_⟩
  have hnot : (0 : UInt8) ∉ pre ++ t := by
    rw [List.mem_append, not_or]
    refine ⟨hpre, ?_⟩
    unfold cString at ht
    split_ifs at ht
    cases ht
    exact not_mem_untilNul src
  have hlen : (pre ++ t ++ [0]).length ≤ n := by
    rw [List.length_append]
    exact hfit
  rw [toList_store dst hlen, List.append_assoc, List.singleton_append]
  exact cString_append_nul hnot _

end Buffers

end NetProg
