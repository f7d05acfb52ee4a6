/-
# NetProg.Base.ListWalk -- going through the positions of a list while elements are taken out.

A walk comes to given positions in a given order and looks at what stands there then.  Some of the elements
are taken out when they are looked at, and those behind them move down by one.  So the walk may come to a
position too late for one element and see another there twice.

`walk_count_iff` says which orders are harmless: each element is seen exactly once if and only if, whenever
an element is taken out, all positions that are still to come are in front of it.  A walk may also have to end
at some element (`upTo`); then no such element may stand at any position but the last one
(`walk_upTo_count_iff`).
-/
import Mathlib.Data.List.Nodup
import Mathlib.Data.List.Perm.Subperm
import Mathlib.Data.List.Range
import Mathlib.Data.Nat.Find
import Mathlib.Tactic.Cases

namespace NetProg

variable {α : Type*}

/-- What is seen at the positions, in their order; `out` says what is taken out. -/
def walk (out : α → Bool) : List ℕ → List α → List α
  | [], _ => []
  | k :: ks, l =>
    match l[k]? with
    | some x => x :: walk out ks (if out x then l.eraseIdx k else l)
    | none => walk out ks l

/-- Position `j` may come after position `i`. -/
def MayFollow (out : α → Bool) (l : List α) (i j : ℕ) : Prop :=
  ∀ x, l[i]? = some x → out x = true → j < i

variable {out : α → Bool} {ks : List ℕ} {l : List α} {k : ℕ} {x : α}

/-- In front of what is taken out nothing moves. -/
theorem MayFollow.erase_iff {i j : ℕ} (hi : i < k) :
    MayFollow out (l.eraseIdx k) i j ↔ MayFollow out l i j := by
  unfold MayFollow
  rw [List.getElem?_eraseIdx_of_lt hi]

theorem pairwise_erase_iff (hks : ∀ i ∈ ks, i < k) :
    ks.Pairwise (MayFollow out (l.eraseIdx k)) ↔ ks.Pairwise (MayFollow out l) := by
  constructor
  · intro h
    exact h.imp_of_mem fun hi _ hij => (MayFollow.erase_iff (hks _ hi)).mp hij
  · intro h
    exact h.imp_of_mem fun hi _ hij => (MayFollow.erase_iff (hks _ hi)).mpr hij

/-- **In a harmless order each position shows what stood there at the start.** -/
theorem walk_eq (hks : ∀ i ∈ ks, i < l.length) (h : ks.Pairwise (MayFollow out l)) :
    walk out ks l = ks.filterMap (l[·]?) := by
  induction ks generalizing l with
  | nil => rfl
  | cons k ks ih =>
    rw [List.forall_mem_cons] at hks
    rw [List.pairwise_cons] at h
    have hk : l[k]? = some l[k] := List.getElem?_eq_getElem hks.1
    simp only [walk, hk, List.filterMap_cons]
    by_cases hout : out l[k] = true
    · have hlt : ∀ i ∈ ks, i < k := fun i hi => h.1 i hi l[k] hk hout
      rw [if_pos hout, ih ?_ ((pairwise_erase_iff hlt).mpr h.2)]
      · congr 1
        apply List.filterMap_congr
        intro i hi
        exact List.getElem?_eraseIdx_of_lt (hlt i hi)
      · intro i hi
        have hik := hlt i hi
        rw [List.length_eraseIdx_of_lt hks.1]
        omega
    · rw [if_neg hout, ih hks.2 h.2]

theorem filterMap_range_getElem? (l : List α) : (List.range l.length).filterMap (l[·]?) = l := by
  induction l with
  | nil => rfl
  | cons x l ih =>
    rw [List.length_cons, List.range_succ_eq_map, List.filterMap_cons, List.filterMap_map]
    simpa using ih

/-- Elements only move down: those that stand in front of `b` are seen only at positions in front of `b`. -/
theorem countP_walk_le [DecidableEq α] (low : List α) (b : ℕ)
    (hlow : ∀ i x, b ≤ i → l[i]? = some x → x ∉ low) :
    (walk out ks l).countP (· ∈ low) ≤ ks.countP (· < b) := by
  induction ks generalizing l with
  | nil => exact Nat.le_refl _
  | cons k ks ih =>
    simp only [walk]
    cases hk : l[k]? with
    | none =>
      refine Nat.le_trans (ih hlow) ?_
      rw [List.countP_cons]
      exact Nat.le_add_right _ _
    | some x =>
      have hrest : ∀ i y, b ≤ i → (if out x then l.eraseIdx k else l)[i]? = some y → y ∉ low := by
        intro i y hi hy
        split_ifs at hy
        · rw [List.getElem?_eraseIdx] at hy
          split_ifs at hy
          · exact hlow i y hi hy
          · exact hlow (i + 1) y (Nat.le_succ_of_le hi) hy
        · exact hlow i y hi hy
      have hle := ih hrest
      rw [List.countP_cons, List.countP_cons]
      by_cases hx : x ∈ low
      · have hkb : k < b := by
          apply Nat.lt_of_not_le
          intro hbk
          exact hlow k x hbk hk hx
        simp only [hx, hkb, decide_true, if_true]
        omega
      · simp only [hx, decide_false, Bool.false_eq_true, if_false]
        omega

/-- An element is taken out while a position behind it is still to come: then an element that stands at one
of the coming positions is not seen.  The elements at the coming positions in front, and the next one behind,
are one more than the positions at which they can be seen. -/
theorem exists_unseen_of_late [DecidableEq α] (hl : l.Nodup) (hks : ∀ i ∈ ks, i < l.length) (hdup : ks.Nodup)
    (hk : k ∉ ks) {j : ℕ} (hj : j ∈ ks) (hkj : k < j) :
    ∃ i ∈ ks, ∃ x, l[i]? = some x ∧ x ∉ walk out ks (l.eraseIdx k) := by
  have hex : ∃ u, u ∈ ks ∧ k < u := ⟨j, hj, hkj⟩
  obtain ⟨hu, hku⟩ := Nat.find_spec hex
  have hmin : ∀ i ∈ ks, i < Nat.find hex ↔ i < k := by
    intro i hi
    constructor
    · intro hlt
      have hnot := Nat.find_min hex hlt
      have hne : i ≠ k := fun he => hk (he ▸ hi)
      have hle : ¬ k < i := fun hki => hnot ⟨hi, hki⟩
      omega
    · intro hlt
      exact Nat.lt_trans hlt hku
  generalize Nat.find hex = u at hu hku hmin
  have hcoming : ∀ i ∈ u :: ks.filter (· < k), i ∈ ks := by
    rw [List.forall_mem_cons]
    exact ⟨hu, fun i hi => (List.mem_filter.mp hi).1⟩
  -- what stands at those positions, each once
  obtain ⟨low, hlow⟩ : ∃ low, low = (u :: ks.filter (· < k)).filterMap (l[·]?) := ⟨_, rfl⟩
  have hat : ∀ x ∈ low, ∃ i ∈ u :: ks.filter (· < k), l[i]? = some x := by
    intro x hx
    rw [hlow, List.mem_filterMap] at hx
    exact hx
  have hsame : ∀ (i i' : ℕ) (x : α), l[i]? = some x → l[i']? = some x → i = i' := by
    intro i i' x hi hi'
    exact (List.getElem?_inj (List.getElem?_eq_some_iff.mp hi).1 hl).mp (hi.trans hi'.symm)
  have hlowdup : low.Nodup := by
    rw [hlow]
    apply List.Nodup.filterMap
    · intro i i' x hi hi'
      exact hsame i i' x hi hi'
    · refine List.nodup_cons.mpr ⟨?_, hdup.filter _⟩
      intro hmem
      have hlt : u < k := by simpa using (List.mem_filter.mp hmem).2
      omega
  have hlength : low.length = ks.countP (· < u) + 1 := by
    rw [hlow, List.filterMap_length_eq_length.mpr, List.length_cons, ← List.countP_eq_length_filter]
    · congr 1
      apply List.countP_congr
      intro i hi
      simp [hmin i hi]
    · intro i hi
      simp [hks i (hcoming i hi)]
  -- behind `u` there is none of them, after `k` was taken out
  have hseen : (walk out ks (l.eraseIdx k)).countP (· ∈ low) ≤ ks.countP (· < u) := by
    apply countP_walk_le
    intro i x hi hx hmem
    rw [List.getElem?_eraseIdx_of_ge (by omega)] at hx
    obtain ⟨i', hi', hx'⟩ := hat x hmem
    have he := hsame _ _ x hx hx'
    rcases List.mem_cons.mp hi' with rfl | hi'
    · omega
    · have hlt : i' < k := by simpa using (List.mem_filter.mp hi').2
      omega
  by_contra hall
  have hsub : low ⊆ (walk out ks (l.eraseIdx k)).filter (· ∈ low) := by
    intro x hx
    obtain ⟨i, hi, hxi⟩ := hat x hx
    rw [List.mem_filter]
    refine ⟨?_, decide_eq_true hx⟩
    by_contra hnot
    exact hall ⟨i, hcoming i hi, x, hxi, hnot⟩
  have hle := (hlowdup.subperm hsub).length_le
  rw [← List.countP_eq_length_filter] at hle
  omega

/-- **In any other order some element at one of the positions is not seen.** -/
theorem exists_unseen [DecidableEq α] (hl : l.Nodup) (hks : ∀ i ∈ ks, i < l.length) (hdup : ks.Nodup)
    (h : ¬ ks.Pairwise (MayFollow out l)) : ∃ i ∈ ks, ∃ x, l[i]? = some x ∧ x ∉ walk out ks l := by
  induction ks generalizing l with
  | nil => exact absurd List.Pairwise.nil h
  | cons k ks ih =>
    rw [List.forall_mem_cons] at hks
    rw [List.nodup_cons] at hdup
    have hk : l[k]? = some l[k] := List.getElem?_eq_getElem hks.1
    have hother : ∀ {i : ℕ} {x : α}, i ∈ ks → l[i]? = some x → x ≠ l[k] := by
      rintro i x hi hx rfl
      have he : i = k := (List.getElem?_inj (hks.2 i hi) hl).mp (hx.trans hk.symm)
      exact hdup.1 (he ▸ hi)
    have hmore : (∃ i ∈ ks, ∃ x, l[i]? = some x ∧
        x ∉ walk out ks (if out l[k] then l.eraseIdx k else l)) →
        ∃ i ∈ k :: ks, ∃ x, l[i]? = some x ∧ x ∉ walk out (k :: ks) l := by
      rintro ⟨i, hi, x, hx, hnot⟩
      refine ⟨i, List.mem_cons_of_mem k hi, x, hx, ?_⟩
      simp only [walk, hk, List.mem_cons, not_or]
      exact ⟨hother hi hx, hnot⟩
    apply hmore
    by_cases hout : out l[k] = true
    · rw [if_pos hout]
      by_cases hlate : ∃ j ∈ ks, k < j
      · obtain ⟨j, hj, hkj⟩ := hlate
        exact exists_unseen_of_late hl hks.2 hdup.2 hdup.1 hj hkj
      · -- all that come are in front
        have hlt : ∀ i ∈ ks, i < k := by
          intro i hi
          have hne : i ≠ k := fun he => hdup.1 (he ▸ hi)
          have hle : ¬ k < i := fun hki => hlate ⟨i, hi, hki⟩
          omega
        have hrest : ¬ ks.Pairwise (MayFollow out (l.eraseIdx k)) := by
          rw [pairwise_erase_iff hlt]
          intro hpair
          exact h (List.pairwise_cons.mpr ⟨fun i hi _ _ _ => hlt i hi, hpair⟩)
        obtain ⟨i, hi, x, hx, hnot⟩ := ih (hl.sublist (List.eraseIdx_sublist l k)) (by
          intro i hi
          have hik := hlt i hi
          rw [List.length_eraseIdx_of_lt hks.1]
          omega) hdup.2 hrest
        rw [List.getElem?_eraseIdx_of_lt (hlt i hi)] at hx
        exact ⟨i, hi, x, hx, hnot⟩
    · rw [if_neg hout]
      apply ih hl hks.2 hdup.2
      intro hpair
      refine h (List.pairwise_cons.mpr ⟨?_, hpair⟩)
      intro i _ x hx hxout
      rw [hk, Option.some.injEq] at hx
      exact absurd (hx ▸ hxout) hout

/-- **A walk over all positions sees each element exactly once if and only if, whenever an element is taken
out, the positions still to come are in front of it.** -/
theorem walk_count_iff [DecidableEq α] (hl : l.Nodup) (hks : ks.Perm (List.range l.length)) :
    (∀ x ∈ l, (walk out ks l).count x = 1) ↔ ks.Pairwise (MayFollow out l) := by
  have hlt : ∀ i ∈ ks, i < l.length := fun i hi => List.mem_range.mp (hks.mem_iff.mp hi)
  have hdup : ks.Nodup := hks.nodup_iff.mpr List.nodup_range
  constructor
  · intro hall
    by_contra hnot
    obtain ⟨i, -, x, hx, hunseen⟩ := exists_unseen hl hlt hdup hnot
    have hone := hall x (List.mem_of_getElem? hx)
    rw [List.count_eq_zero.mpr hunseen] at hone
    omega
  · intro h x hx
    have hperm : (walk out ks l).Perm l := by
      rw [walk_eq hlt h]
      exact (hks.filterMap _).trans (List.Perm.of_eq (filterMap_range_getElem? l))
    rw [hperm.count_eq]
    exact List.count_eq_one_of_mem hl hx

/-! ## A walk that ends early -/

/-- The elements up to the first one that `stop`s, with it. -/
def upTo (stop : α → Bool) : List α → List α
  | [] => []
  | x :: l => x :: if stop x then [] else upTo stop l

theorem upTo_prefix (stop : α → Bool) (l : List α) : upTo stop l <+: l := by
  induction l with
  | nil => exact List.prefix_refl _
  | cons x l ih =>
    simp only [upTo, List.prefix_cons_inj]
    split_ifs
    · exact List.nil_prefix
    · exact ih

/-- Nothing is cut off if only the last element stops. -/
theorem upTo_eq_self_iff {stop : α → Bool} : upTo stop l = l ↔ ∀ x ∈ l.dropLast, stop x = false := by
  induction l with
  | nil => simp [upTo]
  | cons x l ih =>
    cases l with
    | nil => simp [upTo]
    | cons y l =>
      rw [List.dropLast_cons_of_ne_nil (List.cons_ne_nil y l), List.forall_mem_cons, ← ih]
      by_cases hx : stop x = true
      · simp [upTo, hx]
      · simp only [Bool.not_eq_true] at hx
        simp [upTo, hx]

/-- What stands at all positions but the last. -/
theorem mem_dropLast_filterMap_getElem? (hks : ∀ i ∈ ks, i < l.length) :
    x ∈ (ks.filterMap (l[·]?)).dropLast ↔ ∃ i ∈ ks.dropLast, l[i]? = some x := by
  rcases List.eq_nil_or_concat ks with rfl | ⟨front, last, rfl⟩
  · simp
  · rw [List.concat_eq_append] at hks ⊢
    have hlast := List.getElem?_eq_getElem (hks last (by simp))
    rw [List.filterMap_append, List.filterMap_cons_some hlast, List.filterMap_nil, List.dropLast_concat,
      List.dropLast_concat, List.mem_filterMap]

theorem length_walk_le (out : α → Bool) (ks : List ℕ) (l : List α) : (walk out ks l).length ≤ ks.length := by
  induction ks generalizing l with
  | nil => exact Nat.le_refl _
  | cons k ks ih =>
    simp only [walk]
    split
    · exact Nat.succ_le_succ (ih _)
    · exact Nat.le_succ_of_le (ih _)

/-- **A walk that ends at some elements sees each one exactly once if and only if the order is harmless and no
element but the one at the last position ends it.** -/
theorem walk_upTo_count_iff [DecidableEq α] {stop : α → Bool} (hl : l.Nodup) (hks : ks.Perm (List.range l.length)) :
    (∀ x ∈ l, (upTo stop (walk out ks l)).count x = 1) ↔
      ks.Pairwise (MayFollow out l) ∧ ∀ i ∈ ks.dropLast, ∀ x, l[i]? = some x → stop x = false := by
  have hlt : ∀ i ∈ ks, i < l.length := fun i hi => List.mem_range.mp (hks.mem_iff.mp hi)
  have hprefix := upTo_prefix stop (walk out ks l)
  -- a harmless walk is cut off nowhere exactly under the second condition
  have hwhole (hpair : ks.Pairwise (MayFollow out l)) : upTo stop (walk out ks l) = walk out ks l ↔
      ∀ i ∈ ks.dropLast, ∀ x, l[i]? = some x → stop x = false := by
    rw [upTo_eq_self_iff, walk_eq hlt hpair]
    constructor
    · intro h i hi x hx
      exact h x ((mem_dropLast_filterMap_getElem? hlt).mpr ⟨i, hi, hx⟩)
    · intro h x hx
      obtain ⟨i, hi, hxi⟩ := (mem_dropLast_filterMap_getElem? hlt).mp hx
      exact h i hi x hxi
  constructor
  · intro hall
    -- all of `l` is seen, which takes every position
    have hsub : l.Subperm (upTo stop (walk out ks l)) := by
      refine hl.subperm fun x hx => ?_
      rw [← List.count_pos_iff, hall x hx]
      exact Nat.one_pos
    have hlength := length_walk_le out ks l
    rw [hks.length_eq, List.length_range] at hlength
    have heq := hprefix.eq_of_length_le (Nat.le_trans hlength hsub.length_le)
    rw [heq] at hall
    have hpair := (walk_count_iff hl hks).mp hall
    exact ⟨hpair, (hwhole hpair).mp heq⟩
  · rintro ⟨hpair, hstop⟩
    rw [(hwhole hpair).mpr hstop]
    exact (walk_count_iff hl hks).mpr hpair

/-- From the first position to the last: an element that is taken out must be the last one. -/
theorem range_pairwise_iff : (List.range l.length).Pairwise (MayFollow out l) ↔
    ∀ i x, l[i]? = some x → out x = true → i + 1 = l.length := by
  constructor
  · intro h i x hx hout
    have hi := (List.getElem?_eq_some_iff.mp hx).1
    by_contra hne
    have hlt := List.pairwise_iff_getElem.mp h i (i + 1) (by simpa using hi)
      (by rw [List.length_range]; omega) (Nat.lt_succ_self i)
    have hless : i + 1 < i := by simpa using hlt x (by simpa using hx) hout
    omega
  · intro h
    rw [List.pairwise_iff_getElem]
    intro i j hi hj hij x hx hout
    rw [List.length_range] at hi hj
    rw [List.getElem_range] at hx
    have hlast := h i x hx hout
    omega

end NetProg
