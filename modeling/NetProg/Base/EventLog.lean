/-
# NetProg.Base.EventLog -- what each entry of a log may assume about the entries before it.

A run's calls are kept in a log, oldest first.  A temporal law ("no write after the shutdown", "a reset
only after thirty ticks") says of every entry something about the log up to it.  `Each P l` is that law:
`P pre e` for every way to cut `l` into `pre`, an entry `e` and a rest.

`since p l` is the part of `l` behind its last entry with `p`: what happened since then.

`Followed p q l` looks the other way ("every request is answered"): each entry with `p` is an entry with `q` or
has one behind it.
-/
import Mathlib.Data.List.DropRight
import Mathlib.Tactic.Cases

namespace NetProg

variable {E : Type*}

/-- Every entry of `l` satisfies `P` of the entries before it and itself. -/
def Each (P : List E → E → Prop) (l : List E) : Prop :=
  ∀ pre e post, l = pre ++ e :: post → P pre e

namespace Each

variable {P Q : List E → E → Prop} {l : List E}

@[simp] theorem nil : Each P [] := by
  intro pre e post h
  simp at h

/-- One more entry: the law of the old log, and the law of the new entry after the whole old log. -/
theorem append_singleton {e : E} : Each P (l ++ [e]) ↔ Each P l ∧ P l e := by
  constructor
  · intro h
    refine ⟨fun pre x post hl => h pre x (post ++ [e]) (by simp [hl]), h l e [] rfl⟩
  · rintro ⟨hl, he⟩ pre x post hcut
    rcases List.eq_nil_or_concat post with rfl | ⟨post', y, rfl⟩
    · obtain ⟨rfl, hx⟩ := List.append_inj' hcut rfl
      simp only [List.cons.injEq, and_true] at hx
      exact hx ▸ he
    · rw [List.concat_eq_append, ← List.cons_append, ← List.append_assoc] at hcut
      exact hl pre x post' (List.append_inj' hcut rfl).1

theorem snoc {e : E} (hl : Each P l) (he : P l e) : Each P (l ++ [e]) :=
  append_singleton.mpr ⟨hl, he⟩

theorem mono (h : ∀ pre e, P pre e → Q pre e) (hl : Each P l) : Each Q l :=
  fun pre e post hcut => h pre e (hl pre e post hcut)

end Each

/-! ## Since the last entry of a kind -/

/-- The entries behind the last one with `p`; all of them if there is none. -/
def since (p : E → Bool) (l : List E) : List E := l.rtakeWhile fun e => !p e

section Since

variable {p : E → Bool} {l : List E} {e : E}

@[simp] theorem since_nil : since p [] = [] := List.rtakeWhile_nil _

theorem since_snoc_of (h : p e = true) : since p (l ++ [e]) = [] :=
  List.rtakeWhile_concat_neg _ _ _ (by simp [h])

theorem since_snoc_of_not (h : p e = false) : since p (l ++ [e]) = since p l ++ [e] :=
  List.rtakeWhile_concat_pos _ _ _ (by simp [h])

theorem since_append_of_not {es : List E} (h : ∀ e ∈ es, p e = false) : since p (l ++ es) = since p l ++ es := by
  induction es generalizing l with
  | nil => simp
  | cons e es ih =>
    rw [List.forall_mem_cons] at h
    rw [List.append_cons, ih h.2, since_snoc_of_not h.1, List.append_assoc, List.singleton_append]

theorem since_suffix (p : E → Bool) (l : List E) : since p l <:+ l := List.rtakeWhile_suffix _ _

theorem not_of_mem_since (h : e ∈ since p l) : p e = false := by
  simpa using List.mem_rtakeWhile_imp h

end Since

/-! ## Until an entry of another kind -/

/-- Every entry with `p` is one with `q`, or has one behind it. -/
def Followed (p q : E → Prop) (l : List E) : Prop :=
  ∀ pre e post, l = pre ++ e :: post → p e → ∃ x ∈ e :: post, q x

namespace Followed

variable {p q : E → Prop} {l : List E}

@[simp] theorem nil : Followed p q [] := by
  intro pre e post h
  simp at h

/-- One more entry: it makes good all before it, or it adds nothing that needs it. -/
theorem append_singleton {e : E} : Followed p q (l ++ [e]) ↔ q e ∨ Followed p q l ∧ ¬ p e := by
  constructor
  · intro h
    by_cases hq : q e
    · exact .inl hq
    · refine .inr ⟨fun pre x post hl hx => ?_, fun hp => ?_⟩
      · obtain ⟨y, hy, hqy⟩ := h pre x (post ++ [e]) (by simp [hl]) hx
        rw [← List.cons_append, List.mem_append, List.mem_singleton] at hy
        rcases hy with hy | rfl
        · exact ⟨y, hy, hqy⟩
        · exact absurd hqy hq
      · obtain ⟨y, hy, hqy⟩ := h l e [] rfl hp
        rw [List.mem_singleton] at hy
        exact hq (hy ▸ hqy)
  · intro h pre x post hcut hx
    rcases List.eq_nil_or_concat post with rfl | ⟨post', y, rfl⟩
    · -- the new entry itself
      obtain ⟨rfl, hlast⟩ := List.append_inj' hcut rfl
      simp only [List.cons.injEq, and_true] at hlast
      subst hlast
      rcases h with hq | ⟨-, hp⟩
      · exact ⟨e, List.mem_singleton_self e, hq⟩
      · exact absurd hx hp
    · rw [List.concat_eq_append, ← List.cons_append, ← List.append_assoc] at hcut
      obtain ⟨hl, hlast⟩ := List.append_inj' hcut rfl
      simp only [List.cons.injEq, and_true] at hlast
      subst hlast
      rcases h with hq | ⟨hfollowed, -⟩
      · exact ⟨e, by simp, hq⟩
      · obtain ⟨z, hz, hqz⟩ := hfollowed pre x post' hl hx
        refine ⟨z, ?_, hqz⟩
        rw [List.concat_eq_append, ← List.cons_append]
        exact List.mem_append_left _ hz

end Followed

end NetProg
