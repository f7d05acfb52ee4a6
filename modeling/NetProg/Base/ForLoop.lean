/-
# NetProg.Base.ForLoop -- a `for` loop whose body may raise.

The loop is `List.foldlM` in `Except`.  The exceptions are of two kinds, and `own` says which are of the
one that is asked about.  `Entries` describes the body: at an entry that is `bad` it raises an own
exception, at any other entry that `fails` it raises another one, and otherwise it keeps `Good`, which may
speak of the entries that are still to come.  Then the loop raises an own exception exactly when it reaches
a bad entry (`raises_iff`).
-/
import Mathlib.Data.List.Basic
import Mathlib.Tactic.Cases

namespace NetProg

section Bind

universe u

variable {ε : Type*} {α β : Type u} {x : Except ε α} {f : α → Except ε β}

theorem bind_eq_ok {r : β} : x >>= f = .ok r ↔ ∃ a, x = .ok a ∧ f a = .ok r := by
  cases x <;> simp [bind, Except.bind]

theorem bind_eq_error {b : ε} : x >>= f = .error b ↔ x = .error b ∨ ∃ a, x = .ok a ∧ f a = .error b := by
  cases x <;> simp [bind, Except.bind]

/-- Whatever the computation raises satisfies `P`. -/
def Raises (P : ε → Prop) (x : Except ε α) : Prop := ∀ b, x = .error b → P b

namespace Raises

variable {P Q : ε → Prop}

theorem ok {a : α} : Raises P (.ok a) := by
  intro b hb
  cases hb

theorem error {b : ε} (hb : P b) : Raises P (.error b : Except ε α) := by
  rintro b' ⟨⟩
  exact hb

theorem mono (h : ∀ b, P b → Q b) (hx : Raises P x) : Raises Q x := fun b hb => h b (hx b hb)

theorem bind (hx : Raises P x) (hf : ∀ a, x = .ok a → Raises P (f a)) : Raises P (x >>= f) := by
  intro b hb
  rcases bind_eq_error.mp hb with hb | ⟨a, ha, hb⟩
  · exact hx b hb
  · exact hf a ha b hb

/-- A loop raises what its body raises. -/
theorem foldlM {ι : Type*} {body : α → ι → Except ε α} {l : List ι} {s : α}
    (h : ∀ s, ∀ i ∈ l, Raises P (body s i)) : Raises P (l.foldlM body s) := by
  induction l generalizing s with
  | nil => exact ok
  | cons i l ih =>
    rw [List.foldlM_cons]
    refine (h s i List.mem_cons_self).bind fun t _ => ih ?_
    exact fun u j hj => h u j (List.mem_cons_of_mem i hj)

end Raises

end Bind

/-- Some entry of `l` is `bad`, and no entry before it `fails`. -/
def ReachesBad {ι : Type*} (bad fails : ι → Prop) (l : List ι) : Prop :=
  ∃ pre x post, l = pre ++ x :: post ∧ bad x ∧ ∀ y ∈ pre, ¬ fails y

section ReachesBad

variable {ι : Type*} {bad fails : ι → Prop}

theorem not_reachesBad_nil : ¬ ReachesBad bad fails [] := by
  rintro ⟨pre, x, post, h, -⟩
  simp at h

theorem reachesBad_cons {x : ι} {l : List ι} :
    ReachesBad bad fails (x :: l) ↔ bad x ∨ (¬ fails x ∧ ReachesBad bad fails l) := by
  constructor
  · rintro ⟨pre, y, post, hcut, hbad, hpre⟩
    cases pre with
    | nil =>
      obtain ⟨rfl, rfl⟩ := List.cons.inj hcut
      exact Or.inl hbad
    | cons z pre =>
      obtain ⟨rfl, rfl⟩ := List.cons.inj hcut
      refine Or.inr ⟨hpre x List.mem_cons_self, pre, y, post, rfl, hbad, fun w hw => ?_⟩
      exact hpre w (List.mem_cons_of_mem x hw)
  · rintro (hbad | ⟨hok, pre, y, post, rfl, hbad, hpre⟩)
    · exact ⟨[], x, l, rfl, hbad, by simp⟩
    · refine ⟨x :: pre, y, post, rfl, hbad, fun w hw => ?_⟩
      rcases List.mem_cons.mp hw with rfl | hw
      · exact hok
      · exact hpre w hw

end ReachesBad

/-- What the body of the loop does, at each kind of entry. -/
structure Entries {σ ι ε : Type*} (body : σ → ι → Except ε σ) (own : ε → Prop) (bad fails : ι → Prop)
    (Good : σ → List ι → Prop) : Prop where
  atBad : ∀ {s x l}, Good s (x :: l) → bad x → ∃ b, body s x = .error b ∧ own b
  atFails : ∀ {s x l}, Good s (x :: l) → ¬ bad x → fails x → ∃ b, body s x = .error b ∧ ¬ own b
  atNext : ∀ {s x l}, Good s (x :: l) → ¬ bad x → ¬ fails x → ∃ s', body s x = .ok s' ∧ Good s' l

namespace Entries

variable {σ ι ε : Type*} {body : σ → ι → Except ε σ} {own : ε → Prop} {bad fails : ι → Prop}
  {Good : σ → List ι → Prop}

/-- Without bad or failing entries the loop comes to its end. -/
theorem ends (h : Entries body own bad fails Good) {l : List ι} {s : σ} (hs : Good s l)
    (hl : ∀ x ∈ l, ¬ bad x ∧ ¬ fails x) : ∃ s', l.foldlM body s = .ok s' ∧ Good s' [] := by
  induction l generalizing s with
  | nil => exact ⟨s, rfl, hs⟩
  | cons x l ih =>
    rw [List.forall_mem_cons] at hl
    obtain ⟨t, ht, hgood⟩ := h.atNext hs hl.1.1 hl.1.2
    obtain ⟨s', hs', hend⟩ := ih hgood hl.2
    exact ⟨s', by rwa [List.foldlM_cons, ht], hend⟩

/-- A loop that comes to its end has met neither, and `Good` holds there. -/
theorem of_ok (h : Entries body own bad fails Good) {l : List ι} {s s' : σ} (hs : Good s l)
    (hok : l.foldlM body s = .ok s') : (∀ x ∈ l, ¬ bad x ∧ ¬ fails x) ∧ Good s' [] := by
  induction l generalizing s with
  | nil =>
    obtain rfl : s = s' := Except.ok.inj hok
    exact ⟨by simp, hs⟩
  | cons x l ih =>
    rw [List.foldlM_cons] at hok
    obtain ⟨t, ht, hok⟩ := bind_eq_ok.mp hok
    by_cases hbad : bad x
    · obtain ⟨b, hb, -⟩ := h.atBad hs hbad
      exact absurd (hb.symm.trans ht) (by simp)
    · by_cases hfails : fails x
      · obtain ⟨b, hb, -⟩ := h.atFails hs hbad hfails
        exact absurd (hb.symm.trans ht) (by simp)
      · obtain ⟨s₁, hs₁, hgood⟩ := h.atNext hs hbad hfails
        obtain rfl : s₁ = t := Except.ok.inj (hs₁.symm.trans ht)
        obtain ⟨hl, hend⟩ := ih hgood hok
        exact ⟨List.forall_mem_cons.mpr ⟨⟨hbad, hfails⟩, hl⟩, hend⟩

/-- **The loop raises an own exception exactly when it reaches a bad entry.** -/
theorem raises_iff (h : Entries body own bad fails Good) {l : List ι} {s : σ} (hs : Good s l) :
    (∃ b, l.foldlM body s = .error b ∧ own b) ↔ ReachesBad bad fails l := by
  induction l generalizing s with
  | nil => simp [not_reachesBad_nil, pure, Except.pure]
  | cons x l ih =>
    rw [reachesBad_cons, List.foldlM_cons]
    by_cases hbad : bad x
    · obtain ⟨b, hb, hown⟩ := h.atBad hs hbad
      simp [hb, bind, Except.bind, hbad, hown]
    · by_cases hfails : fails x
      · obtain ⟨b, hb, hother⟩ := h.atFails hs hbad hfails
        simp [hb, bind, Except.bind, hbad, hfails, hother]
      · obtain ⟨s', hs', hgood⟩ := h.atNext hs hbad hfails
        simpa [hs', bind, Except.bind, hbad, hfails] using ih hgood

end Entries

/-- The loop rule: what every body that does not raise keeps, the loop keeps if it does not raise. -/
theorem foldlM_keeps {σ ι ε : Type*} {body : σ → ι → Except ε σ} {P : σ → Prop} {l : List ι}
    (hbody : ∀ s x s', x ∈ l → P s → body s x = .ok s' → P s') {s s' : σ} (hs : P s)
    (h : l.foldlM body s = .ok s') : P s' := by
  induction l generalizing s with
  | nil =>
    obtain rfl : s = s' := by simpa [pure, Except.pure] using h
    exact hs
  | cons x l ih =>
    rw [List.foldlM_cons] at h
    cases hx : body s x with
    | error b => simp [hx, bind, Except.bind] at h
    | ok t =>
      rw [hx] at h
      have ht := hbody s x t List.mem_cons_self hs hx
      exact ih (fun s y s' hy => hbody s y s' (List.mem_cons_of_mem x hy)) ht h

end NetProg
