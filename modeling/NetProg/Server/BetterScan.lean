/-
# NetProg.Server.BetterScan -- the early-exit scan of `select_srv_better` does what a plain scan does.

`plainScan` visits every slot, in order, and serves every occupied one whose descriptor is in `rfds`; it
knows neither `maxi` nor `nready`.  The code's scan stops at `maxi`, skips itself when only the listener
was ready, and stops when `nready` reaches zero.  The argument is a count: as long as `nready` is the
number of ready slots still ahead (`readyAhead`), stopping at zero leaves out nothing, and the table
invariant makes that number right at the start, because the descriptors held are pairwise distinct and a
connection accepted in this pass is not in `rfds`.
-/
import NetProg.Server.BetterTable

namespace NetProg.SelectSrvBetter

variable {n : ℕ} {h : Host}

/-! ## The plain scan -/

/-- Serve every ready occupied slot of the list, in order. -/
def plainScan (read : Fin n → ReadAnswer) : List (Fin n) → Srv n → Srv n
  | [], s => s
  | i :: is, s =>
    if s.cliSocks i < 0 then plainScan read is s
    else if s.cliSocks i ∈ s.rfds then plainScan read is ((s.isset i).serve i (read i))
    else plainScan read is (s.isset i)

/-- A pass that accepts as the code does and then always scans all slots. -/
def plainBody (h : Host) (s : Srv n) (a : Answers n) : Flow (Srv n) :=
  (if h.masterSock ∈ a.rfds then ((s.select a).log (.fdIsset h.masterSock)).register a.accept
    else .next ((s.select a).log (.fdIsset h.masterSock))).andThen fun s =>
  .next (plainScan a.read (List.finRange n) s)

/-- The reads, closes and table updates of a log: everything but the tests. -/
def effects (l : List (Ev n)) : List (Ev n) :=
  l.filter fun e => match e with
    | .fdIsset _ => false
    | _ => true

/-- The descriptors read in a log, in order. -/
def readsOf (l : List (Ev n)) : List ℤ :=
  l.filterMap fun e => match e with
    | .read fd _ => some fd
    | _ => none

/-- What a pass leaves behind, apart from the pass-local `rfds` and `nready`. -/
structure Visible (n : ℕ) where
  cliSocks : Fin n → ℤ
  maxi : ℤ
  maxSd : ℤ
  activeFds : Finset ℤ
  opened : Finset ℤ
  effects : List (Ev n)

def Srv.visible (s : Srv n) : Visible n :=
  ⟨s.cliSocks, s.maxi, s.maxSd, s.activeFds, s.opened, effects s.evs⟩

@[simp] theorem effects_append (l l' : List (Ev n)) : effects (l ++ l') = effects l ++ effects l' :=
  List.filter_append l l'

@[simp] theorem effects_isset (fd : ℤ) : effects [(.fdIsset fd : Ev n)] = [] := rfl

@[simp] theorem readsOf_append (l l' : List (Ev n)) : readsOf (l ++ l') = readsOf l ++ readsOf l' :=
  List.filterMap_append

/-- The two states agree on everything a scan without counters can see. -/
structure Agree (s s' : Srv n) : Prop where
  visible : s.visible = s'.visible
  rfds : s.rfds = s'.rfds

namespace Agree

variable {s s' : Srv n}

theorem refl (s : Srv n) : Agree s s := ⟨rfl, rfl⟩

theorem symm (ha : Agree s s') : Agree s' s := ⟨ha.visible.symm, ha.rfds.symm⟩

theorem trans {s'' : Srv n} (ha : Agree s s') (hb : Agree s' s'') : Agree s s'' :=
  ⟨ha.visible.trans hb.visible, ha.rfds.trans hb.rfds⟩

theorem cliSocks (ha : Agree s s') : s.cliSocks = s'.cliSocks := congrArg Visible.cliSocks ha.visible

theorem isset (ha : Agree s s') (fd fd' : ℤ) :
    Agree (s.log (.fdIsset fd)) (s'.log (.fdIsset fd')) where
  visible := by
    have hv := ha.visible
    simp only [Srv.visible, Visible.mk.injEq] at hv
    simp [Srv.visible, Srv.log, hv]
  rfds := ha.rfds

theorem isset_left (ha : Agree s s') (fd : ℤ) : Agree (s.log (.fdIsset fd)) s' where
  visible := by
    rw [← ha.visible]
    simp [Srv.visible, Srv.log]
  rfds := ha.rfds

theorem decr_left (ha : Agree s s') : Agree s.decr s' := ⟨ha.visible, ha.rfds⟩

theorem serve (ha : Agree s s') (i : Fin n) (ans : ReadAnswer) :
    Agree (s.serve i ans) (s'.serve i ans) where
  visible := by
    have hv := ha.visible
    simp only [Srv.visible, Visible.mk.injEq] at hv
    unfold Srv.serve
    split_ifs <;>
      simp [Srv.visible, Srv.setSlot, Srv.fdClr, Srv.close, Srv.log, hv]
  rfds := by
    unfold Srv.serve
    split_ifs <;> exact ha.rfds

end Agree

/-! ## Counting the ready slots ahead -/

/-- Slot `i` is occupied and its descriptor was reported ready. -/
def Srv.Ready (s : Srv n) (i : Fin n) : Prop := ¬ s.cliSocks i < 0 ∧ s.cliSocks i ∈ s.rfds

instance (s : Srv n) (i : Fin n) : Decidable (s.Ready i) := inferInstanceAs (Decidable (_ ∧ _))

/-- The number of ready slots in a list of slots. -/
def readyAhead (s : Srv n) (is : List (Fin n)) : ℕ := is.countP fun i => decide (s.Ready i)

/-- Serving slot `i` changes no other slot. -/
theorem serve_cliSocks_ne (s : Srv n) {i j : Fin n} (hij : j ≠ i) (ans : ReadAnswer) :
    (s.serve i ans).cliSocks j = s.cliSocks j := by
  unfold Srv.serve
  split_ifs <;> simp [Srv.setSlot, Srv.fdClr, Srv.close, Srv.log, hij]

theorem serve_rfds (s : Srv n) (i : Fin n) (ans : ReadAnswer) : (s.serve i ans).rfds = s.rfds := by
  unfold Srv.serve
  split_ifs <;> rfl

theorem serve_maxi (s : Srv n) (i : Fin n) (ans : ReadAnswer) : (s.serve i ans).maxi = s.maxi := by
  unfold Srv.serve
  split_ifs <;> rfl

theorem serve_nready (s : Srv n) (i : Fin n) (ans : ReadAnswer) :
    (s.serve i ans).nready = s.nready := by
  unfold Srv.serve
  split_ifs <;> rfl

theorem serve_ready_iff (s : Srv n) {i j : Fin n} (hij : j ≠ i) (ans : ReadAnswer) :
    (s.serve i ans).Ready j ↔ s.Ready j := by
  simp only [Srv.Ready, serve_cliSocks_ne s hij, serve_rfds]

/-- Serving a slot leaves the count of the slots after it alone. -/
theorem readyAhead_serve (s : Srv n) {i : Fin n} {is : List (Fin n)} (hi : i ∉ is)
    (ans : ReadAnswer) : readyAhead (s.serve i ans) is = readyAhead s is := by
  apply List.countP_congr
  intro j hj
  have hji : j ≠ i := by
    intro heq
    exact hi (heq ▸ hj)
  simp [serve_ready_iff s hji]

/-- With no ready slot in the list the plain scan has no effect. -/
theorem plainScan_idle (read : Fin n → ReadAnswer) (is : List (Fin n)) {s s' : Srv n}
    (ha : Agree s s') (hidle : ∀ i ∈ is, ¬ s.Ready i) : Agree (plainScan read is s) s' := by
  induction is generalizing s with
  | nil => exact ha
  | cons i is ih =>
    have hi := hidle i List.mem_cons_self
    have hrest : ∀ j ∈ is, ¬ s.Ready j := by
      intro j hj
      exact hidle j (List.mem_cons_of_mem i hj)
    rw [plainScan]
    split_ifs with hfree hready
    · exact ih ha hrest
    · exact absurd ⟨hfree, hready⟩ hi
    · exact ih (ha.isset_left _) hrest

/-- The plain scan of an agreeing state finds no ready slot either. -/
theorem Agree.plainScan_right (read : Fin n → ReadAnswer) {is : List (Fin n)} {s s' : Srv n}
    (ha : Agree s s') (hidle : ∀ i ∈ is, ¬ s.Ready i) : Agree s (plainScan read is s') := by
  refine ha.trans (plainScan_idle read is (Agree.refl s') ?_).symm
  intro i hi hr
  apply hidle i hi
  simpa only [Srv.Ready, ha.cliSocks, ha.rfds] using hr

theorem readyAhead_eq_zero {s : Srv n} {is : List (Fin n)} :
    readyAhead s is = 0 ↔ ∀ i ∈ is, ¬ s.Ready i := by
  simp [readyAhead, List.countP_eq_zero]

/-- Serving the first slot of the list takes one off the count and one off what is ahead. -/
theorem readyAhead_served {s : Srv n} {i : Fin n} {is : List (Fin n)} (hr : s.Ready i) (hi : i ∉ is)
    (hcount : s.nready = readyAhead s (i :: is)) (ans : ReadAnswer) :
    (((s.isset i).serve i ans).decr).nready = readyAhead (((s.isset i).serve i ans).decr) is := by
  have hone : readyAhead s (i :: is) = readyAhead s is + 1 := by simp [readyAhead, hr]
  have hsame : readyAhead (((s.isset i).serve i ans).decr) is = readyAhead s is :=
    readyAhead_serve (s.isset i) hi ans
  rw [hsame, Srv.decr, serve_nready]
  simp only [Srv.isset, Srv.log]
  omega

/-- **The step that carries the equivalence**: while `nready` counts the ready slots ahead, stopping at
zero, or at `maxi`, leaves out nothing. -/
theorem scan_agree (read : Fin n → ReadAnswer) (is : List (Fin n)) {s s' : Srv n}
    (ha : Agree s s') (hsorted : is.Pairwise (· < ·))
    (hmaxi : ∀ i ∈ is, ¬ s.cliSocks i < 0 → (i : ℤ) ≤ s.maxi)
    (hcount : s.nready = readyAhead s is) :
    Agree (s.scan read is) (plainScan read is s') := by
  induction is generalizing s s' with
  | nil => exact ha
  | cons i is ih =>
    obtain ⟨hlt, hsorted⟩ := List.pairwise_cons.mp hsorted
    have hi : i ∉ is := by
      intro hmem
      exact lt_irrefl i (hlt i hmem)
    have htail : ∀ j ∈ is, ¬ s.cliSocks j < 0 → (j : ℤ) ≤ s.maxi :=
      fun j hj => hmaxi j (List.mem_cons_of_mem i hj)
    by_cases hle : (i : ℤ) ≤ s.maxi
    · rw [Srv.scan, if_pos hle, plainScan, ← ha.cliSocks, ← ha.rfds]
      by_cases hfree : s.cliSocks i < 0
      · rw [if_pos hfree, if_pos hfree]
        have hnot : ¬ s.Ready i := by
          intro hr
          exact hr.1 hfree
        apply ih ha hsorted htail
        simpa [readyAhead, hnot] using hcount
      · rw [if_neg hfree, if_neg hfree]
        by_cases hready : s.cliSocks i ∈ s.rfds
        · rw [if_pos hready, if_pos hready]
          have hserved : Agree (((s.isset i).serve i (read i)).decr)
              ((s'.isset i).serve i (read i)) := ((ha.isset _ _).serve i (read i)).decr_left
          have hahead := readyAhead_served ⟨hfree, hready⟩ hi hcount (read i)
          split_ifs with hdone
          · -- the count is zero: nothing ahead is ready, so the plain scan idles
            have hzero : readyAhead (((s.isset i).serve i (read i)).decr) is = 0 := by omega
            exact hserved.plainScan_right read (readyAhead_eq_zero.mp hzero)
          · refine ih hserved hsorted ?_ hahead
            intro j hj hocc
            have hji : j ≠ i := by
              intro heq
              exact hi (heq ▸ hj)
            rw [show (((s.isset i).serve i (read i)).decr).cliSocks j = s.cliSocks j from
              serve_cliSocks_ne (s.isset i) hji (read i)] at hocc
            rw [show (((s.isset i).serve i (read i)).decr).maxi = s.maxi from
              serve_maxi (s.isset i) i (read i)]
            exact htail j hj hocc
        · rw [if_neg hready, if_neg hready]
          have hnot : ¬ s.Ready i := by
            intro hr
            exact hready hr.2
          have hahead : readyAhead (s.isset i) is = readyAhead s (i :: is) := by
            simp only [readyAhead, List.countP_cons_of_neg, hnot, decide_false, Bool.false_eq_true,
              not_false_eq_true]
            rfl
          exact ih (ha.isset _ _) hsorted htail (hcount.trans (by rw [hahead]))
    · -- beyond `maxi` every slot is free
      rw [Srv.scan, if_neg hle]
      have hidle : ∀ j ∈ i :: is, ¬ s.Ready j := by
        intro j hj hr
        have hjle := hmaxi j hj hr.1
        rcases List.mem_cons.mp hj with rfl | hmem
        · exact hle hjle
        · have hij : i < j := hlt j hmem
          have : (i : ℕ) < j := hij
          omega
      exact ha.plainScan_right read hidle

/-! ## The count at the start of the scan -/

/-- In a represented state the ready slots are as many as the ready descriptors, the listener apart. -/
theorem readyAhead_finRange {s : Srv n} {t : SlotTable n} (hrep : Rep h s t)
    (hsub : s.rfds ⊆ s.activeFds) :
    readyAhead s (List.finRange n) = (s.rfds.erase h.masterSock).card := by
  have hready : ∀ i, s.Ready i ↔ 0 ≤ t.slot i ∧ t.slot i ∈ s.rfds := by
    intro i
    rw [Srv.Ready, hrep.tracks.slots, not_lt]
  rw [← hrep.tracks.fds_inter hsub, ← SlotTable.countP_fds_inter]
  simp [readyAhead, hready]

end NetProg.SelectSrvBetter
