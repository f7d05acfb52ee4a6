/-
# NetProg.Server.BetterTable -- the five pieces of state of `select_srv_better` agree at every loop head.

`Rep h s t` says that the raw state `s` represents the slot table `t`: `cli_socks` is its slots,
`active_fds` and the open descriptors are the listener's (or the initial ones) with the descriptors held,
and `maxi`, `max_sd` bound the occupied slots and the watched descriptors.  Storing and clearing a slot
are `SlotTable.put` and `SlotTable.clear`, so every statement of the pass keeps "some table is
represented".
-/
import NetProg.Server.SelectSrvBetter

namespace NetProg.SelectSrvBetter

variable {n : ℕ} {h : Host}

/-- The raw state `s` represents the slot table `t`. -/
structure Rep (h : Host) (s : Srv n) (t : SlotTable n) : Prop where
  tracks : Tracks h t s.cliSocks s.activeFds s.opened s.maxSd
  maxi : ∀ i, 0 ≤ t.slot i → (i : ℤ) ≤ s.maxi
  maxi_lt : s.maxi < n

def Represents (h : Host) (s : Srv n) : Prop := ∃ t, Rep h s t

namespace Rep

variable {s : Srv n} {t : SlotTable n}

theorem start (h : Host) : Rep h (Srv.start h : Srv n) SlotTable.empty where
  tracks := Tracks.start h
  maxi := by
    intro i hi
    simp [SlotTable.empty] at hi
  maxi_lt := by
    simp only [Srv.start]
    omega

/-- The log, `rfds` and `nready` are not part of the relation. -/
theorem congr {s' : Srv n} (hrep : Rep h s t) (hc : s'.cliSocks = s.cliSocks)
    (hm : s'.maxi = s.maxi) (hd : s'.maxSd = s.maxSd) (ha : s'.activeFds = s.activeFds)
    (ho : s'.opened = s.opened) : Rep h s' t where
  tracks := by
    rw [hc, hd, ha, ho]
    exact hrep.tracks
  maxi := by simpa only [hm] using hrep.maxi
  maxi_lt := by simpa only [hm] using hrep.maxi_lt

theorem log (hrep : Rep h s t) (e : Ev n) : Rep h (s.log e) t := hrep.congr rfl rfl rfl rfl rfl

/-- Serving a client keeps the relation: at end of file or an error its slot is cleared. -/
theorem serve (hrep : Rep h s t) {i : Fin n} (hi : 0 ≤ t.slot i) (ans : ReadAnswer) :
    ∃ t', Rep h (s.serve i ans) t' := by
  unfold Srv.serve
  cases hgone : ans.gone with
  | false => exact ⟨t, hrep.log _⟩
  | true =>
    refine ⟨t.clear i, hrep.tracks.clear hi, ?_, hrep.maxi_lt⟩
    intro j hj
    apply hrep.maxi j
    have hji : j ≠ i := by
      rintro rfl
      simp [SlotTable.clear] at hj
    simpa [SlotTable.clear, hji] using hj

end Rep

theorem served_represents {s : Srv n} {t : SlotTable n} (hrep : Rep h s t) {i : Fin n}
    (hocc : ¬ s.cliSocks i < 0) (ans : ReadAnswer) :
    Represents h ((s.isset i).serve i ans).decr := by
  have hi : 0 ≤ t.slot i := by
    rw [hrep.tracks.slots] at hocc
    omega
  obtain ⟨t', ht'⟩ := (hrep.log (.fdIsset (s.cliSocks i))).serve hi ans
  exact ⟨t', ht'.congr rfl rfl rfl rfl rfl⟩

/-- The scan keeps the relation, whatever slots are still ahead. -/
theorem scan_represents (read : Fin n → ReadAnswer) (is : List (Fin n)) {s : Srv n}
    (hs : Represents h s) : Represents h (s.scan read is) := by
  induction is generalizing s with
  | nil => exact hs
  | cons i is ih =>
    rcases hs with ⟨t, hrep⟩
    rw [Srv.scan]
    split_ifs with hle hfree hready hdone
    · exact ih ⟨t, hrep⟩
    · exact (served_represents hrep hfree (read i))
    · exact ih (served_represents hrep hfree (read i))
    · exact ih ⟨t, hrep.log _⟩
    · exact ⟨t, hrep⟩

/-- `maxi` covers the slot that an accepted connection takes. -/
theorem Rep.maxi_raise {s : Srv n} {t : SlotTable n} (hrep : Rep h s t) (i : Fin n) (t' : SlotTable n)
    (hother : ∀ j, j ≠ i → t'.slot j = t.slot j) :
    (∀ j, 0 ≤ t'.slot j → (j : ℤ) ≤ if s.maxi < i then (i : ℤ) else s.maxi) ∧
      (if s.maxi < i then (i : ℤ) else s.maxi) < n := by
  have hi := i.isLt
  have hlt := hrep.maxi_lt
  refine ⟨fun j hj => ?_, by split_ifs <;> omega⟩
  by_cases hji : j = i
  · subst hji
    split_ifs <;> omega
  · rw [hother j hji] at hj
    have hold := hrep.maxi j hj
    split_ifs <;> omega

/-- Accepting keeps the relation: the connection is stored, or closed again in a full table. -/
theorem register_represents {s : Srv n} (hs : Represents h s) {newSock : ℤ}
    (hnew : newSock < 0 ∨ newSock ∉ s.opened) : (s.register newSock).ToHead (Represents h) := by
  rcases hs with ⟨t, hrep⟩
  have hclosed : newSock ∉ s.opened := hnew.elim hrep.tracks.not_opened_of_neg id
  unfold Srv.register
  cases hslot : SlotTable.firstSlot (fun fd => decide (fd < 0)) s.cliSocks with
  | some i =>
    have hfree : t.slot i = -1 := by
      have := SlotTable.firstSlot_some hslot
      rw [hrep.tracks.slots, decide_eq_true_eq] at this
      exact (t.slot_lt_zero_iff i).mp this
    by_cases hlt : newSock < 0
    · simp only [if_pos hlt]
      trivial
    · simp only [if_neg hlt]
      have hput := hrep.tracks.put hfree (by omega) hclosed
      have hraise := hrep.maxi_raise i (t.put i newSock (by omega) (hrep.tracks.notMem_fds hclosed))
        fun j hj => Function.update_of_ne hj _ _
      have hmaxi : ((((s.accept newSock).setSlot i newSock).fdSet newSock).raise i newSock).maxi =
          if s.maxi < i then (i : ℤ) else s.maxi := by
        simp [Srv.raise, Srv.fdSet, Srv.setSlot, Srv.accept, Srv.log, hlt]
      refine ⟨_, ?_, hmaxi ▸ hraise.1, hmaxi ▸ hraise.2⟩
      simpa [Srv.raise, Srv.fdSet, Srv.setSlot, Srv.accept, Srv.log, hlt] using hput
  | none =>
    -- accepted and closed at once: the open descriptors are what they were
    refine ⟨t, hrep.congr ?_ ?_ ?_ ?_ ?_⟩
    all_goals unfold Srv.accept; split_ifs
    all_goals simp [Srv.close, Srv.log, hclosed]

theorem countDown_represents {s : Srv n} (hs : Represents h s) :
    s.countDown.ToHead (Represents h) := by
  rcases hs with ⟨t, hrep⟩
  have hdecr : Represents h s.decr := ⟨t, hrep.congr rfl rfl rfl rfl rfl⟩
  unfold Srv.countDown
  split_ifs <;> exact hdecr

/-- One pass keeps the relation. -/
theorem body_represents {s : Srv n} (hs : Represents h s) {a : Answers n} (ha : Admits s a) :
    (s.body h a).ToHead (Represents h) := by
  rcases hs with ⟨t, hrep⟩
  have hsel : Represents h (s.select a) := ⟨t, hrep.congr rfl rfl rfl rfl rfl⟩
  have hlog : Represents h ((s.select a).log (.fdIsset h.masterSock)) :=
    ⟨t, hrep.congr rfl rfl rfl rfl rfl⟩
  unfold Srv.body
  split_ifs
  · exact hsel
  · refine Flow.ToHead.andThen ?_ fun s' hs' => scan_represents a.read _ hs'
    unfold Srv.listener
    split_ifs
    · exact (register_represents hlog ha.2).andThen fun s' hs' => countDown_represents hs'
    · exact hlog

theorem server_represents {s : Srv n} (hs : AtHead (server n h) s) : Represents h s :=
  atHead_invariant (I := Represents h) ⟨_, Rep.start h⟩ (fun _ _ _ hI ha => body_represents hI ha) hs

/-- The laws of the connection table. -/
structure TableLaws (h : Host) (s : Srv n) : Prop where
  distinct : ∀ i j, 0 ≤ s.cliSocks i → s.cliSocks i = s.cliSocks j → i = j
  active : ∀ fd, fd ∈ s.activeFds ↔ fd = h.masterSock ∨ (0 ≤ fd ∧ ∃ i, s.cliSocks i = fd)
  accepted : ∀ fd, (fd ∈ s.opened ∧ fd ∉ h.initial) ↔ (0 ≤ fd ∧ ∃ i, s.cliSocks i = fd)
  maxi : ∀ i, 0 ≤ s.cliSocks i → (i : ℤ) ≤ s.maxi
  maxi_lt : s.maxi < n
  maxSd : ∀ fd ∈ s.activeFds, fd ≤ s.maxSd

theorem Rep.tableLaws {s : Srv n} {t : SlotTable n} (hrep : Rep h s t) : TableLaws h s where
  distinct := by
    rw [hrep.tracks.slots]
    exact t.distinct
  active := hrep.tracks.mem_active
  accepted := hrep.tracks.mem_accepted
  maxi := by
    rw [hrep.tracks.slots]
    exact hrep.maxi
  maxi_lt := hrep.maxi_lt
  maxSd := hrep.tracks.maxSd

/-- **The connection table of both programs is consistent at every loop head.** -/
theorem selectSrvBetter_tableLaws (h : Host) :
    (∀ s, AtHead (selectSrvBetter h) s → TableLaws h s) ∧
      (∀ s, AtHead (tcpSelectServer h) s → TableLaws h s) := by
  have key : ∀ s, AtHead (server maxConnections h) s → TableLaws h s := by
    intro s hs
    obtain ⟨t, hrep⟩ := server_represents hs
    exact hrep.tableLaws
  exact ⟨key, key⟩

/-- `select` reports `rfds`, `accept` returns `fd`, and every client sends one byte. -/
def connects (rfds : Finset ℤ) (fd : ℤ) : Answers maxConnections :=
  ⟨rfds.card, rfds, fd, fun _ => .data [0]⟩

/-- The table after the first connection. -/
theorem selectSrvBetter_tableLaws_oneClient :
    ∃ s, AtHead (selectSrvBetter demoHost) s ∧ s.cliSocks 0 = 4 ∧ TableLaws demoHost s :=
  have hs := System.reachable_of_run (selectSrvBetter demoHost) [connects {3} 4] rfl
  ⟨_, hs, rfl, (selectSrvBetter_tableLaws demoHost).1 _ hs⟩

end NetProg.SelectSrvBetter
