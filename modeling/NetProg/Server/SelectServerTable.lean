/-
# NetProg.Server.SelectServerTable -- the bookkeeping of `select_server` agrees at every loop head.

`Rep h s t` says that the raw state `s` represents the slot table `t`; `cur_conn_cnt` is the number of
occupied slots, so a connection that is not refused finds a free one.
-/
import NetProg.Server.SelectServer

namespace NetProg.SelectServer

variable {n : ℕ} {h : Host}

/-- The raw state `s` represents the slot table `t`. -/
structure Rep (h : Host) (s : Srv n) (t : SlotTable n) : Prop where
  tracks : Tracks h t s.cliSocks s.activeFds s.opened s.maxSd
  count : s.curConnCnt = t.count

def Represents (h : Host) (s : Srv n) : Prop := ∃ t, Rep h s t

theorem Rep.start (h : Host) : Rep h (Srv.start h : Srv n) SlotTable.empty where
  tracks := Tracks.start h
  count := by simp [Srv.start]

/-- The log and `rfds` are not part of the relation. -/
theorem Rep.congr {s s' : Srv n} {t : SlotTable n} (hrep : Rep h s t)
    (hc : s'.cliSocks = s.cliSocks) (hn : s'.curConnCnt = s.curConnCnt) (hd : s'.maxSd = s.maxSd)
    (ha : s'.activeFds = s.activeFds) (ho : s'.opened = s.opened) : Rep h s' t where
  tracks := by
    rw [hc, hd, ha, ho]
    exact hrep.tracks
  count := hn.trans hrep.count

theorem select_represents {s : Srv n} (hs : Represents h s) (ans : SelectAnswer) :
    Represents h (s.select ans) := by
  rcases hs with ⟨t, hrep⟩
  cases ans <;> exact ⟨t, hrep.congr rfl rfl rfl rfl rfl⟩

/-- A refused connection leaves the table as it was. -/
theorem refuse_represents {s : Srv n} (hs : Represents h s) {newSock : ℤ}
    (hnew : newSock ∉ s.opened) : Represents h ((s.accept newSock).refuse newSock) := by
  rcases hs with ⟨t, hrep⟩
  exact ⟨t, hrep.congr rfl rfl rfl rfl (Finset.erase_insert hnew)⟩

/-- Below the limit there is a free slot. -/
theorem Rep.exists_slot {s : Srv n} {t : SlotTable n} (hrep : Rep h s t)
    (hlt : ¬ s.curConnCnt > n - 1) :
    ∃ i, SlotTable.firstSlot (fun fd => -1 == fd) s.cliSocks = some i ∧ t.slot i = -1 := by
  have hcount := hrep.count
  obtain ⟨k, hk⟩ := SlotTable.exists_free (t := t) (by omega)
  cases hslot : SlotTable.firstSlot (fun fd => -1 == fd) s.cliSocks with
  | none =>
    have := SlotTable.firstSlot_none hslot k
    rw [hrep.tracks.slots, hk] at this
    simp at this
  | some i =>
    have := SlotTable.firstSlot_some hslot
    rw [hrep.tracks.slots, beq_iff_eq] at this
    exact ⟨i, rfl, this.symm⟩

/-- A connection that is kept is stored in a free slot, watched and counted. -/
theorem keep_represents {s : Srv n} (hs : Represents h s) {newSock : ℤ} (hfd : ¬ newSock < 0)
    (hnew : newSock ∉ s.opened) (hlt : ¬ s.curConnCnt > n - 1) :
    Represents h (((s.accept newSock).store newSock).keep newSock) := by
  rcases hs with ⟨t, hrep⟩
  obtain ⟨i, hslot, hfree⟩ := hrep.exists_slot hlt
  have hstore : (s.accept newSock).store newSock =
      { s.accept newSock with cliSocks := Function.update s.cliSocks i newSock }.log
        (.setSlot i newSock) := by
    unfold Srv.store
    rw [show (s.accept newSock).cliSocks = s.cliSocks from rfl, hslot]
  have hput := hrep.tracks.put hfree (by omega) hnew
  have hcount : s.curConnCnt + 1 = (t.put i newSock (by omega) (hrep.tracks.notMem_fds hnew)).count := by
    rw [SlotTable.count_put hfree, hrep.count]
    norm_cast
  rw [hstore]
  exact ⟨_, hput, hcount⟩

theorem signal_toHead {P : Srv n → Prop} {s : Srv n} (hs : P s) (pipe : Bool) : (s.signal pipe).ToHead P := by
  cases pipe
  · exact hs
  · trivial

theorem listener_represents {s : Srv n} (hs : Represents h s) {newSock : ℤ}
    (hnew : newSock < 0 ∨ newSock ∉ s.opened) (pipe : Bool) :
    (s.listener h newSock pipe).ToHead (Represents h) := by
  unfold Srv.listener
  split_ifs with hmaster hneg hfull
  · trivial
  · exact refuse_represents hs (hnew.resolve_left hneg)
  · exact signal_toHead (keep_represents hs hneg (hnew.resolve_left hneg) hfull) pipe
  · exact hs

/-- Receiving keeps the relation: at end of file or an error the slot is cleared and the count drops. -/
theorem receive_represents {s : Srv n} (hs : Represents h s) {i : Fin n} (hocc : ¬ s.cliSocks i < 0)
    (ans : ReadAnswer) : Represents h (s.receive i ans) := by
  rcases hs with ⟨t, hrep⟩
  have hi : 0 ≤ t.slot i := by
    rw [hrep.tracks.slots] at hocc
    omega
  unfold Srv.receive
  split_ifs
  · refine ⟨t.clear i, hrep.tracks.clear hi, ?_⟩
    have hclear := SlotTable.count_clear hi
    have hcount := hrep.count
    show s.curConnCnt - 1 = ((t.clear i).count : ℤ)
    omega
  · exact ⟨t, hrep.congr rfl rfl rfl rfl rfl⟩

theorem serve_represents {s : Srv n} (hs : Represents h s) {i : Fin n} (hocc : ¬ s.cliSocks i < 0)
    (ans : ReadAnswer) (pipe : Bool) : (s.serve i ans pipe).ToHead (Represents h) := by
  obtain ⟨t, hrep⟩ := receive_represents hs hocc ans
  unfold Srv.serve Srv.echoBack
  split_ifs
  · exact signal_toHead ⟨t, hrep.congr rfl rfl rfl rfl rfl⟩ _
  · trivial

/-- The scan keeps the relation, whatever slots are still ahead. -/
theorem scan_represents (a : Answers n) (is : List (Fin n)) {s : Srv n}
    (hs : Represents h s) : (s.scan a is).ToHead (Represents h) := by
  induction is generalizing s with
  | nil => exact hs
  | cons i is ih =>
    rw [Srv.scan]
    split_ifs with hlt hfree hready
    · exact ih hs
    · exact (serve_represents hs hfree (a.recv i) (a.echoPipe i)).andThen fun s' hs' => ih hs'
    · exact ih hs
    · exact hs

/-- One pass keeps the relation. -/
theorem body_represents {s : Srv n} (hs : Represents h s) {a : Answers n} (ha : Admits s a) :
    (s.body h a).ToHead (Represents h) := by
  have hsel := select_represents hs a.select
  have hopened : (s.select a.select).opened = s.opened := by
    cases a.select <;> rfl
  have hnew : a.accept < 0 ∨ a.accept ∉ (s.select a.select).opened := by
    rw [hopened]
    exact ha.2.1
  unfold Srv.body
  split
  · exact hsel
  · trivial
  · exact hsel
  · exact (listener_represents hsel hnew a.acceptPipe).andThen fun s' hs' => scan_represents a _ hs'

theorem server_represents {s : Srv n} (hs : AtHead (server n h) s) : Represents h s :=
  atHead_invariant (I := Represents h) ⟨_, Rep.start h⟩ (fun _ _ _ hI ha => body_represents hI ha) hs

/-! ## The main result -/

/-- The laws of the bookkeeping. -/
structure ServerLaws (h : Host) (s : Srv n) : Prop where
  count : s.curConnCnt = (Finset.univ.filter fun i => s.cliSocks i ≠ -1).card
  count_le : s.curConnCnt ≤ n
  distinct : ∀ i j, s.cliSocks i ≠ -1 → s.cliSocks i = s.cliSocks j → i = j
  active : ∀ fd, fd ∈ s.activeFds ↔ fd = h.masterSock ∨ (fd ≠ -1 ∧ ∃ i, s.cliSocks i = fd)
  accepted : ∀ fd, (fd ∈ s.opened ∧ fd ∉ h.initial) ↔ (fd ≠ -1 ∧ ∃ i, s.cliSocks i = fd)
  maxSd : ∀ fd ∈ s.activeFds, fd ≤ s.maxSd
  free_slot : ¬ s.curConnCnt > n - 1 →
    ∃ i, SlotTable.firstSlot (fun fd => -1 == fd) s.cliSocks = some i

theorem Rep.serverLaws {s : Srv n} {t : SlotTable n} (hrep : Rep h s t) : ServerLaws h s := by
  have hocc : ∀ i, s.cliSocks i ≠ -1 ↔ 0 ≤ t.slot i := by
    intro i
    have := t.slot_lt_zero_iff i
    rw [hrep.tracks.slots]
    omega
  have hfd : ∀ fd, (0 ≤ fd ∧ ∃ i, s.cliSocks i = fd) ↔ (fd ≠ -1 ∧ ∃ i, s.cliSocks i = fd) := by
    intro fd
    apply and_congr_left
    rintro ⟨i, rfl⟩
    rw [hocc, hrep.tracks.slots]
  constructor
  case count =>
    rw [hrep.count]
    simp only [SlotTable.count, SlotTable.occupied, hocc]
  case count_le =>
    have := t.count_le
    have := hrep.count
    omega
  case distinct =>
    intro i j hi
    rw [hocc] at hi
    rw [hrep.tracks.slots]
    exact t.distinct i j hi
  case active =>
    intro fd
    rw [hrep.tracks.mem_active, hfd]
  case accepted =>
    intro fd
    rw [hrep.tracks.mem_accepted, hfd]
  case maxSd => exact hrep.tracks.maxSd
  case free_slot =>
    intro hlt
    obtain ⟨i, hslot, -⟩ := hrep.exists_slot hlt
    exact ⟨i, hslot⟩

/-- **The bookkeeping of `select_server` is consistent at every loop head.** -/
theorem selectServer_serverLaws (h : Host) {s : Srv maxClientsNum} (hs : AtHead (selectServer h) s) :
    ServerLaws h s := by
  obtain ⟨t, hrep⟩ := server_represents hs
  exact hrep.serverLaws

/-- `select` reports `rfds`, `accept` returns `fd`, the clients in `gone` reach end of file, and no `send` raises a
signal. -/
def passOf (rfds : Finset ℤ) (fd : ℤ) (gone : List (Fin maxClientsNum)) : Answers maxClientsNum :=
  ⟨.ready rfds, fd, false, fun i => if i ∈ gone then .data [] else .data [0x68, 0x69], fun _ => false⟩

/-- The table after the first connection. -/
theorem selectServer_serverLaws_oneClient :
    ∃ s, AtHead (selectServer demoHost) s ∧ s.cliSocks 0 = 4 ∧ ServerLaws demoHost s :=
  have hs := System.reachable_of_run (selectServer demoHost) [passOf {3} 4 []] rfl
  ⟨_, hs, rfl, selectServer_serverLaws demoHost hs⟩

end NetProg.SelectServer
