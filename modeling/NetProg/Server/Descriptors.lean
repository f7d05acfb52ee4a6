/-
# NetProg.Server.Descriptors -- what the two `select` servers share: a table, a watched set, the kernel.

Both servers keep their clients in an array of descriptors with `-1` for a free slot, watch an `fd_set`
that should hold the listener and the clients, and let the kernel keep the descriptors open.  `Tracks`
relates these three, and `max_sd`, to one `SlotTable`; storing an accepted connection and dropping a
client keep it (`put`, `clear`).  Each server adds its own counters to the relation.
-/
import NetProg.Base.SlotTable

namespace NetProg

/-- The process before its loop: the listening socket, and what else is open. -/
structure Host where
  masterSock : ℤ
  others : Finset ℤ
  master_nonneg : 0 ≤ masterSock
  others_nonneg : ∀ fd ∈ others, 0 ≤ fd

/-- The descriptors open before the loop. -/
def Host.initial (h : Host) : Finset ℤ := insert h.masterSock h.others

/-- The listener is descriptor 3, beside the standard streams. -/
def demoHost : Host where
  masterSock := 3
  others := {0, 1, 2}
  master_nonneg := by decide
  others_nonneg := by decide

/-- What `read` or `recv` returns: `-1`, or the bytes stored (none at end of file). -/
inductive ReadAnswer where
  | error
  | data (bs : List UInt8)
  deriving DecidableEq, Repr

/-- The return value is `-1` or `0`. -/
def ReadAnswer.gone : ReadAnswer → Bool
  | error => true
  | data bs => bs.isEmpty

variable {n : ℕ} {h : Host}

/-- The slots, the watched set, the open descriptors and `max_sd` belong to the table `t`. -/
structure Tracks (h : Host) (t : SlotTable n) (cliSocks : Fin n → ℤ) (activeFds opened : Finset ℤ)
    (maxSd : ℤ) : Prop where
  slots : cliSocks = t.slot
  active : activeFds = insert h.masterSock t.fds
  opened : opened = h.initial ∪ t.fds
  accepted : ∀ fd ∈ t.fds, fd ∉ h.initial
  maxSd : ∀ fd ∈ activeFds, fd ≤ maxSd

namespace Tracks

variable {t : SlotTable n} {cliSocks : Fin n → ℤ} {activeFds opened : Finset ℤ} {maxSd : ℤ}

theorem start (h : Host) :
    Tracks h (SlotTable.empty : SlotTable n) (fun _ => -1) {h.masterSock} h.initial h.masterSock where
  slots := rfl
  active := by simp
  opened := by simp
  accepted := by simp
  maxSd := by simp

/-- The listener is in no slot. -/
theorem master_notMem (ht : Tracks h t cliSocks activeFds opened maxSd) : h.masterSock ∉ t.fds :=
  fun hmem => ht.accepted _ hmem (Finset.mem_insert_self _ _)

/-- Every watched descriptor is open. -/
theorem active_subset_opened (ht : Tracks h t cliSocks activeFds opened maxSd) :
    activeFds ⊆ opened := by
  rw [ht.active, ht.opened]
  refine Finset.insert_subset ?_ Finset.subset_union_right
  exact Finset.mem_union_left _ (Finset.mem_insert_self _ _)

/-- No negative number is an open descriptor. -/
theorem not_opened_of_neg (ht : Tracks h t cliSocks activeFds opened maxSd) {fd : ℤ} (hfd : fd < 0) :
    fd ∉ opened := by
  rw [ht.opened, Host.initial, Finset.mem_union, Finset.mem_insert, SlotTable.mem_fds]
  rintro ((rfl | hother) | ⟨hnonneg, -⟩)
  · exact absurd h.master_nonneg (by omega)
  · exact absurd (h.others_nonneg fd hother) (by omega)
  · omega

/-- A descriptor that is not open is in no slot. -/
theorem notMem_fds (ht : Tracks h t cliSocks activeFds opened maxSd) {fd : ℤ} (hnew : fd ∉ opened) :
    fd ∉ t.fds := fun hmem => hnew (by simp [ht.opened, hmem])

/-- An accepted connection goes into a free slot, is watched and open, and `max_sd` covers it. -/
theorem put (ht : Tracks h t cliSocks activeFds opened maxSd) {i : Fin n} {fd : ℤ}
    (hi : t.slot i = -1) (hfd : 0 ≤ fd) (hnew : fd ∉ opened) :
    Tracks h (t.put i fd hfd (ht.notMem_fds hnew)) (Function.update cliSocks i fd)
      (insert fd activeFds) (insert fd opened) (if maxSd < fd then fd else maxSd) where
  slots := congrArg (Function.update · i fd) ht.slots
  active := by rw [SlotTable.fds_put hi, ht.active, Finset.insert_comm]
  opened := by rw [SlotTable.fds_put hi, ht.opened, Finset.union_insert]
  accepted := by
    intro x hx
    rw [SlotTable.fds_put hi, Finset.mem_insert] at hx
    rcases hx with rfl | hx
    · exact fun hinit => hnew (by simp [ht.opened, hinit])
    · exact ht.accepted x hx
  maxSd := by
    intro x hx
    rw [Finset.mem_insert] at hx
    rcases hx with rfl | hx
    · split_ifs <;> omega
    · have hold := ht.maxSd x hx
      split_ifs <;> omega

/-- A client that left frees its slot and is neither watched nor open. -/
theorem clear (ht : Tracks h t cliSocks activeFds opened maxSd) {i : Fin n} (hi : 0 ≤ t.slot i) :
    Tracks h (t.clear i) (Function.update cliSocks i (-1)) (activeFds.erase (cliSocks i))
      (opened.erase (cliSocks i)) maxSd := by
  have hcli : cliSocks i = t.slot i := congrFun ht.slots i
  have hmem := SlotTable.slot_mem_fds hi
  have hinit := ht.accepted _ hmem
  have hne : t.slot i ≠ h.masterSock := by
    intro heq
    exact hinit (by simp [heq, Host.initial])
  constructor
  case slots => exact congrArg (Function.update · i (-1)) ht.slots
  case active =>
    rw [hcli, ht.active, SlotTable.fds_clear hi, Finset.erase_insert_of_ne hne.symm]
  case opened =>
    rw [hcli, ht.opened, SlotTable.fds_clear hi, Finset.erase_union_distrib,
      Finset.erase_eq_of_notMem hinit]
  case accepted =>
    intro fd hfd
    rw [SlotTable.fds_clear hi] at hfd
    exact ht.accepted fd (Finset.mem_of_mem_erase hfd)
  case maxSd =>
    intro fd hfd
    exact ht.maxSd fd (Finset.mem_of_mem_erase hfd)

/-- The watched set is exactly the listener and the occupied slots. -/
theorem mem_active (ht : Tracks h t cliSocks activeFds opened maxSd) (fd : ℤ) :
    fd ∈ activeFds ↔ fd = h.masterSock ∨ (0 ≤ fd ∧ ∃ i, cliSocks i = fd) := by
  rw [ht.active, Finset.mem_insert, SlotTable.mem_fds, ht.slots]

/-- The open accepted descriptors are exactly the occupied slots. -/
theorem mem_accepted (ht : Tracks h t cliSocks activeFds opened maxSd) (fd : ℤ) :
    (fd ∈ opened ∧ fd ∉ h.initial) ↔ (0 ≤ fd ∧ ∃ i, cliSocks i = fd) := by
  rw [ht.opened, ht.slots, ← SlotTable.mem_fds, Finset.mem_union]
  exact ⟨fun hfd => hfd.1.resolve_left hfd.2, fun hfd => ⟨Or.inr hfd, ht.accepted fd hfd⟩⟩

/-- A client's descriptor is open. -/
theorem slot_opened (ht : Tracks h t cliSocks activeFds opened maxSd) {i : Fin n} (hi : 0 ≤ cliSocks i) :
    cliSocks i ∈ opened := ((ht.mem_accepted _).mpr ⟨hi, i, rfl⟩).1

/-- It is not the listener's. -/
theorem slot_ne_master (ht : Tracks h t cliSocks activeFds opened maxSd) {i : Fin n}
    (hi : 0 ≤ cliSocks i) : cliSocks i ≠ h.masterSock := by
  intro heq
  apply ((ht.mem_accepted _).mpr ⟨hi, i, rfl⟩).2
  rw [heq]
  exact Finset.mem_insert_self _ _

/-- Of the descriptors that `select` reported, those that are not the listener's are clients. -/
theorem fds_inter (ht : Tracks h t cliSocks activeFds opened maxSd) {rfds : Finset ℤ}
    (hsub : rfds ⊆ activeFds) : t.fds ∩ rfds = rfds.erase h.masterSock := by
  ext fd
  rw [Finset.mem_inter, Finset.mem_erase]
  constructor
  · rintro ⟨hfd, hr⟩
    exact ⟨fun heq => ht.master_notMem (heq ▸ hfd), hr⟩
  · rintro ⟨hne, hr⟩
    have hact := hsub hr
    rw [ht.active, Finset.mem_insert] at hact
    exact ⟨hact.resolve_left hne, hr⟩

end Tracks

end NetProg
