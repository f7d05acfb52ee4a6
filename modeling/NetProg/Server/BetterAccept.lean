/-
# NetProg.Server.BetterAccept -- a pass of `select_srv_better` in which `accept` fails.

The error branch prints, closes what `accept` returned, and falls through into the search for a free slot,
as if -1 were a connection.  With a free slot, -1 is stored there and given to `FD_SET`; without one it is
closed a second time, and the pass ends as if a connection had been refused.  So a negative descriptor is
closed in every such pass (`acceptFails_not_intact`), the table is kept only when it is full, and the ready
clients are served only when there are none.
-/
import NetProg.Server.BetterRefusal

namespace NetProg.SelectSrvBetter

variable {n : ℕ} {h : Host}

/-- `select` reports the listener, and `accept` fails. -/
structure AcceptFails (h : Host) (a : Answers n) : Prop where
  selected : 0 < a.nready
  listener : h.masterSock ∈ a.rfds
  failed : a.accept < 0

/-- The block under `FD_ISSET (master_sock, &rfds)` is defined, and leaves the table as it was. -/
structure TableKept (h : Host) (s : Srv n) (a : Answers n) : Prop where
  defined : ((s.select a).listener h a.accept).isUndef = false
  cliSocks : ((s.select a).listener h a.accept).state.cliSocks = s.cliSocks
  maxi : ((s.select a).listener h a.accept).state.maxi = s.maxi
  maxSd : ((s.select a).listener h a.accept).state.maxSd = s.maxSd
  activeFds : ((s.select a).listener h a.accept).state.activeFds = s.activeFds

/-- No negative descriptor is closed, put into a set or looked up in one. -/
def NoNegative (l : List (Ev n)) : Prop :=
  ∀ fd, fd < 0 → .close fd ∉ l ∧ .fdSet fd ∉ l ∧ .fdIsset fd ∉ l

/-- The pass is defined, and reads the ready clients. -/
def Serves (h : Host) (s : Srv n) (a : Answers n) : Prop :=
  (s.body h a).isUndef = false ∧ readsOf (s.body h a).state.evs = (readyClients s a).map s.cliSocks

/-- The failure of `accept` is without consequences. -/
structure Intact (h : Host) (s : Srv n) (a : Answers n) : Prop where
  kept : TableKept h s a
  noNegative : NoNegative (s.body h a).state.evs
  serves : Serves h s a

section Pass

variable {s : Srv n} {a : Answers n}

/-- The state in which the search for a free slot starts. -/
def Srv.failed (h : Host) (s : Srv n) (a : Answers n) : Srv n :=
  ((s.select a).log (.fdIsset h.masterSock)).accept a.accept

theorem evs_failed (hfails : AcceptFails h a) :
    (s.failed h a).evs = [.fdIsset h.masterSock, .accept a.accept, .close a.accept] := by
  rw [Srv.failed, Srv.accept, if_pos hfails.failed]
  rfl

/-- What the failure itself leaves alone. -/
theorem failed_eq (hfails : AcceptFails h a) :
    (s.failed h a).cliSocks = s.cliSocks ∧ (s.failed h a).maxi = s.maxi ∧
      (s.failed h a).maxSd = s.maxSd ∧ (s.failed h a).activeFds = s.activeFds := by
  rw [Srv.failed, Srv.accept, if_pos hfails.failed]
  exact ⟨rfl, rfl, rfl, rfl⟩

/-- With a free slot, -1 is stored there, and `FD_SET (-1, ...)` is undefined. -/
theorem listener_fails_free (hfails : AcceptFails h a) {i : Fin n}
    (hslot : SlotTable.firstSlot (fun fd => decide (fd < 0)) s.cliSocks = some i) :
    (s.select a).listener h a.accept =
      .undef (((s.failed h a).setSlot i a.accept).log (.fdSet a.accept)) := by
  rw [Srv.listener, if_pos (show h.masterSock ∈ (s.select a).rfds from hfails.listener), Srv.register,
    show ((s.select a).log (.fdIsset h.masterSock)).cliSocks = s.cliSocks from rfl, hslot]
  simp only [if_pos hfails.failed, Flow.andThen_undef]
  rfl

/-- With a full table, -1 is closed as a connection that is refused. -/
theorem listener_fails_full (hfails : AcceptFails h a) (hfull : ∀ i, 0 ≤ s.cliSocks i) :
    (s.select a).listener h a.accept = .again ((s.failed h a).close a.accept) := by
  rw [Srv.listener, if_pos (show h.masterSock ∈ (s.select a).rfds from hfails.listener), Srv.register,
    show ((s.select a).log (.fdIsset h.masterSock)).cliSocks = s.cliSocks from rfl, firstSlot_full hfull]
  rfl

theorem body_fails (hfails : AcceptFails h a) :
    s.body h a = ((s.select a).listener h a.accept).andThen fun s =>
      .next (s.scan a.read (List.finRange n)) := by
  have hselected := hfails.selected
  rw [Srv.body, if_neg (by omega)]

/-- Without a free slot the table is full. -/
theorem exists_free_slot (hfree : ¬ ∀ i, 0 ≤ s.cliSocks i) :
    ∃ i, SlotTable.firstSlot (fun fd => decide (fd < 0)) s.cliSocks = some i := by
  cases hslot : SlotTable.firstSlot (fun fd => decide (fd < 0)) s.cliSocks with
  | some i => exact ⟨i, rfl⟩
  | none =>
    refine absurd (fun i => ?_) hfree
    simpa using SlotTable.firstSlot_none hslot i

theorem close_mem_body (hfails : AcceptFails h a) : .close a.accept ∈ (s.body h a).state.evs := by
  have hmem : .close a.accept ∈ (s.failed h a).evs := by
    rw [evs_failed hfails]
    simp
  rw [body_fails hfails]
  by_cases hfull : ∀ i, 0 ≤ s.cliSocks i
  · rw [listener_fails_full hfails hfull]
    exact List.mem_append_left _ hmem
  · obtain ⟨i, hslot⟩ := exists_free_slot hfull
    rw [listener_fails_free hfails hslot]
    exact List.mem_append_left _ (List.mem_append_left _ hmem)

theorem tableKept_iff (hfails : AcceptFails h a) : TableKept h s a ↔ ∀ i, 0 ≤ s.cliSocks i := by
  constructor
  · intro hkept
    by_contra hfree
    obtain ⟨i, hslot⟩ := exists_free_slot hfree
    have hdefined := hkept.defined
    rw [listener_fails_free hfails hslot] at hdefined
    cases hdefined
  · intro hfull
    obtain ⟨hcli, hmaxi, hmaxSd, hactive⟩ := failed_eq (s := s) hfails
    have hlistener := listener_fails_full hfails hfull
    constructor
    case defined => rw [hlistener]; rfl
    case cliSocks => rw [hlistener]; exact hcli
    case maxi => rw [hlistener]; exact hmaxi
    case maxSd => rw [hlistener]; exact hmaxSd
    case activeFds => rw [hlistener]; exact hactive

theorem readyClients_eq_nil (hfull : ∀ i, 0 ≤ s.cliSocks i) :
    readyClients s a = [] ↔ ∀ i, s.cliSocks i ∉ a.rfds := by
  simp [readyClients, List.filter_eq_nil_iff, hfull]

theorem serves_iff (hfails : AcceptFails h a) :
    Serves h s a ↔ (∀ i, 0 ≤ s.cliSocks i) ∧ ∀ i, s.cliSocks i ∉ a.rfds := by
  rw [Serves, body_fails hfails]
  by_cases hfull : ∀ i, 0 ≤ s.cliSocks i
  · have hreads : readsOf ((s.failed h a).close a.accept).evs = [] := by
      show readsOf ((s.failed h a).evs ++ [.close a.accept]) = []
      rw [evs_failed hfails]
      rfl
    rw [listener_fails_full hfails hfull, Flow.andThen_again, ← readyClients_eq_nil hfull]
    show (false = false ∧ readsOf ((s.failed h a).close a.accept).evs = _) ↔ _
    rw [hreads]
    constructor
    · rintro ⟨-, hnil⟩
      exact ⟨hfull, List.map_eq_nil_iff.mp hnil.symm⟩
    · rintro ⟨-, hnil⟩
      exact ⟨rfl, (List.map_eq_nil_iff.mpr hnil).symm⟩
  · obtain ⟨i, hslot⟩ := exists_free_slot hfull
    rw [listener_fails_free hfails hslot, Flow.andThen_undef]
    constructor
    · rintro ⟨hdefined, -⟩
      cases hdefined
    · intro hs
      exact absurd hs.1 hfull

/-- A failed `accept` is closed, at least once. -/
theorem not_intact (hfails : AcceptFails h a) : ¬ Intact h s a := fun hintact =>
  (hintact.noNegative _ hfails.failed).1 (close_mem_body hfails)

end Pass

/-! ## The main result -/

/-- **In both programs no failure of `accept` is without consequences.**  The table is kept if and only if it is
full, and the ready clients are served if and only if it is full and there are none. -/
theorem acceptFails_not_intact (h : Host) (a : Answers maxConnections) (hfails : AcceptFails h a) :
    (∀ s, AtHead (selectSrvBetter h) s → Admits s a → ¬ Intact h s a ∧
        (TableKept h s a ↔ ∀ i, 0 ≤ s.cliSocks i) ∧
        (Serves h s a ↔ (∀ i, 0 ≤ s.cliSocks i) ∧ ∀ i, s.cliSocks i ∉ a.rfds)) ∧
      (∀ s, AtHead (tcpSelectServer h) s → Admits s a → ¬ Intact h s a ∧
        (TableKept h s a ↔ ∀ i, 0 ≤ s.cliSocks i) ∧
        (Serves h s a ↔ (∀ i, 0 ≤ s.cliSocks i) ∧ ∀ i, s.cliSocks i ∉ a.rfds)) :=
  ⟨fun _ _ _ => ⟨not_intact hfails, tableKept_iff hfails, serves_iff hfails⟩,
    fun _ _ _ => ⟨not_intact hfails, tableKept_iff hfails, serves_iff hfails⟩⟩

/-- With ten clients, one of them ready, a failed `accept` keeps the table, but serves nobody. -/
theorem acceptFails_not_intact_full :
    ∃ s, AtHead (selectSrvBetter demoHost) s ∧ TableKept demoHost s (connects {3, 4} (-1)) ∧
      ¬ Intact demoHost s (connects {3, 4} (-1)) := by
  have hs := System.reachable_of_run (selectSrvBetter demoHost)
    ([4, 5, 6, 7, 8, 9, 10, 11, 12, 13].map fun fd => connects {3} fd) rfl
  obtain ⟨hnot, hkept, -⟩ := (acceptFails_not_intact demoHost (connects {3, 4} (-1))
    ⟨by decide, by decide, by decide⟩).1 _ hs (by decide)
  exact ⟨_, hs, hkept.mpr (by decide), hnot⟩

/-- The first `accept` fails: -1 is closed, and given to `FD_SET`. -/
theorem negative_fdSet : AtHead (selectSrvBetter demoHost) (Srv.start demoHost) ∧
    Admits (Srv.start demoHost) (connects {3} (-1)) ∧
    AcceptFails demoHost (connects {3} (-1)) ∧
    .close (-1) ∈ ((Srv.start demoHost).body demoHost (connects {3} (-1))).state.evs ∧
    .fdSet (-1) ∈ ((Srv.start demoHost).body demoHost (connects {3} (-1))).state.evs ∧
    ¬ Intact demoHost (Srv.start demoHost) (connects {3} (-1)) := by
  refine ⟨.init, by decide, ⟨by decide, by decide, by decide⟩, by decide, by decide, ?_⟩
  intro hintact
  exact (hintact.noNegative (-1) (by decide)).2.1 (by decide)

end NetProg.SelectSrvBetter
