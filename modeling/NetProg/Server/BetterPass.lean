/-
# NetProg.Server.BetterPass -- one whole pass of `select_srv_better` against a pass with the plain scan.

The two passes share everything up to the scan, so the equivalence is `scan_agree` at the state the
listener's block leaves, where the count is right because that state represents a table again.  What the
plain scan reads is then read off its definition: the ready slots of the loop head, in order.
-/
import NetProg.Server.BetterScan

namespace NetProg.SelectSrvBetter

variable {n : ℕ} {h : Host}

/-- What an accepted connection changes before the scan. -/
theorem register_next {s s₁ : Srv n} {newSock : ℤ} (hs : s.register newSock = .next s₁) :
    0 ≤ newSock ∧ (∃ i, s.cliSocks i < 0 ∧ s₁.cliSocks = Function.update s.cliSocks i newSock) ∧
      s₁.rfds = s.rfds ∧ s₁.nready = s.nready ∧ s₁.activeFds = insert newSock s.activeFds ∧
      readsOf s₁.evs = readsOf s.evs := by
  unfold Srv.register at hs
  cases hslot : SlotTable.firstSlot (fun fd => decide (fd < 0)) s.cliSocks with
  | none => simp [hslot] at hs
  | some i =>
    have hfree : s.cliSocks i < 0 := by simpa using SlotTable.firstSlot_some hslot
    by_cases hlt : newSock < 0
    · simp [hslot, hlt] at hs
    · simp only [hslot, hlt, if_false, Flow.next.injEq] at hs
      subst hs
      refine ⟨by omega, ⟨i, hfree, ?_⟩, ?_, ?_, ?_, ?_⟩
      all_goals simp [Srv.raise, Srv.fdSet, Srv.setSlot, Srv.accept, Srv.log, hlt, readsOf]

/-! ## The two passes have the same effects -/

/-- At the start of the scan: a represented state whose `nready` counts the ready clients. -/
structure ScanReady (h : Host) (s : Srv n) : Prop where
  represents : Represents h s
  sub : s.rfds ⊆ s.activeFds
  count : s.nready = (s.rfds.erase h.masterSock).card

theorem ScanReady.agree {s : Srv n} (hs : ScanReady h s) (read : Fin n → ReadAnswer) {s' : Srv n}
    (ha : Agree s s') :
    Agree (s.scan read (List.finRange n)) (plainScan read (List.finRange n) s') := by
  obtain ⟨t, hrep⟩ := hs.represents
  refine scan_agree read _ ha (List.pairwise_lt_finRange n) ?_ ?_
  · intro i _ hocc
    rw [hrep.tracks.slots] at hocc
    exact hrep.maxi i (by omega)
  · rw [readyAhead_finRange hrep hs.sub]
    exact hs.count

/-- When the count is zero, skipping the scan leaves out nothing. -/
theorem ScanReady.skip {s : Srv n} (hs : ScanReady h s) (read : Fin n → ReadAnswer)
    (hzero : s.nready ≤ 0) {s' : Srv n} (ha : Agree s s') :
    Agree s (plainScan read (List.finRange n) s') := by
  obtain ⟨t, hrep⟩ := hs.represents
  have hcount := readyAhead_finRange hrep hs.sub
  have hidle : ∀ i ∈ List.finRange n, ¬ s.Ready i := by
    have := hs.count
    exact readyAhead_eq_zero.mp (by omega)
  exact ha.plainScan_right read hidle

section Pass

variable {s : Srv n} {a : Answers n}

/-- **One pass has the effects of the pass with the plain scan.** -/
theorem body_same (hs : Represents h s) (hsub : a.rfds ⊆ s.activeFds)
    (hcard : a.nready = a.rfds.card) (hnew : a.accept < 0 ∨ a.accept ∉ s.opened) :
    (s.body h a).loopBack.map Srv.visible = (plainBody h s a).loopBack.map Srv.visible := by
  rcases hs with ⟨t, hrep⟩
  have hsel : Agree (s.select a) ((s.select a).log (.fdIsset h.masterSock)) :=
    ⟨by simp [Srv.visible, Srv.log], rfl⟩
  have hlog : Rep h ((s.select a).log (.fdIsset h.masterSock)) t := hrep.congr rfl rfl rfl rfl rfl
  by_cases hzero : a.nready = 0
  · -- `select` reported nothing: the code skips the pass, the plain scan finds nothing
    have hempty : a.rfds = ∅ := by
      rw [← Finset.card_eq_zero]
      omega
    have hready : ScanReady h (s.select a) := by
      refine ⟨⟨t, hrep.congr rfl rfl rfl rfl rfl⟩, hsub, ?_⟩
      simp [Srv.select, hzero, hempty]
    have hskip := (hready.skip a.read (le_of_eq hzero) hsel).visible
    simp only [Srv.body, hzero, plainBody, hempty]
    simpa [Flow.loopBack, Flow.map] using hskip
  have hfail : ¬ (a.nready = -1 ∨ a.nready = 0) := by omega
  by_cases hmaster : h.masterSock ∈ a.rfds
  · have hcount : ((a.rfds.erase h.masterSock).card : ℤ) = a.nready - 1 := by
      have := Finset.card_erase_add_one hmaster
      omega
    have hregister : (((s.select a).log (.fdIsset h.masterSock)).register a.accept).ToHead
        (Represents h) := register_represents ⟨t, hlog⟩ hnew
    unfold Srv.body Srv.listener plainBody
    rw [if_neg hfail, if_pos hmaster, if_pos (show h.masterSock ∈ (s.select a).rfds from hmaster)]
    cases hf : ((s.select a).log (.fdIsset h.masterSock)).register a.accept with
    | next s₁ =>
      rw [hf] at hregister
      obtain ⟨-, -, hrfds, hnready, hactive, -⟩ := register_next hf
      have hready : ScanReady h s₁.decr := by
        rcases hregister with ⟨t₁, hrep₁⟩
        refine ⟨⟨t₁, hrep₁.congr rfl rfl rfl rfl rfl⟩, ?_, ?_⟩
        · show s₁.rfds ⊆ s₁.activeFds
          rw [hrfds, hactive]
          exact hsub.trans (Finset.subset_insert _ _)
        · show s₁.nready - 1 = ((s₁.rfds.erase h.masterSock).card : ℤ)
          rw [hrfds, hnready]
          exact hcount.symm
      have ha : Agree s₁.decr s₁ := (Agree.refl s₁).decr_left
      simp only [Flow.andThen_next, Srv.countDown]
      split_ifs with hdone
      · have hskip := (hready.skip a.read hdone ha).visible
        simpa [Flow.loopBack, Flow.map] using hskip
      · simpa [Flow.loopBack, Flow.map] using (hready.agree a.read ha).visible
    | again s₁ => rfl
    | ret s₁ => rfl
    | exit m s₁ => rfl
    | undef s₁ => rfl
  · have hready : ScanReady h ((s.select a).log (.fdIsset h.masterSock)) := by
      refine ⟨⟨t, hlog⟩, hsub, ?_⟩
      show a.nready = ((a.rfds.erase h.masterSock).card : ℤ)
      rw [Finset.erase_eq_of_notMem hmaster, hcard]
    unfold Srv.body Srv.listener plainBody
    rw [if_neg hfail, if_neg hmaster,
      if_neg (show h.masterSock ∉ (s.select a).rfds from hmaster)]
    simpa [Flow.loopBack, Flow.map] using (hready.agree a.read (Agree.refl _)).visible

end Pass

/-! ## What a pass reads -/

@[simp] theorem readsOf_effects (l : List (Ev n)) : readsOf (effects l) = readsOf l := by
  induction l with
  | nil => rfl
  | cons e l ih => cases e <;> simp_all [readsOf, effects]

theorem readsOf_serve (s : Srv n) (i : Fin n) (ans : ReadAnswer) :
    readsOf ((s.isset i).serve i ans).evs = readsOf s.evs ++ [s.cliSocks i] := by
  unfold Srv.serve
  split_ifs <;>
    simp [Srv.isset, Srv.setSlot, Srv.fdClr, Srv.close, Srv.log, readsOf]

/-- The plain scan reads the ready slots, in order. -/
theorem readsOf_plainScan (read : Fin n → ReadAnswer) (is : List (Fin n)) (s : Srv n)
    (hnodup : is.Nodup) :
    readsOf (plainScan read is s).evs =
      readsOf s.evs ++ (is.filter fun i => decide (s.Ready i)).map s.cliSocks := by
  induction is generalizing s with
  | nil => simp [plainScan]
  | cons i is ih =>
    obtain ⟨hi, hnodup⟩ := List.nodup_cons.mp hnodup
    rw [plainScan]
    split_ifs with hfree hready
    · have hnot : ¬ s.Ready i := by
        intro hr
        exact hr.1 hfree
      rw [ih s hnodup, List.filter_cons_of_neg (by simpa using hnot)]
    · have hr : s.Ready i := ⟨hfree, hready⟩
      have hne : ∀ j ∈ is, j ≠ i := by
        intro j hj heq
        exact hi (heq ▸ hj)
      have hfilter : (is.filter fun j => decide (((s.isset i).serve i (read i)).Ready j)) =
          is.filter fun j => decide (s.Ready j) :=
        List.filter_congr fun j hj => by
          have hiff : ((s.isset i).serve i (read i)).Ready j ↔ s.Ready j :=
            serve_ready_iff (s.isset i) (hne j hj) (read i)
          simp [hiff]
      have hmap : (is.filter fun j => decide (s.Ready j)).map
            ((s.isset i).serve i (read i)).cliSocks =
          (is.filter fun j => decide (s.Ready j)).map s.cliSocks :=
        List.map_congr_left fun j hj =>
          serve_cliSocks_ne (s.isset i) (hne j (List.mem_of_mem_filter hj)) (read i)
      rw [ih _ hnodup, readsOf_serve, hfilter, hmap, List.filter_cons_of_pos (by simpa using hr)]
      simp
    · have hnot : ¬ s.Ready i := by
        intro hr
        exact hready hr.2
      rw [ih _ hnodup, List.filter_cons_of_neg (by simpa using hnot)]
      simp only [Srv.isset, Srv.log, readsOf_append]
      simp [readsOf, Srv.Ready]

/-- The connected clients that `select` reported, in slot order. -/
def readyClients (s : Srv n) (a : Answers n) : List (Fin n) :=
  (List.finRange n).filter fun i => decide (0 ≤ s.cliSocks i ∧ s.cliSocks i ∈ a.rfds)

/-- A connection is waiting and no slot is free. -/
def TableFull (h : Host) (s : Srv n) (a : Answers n) : Prop :=
  h.masterSock ∈ a.rfds ∧ ∀ i, 0 ≤ s.cliSocks i

section Reads

variable {s s' : Srv n} {a : Answers n}

/-- The pass with the plain scan reads exactly the ready clients of the loop head. -/
theorem readsOf_plainBody (hsub : a.rfds ⊆ s.activeFds) (hopen : s.activeFds ⊆ s.opened)
    (hnew : a.accept < 0 ∨ a.accept ∉ s.opened) (hfull : ¬ TableFull h s a)
    (hs' : (plainBody h s a).loopBack = .next s') :
    readsOf s'.evs = (readyClients s a).map s.cliSocks := by
  unfold plainBody at hs'
  by_cases hmaster : h.masterSock ∈ a.rfds
  · rw [if_pos hmaster] at hs'
    cases hf : ((s.select a).log (.fdIsset h.masterSock)).register a.accept with
    | next s₁ =>
      obtain ⟨hfd, ⟨k, hk, hcli⟩, hrfds, -, -, hreads⟩ := register_next hf
      have hcli : s₁.cliSocks = Function.update s.cliSocks k a.accept := hcli
      have hrfds : s₁.rfds = a.rfds := hrfds
      have hk : s.cliSocks k < 0 := hk
      have habsent : a.accept ∉ a.rfds := fun hmem =>
        (hnew.resolve_left (by omega)) (hopen (hsub hmem))
      simp only [hf, Flow.andThen_next, Flow.loopBack, Flow.next.injEq] at hs'
      subst hs'
      have hready : ∀ i, s₁.Ready i ↔ 0 ≤ s.cliSocks i ∧ s.cliSocks i ∈ a.rfds := by
        intro i
        by_cases hi : i = k
        · simp [Srv.Ready, hcli, hrfds, hi, habsent, hk]
        · simp [Srv.Ready, hcli, hrfds, hi]
      have hempty : readsOf s₁.evs = [] := hreads
      rw [readsOf_plainScan _ _ _ (List.nodup_finRange n), hempty, List.nil_append, readyClients]
      simp only [hready]
      apply List.map_congr_left
      intro i hi
      have hocc : 0 ≤ s.cliSocks i := by
        have := List.of_mem_filter hi
        simp only [decide_eq_true_eq] at this
        exact this.1
      have hik : i ≠ k := by
        rintro rfl
        omega
      simp [hcli, hik]
    | again s₁ =>
      -- leaving here means that no slot was free
      exfalso
      refine hfull ⟨hmaster, fun i => ?_⟩
      unfold Srv.register at hf
      cases hslot : SlotTable.firstSlot (fun fd => decide (fd < 0))
          ((s.select a).log (.fdIsset h.masterSock)).cliSocks with
      | none =>
        have := SlotTable.firstSlot_none hslot i
        simp only [decide_eq_false_iff_not, not_lt] at this
        exact this
      | some j =>
        simp only [hslot] at hf
        split_ifs at hf
    | ret s₁ => simp [hf, Flow.loopBack] at hs'
    | exit m s₁ => simp [hf, Flow.loopBack] at hs'
    | undef s₁ => simp [hf, Flow.loopBack] at hs'
  · rw [if_neg hmaster] at hs'
    simp only [Flow.andThen_next, Flow.loopBack, Flow.next.injEq] at hs'
    subst hs'
    rw [readsOf_plainScan _ _ _ (List.nodup_finRange n), readyClients]
    simp only [Srv.Ready, not_lt]
    rfl

end Reads

/-! ## The main result -/

/-- The laws of one pass: the effects are those of the pass with the plain scan, and unless the table is
found full every ready client is read, in slot order, and nothing else is. -/
structure PassLaws (h : Host) (s : Srv n) (a : Answers n) : Prop where
  same : (s.body h a).loopBack.map Srv.visible = (plainBody h s a).loopBack.map Srv.visible
  reads : ¬ TableFull h s a → ∀ s', (s.body h a).loopBack = .next s' →
    readsOf s'.evs = (readyClients s a).map s.cliSocks
  not_new : ¬ TableFull h s a → ∀ s', (s.body h a).loopBack = .next s' →
    a.accept ∉ readsOf s'.evs

theorem server_passLaws {s : Srv n} {a : Answers n} (hs : AtHead (server n h) s)
    (hsub : a.rfds ⊆ s.activeFds) (hcard : a.nready = a.rfds.card)
    (hnew : a.accept < 0 ∨ a.accept ∉ s.opened) : PassLaws h s a := by
  have hrep := server_represents hs
  have hsame := body_same hrep hsub hcard hnew
  have hopen : s.activeFds ⊆ s.opened := by
    rcases hrep with ⟨t, ht⟩
    exact ht.tracks.active_subset_opened
  have hreads : ¬ TableFull h s a → ∀ s', (s.body h a).loopBack = .next s' →
      readsOf s'.evs = (readyClients s a).map s.cliSocks := by
    intro hfull s' hs'
    rw [hs'] at hsame
    cases hp : (plainBody h s a).loopBack with
    | next p =>
      rw [hp] at hsame
      have hvis : s'.visible = p.visible := by simpa [Flow.map] using hsame
      have heff : effects s'.evs = effects p.evs := congrArg Visible.effects hvis
      rw [← readsOf_effects, heff, readsOf_effects]
      exact readsOf_plainBody hsub hopen hnew hfull hp
    | again p => rw [hp] at hsame; simp [Flow.map] at hsame
    | ret p => rw [hp] at hsame; simp [Flow.map] at hsame
    | exit m p => rw [hp] at hsame; simp [Flow.map] at hsame
    | undef p => rw [hp] at hsame; simp [Flow.map] at hsame
  refine ⟨hsame, hreads, ?_⟩
  intro hfull s' hs' hmem
  rw [hreads hfull s' hs', List.mem_map] at hmem
  rcases hmem with ⟨i, hi, heq⟩
  have hready := List.of_mem_filter hi
  simp only [decide_eq_true_eq] at hready
  rcases hnew with hneg | hclosed
  · omega
  · exact hclosed (heq ▸ hopen (hsub hready.2))

/-- **The early-exit scan of both programs does what a plain scan of all slots does**, at every loop head
and for every answer of `select` that is a subset of `active_fds` with its size. -/
theorem selectSrvBetter_passLaws (h : Host) (a : Answers maxConnections) :
    (∀ s, AtHead (selectSrvBetter h) s → a.rfds ⊆ s.activeFds → a.nready = a.rfds.card →
        (a.accept < 0 ∨ a.accept ∉ s.opened) → PassLaws h s a) ∧
      (∀ s, AtHead (tcpSelectServer h) s → a.rfds ⊆ s.activeFds → a.nready = a.rfds.card →
        (a.accept < 0 ∨ a.accept ∉ s.opened) → PassLaws h s a) :=
  ⟨fun _ hs => server_passLaws hs, fun _ hs => server_passLaws hs⟩

/-- One client is connected, then it is ready together with the listener: the pass accepts descriptor 5
and reads descriptor 4. -/
theorem selectSrvBetter_passLaws_secondClient :
    ∃ s, AtHead (selectSrvBetter demoHost) s ∧ s.cliSocks 0 = 4 ∧
      PassLaws demoHost s (connects {3, 4} 5) := by
  refine ⟨_, System.reachable_of_run _ [connects {3} 4] rfl, rfl, ?_⟩
  refine (selectSrvBetter_passLaws demoHost _).1 _ (System.reachable_of_run _ [connects {3} 4] rfl) ?_ ?_ ?_
  · decide
  · decide
  · exact Or.inr (by decide)

end NetProg.SelectSrvBetter
