/-
# NetProg.Server.SelectServerScan -- which ready clients one pass of `select_server` receives from.

The scan runs over `i < cur_conn_cnt`, and the slots are not compacted when a client leaves, so a live
client can sit at or beyond the bound.  The `recv` calls of a scan are the `selected` items of a loop with
a shrinking bound, which gives the exact condition under which a pass leaves out no ready client: the slot
of each, plus the number of clients below it that leave in this pass, is below the number of connections, and
no `send` before it ends the process.
-/
import NetProg.Base.ShrinkingLoop
import NetProg.Server.SelectServerTable

namespace NetProg.SelectServer

variable {n : ℕ} {h : Host}

/-- The descriptors on which a pass called `recv`, in order. -/
def recvsOf (l : List (Ev n)) : List ℤ :=
  l.filterMap fun e => match e with
    | .recv fd _ => some fd
    | _ => none

@[simp] theorem recvsOf_append (l l' : List (Ev n)) : recvsOf (l ++ l') = recvsOf l ++ recvsOf l' :=
  List.filterMap_append

theorem mem_recvsOf {l : List (Ev n)} {fd : ℤ} : fd ∈ recvsOf l ↔ ∃ ans, .recv fd ans ∈ l := by
  rw [recvsOf, List.mem_filterMap]
  constructor
  · rintro ⟨e, he, heq⟩
    cases e with
    | recv fd' ans =>
      cases heq
      exact ⟨ans, he⟩
    | _ => cases heq
  · rintro ⟨ans, hans⟩
    exact ⟨.recv fd ans, hans, rfl⟩

/-- Slot `i` holds a client whose descriptor is in `rfds`. -/
def Srv.Ready (s : Srv n) (rfds : Finset ℤ) (i : Fin n) : Prop :=
  0 ≤ s.cliSocks i ∧ s.cliSocks i ∈ rfds

instance (s : Srv n) (rfds : Finset ℤ) (i : Fin n) : Decidable (s.Ready rfds i) :=
  inferInstanceAs (Decidable (_ ∧ _))

/-! ## One step of the scan -/

section Receive

variable (s : Srv n) (i : Fin n) (ans : ReadAnswer)

theorem receive_cliSocks_ne {j : Fin n} (hji : j ≠ i) :
    (s.receive i ans).cliSocks j = s.cliSocks j := by
  unfold Srv.receive
  split_ifs <;> simp [Srv.drop, Srv.log, hji]

theorem receive_rfds : (s.receive i ans).rfds = s.rfds := by
  unfold Srv.receive
  split_ifs <;> rfl

theorem receive_curConnCnt :
    (s.receive i ans).curConnCnt = if ans.gone then s.curConnCnt - 1 else s.curConnCnt := by
  unfold Srv.receive
  split_ifs <;> rfl

theorem recvsOf_receive :
    recvsOf (s.receive i ans).evs = recvsOf s.evs ++ [s.cliSocks i] := by
  unfold Srv.receive
  split_ifs <;> simp [Srv.drop, Srv.log, recvsOf]

end Receive

/-! ## The scan as a loop with a shrinking bound -/

/-- Behind the `recv` for slot `i` the process ends: the echo overruns `send_buf`, or its `send` raises SIGPIPE. -/
def Answers.ends (a : Answers n) (i : Fin n) : Bool := !fits (a.recv i) || (a.echoPipe i && !(a.recv i).gone)

/-- The slots that the scan receives from, when `rfds` was reported. -/
def Srv.scanned (s : Srv n) (a : Answers n) (is : List (Fin n)) : List (Fin n) :=
  selected (fun i => decide (s.Ready s.rfds i)) (fun i => (a.recv i).gone) a.ends is s.curConnCnt

/-- The `recv` calls of the scan. -/
theorem recvsOf_scan (a : Answers n) {is : List (Fin n)} (hnodup : is.Nodup) (s : Srv n) :
    recvsOf (s.scan a is).state.evs = recvsOf s.evs ++ (s.scanned a is).map s.cliSocks := by
  induction is generalizing s with
  | nil => simp [Srv.scan, Srv.scanned, selected, Flow.state]
  | cons i is ih =>
    obtain ⟨hi, hnodup⟩ := List.nodup_cons.mp hnodup
    have ih := fun s => ih hnodup s
    rw [Srv.scan, Srv.scanned, selected]
    by_cases hlt : (i : ℤ) < s.curConnCnt
    case neg => simp [hlt, Flow.state]
    by_cases hfree : s.cliSocks i < 0
    case pos =>
      have hnot : ¬ s.Ready s.rfds i := fun hr => by
        have := hr.1
        omega
      simp only [hlt, hfree, hnot, if_true, decide_false, Bool.false_eq_true, if_false]
      exact ih s
    by_cases hready : s.cliSocks i ∈ s.rfds
    case neg =>
      have hnot : ¬ s.Ready s.rfds i := by
        intro hr
        exact hready hr.2
      simp only [hlt, hfree, hready, hnot, if_true, decide_false, Bool.false_eq_true, if_false]
      exact ih s
    have hr : s.Ready s.rfds i := ⟨by omega, hready⟩
    simp only [hlt, hfree, hready, hr, if_true, if_false, decide_true, Srv.serve, Srv.echoBack]
    have hlog : recvsOf ((s.receive i (a.recv i)).log
          (.send (s.cliSocks i) (echoText (recvBuf (a.recv i))))).evs =
        recvsOf s.evs ++ [s.cliSocks i] := by
      simp only [Srv.log, recvsOf_append, recvsOf_receive]
      simp [recvsOf]
    cases hfits : fits (a.recv i) with
    | false => simpa [Flow.state, Answers.ends, hfits] using recvsOf_receive s i (a.recv i)
    | true =>
      cases hpipe : (a.echoPipe i && !(a.recv i).gone) with
      | true => simpa [Flow.state, Srv.signal, Answers.ends, hfits, hpipe] using hlog
      | false =>
      -- the client at `i` is out of the way, and the slots after it are as they were
      have hends : a.ends i = false := by simp [Answers.ends, hfits, hpipe]
      have hne : ∀ j ∈ is, j ≠ i := by
        intro j hj heq
        exact hi (heq ▸ hj)
      have hwant : ∀ j ∈ is,
          decide ((s.receive i (a.recv i)).Ready (s.receive i (a.recv i)).rfds j) =
            decide (s.Ready s.rfds j) := by
        intro j hj
        apply decide_eq_decide.mpr
        rw [Srv.Ready, Srv.Ready, receive_cliSocks_ne s i (a.recv i) (hne j hj), receive_rfds]
      have hscanned : (s.receive i (a.recv i)).scanned a is =
          selected (fun i => decide (s.Ready s.rfds i)) (fun i => (a.recv i).gone) a.ends is
            (if (a.recv i).gone then s.curConnCnt - 1 else s.curConnCnt) := by
        rw [Srv.scanned, selected_congr hwant, receive_curConnCnt]
      have hmap : ((s.receive i (a.recv i)).scanned a is).map (s.receive i (a.recv i)).cliSocks =
          ((s.receive i (a.recv i)).scanned a is).map s.cliSocks := by
        refine List.map_congr_left fun j hj => receive_cliSocks_ne s i (a.recv i) (hne j ?_)
        exact (selected_sublist is _).subset hj
      have hrest := ih ((s.receive i (a.recv i)).log
        (.send (s.cliSocks i) (echoText (recvBuf (a.recv i)))))
      simp only [Srv.signal, if_true, Bool.false_eq_true, if_false, Flow.andThen_next, hends, hrest]
      rw [hlog, List.map_cons, ← hscanned, ← hmap, List.append_assoc]
      rfl

/-! ## One pass -/

/-- The descriptors that `select` reported. -/
def SelectAnswer.reported : SelectAnswer → Finset ℤ
  | .ready rfds => rfds
  | _ => ∅

/-- The pass refuses a connection. -/
def Refuses (h : Host) (s : Srv n) (a : Answers n) : Prop :=
  h.masterSock ∈ a.select.reported ∧ 0 ≤ a.accept ∧ s.curConnCnt > n - 1

/-- Every connected client that `select` reported has `recv` called on it in the pass. -/
def NoneSkipped (h : Host) (s : Srv n) (a : Answers n) : Prop :=
  ∀ i, s.Ready a.select.reported i → s.cliSocks i ∈ recvsOf (s.body h a).state.evs

/-- The reported clients below slot `i` that leave in this pass. -/
def leftBefore (s : Srv n) (a : Answers n) (i : Fin n) : ℕ :=
  takenBefore (fun j => decide (s.Ready a.select.reported j)) (fun j => (a.recv j).gone)
    (List.finRange n) i

/-- The scan reaches slot `i`: neither `accept` nor the greeting ended the process, the slot is below the shrinking
bound, and no echo below it overran `send_buf` or raised SIGPIPE. -/
structure Reaches (h : Host) (s : Srv n) (a : Answers n) (i : Fin n) : Prop where
  accepted : h.masterSock ∈ a.select.reported → 0 ≤ a.accept ∧ a.acceptPipe = false
  bound : (i : ℤ) + leftBefore s a i <
    s.curConnCnt + if h.masterSock ∈ a.select.reported then 1 else 0
  goesOn : ∀ j, j < i → s.Ready a.select.reported j → a.ends j = false

section Pass

variable {s : Srv n} {a : Answers n}

/-- `s₁` is the state at the start of the scan of the pass `a` from the loop head `s`. -/
structure AtScan (h : Host) (s : Srv n) (a : Answers n) (s₁ : Srv n) : Prop where
  rfds : s₁.rfds = a.select.reported
  count : s₁.curConnCnt = s.curConnCnt + if h.masterSock ∈ a.select.reported then 1 else 0
  ready : ∀ i, s₁.Ready a.select.reported i ↔ s.Ready a.select.reported i
  same : ∀ i, s.Ready a.select.reported i → s₁.cliSocks i = s.cliSocks i
  evs : recvsOf s₁.evs = []

/-- A connection that is kept counts as one more and is not among the ready clients. -/
theorem keep_atScan {t : SlotTable n} (hrep : Rep h s t) {rfds : Finset ℤ}
    (hsel : a.select = .ready rfds) (hsub : rfds ⊆ s.activeFds) (hmaster : h.masterSock ∈ rfds)
    (hnew : a.accept ∉ s.opened) (hlt : ¬ s.curConnCnt > n - 1) :
    AtScan h s a ((((s.select (.ready rfds)).accept a.accept).store a.accept).keep a.accept) := by
  have hreported : a.select.reported = rfds := by rw [hsel]; rfl
  have habsent : a.accept ∉ rfds := fun hmem =>
    hnew (hrep.tracks.active_subset_opened (hsub hmem))
  obtain ⟨k, hslot, hk⟩ := hrep.exists_slot hlt
  have hkfree : s.cliSocks k = -1 := by rw [hrep.tracks.slots]; exact hk
  have hstore : ((s.select (.ready rfds)).accept a.accept).store a.accept =
      { (s.select (.ready rfds)).accept a.accept with
        cliSocks := Function.update s.cliSocks k a.accept }.log (.setSlot k a.accept) := by
    unfold Srv.store
    rw [show ((s.select (.ready rfds)).accept a.accept).cliSocks = s.cliSocks from rfl, hslot]
  rw [hstore]
  constructor
  case rfds => exact hreported.symm
  case count =>
    rw [hreported, if_pos hmaster]
    rfl
  case ready =>
    intro j
    by_cases hj : j = k <;>
      simp [Srv.Ready, Srv.keep, Srv.log, hreported, hj, habsent, hkfree]
  case same =>
    intro j hj
    have hjk : j ≠ k := by
      rintro rfl
      have := hj.1
      omega
    simp [Srv.keep, Srv.log, hjk]
  case evs => simp [Srv.keep, Srv.accept, Srv.select, Srv.log, recvsOf]

/-- The listener's block either gets to the scan, or the process ends at `accept` or at the greeting. -/
theorem listener_atScan (hs : Represents h s) (ha : Admits s a) (hrefuse : ¬ Refuses h s a)
    {rfds : Finset ℤ} (hsel : a.select = .ready rfds) :
    (∃ s₁, (s.select (.ready rfds)).listener h a.accept a.acceptPipe = .next s₁ ∧ AtScan h s a s₁ ∧
        (h.masterSock ∈ rfds → 0 ≤ a.accept ∧ a.acceptPipe = false)) ∨
      (∃ msg s₁, (s.select (.ready rfds)).listener h a.accept a.acceptPipe = .exit msg s₁ ∧
        h.masterSock ∈ rfds ∧ ¬ (0 ≤ a.accept ∧ a.acceptPipe = false) ∧ recvsOf s₁.evs = []) := by
  rcases hs with ⟨t, hrep⟩
  have hreported : a.select.reported = rfds := by rw [hsel]; rfl
  have hsub : rfds ⊆ s.activeFds := by
    have := ha.1
    rw [hsel] at this
    exact this.1
  unfold Srv.listener
  by_cases hmaster : h.masterSock ∈ rfds
  · rw [if_pos (show h.masterSock ∈ (s.select (.ready rfds)).rfds from hmaster)]
    by_cases hneg : a.accept < 0
    · rw [if_pos hneg]
      exact Or.inr ⟨_, _, rfl, hmaster, fun hok => not_le.mpr hneg hok.1, rfl⟩
    · have hlt : ¬ s.curConnCnt > n - 1 := fun hfull =>
        hrefuse ⟨by rwa [hreported], by omega, hfull⟩
      rw [if_neg hneg, if_neg (show ¬ (s.select (.ready rfds)).curConnCnt > n - 1 from hlt)]
      have hat := keep_atScan hrep hsel hsub hmaster (ha.2.1.resolve_left hneg) hlt
      cases hpipe : a.acceptPipe with
      | false => exact Or.inl ⟨_, rfl, hat, fun _ => ⟨by omega, rfl⟩⟩
      | true => exact Or.inr ⟨_, _, rfl, hmaster, fun hok => Bool.noConfusion hok.2, hat.evs⟩
  · rw [if_neg (show h.masterSock ∉ (s.select (.ready rfds)).rfds from hmaster)]
    refine Or.inl ⟨_, rfl, ⟨hreported.symm, ?_, fun _ => Iff.rfl, fun _ _ => rfl, rfl⟩,
      fun hm => absurd hm hmaster⟩
    rw [hreported, if_neg hmaster, add_zero]
    rfl

/-- From the start of the scan: which reported clients of the loop head it receives from. -/
theorem AtScan.mem_recvsOf {s₁ : Srv n} (hat : AtScan h s a s₁)
    (hdistinct : ∀ i j, 0 ≤ s.cliSocks i → s.cliSocks i = s.cliSocks j → i = j) {i : Fin n}
    (hi : s.Ready a.select.reported i) :
    s.cliSocks i ∈ recvsOf (s₁.scan a (List.finRange n)).state.evs ↔
      (i : ℤ) + leftBefore s a i < s₁.curConnCnt ∧
        ∀ j, j < i → s.Ready a.select.reported j → a.ends j = false := by
  have hsel : ∀ k, k ∈ s₁.scanned a (List.finRange n) ↔ s.Ready a.select.reported k ∧
      (k : ℤ) + leftBefore s a k < s₁.curConnCnt ∧
        ∀ j, j < k → s.Ready a.select.reported j → a.ends j = false := by
    intro k
    simp only [Srv.scanned, hat.rfds, hat.ready]
    rw [mem_selected (List.pairwise_lt_finRange n)]
    simp only [List.mem_finRange, decide_eq_true_eq, true_and, true_implies]
    rfl
  rw [recvsOf_scan a (List.nodup_finRange n), hat.evs, List.nil_append, List.mem_map]
  constructor
  · rintro ⟨k, hk, heq⟩
    obtain ⟨hkready, hkrest⟩ := (hsel k).mp hk
    rw [hat.same k hkready] at heq
    rwa [hdistinct k i hkready.1 heq] at hkrest
  · intro hrest
    exact ⟨i, (hsel i).mpr ⟨hi, hrest⟩, hat.same i hi⟩

/-- A reported client has `recv` called on it exactly when the scan reaches its slot. -/
theorem received_iff (hs : Represents h s) (ha : Admits s a) (hrefuse : ¬ Refuses h s a) {i : Fin n}
    (hi : s.Ready a.select.reported i) :
    s.cliSocks i ∈ recvsOf (s.body h a).state.evs ↔ Reaches h s a i := by
  have hdistinct : ∀ i j, 0 ≤ s.cliSocks i → s.cliSocks i = s.cliSocks j → i = j := by
    rcases hs with ⟨t, hrep⟩
    rw [hrep.tracks.slots]
    exact t.distinct
  cases hsel : a.select with
  | error eintr => simp [hsel, SelectAnswer.reported, Srv.Ready] at hi
  | timeout => simp [hsel, SelectAnswer.reported, Srv.Ready] at hi
  | ready rfds =>
    have hreported : a.select.reported = rfds := by rw [hsel]; rfl
    have hbody : s.body h a =
        ((s.select (.ready rfds)).listener h a.accept a.acceptPipe).andThen
          (Srv.scan a (List.finRange n)) := by
      simp only [Srv.body, hsel]
    rw [hbody]
    rcases listener_atScan hs ha hrefuse hsel with
      ⟨s₁, hlisten, hat, haccept⟩ | ⟨msg, s₁, hlisten, hmaster, hends, hevs⟩
    · rw [hlisten, Flow.andThen_next, hat.mem_recvsOf hdistinct hi, hat.count]
      constructor
      · rintro ⟨hbound, hgoesOn⟩
        exact ⟨hreported ▸ haccept, hbound, hgoesOn⟩
      · intro hreach
        exact ⟨hreach.bound, hreach.goesOn⟩
    · rw [hlisten, Flow.andThen_exit, Flow.state, hevs]
      constructor
      · intro hmem
        simp at hmem
      · intro hreach
        exact absurd (hreach.accepted (hreported ▸ hmaster)) hends

end Pass

/-! ## The main result -/

/-- **When no client is starved.** At every loop head and in every pass that does not refuse a
connection, all reported clients have `recv` called on them if and only if the scan reaches them all. -/
theorem selectServer_noneSkipped_iff (h : Host) {s : Srv maxClientsNum}
    (hs : AtHead (selectServer h) s) {a : Answers maxClientsNum} (ha : Admits s a)
    (hrefuse : ¬ Refuses h s a) :
    NoneSkipped h s a ↔ ∀ i, s.Ready a.select.reported i → Reaches h s a i :=
  forall_congr' fun _ => imp_congr_right fun hi => received_iff (server_represents hs) ha hrefuse hi

/-- Two clients connect and the first leaves; the second then sits in slot 1 with one connection left, and
its message is never received. -/
theorem selectServer_starves :
    ∃ s, AtHead (selectServer demoHost) s ∧ Admits s (passOf {5} 6 []) ∧
      ¬ Refuses demoHost s (passOf {5} 6 []) ∧ s.Ready {5} 1 ∧
      s.cliSocks 1 ∉ recvsOf (s.body demoHost (passOf {5} 6 [])).state.evs := by
  refine ⟨_, System.reachable_of_run _ [passOf {3} 4 [], passOf {3} 5 [], passOf {4} 6 [0]] rfl, ?_, ?_, ?_, ?_⟩
  · decide
  · rintro ⟨hmaster, -⟩
    exact absurd hmaster (by decide)
  · decide
  · decide

/-- With both clients connected a pass that reports the second one reaches it. -/
theorem selectServer_noneSkipped_iff_twoClients :
    ∃ s, AtHead (selectServer demoHost) s ∧ s.Ready {5} 1 ∧ NoneSkipped demoHost s (passOf {5} 6 []) := by
  have hs := System.reachable_of_run (selectServer demoHost) [passOf {3} 4 [], passOf {3} 5 []] rfl
  refine ⟨_, hs, by decide, (selectServer_noneSkipped_iff demoHost hs (by decide) ?_).mpr ?_⟩
  · rintro ⟨hmaster, -⟩
    exact absurd hmaster (by decide)
  · intro i _
    exact ⟨by decide +revert, by decide +revert, by decide +revert⟩

end NetProg.SelectServer
