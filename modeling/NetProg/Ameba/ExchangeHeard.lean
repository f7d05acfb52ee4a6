/-
# NetProg.Ameba.ExchangeHeard -- with how many slots the server hears everything.

Every pass reads all that has arrived, and closes what it found at its end.  So of the connections on which everything
must have arrived, those that were read before are gone behind the pass, and a pass that accepts one leaves no more
than it found unread, and one (`Room`).  Of the others there are at most `lag + 1`.  With more than `lag + 2` slots a
connection always finds one free.

With fewer the client can fill them: `lag + 1` connections on which nothing has arrived, and one that comes while
everything arrives on those, so that the pass that accepts it reads them for the first time (`Reaches`).  The next one
is closed unread.
-/
import NetProg.Ameba.ExchangeSteps

namespace NetProg.Exchange

open SelectSrvBetter

variable {h : Host} {n lag : ℕ}

/-! ## Enough slots -/

section Room

variable {k k' : Kernel} {s : Srv n} {pc : Pc}

/-- The live connections that the server may have to read once more before it closes them. -/
def Kernel.unread (lag : ℕ) (k : Kernel) : Finset ℕ :=
  k.live.filter fun id => id + lag + 1 < k.made → (k.conns id).arrived ≠ []

theorem Kernel.mem_unread {id : ℕ} :
    id ∈ k.unread lag ↔ k.Live id ∧ (id + lag + 1 < k.made → (k.conns id).arrived ≠ []) := by
  rw [Kernel.unread, Finset.mem_filter, Kernel.mem_live]

/-- How many slots are taken, and what of that a pass leaves. -/
structure Room (lag : ℕ) (k : Kernel) : Prop where
  live : k.live.card ≤ lag + 2
  unread : (k.unread lag).card ≤ lag + 1
  heard : ∀ id, (k.conns id).dropped = true → (k.conns id).Settled ∧ (k.conns id).arrived = []

theorem Room.start (lag : ℕ) : Room lag .start where
  live := Nat.zero_le _
  unread := Nat.zero_le _
  heard _ hdropped := Bool.noConfusion hdropped

theorem Room.outside (hroom : Room lag k) (hlaw : Law lag k pc) (hmade : k.made ≤ k'.made) (htaken : k'.taken = k.taken)
    (hdropped : ∀ id, (k'.conns id).dropped = (k.conns id).dropped)
    (hsettled : ∀ id, (k.conns id).Settled → (k'.conns id).Settled ∧ (k'.conns id).arrived = (k.conns id).arrived) :
    Room lag k' := by
  have hlive : k'.live = k.live := by
    ext id
    rw [Kernel.mem_live, Kernel.mem_live, Kernel.Live, Kernel.Live, htaken, hdropped]
  have hunread : k'.unread lag ⊆ k.unread lag := by
    intro id hid
    obtain ⟨hid, hdue⟩ := Kernel.mem_unread.mp hid
    rw [← Kernel.mem_live, hlive, Kernel.mem_live] at hid
    refine Kernel.mem_unread.mpr ⟨hid, fun hold => ?_⟩
    rw [← (hsettled id (hlaw.due id hold)).2]
    exact hdue (by omega)
  refine ⟨hlive ▸ hroom.live, (Finset.card_le_card hunread).trans hroom.unread, fun id hid => ?_⟩
  rw [hdropped] at hid
  obtain ⟨hs, hnil⟩ := hroom.heard id hid
  obtain ⟨hs', hsame⟩ := hsettled id hs
  exact ⟨hs', hsame.trans hnil⟩

/-- What is live behind a pass was accepted in it, or it was live and readable at most with something to read. -/
theorem Passed.live_cases (hpass : Passed k k') {id : ℕ} (hlive : k'.Live id) :
    (id = k.taken ∧ k.taken < k.made) ∨
      k.Live id ∧ ((k.conns id).Readable → (k.conns id).arrived ≠ [] ∧ k'.conns id = (k.conns id).read) := by
  obtain ⟨hid, hkept⟩ := hlive
  rw [hpass.taken] at hid
  rw [hpass.conns, Kernel.after] at hkept
  by_cases hnew : id = k.taken
  · refine .inl ⟨hnew, ?_⟩
    by_contra hnone
    rw [if_neg hnone] at hid
    omega
  · have hlt : id < k.taken := by
      split_ifs at hid <;> omega
    right
    by_cases hserved : k.Live id ∧ (k.conns id).Readable
    · rw [if_pos hserved] at hkept
      have hsome := ((served_dropped _).mp hkept).2
      refine ⟨hserved.1, fun _ => ⟨hsome, ?_⟩⟩
      rw [hpass.conns, Kernel.after, if_pos hserved, Conn.served, if_neg hsome]
    · rw [if_neg hserved] at hkept
      exact ⟨⟨hlt, hkept⟩, fun hread => absurd ⟨⟨hlt, hkept⟩, hread⟩ hserved⟩

/-- So a due one was unread, and is not unread any more. -/
theorem Passed.due (hpass : Passed k k') (hlaw : Law lag k pc) {id : ℕ} (hlive : k'.Live id) (hold : id ≠ k.taken)
    (hdue : id + lag + 1 < k.made) : (k.conns id).arrived ≠ [] ∧ (k'.conns id).arrived = [] := by
  rcases hpass.live_cases hlive with ⟨hnew, -⟩ | ⟨-, hread⟩
  · exact absurd hnew hold
  · -- its end has arrived, so it was readable
    obtain ⟨hsome, hnow⟩ := hread (.inr (hlaw.due id hdue).2)
    rw [hnow]
    exact ⟨hsome, (hlaw.ok id).read_arrived⟩

theorem Passed.live_sub (hpass : Passed k k') (hlaw : Law lag k pc) :
    k'.live ⊆ if k.taken < k.made then insert k.taken (k.unread lag) else k.live := by
  intro id hid
  rw [Kernel.mem_live] at hid
  split_ifs with hwaits
  · by_cases hnew : id = k.taken
    · exact hnew ▸ Finset.mem_insert_self _ _
    · obtain ⟨hwas, -⟩ := (hpass.live_cases hid).resolve_left fun hin => hnew hin.1
      exact Finset.mem_insert_of_mem (Kernel.mem_unread.mpr ⟨hwas, fun hdue => (hpass.due hlaw hid hnew hdue).1⟩)
  · obtain ⟨hwas, -⟩ := (hpass.live_cases hid).resolve_left fun hin => hwaits hin.2
    exact Kernel.mem_live.mpr hwas

/-- Behind a pass only connections that are not due are unread, beside the one it accepted. -/
theorem Passed.unread_sub (hpass : Passed k k') (hlaw : Law lag k pc) :
    k'.unread lag ⊆
      if k.taken < k.made then insert k.taken (Finset.Ico (k.made - (lag + 1)) k.taken)
      else Finset.Ico (k.made - (lag + 1)) k.taken := by
  intro id hid
  obtain ⟨hlive, hunread⟩ := Kernel.mem_unread.mp hid
  have hnotDue : id ≠ k.taken → k.made - (lag + 1) ≤ id := by
    intro hold
    by_contra hlt
    have hdue : id + lag + 1 < k.made := by omega
    exact hunread (hpass.made ▸ hdue) (hpass.due hlaw hlive hold hdue).2
  rcases hpass.live_cases hlive with ⟨rfl, hwaits⟩ | ⟨hwas, -⟩
  · rw [if_pos hwaits]
    exact Finset.mem_insert_self _ _
  · have hrange : id ∈ Finset.Ico (k.made - (lag + 1)) k.taken :=
      Finset.mem_Ico.mpr ⟨hnotDue hwas.1.ne, hwas.1⟩
    split_ifs
    · exact Finset.mem_insert_of_mem hrange
    · exact hrange

theorem Room.pass (hroom : Room lag k) (hlaw : Law lag k pc) (hqueue : k.taken ≤ k.made) (hpass : Passed k k') :
    Room lag k' := by
  have hlive := Finset.card_le_card (hpass.live_sub hlaw)
  have hunread := Finset.card_le_card (hpass.unread_sub hlaw)
  have hrange := Nat.card_Ico (k.made - (lag + 1)) k.taken
  refine ⟨?_, ?_, fun id hid => ?_⟩
  · -- the accepted connection has the place that the bound on the unread ones leaves
    split_ifs at hlive with hwaits
    · have := Finset.card_insert_le k.taken (k.unread lag)
      have := hroom.unread
      omega
    · exact hlive.trans hroom.live
  · split_ifs at hunread with hwaits
    · have := Finset.card_insert_le k.taken (Finset.Ico (k.made - (lag + 1)) k.taken)
      omega
    · omega
  · rw [hpass.conns, Kernel.after] at hid ⊢
    split_ifs at hid ⊢ with hserved
    · -- it was closed because nothing had arrived but the end
      have hnil : (k.conns id).arrived = [] := by
        by_contra hsome
        have := (served_dropped _).mpr ⟨hserved.1.2, hsome⟩
        rw [hid] at this
        cases this
      have hended : (k.conns id).ended = true := hserved.2.resolve_left fun hsome => hsome hnil
      rw [Conn.served, if_pos hnil]
      exact ⟨⟨((hlaw.ok id).ended hended).2, hended⟩, (hlaw.ok id).read_arrived⟩
    · exact hroom.heard id hid

theorem Room.moved (hroom : Room lag k) (hlaw : Law lag k pc) (hqueue : k.taken ≤ k.made) (hslots : lag + 2 < n)
    (hmoved : Moved n k k') : Room lag k' := by
  cases hmoved with
  | outside hmade htaken hdropped hsettled => exact hroom.outside hlaw hmade htaken hdropped hsettled
  | pass hpass _ => exact hroom.pass hlaw hqueue hpass
  | refuse _ hfull =>
    have := hroom.live
    omega

/-- **With more than `lag + 2` slots there is always room.** -/
theorem always_room (hslots : lag + 2 < n) {net : Net n} (hnet : (exchange h n lag).Reachable net) :
    Room lag net.kernel := by
  suffices hall : ∃ s, Inv h lag net s ∧ Room lag net.kernel from hall.choose_spec.2
  refine (exchange h n lag).invariant (P := fun net => ∃ s, Inv h lag net s ∧ Room lag net.kernel)
    ⟨_, .start h lag, .start lag⟩ ?_ hnet
  rintro net e net' - ⟨s, hinv, hroom⟩ hstep
  obtain ⟨s', hinv', hmoved⟩ := hinv.step hstep
  exact ⟨s', hinv', hroom.moved hinv.law hinv.fits.queue hslots hmoved⟩

theorem allHeard_of_room (hslots : lag + 2 < n) : AllHeard h n lag := by
  intro net hnet id hdropped
  obtain ⟨s, hinv⟩ := runs_and_fits hnet
  obtain ⟨hs, hnil⟩ := (always_room hslots hnet).heard id hdropped
  have hbytes := (hinv.law.ok id).bytes
  rw [hnil, hs.1, List.append_nil, List.append_nil] at hbytes
  exact hbytes

end Room

/-! ## Too few -/

/-- A connection that the client has left, and nothing of which has arrived. -/
def Conn.sent : Conn := fresh.write.close

/-- And one where everything has. -/
def Conn.here : Conn := (sent.arrive str.length).finish

section Fill

variable {s : Srv n} {k : Kernel} {f g : ℕ → Conn} {made taken : ℕ}

/-- The two can come to where so many connections are made, so many accepted, and they are like `f`. -/
def Reaches (h : Host) (n lag made taken : ℕ) (f : ℕ → Conn) : Prop :=
  ∃ net, (exchange h n lag).Reachable net ∧ net.pc = .socket ∧ net.kernel.made = made ∧ net.kernel.taken = taken ∧
    ∀ id < made, net.kernel.conns id = f id

theorem Reaches.start : Reaches h n lag 0 0 f := ⟨_, .init, rfl, rfl, rfl, fun _ hid => absurd hid (Nat.not_lt_zero _)⟩

theorem Reaches.congr (hr : Reaches h n lag made taken f) (heq : ∀ id < made, f id = g id) :
    Reaches h n lag made taken g := by
  obtain ⟨net, hnet, hpc, hmade, htaken, hconns⟩ := hr
  exact ⟨net, hnet, hpc, hmade, htaken, fun id hid => (hconns id hid).trans (heq id hid)⟩

/-- Everything arrives on one connection. -/
theorem Reaches.settle (hr : Reaches h n lag made taken f) {id : ℕ} (hid : id < made) (hsent : f id = .sent) :
    Reaches h n lag made taken (Function.update f id .here) := by
  obtain ⟨net, hnet, hpc, hmade, htaken, hconns⟩ := hr
  have hnow : net.kernel.conns id = .sent := (hconns id hid).trans hsent
  have harrive : (exchange h n lag).step net (.arrive id str.length) =
      some { net with kernel := net.kernel.set id (·.arrive str.length) } := by
    refine if_pos ?_
    rw [hnow]
    decide
  have hfinish : (exchange h n lag).step { net with kernel := net.kernel.set id (·.arrive str.length) } (.finish id) =
      some { net with kernel := (net.kernel.set id (·.arrive str.length)).set id .finish } := by
    refine if_pos ?_
    show ((net.kernel.set id (·.arrive str.length)).conns id).closed = true ∧
      ((net.kernel.set id (·.arrive str.length)).conns id).onWay = []
    rw [set_conns_self, hnow]
    decide
  refine ⟨_, (hnet.step _ harrive).step _ hfinish, hpc, hmade, htaken, fun id' hid' => ?_⟩
  show ((net.kernel.set id (·.arrive str.length)).set id .finish).conns id' = _
  by_cases hsame : id' = id
  · subst hsame
    rw [set_conns_self, set_conns_self, hnow, Function.update_self]
    rfl
  · rw [set_conns_of_ne _ hsame, set_conns_of_ne _ hsame, Function.update_of_ne hsame]
    exact hconns id' hid'

/-- Everything arrives on all. -/
theorem Reaches.settle_all (hr : Reaches h n lag made taken fun _ => .sent) :
    Reaches h n lag made taken fun _ => .here := by
  -- on the first `m` of them
  have hfirst : ∀ m ≤ made, Reaches h n lag made taken fun id => if id < m then .here else .sent := by
    intro m
    induction m with
    | zero => exact fun _ => hr
    | succ m ih =>
      intro hm
      refine ((ih (Nat.le_of_succ_le hm)).settle hm (if_neg (Nat.lt_irrefl m))).congr fun id _ => ?_
      by_cases hid : id = m
      · rw [hid, Function.update_self, if_pos (Nat.lt_succ_self m)]
      · rw [Function.update_of_ne hid]
        exact if_congr (by omega) rfl rfl
  exact (hfirst made (Nat.le_refl _)).congr fun id hid => if_pos hid

/-- The client makes a connection, writes, and closes it. -/
theorem Reaches.connection (hr : Reaches h n lag made taken f) (hdue : ∀ id < made - lag, (f id).Settled) :
    Reaches h n lag (made + 1) taken (Function.update f made .sent) := by
  obtain ⟨net, hnet, hpc, hmade, htaken, hconns⟩ := hr
  obtain ⟨s, hinv⟩ := runs_and_fits hnet
  have hfresh : net.kernel.conns made = .fresh := hinv.law.new made hmade.le
  have hsocket : (exchange h n lag).step net (.socket true) = some (net.goto .connect net.kernel) := if_pos hpc
  have hconnect : (exchange h n lag).step (net.goto .connect net.kernel) (.connect true) =
      some (net.goto .write { net.kernel with made := made + 1 }) := by
    refine (if_pos ⟨rfl, fun id hid => ?_⟩).trans (by rw [← hmade]; rfl)
    have hid : id < net.kernel.made - lag := hid
    rw [hmade] at hid
    exact (hconns id (by omega)).symm ▸ hdue id hid
  have hwrite : (exchange h n lag).step (net.goto .write { net.kernel with made := made + 1 }) (.write true) =
      some (net.goto (.close true) (({ net.kernel with made := made + 1 } : Kernel).set made .write)) := rfl
  have hclose : (exchange h n lag).step
      (net.goto (.close true) (({ net.kernel with made := made + 1 } : Kernel).set made .write)) .close =
      some (net.goto .socket ((({ net.kernel with made := made + 1 } : Kernel).set made .write).set made .close)) := rfl
  refine ⟨_, (((hnet.step _ hsocket).step _ hconnect).step _ hwrite).step _ hclose, rfl, rfl, htaken, fun id hid => ?_⟩
  show ((({ net.kernel with made := made + 1 } : Kernel).set made .write).set made .close).conns id = _
  by_cases hnew : id = made
  · subst hnew
    rw [set_conns_self, set_conns_self, Function.update_self]
    show (net.kernel.conns id).write.close = .sent
    rw [hfresh]
    rfl
  · rw [set_conns_of_ne _ hnew, set_conns_of_ne _ hnew, Function.update_of_ne hnew]
    exact hconns id (by omega)

/-- When a connection waits, the server can make a pass. -/
theorem Fits.exists_pass (hfits : Fits h k s) (hwaits : k.taken < k.made) :
    ∃ a, Reports h k s a ∧ Selected h k s a := by
  obtain ⟨t, hrep⟩ := server_represents hfits.atHead
  have hmaster : h.masterSock ∈ s.activeFds := (hrep.tracks.mem_active _).mpr (.inl rfl)
  -- `accept` returns a descriptor that is not open
  obtain ⟨fd, hfresh⟩ := Infinite.exists_notMem_finset (s.opened.image Int.toNat)
  have hnew : (fd : ℤ) ∉ s.opened := fun hmem => hfresh (Finset.mem_image.mpr ⟨fd, hmem, Int.toNat_natCast fd⟩)
  -- `select` reports the listener at least
  have hready : ∃ R ⊆ s.activeFds, ∀ fd ∈ s.activeFds,
      fd ∈ R ↔ if fd = h.masterSock then k.taken < k.made else (k.conn fd).Readable :=
    ⟨s.activeFds.filter fun fd => if fd = h.masterSock then k.taken < k.made else (k.conn fd).Readable,
      Finset.filter_subset _ _, fun fd hfd => by rw [Finset.mem_filter, and_iff_right hfd]⟩
  obtain ⟨R, hsub, hready⟩ := hready
  have hlistener : h.masterSock ∈ R := (hready _ hmaster).mpr (by rwa [if_pos rfl])
  have ha : Reports h k s ⟨R.card, R, fd, fun i => .data ((k.conn (s.cliSocks i)).arrived.take recvMax)⟩ :=
    ⟨⟨.inr ⟨hsub, rfl⟩, .inr hnew⟩,
      .inr ⟨rfl, Finset.ne_empty_of_mem hlistener, Int.natCast_nonneg fd, hready, fun _ _ => rfl⟩⟩
  exact ⟨_, ha, ha.selected.resolve_left fun hfails => by
    have hcard : (R.card : ℤ) = -1 := hfails
    omega⟩

theorem Inv.step_pass {net : Net n} {a : Answers n} (hinv : Inv h lag net s) (ha : Reports h net.kernel s a) :
    (exchange h n lag).step net (.pass a) =
      some { net with srv := (s.body h a).loopBack, kernel := net.kernel.calls (s.body h a).state.evs } := by
  show Net.step h lag net (.pass a) = _
  simp only [Net.step, hinv.srv]
  exact if_pos ha

/-- A pass with a free slot. -/
theorem Reaches.pass (hr : Reaches h n lag made taken f) (hwaits : taken < made) (hroom : taken < n)
    (hkept : ∀ id < taken, (f id).dropped = false) :
    Reaches h n lag made (taken + 1) fun id => if id < taken ∧ (f id).Readable then (f id).served else f id := by
  obtain ⟨net, hnet, hpc, hmade, htaken, hconns⟩ := hr
  obtain ⟨s, hinv⟩ := runs_and_fits hnet
  have hwaits' : net.kernel.taken < net.kernel.made := by omega
  obtain ⟨a, ha, hsel⟩ := hinv.fits.exists_pass hwaits'
  have hfree : net.kernel.live.card < n := by
    have hle : net.kernel.live.card ≤ (Finset.range net.kernel.taken).card := Finset.card_filter_le _ _
    rw [Finset.card_range] at hle
    omega
  obtain ⟨s', hbody, hfits', hpass⟩ := hinv.fits.pass ha hsel fun _ => hfree
  refine ⟨_, hnet.step _ (hinv.step_pass ha), hpc, hpass.made.trans hmade, ?_, fun id hid => ?_⟩
  · rw [hpass.taken, if_pos hwaits', htaken]
  · rw [hpass.conns, Kernel.after, hconns id hid]
    refine if_congr (and_congr_left fun _ => ?_) rfl rfl
    rw [Kernel.Live, htaken, hconns id hid]
    exact and_iff_left_of_imp (hkept id)

/-- The next connection finds no slot, and what was written there is lost. -/
theorem Reaches.lost (hr : Reaches h n lag made taken f) (hwaits : taken < made) (hfull : n ≤ taken)
    (hkept : ∀ id < taken, (f id).dropped = false) (hsent : f taken = .sent) : ¬ AllHeard h n lag := by
  intro hall
  obtain ⟨net, hnet, hpc, hmade, htaken, hconns⟩ := hr
  obtain ⟨s, hinv⟩ := runs_and_fits hnet
  have hwaits' : net.kernel.taken < net.kernel.made := by omega
  obtain ⟨a, ha, hsel⟩ := hinv.fits.exists_pass hwaits'
  have hnone : n ≤ net.kernel.live.card := by
    have hlive : net.kernel.live = Finset.range taken := by
      refine (Finset.filter_true_of_mem fun id hid => ?_).trans (by rw [htaken])
      have hid : id < taken := htaken ▸ Finset.mem_range.mp hid
      rw [hconns id (hid.trans hwaits), hkept id hid]
    rwa [hlive, Finset.card_range]
  obtain ⟨s', hbody, -, -, hnow⟩ := hinv.fits.refuse ha hsel hwaits' hnone
  have hlast : (net.kernel.calls (s.body h a).state.evs).conns taken = Conn.sent.drop := by
    rw [hnow, htaken, set_conns_self, hconns taken hwaits, hsent]
  have hgot := hall _ (hnet.step _ (hinv.step_pass ha)) taken (by rw [hlast]; rfl)
  rw [hlast] at hgot
  cases hgot

/-- The client fills slots while nothing arrives. -/
theorem reaches_fill (hn : made ≤ n) (hlag : made ≤ lag + 1) : Reaches h n lag made made fun _ => .sent := by
  induction made with
  | zero => exact .start
  | succ k ih =>
    have hr := (ih (Nat.le_of_succ_le hn) (Nat.le_of_succ_le hlag)).connection fun id hid => by omega
    have hsame : Function.update (fun _ => Conn.sent) k .sent = fun _ => .sent := Function.update_eq_self k _
    rw [hsame] at hr
    -- the pass finds nothing to read
    refine (hr.pass (Nat.lt_succ_self k) hn fun _ _ => rfl).congr fun id _ => ?_
    refine if_neg fun hserved => ?_
    rcases hserved.2 with hsome | hended
    · exact hsome rfl
    · cases hended

/-- **With `lag + 2` or fewer it can use them all up.** -/
theorem not_allHeard (hslots : n ≤ lag + 2) : ¬ AllHeard h n lag := by
  by_cases hfew : n ≤ lag + 1
  · have hr := (reaches_fill (h := h) (Nat.le_refl n) hfew).settle_all.connection fun _ _ => ⟨rfl, rfl⟩
    refine hr.lost (Nat.lt_succ_self n) (Nat.le_refl n) (fun id hid => ?_) (Function.update_self _ _ _)
    rw [Function.update_of_ne hid.ne]
    rfl
  · -- one that comes while everything arrives on the others
    have hfill : Reaches h n lag (lag + 1) (lag + 1) fun _ => .sent := reaches_fill (by omega) (Nat.le_refl _)
    have hr := hfill.settle_all.connection fun _ _ => ⟨rfl, rfl⟩
    have hr := hr.pass (Nat.lt_succ_self _) (by omega) fun id hid => by
      rw [Function.update_of_ne hid.ne]
      rfl
    -- the pass that accepts it reads them for the first time, and so closes none
    have hf : ∀ id < lag + 1 + 1, (if id < lag + 1 ∧ (Function.update (fun _ => Conn.here) (lag + 1) .sent id).Readable
        then (Function.update (fun _ => Conn.here) (lag + 1) .sent id).served
        else Function.update (fun _ => Conn.here) (lag + 1) .sent id) =
        Function.update (fun _ => Conn.here.read) (lag + 1) .sent id := by
      intro id hid
      by_cases hlast : id = lag + 1
      · rw [hlast, Function.update_self, Function.update_self, if_neg fun hlt => Nat.lt_irrefl _ hlt.1]
      · rw [Function.update_of_ne hlast, Function.update_of_ne hlast, if_pos ⟨by omega, .inr rfl⟩]
        rfl
    have hr := (hr.congr hf).settle (Nat.lt_succ_self _) (Function.update_self _ _ _)
    rw [Function.update_idem] at hr
    have hr := hr.connection fun id hid => by
      by_cases hlast : id = lag + 1
      · rw [hlast, Function.update_self]
        exact ⟨rfl, rfl⟩
      · rw [Function.update_of_ne hlast]
        exact ⟨rfl, rfl⟩
    refine hr.lost (Nat.lt_succ_self _) (by omega) (fun id hid => ?_) (Function.update_self _ _ _)
    rw [Function.update_of_ne hid.ne]
    by_cases hlast : id = lag + 1
    · rw [hlast, Function.update_self]
      rfl
    · rw [Function.update_of_ne hlast]
      rfl

end Fill

/-- **The server hears everything exactly if it has more than `lag + 2` slots.**  Calls of the client may fail; `accept`
and the `read`s of the server do not. -/
theorem allHeard_iff (h : Host) (n lag : ℕ) : AllHeard h n lag ↔ lag + 2 < n := by
  constructor
  · intro hall
    by_contra hfew
    exact not_allHeard (Nat.le_of_not_lt hfew) hall
  · exact allHeard_of_room

end NetProg.Exchange
