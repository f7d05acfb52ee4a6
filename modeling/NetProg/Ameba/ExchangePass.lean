/-
# NetProg.Ameba.ExchangePass -- what a pass of `ameba/tcp_select_server.c` does to the connections.

The slots and the connections that are accepted and not closed belong to each other (`Fits`).  So a pass can be told
without slots and descriptors: every such connection that is readable is read once, and closed if that gave nothing
(`Kernel.after`); and one that waits is accepted, or, if there is no slot, accepted and closed (`Fits.pass`).
-/
import NetProg.Ameba.Exchange
import NetProg.Server.BetterRefusal

namespace NetProg.Exchange

open SelectSrvBetter

variable {n : ℕ} {h : Host} {s s' : Srv n} {k : Kernel} {a : Answers n}

/-! ## The calls of a pass -/

theorem calls_append (k : Kernel) (l l' : List (Ev n)) : k.calls (l ++ l') = (k.calls l).calls l' :=
  List.foldl_append

@[simp] theorem set_conns_self (k : Kernel) (id : ℕ) (f : Conn → Conn) : (k.set id f).conns id = f (k.conns id) :=
  Function.update_self _ _ _

theorem set_conns_of_ne (k : Kernel) {id id' : ℕ} (hne : id' ≠ id) (f : Conn → Conn) :
    (k.set id f).conns id' = k.conns id' :=
  Function.update_of_ne hne _ _

/-- The tests do nothing to the connections. -/
theorem calls_effects (k : Kernel) (l : List (Ev n)) : k.calls (effects l) = k.calls l := by
  induction l generalizing k with
  | nil => rfl
  | cons e l ih =>
    cases e with
    | fdIsset fd => exact ih k
    | accept fd => exact ih (k.call (.accept fd : Ev n))
    | close fd => exact ih (k.call (.close fd : Ev n))
    | fdSet fd => exact ih (k.call (.fdSet fd : Ev n))
    | fdClr fd => exact ih (k.call (.fdClr fd : Ev n))
    | read fd ans => exact ih (k.call (.read fd ans : Ev n))
    | setSlot i fd => exact ih (k.call (.setSlot i fd : Ev n))

/-- The server reads a connection, and closes it if there was nothing. -/
def Conn.served (c : Conn) : Conn := if c.arrived = [] then c.read.drop else c.read

/-- What one `serve` does to the connections. -/
theorem calls_serve (k : Kernel) (s : Srv n) (i : Fin n) {c : Conn} (hc : (k.calls s.evs).conn (s.cliSocks i) = c) :
    k.calls ((s.isset i).serve i (.data (c.arrived.take recvMax))).evs =
      (k.calls s.evs).set ((k.calls s.evs).connAt (s.cliSocks i)) Conn.served := by
  subst hc
  generalize hk : k.calls s.evs = k'
  unfold Srv.serve
  by_cases harrived : (k'.conn (s.cliSocks i)).arrived = []
  · have hgone : (ReadAnswer.data ((k'.conn (s.cliSocks i)).arrived.take recvMax)).gone = true := by
      simp [ReadAnswer.gone, harrived]
    rw [if_pos hgone]
    simp only [Srv.setSlot, Srv.fdClr, Srv.close, Srv.isset, Srv.log, calls_append, hk]
    simp only [Kernel.calls, List.foldl_cons, List.foldl_nil, Kernel.call, Kernel.set, Function.update_self,
      Function.update_idem]
    have hserved : (k'.conns (k'.connAt (s.cliSocks i))).served = (k'.conns (k'.connAt (s.cliSocks i))).read.drop :=
      if_pos harrived
    rw [hserved]
  · have hgone : ¬ (ReadAnswer.data ((k'.conn (s.cliSocks i)).arrived.take recvMax)).gone = true := by
      simp [ReadAnswer.gone, harrived, recvMax]
    rw [if_neg hgone]
    simp only [Srv.isset, Srv.log, calls_append, hk]
    have hserved : (k'.conns (k'.connAt (s.cliSocks i))).served = (k'.conns (k'.connAt (s.cliSocks i))).read :=
      if_neg harrived
    simp only [Kernel.calls, List.foldl_cons, List.foldl_nil, Kernel.call, Kernel.set, hserved]

/-- The slot that was served. -/
theorem serve_cliSocks_self (s : Srv n) (i : Fin n) {c : Conn} :
    ((s.isset i).serve i (.data (c.arrived.take recvMax))).cliSocks i =
      if c.arrived = [] then -1 else s.cliSocks i := by
  unfold Srv.serve
  by_cases harrived : c.arrived = []
  · have hgone : (ReadAnswer.data (c.arrived.take recvMax)).gone = true := by simp [ReadAnswer.gone, harrived]
    rw [if_pos hgone, if_pos harrived]
    simp [Srv.setSlot, Srv.log]
  · have hgone : ¬ (ReadAnswer.data (c.arrived.take recvMax)).gone = true := by
      simp [ReadAnswer.gone, harrived, recvMax]
    rw [if_neg hgone, if_neg harrived]
    rfl

/-- What the scan did: the connections behind the ready slots were served. -/
structure Scanned (k k' : Kernel) (s s' : Srv n) (is : List (Fin n)) : Prop where
  made : k'.made = k.made
  taken : k'.taken = k.taken
  connAt : k'.connAt = k.connAt
  conns : ∀ id, k'.conns id =
    if ∃ i ∈ is, s.Ready i ∧ k.connAt (s.cliSocks i) = id then (k.conns id).served else k.conns id
  slots : ∀ j, s'.cliSocks j =
    if j ∈ is ∧ s.Ready j ∧ (k.conn (s.cliSocks j)).arrived = [] then -1 else s.cliSocks j

/-- A slot that is not ready changes nothing. -/
theorem Scanned.skip {k' : Kernel} {is : List (Fin n)} {i : Fin n} (hscan : Scanned k k' s s' is)
    (hi : ¬ s.Ready i) : Scanned k k' s s' (i :: is) := by
  refine ⟨hscan.made, hscan.taken, hscan.connAt, fun id => ?_, fun j => ?_⟩
  · rw [hscan.conns id]
    refine if_congr ?_ rfl rfl
    simp [hi]
  · rw [hscan.slots j]
    refine if_congr ?_ rfl rfl
    rw [List.mem_cons]
    constructor
    · exact fun hj => ⟨.inr hj.1, hj.2⟩
    · rintro ⟨rfl | hj, hrest⟩
      · exact absurd hrest.1 hi
      · exact ⟨hj, hrest⟩

/-- Slot `i` was served: one connection changes, and at most that slot. -/
structure ServedSlot (k k₁ : Kernel) (s s₁ : Srv n) (i : Fin n) : Prop where
  ready : s.Ready i
  kernel : k₁ = k.set (k.connAt (s.cliSocks i)) Conn.served
  self : s₁.cliSocks i = if (k.conn (s.cliSocks i)).arrived = [] then -1 else s.cliSocks i
  other : ∀ j, j ≠ i → s₁.cliSocks j = s.cliSocks j
  rfds : s₁.rfds = s.rfds

section ServedSlot

variable {k₁ k' : Kernel} {s₁ : Srv n} {i j : Fin n} {is : List (Fin n)}

theorem serve_servedSlot (k : Kernel) (hready : s.Ready i) :
    ServedSlot (k.calls s.evs)
      (k.calls ((s.isset i).serve i (.data (((k.calls s.evs).conn (s.cliSocks i)).arrived.take recvMax))).evs)
      s ((s.isset i).serve i (.data (((k.calls s.evs).conn (s.cliSocks i)).arrived.take recvMax))) i where
  ready := hready
  kernel := calls_serve k s i rfl
  self := serve_cliSocks_self s i
  other _ hj := serve_cliSocks_ne (s.isset i) hj _
  rfds := serve_rfds (s.isset i) i _

/-- A slot that is ready now was ready before. -/
theorem ServedSlot.ready_before (h : ServedSlot k k₁ s s₁ i) (hj : s₁.Ready j) :
    s.Ready j ∧ s₁.cliSocks j = s.cliSocks j := by
  by_cases hji : j = i
  · subst hji
    refine ⟨h.ready, ?_⟩
    by_contra hne
    have hself := h.self
    split_ifs at hself with hnil
    · have hneg : s₁.cliSocks j < 0 := by
        rw [hself]
        decide
      exact hj.1 hneg
    · exact hne hself
  · refine ⟨?_, h.other j hji⟩
    rwa [Srv.Ready, h.other j hji, h.rfds] at hj

theorem ServedSlot.ready_iff (h : ServedSlot k k₁ s s₁ i) (hji : j ≠ i) : s₁.Ready j ↔ s.Ready j := by
  rw [Srv.Ready, h.other j hji, h.rfds]
  rfl

theorem ServedSlot.connAt (h : ServedSlot k k₁ s s₁ i) : k₁.connAt = k.connAt := by
  rw [h.kernel]
  rfl

/-- The connections behind the other slots are as they were. -/
theorem ServedSlot.conn (h : ServedSlot k k₁ s s₁ i)
    (hinj : ∀ i j, s.Ready i → s.Ready j → k.connAt (s.cliSocks i) = k.connAt (s.cliSocks j) → i = j)
    (hji : j ≠ i) (hready : s.Ready j) : k₁.conn (s.cliSocks j) = k.conn (s.cliSocks j) := by
  rw [h.kernel]
  exact set_conns_of_ne _ (fun heq => hji (hinj j i hready h.ready heq)) _

/-- Serving a slot and scanning those behind it scans all of them. -/
theorem ServedSlot.scanned (h : ServedSlot k k₁ s s₁ i) (hi : i ∉ is)
    (hinj : ∀ i j, s.Ready i → s.Ready j → k.connAt (s.cliSocks i) = k.connAt (s.cliSocks j) → i = j)
    (hscan : Scanned k₁ k' s₁ s' is) : Scanned k k' s s' (i :: is) := by
  have hmem : ∀ j ∈ is, j ≠ i := by
    rintro j hj rfl
    exact hi hj
  refine ⟨?_, ?_, hscan.connAt.trans h.connAt, fun id => ?_, fun j => ?_⟩
  · rw [hscan.made, h.kernel]
    rfl
  · rw [hscan.taken, h.kernel]
    rfl
  · have hahead : (∃ j ∈ is, s₁.Ready j ∧ k₁.connAt (s₁.cliSocks j) = id) ↔
        ∃ j ∈ is, s.Ready j ∧ k.connAt (s.cliSocks j) = id := by
      rw [h.connAt]
      refine exists_congr fun j => and_congr_right fun hj => ?_
      rw [h.ready_iff (hmem j hj), h.other j (hmem j hj)]
    rw [hscan.conns id, if_congr hahead rfl rfl, h.kernel]
    by_cases hid : id = k.connAt (s.cliSocks i)
    · -- no other slot has the connection of this one
      subst hid
      have hnone : ¬ ∃ j ∈ is, s.Ready j ∧ k.connAt (s.cliSocks j) = k.connAt (s.cliSocks i) := by
        rintro ⟨j, hj, hjready, heq⟩
        exact hmem j hj (hinj j i hjready h.ready heq)
      rw [if_neg hnone, set_conns_self, if_pos ⟨i, List.mem_cons_self, h.ready, rfl⟩]
    · rw [set_conns_of_ne _ hid]
      refine if_congr ?_ rfl rfl
      simp [h.ready, Ne.symm hid]
  · rw [hscan.slots j]
    by_cases hj : j = i
    · subst hj
      rw [if_neg (fun hmem => hi hmem.1), h.self]
      refine if_congr ?_ rfl rfl
      simp [h.ready]
    · rw [h.other j hj]
      refine if_congr ?_ rfl rfl
      constructor
      · rintro ⟨hjmem, hjready, hnil⟩
        have hjready' := (h.ready_iff hj).mp hjready
        rw [h.conn hinj hj hjready'] at hnil
        exact ⟨List.mem_cons_of_mem i hjmem, hjready', hnil⟩
      · rintro ⟨hjmem, hjready, hnil⟩
        refine ⟨(List.mem_cons.mp hjmem).resolve_left hj, (h.ready_iff hj).mpr hjready, ?_⟩
        rwa [h.conn hinj hj hjready]

end ServedSlot

/-- **The scan serves the ready slots**, each with its own connection. -/
theorem plainScan_scanned (k : Kernel) {read : Fin n → ReadAnswer} {is : List (Fin n)} (hnodup : is.Nodup)
    (hinj : ∀ i j, s.Ready i → s.Ready j →
      (k.calls s.evs).connAt (s.cliSocks i) = (k.calls s.evs).connAt (s.cliSocks j) → i = j)
    (hread : ∀ i ∈ is, s.Ready i → read i = .data (((k.calls s.evs).conn (s.cliSocks i)).arrived.take recvMax)) :
    Scanned (k.calls s.evs) (k.calls (plainScan read is s).evs) s (plainScan read is s) is := by
  induction is generalizing s with
  | nil => exact ⟨rfl, rfl, rfl, fun id => by simp [plainScan], fun j => by simp [plainScan]⟩
  | cons i is ih =>
    obtain ⟨hi, hnodup⟩ := List.nodup_cons.mp hnodup
    rw [plainScan]
    by_cases hready : s.Ready i
    · rw [if_neg hready.1, if_pos hready.2, hread i List.mem_cons_self hready]
      have hserved := serve_servedSlot k hready
      refine hserved.scanned hi hinj (ih hnodup ?_ ?_)
      · intro j j' hj hj' heq
        obtain ⟨hj, hsame⟩ := hserved.ready_before hj
        obtain ⟨hj', hsame'⟩ := hserved.ready_before hj'
        rw [hsame, hsame', hserved.connAt] at heq
        exact hinj j j' hj hj' heq
      · intro j hj hjready
        obtain ⟨hjready, hsame⟩ := hserved.ready_before hjready
        have hji : j ≠ i := fun heq => hi (heq ▸ hj)
        rw [hsame, hserved.conn hinj hji hjready]
        exact hread j (List.mem_cons_of_mem i hj) hjready
    · have hrest : Scanned (k.calls s.evs) (k.calls (plainScan read is s).evs) s (plainScan read is s) is :=
        ih hnodup hinj fun j hj => hread j (List.mem_cons_of_mem i hj)
      by_cases hfree : s.cliSocks i < 0
      · rw [if_pos hfree]
        exact hrest.skip hready
      · rw [if_neg hfree, if_neg fun hmem => hready ⟨hfree, hmem⟩]
        have hcalls : k.calls (s.isset i).evs = k.calls s.evs := by
          simp only [Srv.isset, Srv.log, calls_append]
          rfl
        have hscan := ih (s := s.isset i) hnodup (by rwa [hcalls]) (by
          rw [hcalls]
          exact fun j hj => hread j (List.mem_cons_of_mem i hj))
        rw [hcalls] at hscan
        exact Scanned.skip ⟨hscan.made, hscan.taken, hscan.connAt, hscan.conns, hscan.slots⟩ hready

/-! ## The slots and the connections -/

/-- The connection was accepted, and not closed. -/
def Kernel.Live (k : Kernel) (id : ℕ) : Prop := id < k.taken ∧ (k.conns id).dropped = false

/-- The occupied slots have the live connections, each in one slot. -/
structure Slots (k : Kernel) (s : Srv n) : Prop where
  inj : ∀ i j, 0 ≤ s.cliSocks i → 0 ≤ s.cliSocks j →
    k.connAt (s.cliSocks i) = k.connAt (s.cliSocks j) → i = j
  live : ∀ id, k.Live id ↔ ∃ i, 0 ≤ s.cliSocks i ∧ k.connAt (s.cliSocks i) = id

theorem served_dropped (c : Conn) : c.served.dropped = false ↔ c.dropped = false ∧ c.arrived ≠ [] := by
  unfold Conn.served
  split_ifs with hnil
  · simp [Conn.drop, hnil]
  · simp [Conn.read, hnil]

/-- The scan keeps that. -/
theorem Slots.scan (hslots : Slots k s) {k' : Kernel} (hscan : Scanned k k' s s' (List.finRange n)) :
    Slots k' s' := by
  have hslot : ∀ i, 0 ≤ s'.cliSocks i → ¬ (s.Ready i ∧ (k.conn (s.cliSocks i)).arrived = []) ∧
      s'.cliSocks i = s.cliSocks i := by
    intro i hi
    have hnow := hscan.slots i
    rw [if_congr (and_iff_right (List.mem_finRange i)) rfl rfl] at hnow
    split_ifs at hnow with hgone
    · omega
    · exact ⟨hgone, hnow⟩
  refine ⟨fun i j hi hj heq => ?_, fun id => ⟨fun hlive => ?_, ?_⟩⟩
  · have hsame := (hslot i hi).2
    have hsame' := (hslot j hj).2
    rw [hsame] at hi
    rw [hsame'] at hj
    rw [hsame, hsame', hscan.connAt] at heq
    exact hslots.inj i j hi hj heq
  · obtain ⟨hid, hkept⟩ := hlive
    rw [hscan.taken] at hid
    rw [hscan.conns id] at hkept
    have hwas : (k.conns id).dropped = false := by
      split_ifs at hkept
      · exact ((served_dropped _).mp hkept).1
      · exact hkept
    obtain ⟨i, hi, rfl⟩ := (hslots.live id).mp ⟨hid, hwas⟩
    have hstays : ¬ (s.Ready i ∧ (k.conn (s.cliSocks i)).arrived = []) := by
      rintro ⟨hready, hnil⟩
      rw [if_pos ⟨i, List.mem_finRange i, hready, rfl⟩] at hkept
      exact ((served_dropped _).mp hkept).2 hnil
    have hsame : s'.cliSocks i = s.cliSocks i := by
      rw [hscan.slots i, if_neg (fun hgone => hstays hgone.2)]
    exact ⟨i, hsame ▸ hi, by rw [hscan.connAt, hsame]⟩
  · rintro ⟨i, hi, rfl⟩
    obtain ⟨hstays, hsame⟩ := hslot i hi
    rw [hsame] at hi ⊢
    rw [hscan.connAt]
    obtain ⟨hid, hwas⟩ := (hslots.live _).mpr ⟨i, hi, rfl⟩
    refine ⟨hscan.taken ▸ hid, ?_⟩
    rw [hscan.conns]
    split_ifs with hserved
    · obtain ⟨j, -, hready, heq⟩ := hserved
      obtain rfl := hslots.inj j i (Int.not_lt.mp hready.1) hi heq
      exact (served_dropped _).mpr ⟨hwas, fun hnil => hstays ⟨hready, hnil⟩⟩
    · exact hwas

/-- What holds of the connections and the server at a loop head. -/
structure Fits (h : Host) (k : Kernel) (s : Srv n) : Prop where
  atHead : AtHead (server n h) s
  slots : Slots k s
  waiting : ∀ id, k.taken ≤ id → (k.conns id).dropped = false
  queue : k.taken ≤ k.made

/-- The live connections. -/
def Kernel.live (k : Kernel) : Finset ℕ := (Finset.range k.taken).filter fun id => (k.conns id).dropped = false

theorem Kernel.mem_live {id : ℕ} : id ∈ k.live ↔ k.Live id := by
  rw [Kernel.live, Finset.mem_filter, Finset.mem_range]
  rfl

/-- **They are as many as there are occupied slots.** -/
theorem Fits.free_iff (hfits : Fits h k s) : (∃ i, s.cliSocks i < 0) ↔ k.live.card < n := by
  obtain ⟨t, hrep⟩ := server_represents hfits.atHead
  have himage : k.live = t.occupied.image fun i => k.connAt (t.slot i) := by
    ext id
    simp [Kernel.mem_live, hfits.slots.live, SlotTable.occupied, hrep.tracks.slots]
  have hcard : k.live.card = t.count := by
    rw [himage]
    refine Finset.card_image_of_injOn fun i hi j hj heq => ?_
    have hi : 0 ≤ t.slot i := by simpa [SlotTable.occupied] using hi
    have hj : 0 ≤ t.slot j := by simpa [SlotTable.occupied] using hj
    exact hfits.slots.inj i j (hrep.tracks.slots ▸ hi) (hrep.tracks.slots ▸ hj) (hrep.tracks.slots ▸ heq)
  rw [hcard, hrep.tracks.slots]
  constructor
  · rintro ⟨i, hi⟩
    refine lt_of_le_of_ne t.count_le fun hfull => ?_
    have hall : t.occupied = Finset.univ := by
      rw [← Finset.card_eq_iff_eq_univ, Fintype.card_fin]
      exact hfull
    have hocc : i ∈ t.occupied := hall ▸ Finset.mem_univ i
    have : 0 ≤ t.slot i := by simpa [SlotTable.occupied] using hocc
    omega
  · intro hroom
    obtain ⟨i, hi⟩ := SlotTable.exists_free hroom
    exact ⟨i, by omega⟩

/-! ## One pass -/

/-- `accept` in the kernel. -/
def Kernel.accept (k : Kernel) (fd : ℤ) : Kernel :=
  { k with taken := k.taken + 1, connAt := Function.update k.connAt fd k.taken }

/-- A connection that was accepted into a slot. -/
theorem register_of_free (hfree : ∃ i, s.cliSocks i < 0) {fd : ℤ} (hfd : 0 ≤ fd) (k : Kernel) :
    ∃ s₁ i, s.register fd = .next s₁ ∧ s.cliSocks i < 0 ∧ s₁.cliSocks = Function.update s.cliSocks i fd ∧
      s₁.rfds = s.rfds ∧ k.calls s₁.evs = (k.calls s.evs).accept fd := by
  cases hslot : SlotTable.firstSlot (fun fd => decide (fd < 0)) s.cliSocks with
  | none =>
    obtain ⟨i, hi⟩ := hfree
    have := SlotTable.firstSlot_none hslot i
    simp [hi] at this
  | some i =>
    have hi : s.cliSocks i < 0 := by simpa using SlotTable.firstSlot_some hslot
    have hnonneg : ¬ fd < 0 := Int.not_lt.mpr hfd
    refine ⟨(((s.accept fd).setSlot i fd).fdSet fd).raise i fd, i, ?_, hi, ?_, ?_, ?_⟩
    · simp only [Srv.register, hslot, if_neg hnonneg]
    · simp [Srv.raise, Srv.fdSet, Srv.setSlot, Srv.accept, Srv.log, hnonneg]
    · simp [Srv.raise, Srv.fdSet, Srv.setSlot, Srv.accept, Srv.log, hnonneg]
    · simp only [Srv.raise, Srv.fdSet, Srv.setSlot, Srv.accept, Srv.log, if_neg hnonneg, calls_append]
      rfl

/-- The slots after that. -/
theorem Slots.put (hslots : Slots k s) {s₁ : Srv n} {i : Fin n} {fd : ℤ} (hfree : s.cliSocks i < 0)
    (hcli : s₁.cliSocks = Function.update s.cliSocks i fd) (hfd : 0 ≤ fd) (hnew : ∀ j, s.cliSocks j ≠ fd)
    (hwaiting : (k.conns k.taken).dropped = false) : Slots (k.accept fd) s₁ := by
  have hconnAt : ∀ j, (k.accept fd).connAt (s.cliSocks j) = k.connAt (s.cliSocks j) :=
    fun j => Function.update_of_ne (hnew j) _ _
  have hnewAt : (k.accept fd).connAt fd = k.taken := Function.update_self _ _ _
  have hself : s₁.cliSocks i = fd := by rw [hcli, Function.update_self]
  have hother : ∀ j, j ≠ i → s₁.cliSocks j = s.cliSocks j := fun j hj => by rw [hcli, Function.update_of_ne hj]
  have hold : ∀ j, 0 ≤ s.cliSocks j → k.connAt (s.cliSocks j) < k.taken :=
    fun j hj => ((hslots.live _).mpr ⟨j, hj, rfl⟩).1
  refine ⟨fun j j' hj hj' heq => ?_, fun id => ?_⟩
  · by_cases hji : j = i <;> by_cases hji' : j' = i
    · rw [hji, hji']
    · subst hji
      rw [hother j' hji'] at hj' heq
      rw [hself, hnewAt, hconnAt] at heq
      have := hold j' hj'
      omega
    · subst hji'
      rw [hother j hji] at hj heq
      rw [hself, hnewAt, hconnAt] at heq
      have := hold j hj
      omega
    · rw [hother j hji] at hj heq
      rw [hother j' hji'] at hj' heq
      rw [hconnAt, hconnAt] at heq
      exact hslots.inj j j' hj hj' heq
  · constructor
    · rintro ⟨hid, hkept⟩
      rcases Nat.lt_succ_iff_lt_or_eq.mp hid with hlt | rfl
      · obtain ⟨j, hj, rfl⟩ := (hslots.live id).mp ⟨hlt, hkept⟩
        have hji : j ≠ i := by
          rintro rfl
          omega
        exact ⟨j, hother j hji ▸ hj, by rw [hother j hji, hconnAt]⟩
      · exact ⟨i, hself ▸ hfd, by rw [hself, hnewAt]⟩
    · rintro ⟨j, hj, rfl⟩
      by_cases hji : j = i
      · subst hji
        rw [hself, hnewAt]
        exact ⟨Nat.lt_succ_self _, hwaiting⟩
      · rw [hother j hji] at hj ⊢
        rw [hconnAt]
        obtain ⟨hid, hkept⟩ := (hslots.live _).mpr ⟨j, hj, rfl⟩
        exact ⟨Nat.lt_succ_of_lt hid, hkept⟩

/-- `select` has reported something. -/
structure Selected (h : Host) (k : Kernel) (s : Srv n) (a : Answers n) : Prop where
  sub : a.rfds ⊆ s.activeFds
  card : a.nready = a.rfds.card
  some : a.rfds ≠ ∅
  accept : 0 ≤ a.accept ∧ a.accept ∉ s.opened
  ready : ∀ fd ∈ s.activeFds, fd ∈ a.rfds ↔ if fd = h.masterSock then k.taken < k.made else (k.conn fd).Readable
  read : ∀ i, s.cliSocks i ∈ a.rfds → a.read i = .data ((k.conn (s.cliSocks i)).arrived.take recvMax)

theorem Reports.selected (ha : Reports h k s a) : a.nready = -1 ∨ Selected h k s a := by
  obtain ⟨⟨hselect, hnew⟩, hfails | ⟨hcard, hsome, haccept, hready, hread⟩⟩ := ha
  · exact .inl hfails
  · rcases hselect with ⟨hfails, -⟩ | ⟨hsub, -⟩
    · exact .inl hfails
    · exact .inr ⟨hsub, hcard, hsome, ⟨haccept, hnew.resolve_left (Int.not_lt.mpr haccept)⟩, hready, hread⟩

/-- The state in which the scan starts. -/
structure Started (k : Kernel) (s : Srv n) (a : Answers n) (s₁ : Srv n) : Prop where
  slots : Slots (k.calls s₁.evs) s₁
  ready : ∀ i, s₁.Ready i ↔ 0 ≤ s.cliSocks i ∧ s.cliSocks i ∈ a.rfds
  same : ∀ i, s₁.Ready i →
    s₁.cliSocks i = s.cliSocks i ∧ (k.calls s₁.evs).connAt (s.cliSocks i) = k.connAt (s.cliSocks i)
  conns : (k.calls s₁.evs).conns = k.conns
  made : (k.calls s₁.evs).made = k.made
  taken : (k.calls s₁.evs).taken = k.taken + if k.taken < k.made then 1 else 0

theorem Fits.started (hfits : Fits h k s) (ha : Selected h k s a) (hroom : k.taken < k.made → k.live.card < n) :
    ∃ s₁, plainBody h s a = .next (plainScan a.read (List.finRange n) s₁) ∧ Started k s a s₁ := by
  obtain ⟨t, hrep⟩ := server_represents hfits.atHead
  have hmaster : h.masterSock ∈ s.activeFds := (hrep.tracks.mem_active _).mpr (.inl rfl)
  have hwaits : h.masterSock ∈ a.rfds ↔ k.taken < k.made := by rw [ha.ready _ hmaster, if_pos rfl]
  have hother : ∀ j, s.cliSocks j ≠ a.accept := by
    intro j heq
    exact ha.accept.2 (heq ▸ hrep.tracks.slot_opened (heq ▸ ha.accept.1))
  have hcalls : k.calls ((s.select a).log (.fdIsset h.masterSock)).evs = k := rfl
  unfold plainBody
  by_cases hqueue : k.taken < k.made
  · rw [if_pos (hwaits.mpr hqueue)]
    obtain ⟨s₁, i, hregister, hfree, hcli, hrfds, hcalls₁⟩ :=
      register_of_free (s := (s.select a).log (.fdIsset h.masterSock)) (hfits.free_iff.mpr (hroom hqueue)) ha.accept.1 k
    rw [hcalls] at hcalls₁
    have hcli : s₁.cliSocks = Function.update s.cliSocks i a.accept := hcli
    have hrfds : s₁.rfds = a.rfds := hrfds
    have hfree : s.cliSocks i < 0 := hfree
    have hnotNew : a.accept ∉ a.rfds := fun hmem => ha.accept.2 (hrep.tracks.active_subset_opened (ha.sub hmem))
    have hready : ∀ j, s₁.Ready j ↔ 0 ≤ s.cliSocks j ∧ s.cliSocks j ∈ a.rfds := by
      intro j
      rw [Srv.Ready, hcli, hrfds, Int.not_lt]
      by_cases hj : j = i
      · subst hj
        rw [Function.update_self]
        exact ⟨fun hr => absurd hr.2 hnotNew, fun hr => absurd hr.1 (by omega)⟩
      · rw [Function.update_of_ne hj]
    refine ⟨s₁, by rw [hregister]; rfl, ?_, hready, fun j hj => ⟨?_, ?_⟩, ?_, ?_, ?_⟩
    · rw [hcalls₁]
      exact hfits.slots.put hfree hcli ha.accept.1 hother (hfits.waiting _ (Nat.le_refl _))
    · have hji : j ≠ i := by
        rintro rfl
        exact absurd ((hready j).mp hj).1 (by omega)
      rw [hcli, Function.update_of_ne hji]
    · rw [hcalls₁]
      exact Function.update_of_ne (hother j) _ _
    · rw [hcalls₁]
      rfl
    · rw [hcalls₁]
      rfl
    · rw [hcalls₁, if_pos hqueue]
      rfl
  · rw [if_neg (mt hwaits.mp hqueue)]
    refine ⟨(s.select a).log (.fdIsset h.masterSock), rfl, ?_⟩
    refine ⟨⟨hfits.slots.inj, hfits.slots.live⟩, fun j => ?_, fun j _ => ⟨rfl, rfl⟩, rfl, rfl, ?_⟩
    · show ¬ s.cliSocks j < 0 ∧ s.cliSocks j ∈ a.rfds ↔ _
      rw [Int.not_lt]
    · rw [if_neg hqueue]
      rfl

instance (k : Kernel) (id : ℕ) : Decidable (k.Live id) := inferInstanceAs (Decidable (_ ∧ _))

/-- What a pass makes of a connection. -/
def Kernel.after (k : Kernel) (id : ℕ) : Conn :=
  if k.Live id ∧ (k.conns id).Readable then (k.conns id).served else k.conns id

/-- The scan serves the connections that are live and readable. -/
theorem Fits.after_eq (hfits : Fits h k s) (ha : Selected h k s a) {s₁ : Srv n} (hs : Started k s a s₁) (id : ℕ) :
    (∃ i ∈ List.finRange n, s₁.Ready i ∧ (k.calls s₁.evs).connAt (s₁.cliSocks i) = id) ↔
      k.Live id ∧ (k.conns id).Readable := by
  obtain ⟨t, hrep⟩ := server_represents hfits.atHead
  have hreadable : ∀ i, 0 ≤ s.cliSocks i →
      (s.cliSocks i ∈ a.rfds ↔ (k.conns (k.connAt (s.cliSocks i))).Readable) := by
    intro i hi
    have hactive : s.cliSocks i ∈ s.activeFds := (hrep.tracks.mem_active _).mpr (.inr ⟨hi, i, rfl⟩)
    rw [ha.ready _ hactive, if_neg (hrep.tracks.slot_ne_master hi)]
    rfl
  constructor
  · rintro ⟨i, -, hready, rfl⟩
    obtain ⟨hsame, hconnAt⟩ := hs.same i hready
    obtain ⟨hi, hmem⟩ := (hs.ready i).mp hready
    rw [hsame, hconnAt]
    exact ⟨(hfits.slots.live _).mpr ⟨i, hi, rfl⟩, (hreadable i hi).mp hmem⟩
  · rintro ⟨hlive, hread⟩
    obtain ⟨i, hi, rfl⟩ := (hfits.slots.live id).mp hlive
    have hready : s₁.Ready i := (hs.ready i).mpr ⟨hi, (hreadable i hi).mpr hread⟩
    obtain ⟨hsame, hconnAt⟩ := hs.same i hready
    exact ⟨i, List.mem_finRange i, hready, by rw [hsame, hconnAt]⟩

theorem map_eq_next {σ τ : Type*} {φ : σ → τ} {f : Flow σ} {y : τ} (hf : f.map φ = .next y) :
    ∃ x, f = .next x ∧ φ x = y := by
  cases f with
  | next x => exact ⟨x, rfl, Flow.next.inj hf⟩
  | _ => cases hf

/-- From `k` the connections have come to `k'`, and one that waited was accepted. -/
structure Passed (k k' : Kernel) : Prop where
  made : k'.made = k.made
  taken : k'.taken = k.taken + if k.taken < k.made then 1 else 0
  conns : ∀ id, k'.conns id = k.after id

/-- **A pass with a slot for the connection that waits**, if one does: it reads every live connection that is readable,
and closes it if that gave nothing. -/
theorem Fits.pass (hfits : Fits h k s) (ha : Reports h k s a) (hsel : Selected h k s a)
    (hroom : k.taken < k.made → k.live.card < n) :
    ∃ s', (s.body h a).loopBack = .next s' ∧ Fits h (k.calls (s.body h a).state.evs) s' ∧
      Passed k (k.calls (s.body h a).state.evs) := by
  obtain ⟨s₁, hplain, hs⟩ := hfits.started hsel hroom
  have hsame := body_same (server_represents hfits.atHead) hsel.sub hsel.card (.inr hsel.accept.2)
  rw [hplain] at hsame
  obtain ⟨s', hbody, hvisible⟩ := map_eq_next hsame
  have hcli : s'.cliSocks = (plainScan a.read (List.finRange n) s₁).cliSocks := congrArg Visible.cliSocks hvisible
  have hevs : (s.body h a).state.evs = s'.evs := by
    rw [← Flow.state_loopBack, hbody]
    rfl
  have hcalls : k.calls s'.evs = k.calls (plainScan a.read (List.finRange n) s₁).evs := by
    rw [← calls_effects, ← calls_effects _ (plainScan a.read (List.finRange n) s₁).evs]
    exact congrArg k.calls (congrArg Visible.effects hvisible)
  have hscan : Scanned (k.calls s₁.evs) (k.calls s'.evs) s₁ s' (List.finRange n) := by
    have hscan : Scanned (k.calls s₁.evs) (k.calls (plainScan a.read (List.finRange n) s₁).evs) s₁
        (plainScan a.read (List.finRange n) s₁) (List.finRange n) := plainScan_scanned k (List.nodup_finRange n)
      (fun i j hi hj => hs.slots.inj i j (Int.not_lt.mp hi.1) (Int.not_lt.mp hj.1)) (fun i _ hi => by
        obtain ⟨hsame, hconnAt⟩ := hs.same i hi
        rw [hsel.read i ((hs.ready i).mp hi).2, Kernel.conn, Kernel.conn, hsame, hconnAt, hs.conns])
    rw [hcalls]
    exact ⟨hscan.made, hscan.taken, hscan.connAt, hscan.conns, fun j => by rw [hcli]; exact hscan.slots j⟩
  have hpassed : Passed k (k.calls s'.evs) := by
    refine ⟨hscan.made.trans hs.made, hscan.taken.trans hs.taken, fun id => ?_⟩
    rw [hscan.conns id, hs.conns, if_congr (hfits.after_eq hsel hs id) rfl rfl]
    rfl
  refine ⟨s', hbody, ?_, hevs ▸ hpassed⟩
  rw [hevs]
  refine ⟨?_, hs.slots.scan hscan, fun id hid => ?_, ?_⟩
  · have := AtHead.pass hfits.atHead ha.1
    rwa [hbody] at this
  · have hle : k.taken ≤ id := by
      rw [hpassed.taken] at hid
      omega
    rw [hpassed.conns, Kernel.after, if_neg fun hserved => Nat.not_lt_of_le hle hserved.1.1]
    exact hfits.waiting id hle
  · have hqueue := hfits.queue
    rw [hpassed.taken, hpassed.made]
    split_ifs <;> omega

theorem cliSocks_refused {fd master : ℤ} (hfd : 0 ≤ fd) :
    ((((s.select a).log (.fdIsset master)).accept fd).close fd).cliSocks = s.cliSocks := by
  simp only [Srv.close, Srv.accept, Srv.log, Srv.select, if_neg (Int.not_lt.mpr hfd)]

/-- **A pass with none**: the connection that waits is accepted and closed, and nothing is read. -/
theorem Fits.refuse (hfits : Fits h k s) (ha : Reports h k s a) (hsel : Selected h k s a) (hwaits : k.taken < k.made)
    (hfull : n ≤ k.live.card) :
    ∃ s', (s.body h a).loopBack = .next s' ∧ Fits h (k.calls (s.body h a).state.evs) s' ∧
      (k.calls (s.body h a).state.evs).made = k.made ∧
      (k.calls (s.body h a).state.evs).conns = (k.set k.taken .drop).conns := by
  obtain ⟨t, hrep⟩ := server_represents hfits.atHead
  have hmaster : h.masterSock ∈ s.activeFds := (hrep.tracks.mem_active _).mpr (.inl rfl)
  have hlistener : h.masterSock ∈ a.rfds := (hsel.ready _ hmaster).mpr (by rwa [if_pos rfl])
  have hslots : ∀ i, 0 ≤ s.cliSocks i := by
    intro i
    by_contra hneg
    exact Nat.not_lt_of_le hfull (hfits.free_iff.mp ⟨i, Int.not_le.mp hneg⟩)
  have hsome : 0 < a.nready := by
    have hpos : 0 < a.rfds.card := Finset.card_pos.mpr ⟨_, hlistener⟩
    have := hsel.card
    omega
  have hbody := body_refuses hslots ⟨hsome, hlistener, hsel.accept.1⟩
  have hcalls : k.calls (s.body h a).state.evs = (k.accept a.accept).set k.taken .drop := by
    have hconnAt : (k.accept a.accept).connAt a.accept = k.taken := Function.update_self _ _ _
    rw [hbody, ← hconnAt]
    simp only [Flow.state, Srv.close, Srv.accept, Srv.log, Srv.select, if_neg (Int.not_lt.mpr hsel.accept.1)]
    rfl
  have hother : ∀ j, ((k.accept a.accept).set k.taken .drop).connAt (s.cliSocks j) = k.connAt (s.cliSocks j) := by
    intro j
    refine Function.update_of_ne (fun heq => ?_) _ _
    exact hsel.accept.2 (heq ▸ hrep.tracks.slot_opened (hslots j))
  have hlive : ∀ id, ((k.accept a.accept).set k.taken .drop).Live id ↔ k.Live id := by
    intro id
    show id < k.taken + 1 ∧ ((k.set k.taken .drop).conns id).dropped = false ↔ _
    by_cases hid : id = k.taken
    · subst hid
      rw [set_conns_self]
      exact ⟨fun hkept => Bool.noConfusion hkept.2, fun hkept => absurd hkept.1 (Nat.lt_irrefl _)⟩
    · rw [set_conns_of_ne _ hid]
      exact and_congr_left fun _ => ⟨fun hlt => by omega, Nat.lt_succ_of_lt⟩
  rw [hcalls]
  refine ⟨_, by rw [hbody]; rfl, ⟨?_, ⟨fun i j hi hj heq => ?_, fun id => ?_⟩, fun id hid => ?_, ?_⟩, rfl, rfl⟩
  · have := AtHead.pass hfits.atHead ha.1
    rwa [hbody] at this
  · rw [cliSocks_refused hsel.accept.1] at hi hj heq
    rw [hother, hother] at heq
    exact hfits.slots.inj i j hi hj heq
  · rw [hlive, hfits.slots.live, cliSocks_refused hsel.accept.1]
    exact exists_congr fun i => by rw [hother]
  · have hlt : k.taken < id := hid
    show ((k.set k.taken .drop).conns id).dropped = false
    rw [set_conns_of_ne _ (Nat.ne_of_gt hlt)]
    exact hfits.waiting id hlt.le
  · exact hwaits

/-- **`select` fails**: nothing happens. -/
theorem Fits.idle (hfits : Fits h k s) (ha : Reports h k s a) (hfails : a.nready = -1) :
    (s.body h a).loopBack = .next (s.select a) ∧ k.calls (s.body h a).state.evs = k ∧ Fits h k (s.select a) := by
  have hbody : s.body h a = .again (s.select a) := if_pos (.inl hfails)
  have hhead := AtHead.pass hfits.atHead ha.1
  rw [hbody] at hhead ⊢
  exact ⟨rfl, rfl, hhead, ⟨hfits.slots.inj, hfits.slots.live⟩, hfits.waiting, hfits.queue⟩

end NetProg.Exchange
