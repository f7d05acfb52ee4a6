/-
# NetProg.Ameba.ExchangeSteps -- what every step of the client, the network and the server keeps.

`Law` is about the connections: where the bytes of each are, which of them the client has closed, and on which
everything has arrived.  The server only reads and closes (`Touched`), and the client and the network leave its slots
alone.  `Inv.step` puts that together, and says of each step what it does to the connections (`Moved`).
-/
import NetProg.Ameba.ExchangePass

namespace NetProg.Exchange

open SelectSrvBetter

variable {h : Host} {n lag : ℕ}

/-! ## One connection -/

namespace Conn

variable {c : Conn}

/-- What holds of a connection at any time. -/
structure Ok (c : Conn) : Prop where
  bytes : c.got ++ (c.arrived ++ c.onWay) = c.written
  short : c.written.length ≤ recvMax
  ended : c.ended = true → c.closed = true ∧ c.onWay = []

theorem Ok.fresh : Ok fresh := ⟨rfl, Nat.zero_le _, fun hended => Bool.noConfusion hended⟩

theorem Ok.write (hc : c.Ok) (hunsent : c.written = []) (hopen : c.closed = false) : c.write.Ok := by
  have hbytes := hc.bytes
  rw [hunsent, List.append_eq_nil_iff, List.append_eq_nil_iff] at hbytes
  have hshort : str.length ≤ recvMax := by decide
  refine ⟨?_, hshort, fun hended => ?_⟩
  · show c.got ++ (c.arrived ++ str) = str
    rw [hbytes.1, hbytes.2.1]
    rfl
  · have := (hc.ended hended).1
    rw [hopen] at this
    cases this

theorem Ok.close (hc : c.Ok) : c.close.Ok := ⟨hc.bytes, hc.short, fun hended => ⟨rfl, (hc.ended hended).2⟩⟩

theorem Ok.arrive (hc : c.Ok) (k : ℕ) : (c.arrive k).Ok := by
  refine ⟨?_, hc.short, fun hended => ?_⟩
  · show c.got ++ (c.arrived ++ c.onWay.take k ++ c.onWay.drop k) = c.written
    rw [List.append_assoc, List.take_append_drop]
    exact hc.bytes
  · obtain ⟨hclosed, hnil⟩ := hc.ended hended
    refine ⟨hclosed, ?_⟩
    show c.onWay.drop k = []
    rw [hnil, List.drop_nil]

theorem Ok.finish (hc : c.Ok) (hclosed : c.closed = true) (hnil : c.onWay = []) : c.finish.Ok :=
  ⟨hc.bytes, hc.short, fun _ => ⟨hclosed, hnil⟩⟩

theorem Ok.read (hc : c.Ok) : c.read.Ok := by
  refine ⟨?_, hc.short, hc.ended⟩
  show c.got ++ c.arrived.take recvMax ++ (c.arrived.drop recvMax ++ c.onWay) = c.written
  rw [List.append_assoc, ← List.append_assoc (c.arrived.take recvMax), List.take_append_drop]
  exact hc.bytes

theorem Ok.drop (hc : c.Ok) : c.drop.Ok := ⟨hc.bytes, hc.short, hc.ended⟩

/-- One `read` takes all that has arrived. -/
theorem Ok.read_arrived (hc : c.Ok) : c.read.arrived = [] := by
  have hbytes := congrArg List.length hc.bytes
  have hshort := hc.short
  simp only [List.length_append] at hbytes
  show c.arrived.drop recvMax = []
  rw [List.drop_eq_nil_iff]
  omega

/-- What the server has made of a connection. -/
inductive Touched (c : Conn) : Conn → Prop
  | same : Touched c c
  | read : Touched c c.read
  | last : Touched c c.read.drop
  | drop : Touched c c.drop

theorem Touched.ok {c' : Conn} (ht : Touched c c') (hc : c.Ok) : c'.Ok := by
  cases ht with
  | same => exact hc
  | read => exact hc.read
  | last => exact hc.read.drop
  | drop => exact hc.drop

theorem Touched.client {c' : Conn} (ht : Touched c c') :
    c'.written = c.written ∧ c'.closed = c.closed ∧ (c.Settled → c'.Settled) := by
  cases ht with
  | same => exact ⟨rfl, rfl, id⟩
  | read => exact ⟨rfl, rfl, id⟩
  | last => exact ⟨rfl, rfl, id⟩
  | drop => exact ⟨rfl, rfl, id⟩

end Conn

/-! ## All connections -/

/-- The client has a connection that it did not close. -/
def Pc.InHand (pc : Pc) : Prop := pc = .write ∨ pc = .close true

/-- What the client and the network keep. -/
structure Law (lag : ℕ) (k : Kernel) (pc : Pc) : Prop where
  new : ∀ id, k.made ≤ id → k.conns id = .fresh
  inHand : pc.InHand → 0 < k.made ∧ (k.conns (k.made - 1)).closed = false
  closed : ∀ id < k.made, ¬ (pc.InHand ∧ id + 1 = k.made) → (k.conns id).closed = true
  unsent : pc = .write → (k.conns (k.made - 1)).written = []
  ok : ∀ id, (k.conns id).Ok
  due : ∀ id, id + lag + 1 < k.made → (k.conns id).Settled

namespace Law

variable {k k' : Kernel} {pc pc' : Pc}

theorem start : Law lag .start .socket where
  new _ _ := rfl
  inHand hpc := by rcases hpc with hpc | hpc <;> cases hpc
  closed _ hid := absurd hid (Nat.not_lt_zero _)
  unsent hpc := by cases hpc
  ok _ := .fresh
  due _ hid := absurd hid (Nat.not_lt_zero _)

/-- The client goes on, and the connections stay. -/
theorem goto (hk : Law lag k pc) (hin : pc'.InHand ↔ pc.InHand) (hwrite : pc' ≠ .write) : Law lag k pc' where
  new := hk.new
  inHand hpc := hk.inHand (hin.mp hpc)
  closed id hid hnot := hk.closed id hid fun hlast => hnot ⟨hin.mpr hlast.1, hlast.2⟩
  unsent hpc := absurd hpc hwrite
  ok := hk.ok
  due := hk.due

theorem connect (hk : Law lag k .connect) (hsettled : ∀ id < k.made - lag, (k.conns id).Settled) :
    Law lag { k with made := k.made + 1 } .write := by
  have hfresh := hk.new k.made (Nat.le_refl _)
  refine ⟨fun id hid => hk.new id (Nat.le_of_succ_le hid), fun _ => ⟨Nat.succ_pos _, ?_⟩, fun id hid hnot => ?_,
    fun _ => ?_, hk.ok, fun id hid => hsettled id ?_⟩
  · show (k.conns (k.made + 1 - 1)).closed = false
    rw [Nat.add_sub_cancel, hfresh]
    rfl
  · have hid : id < k.made + 1 := hid
    have hne : ¬ id + 1 = k.made + 1 := fun heq => hnot ⟨.inl rfl, heq⟩
    refine hk.closed id (by omega) fun hlast => ?_
    rcases hlast.1 with hpc | hpc <;> cases hpc
  · show (k.conns (k.made + 1 - 1)).written = []
    rw [Nat.add_sub_cancel, hfresh]
    rfl
  · have hid : id + lag + 1 < k.made + 1 := hid
    omega

/-- Connection `id` has changed. -/
theorem set (hk : Law lag k pc) {id : ℕ} {f : Conn → Conn} (hmade : id < k.made) (hok : (f (k.conns id)).Ok)
    (hkeeps : (f (k.conns id)).written = (k.conns id).written ∧ (f (k.conns id)).closed = (k.conns id).closed)
    (hsettled : (k.conns id).Settled → (f (k.conns id)).Settled) : Law lag (k.set id f) pc := by
  have hwritten : ∀ id', ((k.set id f).conns id').written = (k.conns id').written := by
    intro id'
    by_cases hid : id' = id
    · subst hid
      rw [set_conns_self]
      exact hkeeps.1
    · rw [set_conns_of_ne _ hid]
  have hclosed : ∀ id', ((k.set id f).conns id').closed = (k.conns id').closed := by
    intro id'
    by_cases hid : id' = id
    · subst hid
      rw [set_conns_self]
      exact hkeeps.2
    · rw [set_conns_of_ne _ hid]
  refine ⟨fun id' hid' => ?_, fun hpc => ⟨(hk.inHand hpc).1, (hclosed _).trans (hk.inHand hpc).2⟩,
    fun id' hid' hnot => ?_, fun hpc => (hwritten _).trans (hk.unsent hpc), fun id' => ?_, fun id' hid' => ?_⟩
  · have hid' : k.made ≤ id' := hid'
    rw [set_conns_of_ne _ (by omega)]
    exact hk.new id' hid'
  · rw [hclosed]
    exact hk.closed id' hid' hnot
  · by_cases hid : id' = id
    · subst hid
      rwa [set_conns_self]
    · rw [set_conns_of_ne _ hid]
      exact hk.ok id'
  · by_cases hid : id' = id
    · subst hid
      rw [set_conns_self]
      exact hsettled (hk.due id' hid')
    · rw [set_conns_of_ne _ hid]
      exact hk.due id' hid'

/-- The last connection is not due. -/
theorem set_last (hk : Law lag k pc) (hpc : pc.InHand) {f : Conn → Conn} (hok : (f (k.conns (k.made - 1))).Ok)
    (hclosed : pc'.InHand → (f (k.conns (k.made - 1))).closed = false)
    (hends : ¬ pc'.InHand → (f (k.conns (k.made - 1))).closed = true) (hwrite : pc' ≠ .write) :
    Law lag (k.set (k.made - 1) f) pc' := by
  have hpos := (hk.inHand hpc).1
  refine ⟨fun id hid => ?_, fun hpc' => ⟨hpos, ?_⟩, fun id hid hnot => ?_, fun hpc' => absurd hpc' hwrite, fun id => ?_,
    fun id hid => ?_⟩
  · have hid : k.made ≤ id := hid
    rw [set_conns_of_ne _ (by omega)]
    exact hk.new id hid
  · show ((k.set (k.made - 1) f).conns (k.made - 1)).closed = false
    rw [set_conns_self]
    exact hclosed hpc'
  · have hid : id < k.made := hid
    by_cases hlast : id = k.made - 1
    · subst hlast
      rw [set_conns_self]
      exact hends fun hpc' => hnot ⟨hpc', show k.made - 1 + 1 = k.made by omega⟩
    · rw [set_conns_of_ne _ hlast]
      exact hk.closed id hid fun heq => hlast (by omega)
  · by_cases hlast : id = k.made - 1
    · subst hlast
      rwa [set_conns_self]
    · rw [set_conns_of_ne _ hlast]
      exact hk.ok id
  · have hid : id + lag + 1 < k.made := hid
    rw [set_conns_of_ne _ (by omega)]
    exact hk.due id hid

/-- The server has read and closed. -/
theorem touched (hk : Law lag k pc) (hmade : k'.made = k.made) (htouched : ∀ id, (k.conns id).Touched (k'.conns id))
    (hsame : ∀ id, k.made ≤ id → k'.conns id = k.conns id) : Law lag k' pc where
  new id hid := by
    rw [hmade] at hid
    rw [hsame id hid]
    exact hk.new id hid
  inHand hpc := by
    rw [hmade, (htouched _).client.2.1]
    exact hk.inHand hpc
  closed id hid hnot := by
    rw [hmade] at hid hnot
    rw [(htouched _).client.2.1]
    exact hk.closed id hid hnot
  unsent hpc := by
    rw [hmade, (htouched _).client.1]
    exact hk.unsent hpc
  ok id := (htouched id).ok (hk.ok id)
  due id hid := (htouched id).client.2.2 (hk.due id (hmade ▸ hid))

end Law

/-! ## Every step -/

section Step

variable {s : Srv n} {a : Answers n} {k k' : Kernel} {net net' : Net n}

theorem after_touched (k : Kernel) (id : ℕ) : (k.conns id).Touched (k.after id) := by
  unfold Kernel.after Conn.served
  split_ifs
  · exact .last
  · exact .read
  · exact .same

theorem Passed.law (hpass : Passed k k') (hqueue : k.taken ≤ k.made) {pc : Pc} (hk : Law lag k pc) : Law lag k' pc := by
  refine hk.touched hpass.made (fun id => hpass.conns id ▸ after_touched k id) fun id hid => ?_
  rw [hpass.conns, Kernel.after, if_neg fun hserved => ?_]
  exact Nat.not_lt_of_le (hqueue.trans hid) hserved.1.1

/-- What the client and the network do keeps the slots. -/
theorem Fits.congr (hfits : Fits h k s) (hmade : k.made ≤ k'.made) (htaken : k'.taken = k.taken)
    (hconnAt : k'.connAt = k.connAt) (hdropped : ∀ id, (k'.conns id).dropped = (k.conns id).dropped) : Fits h k' s := by
  refine ⟨hfits.atHead, ⟨fun i j hi hj heq => ?_, fun id => ?_⟩, fun id hid => ?_, htaken ▸ hfits.queue.trans hmade⟩
  · rw [hconnAt] at heq
    exact hfits.slots.inj i j hi hj heq
  · rw [hconnAt, ← hfits.slots.live, Kernel.Live, Kernel.Live, htaken, hdropped]
  · rw [hdropped]
    exact hfits.waiting id (htaken ▸ hid)

theorem Fits.set (hfits : Fits h k s) {id : ℕ} {f : Conn → Conn}
    (hf : (f (k.conns id)).dropped = (k.conns id).dropped) : Fits h (k.set id f) s := by
  refine hfits.congr (Nat.le_refl _) rfl rfl fun id' => ?_
  by_cases hid : id' = id
  · subst hid
    rwa [set_conns_self]
  · rw [set_conns_of_ne _ hid]

/-- What holds of the system. -/
structure Inv (h : Host) (lag : ℕ) (net : Net n) (s : Srv n) : Prop where
  srv : net.srv = .next s
  fits : Fits h net.kernel s
  law : Law lag net.kernel net.pc

/-- What one step does to the connections: the server leaves them alone, or makes a pass. -/
inductive Moved (n : ℕ) (k k' : Kernel) : Prop
  | outside (hmade : k.made ≤ k'.made) (htaken : k'.taken = k.taken)
    (hdropped : ∀ id, (k'.conns id).dropped = (k.conns id).dropped)
    (hsettled : ∀ id, (k.conns id).Settled → (k'.conns id).Settled ∧ (k'.conns id).arrived = (k.conns id).arrived)
  | pass (hpass : Passed k k') (hroom : k.taken < k.made → k.live.card < n)
  | refuse (hwaits : k.taken < k.made) (hfull : n ≤ k.live.card)

theorem Moved.refl (k : Kernel) : Moved n k k := .outside (Nat.le_refl _) rfl (fun _ => rfl) fun _ hs => ⟨hs, rfl⟩

theorem Moved.set {id : ℕ} {f : Conn → Conn} (hf : (f (k.conns id)).dropped = (k.conns id).dropped)
    (hsettled : (k.conns id).Settled → (f (k.conns id)).Settled ∧ (f (k.conns id)).arrived = (k.conns id).arrived) :
    Moved n k (k.set id f) := by
  refine .outside (Nat.le_refl _) rfl (fun id' => ?_) fun id' hs => ?_
  · by_cases hid : id' = id
    · subst hid
      rwa [set_conns_self]
    · rw [set_conns_of_ne _ hid]
  · by_cases hid : id' = id
    · subst hid
      rw [set_conns_self]
      exact hsettled hs
    · rw [set_conns_of_ne _ hid]
      exact ⟨hs, rfl⟩

theorem Inv.pass (hinv : Inv h lag net s) (ha : Reports h net.kernel s a) :
    ∃ s', Inv h lag { net with srv := (s.body h a).loopBack, kernel := net.kernel.calls (s.body h a).state.evs } s' ∧
      Moved n net.kernel (net.kernel.calls (s.body h a).state.evs) := by
  obtain ⟨hsrv, hfits, hlaw⟩ := hinv
  rcases ha.selected with hfails | hsel
  · obtain ⟨hbody, hcalls, hfits'⟩ := hfits.idle ha hfails
    rw [hcalls]
    exact ⟨_, ⟨hbody, hfits', hlaw⟩, .refl _⟩
  · by_cases hroom : net.kernel.taken < net.kernel.made → net.kernel.live.card < n
    · obtain ⟨s', hbody, hfits', hpass⟩ := hfits.pass ha hsel hroom
      exact ⟨s', ⟨hbody, hfits', hpass.law hfits.queue hlaw⟩, .pass hpass hroom⟩
    · obtain ⟨hwaits, hfull⟩ := Classical.not_imp.mp hroom
      have hfull := Nat.le_of_not_lt hfull
      obtain ⟨s', hbody, hfits', hmade, hconns⟩ := hfits.refuse ha hsel hwaits hfull
      refine ⟨s', ⟨hbody, hfits', hlaw.touched hmade (fun id => ?_) fun id hid => ?_⟩, .refuse hwaits hfull⟩
      · rw [hconns]
        by_cases hid : id = net.kernel.taken
        · subst hid
          rw [set_conns_self]
          exact .drop
        · rw [set_conns_of_ne _ hid]
          exact .same
      · rw [hconns, set_conns_of_ne _ (by omega)]

theorem Inv.step (hinv : Inv h lag net s) {e : Act n} (hstep : net.step h lag e = some net') :
    ∃ s', Inv h lag net' s' ∧ Moved n net.kernel net'.kernel := by
  have hsame := hinv
  obtain ⟨hsrv, hfits, hlaw⟩ := hinv
  cases e with
  | socket ok =>
    obtain ⟨hpc, rfl⟩ := Option.ite_some_none_eq_some.mp hstep
    refine ⟨s, ⟨hsrv, hfits, hlaw.goto ?_ ?_⟩, .refl _⟩
    · rw [hpc]
      cases ok <;> simp [Pc.InHand]
    · cases ok <;> simp
  | connect ok =>
    cases ok with
    | false =>
      obtain ⟨hpc, rfl⟩ := Option.ite_some_none_eq_some.mp hstep
      refine ⟨s, ⟨hsrv, hfits, hlaw.goto ?_ Pc.noConfusion⟩, .refl _⟩
      rw [hpc]
      simp [Pc.InHand]
    | true =>
      obtain ⟨⟨hpc, hsettled⟩, rfl⟩ := Option.ite_some_none_eq_some.mp hstep
      rw [hpc] at hlaw
      refine ⟨s, ⟨hsrv, hfits.congr (Nat.le_succ _) rfl rfl fun _ => rfl, hlaw.connect hsettled⟩, ?_⟩
      exact .outside (Nat.le_succ _) rfl (fun _ => rfl) fun _ hs => ⟨hs, rfl⟩
  | write ok =>
    obtain ⟨hpc, rfl⟩ := Option.ite_some_none_eq_some.mp hstep
    have hin : net.pc.InHand := .inl hpc
    cases ok with
    | false =>
      refine ⟨s, ⟨hsrv, hfits, hlaw.goto ?_ Pc.noConfusion⟩, .refl _⟩
      simp [Pc.InHand, hpc]
    | true =>
      have hopen := (hlaw.inHand hin).2
      refine ⟨s, ⟨hsrv, hfits.set rfl, ?_⟩, .set rfl fun hs => ?_⟩
      · refine hlaw.set_last hin ((hlaw.ok _).write (hlaw.unsent hpc) hopen) (fun _ => hopen) (fun hends => ?_)
          Pc.noConfusion
        exact absurd (.inr rfl) hends
      · -- its end cannot have arrived
        have hclosed := ((hlaw.ok net.last).ended hs.2).1
        rw [Net.last, hopen] at hclosed
        cases hclosed
  | close =>
    simp only [Net.step] at hstep
    split at hstep
    · next connected hpc =>
      obtain rfl := Option.some.inj hstep
      cases connected with
      | false =>
        refine ⟨s, ⟨hsrv, hfits, hlaw.goto ?_ Pc.noConfusion⟩, .refl _⟩
        simp [Pc.InHand, hpc]
      | true =>
        refine ⟨s, ⟨hsrv, hfits.set rfl, ?_⟩, .set rfl fun hs => ⟨hs, rfl⟩⟩
        refine hlaw.set_last (.inr hpc) (hlaw.ok _).close (fun hin => ?_) (fun _ => rfl) Pc.noConfusion
        rcases hin with hpc' | hpc' <;> cases hpc'
    · cases hstep
  | arrive id j =>
    obtain ⟨⟨hpos, hle⟩, rfl⟩ := Option.ite_some_none_eq_some.mp hstep
    have hnot : ¬ (net.kernel.conns id).Settled := by
      intro hs
      rw [hs.1] at hle
      exact Nat.not_lt_of_le hle hpos
    have hmade : id < net.kernel.made := by
      by_contra hge
      rw [hlaw.new id (Nat.le_of_not_lt hge)] at hle
      exact Nat.not_lt_of_le hle hpos
    refine ⟨s, ⟨hsrv, hfits.set (f := fun c => c.arrive j) rfl, ?_⟩,
      .set (f := fun c => c.arrive j) rfl fun hs => absurd hs hnot⟩
    exact hlaw.set (f := fun c => c.arrive j) hmade ((hlaw.ok id).arrive j) ⟨rfl, rfl⟩ fun hs => absurd hs hnot
  | finish id =>
    obtain ⟨⟨hclosed, hnil⟩, rfl⟩ := Option.ite_some_none_eq_some.mp hstep
    have hmade : id < net.kernel.made := by
      by_contra hge
      rw [hlaw.new id (Nat.le_of_not_lt hge)] at hclosed
      cases hclosed
    refine ⟨s, ⟨hsrv, hfits.set rfl, ?_⟩, .set rfl fun hs => ⟨⟨hs.1, rfl⟩, rfl⟩⟩
    exact hlaw.set hmade ((hlaw.ok id).finish hclosed hnil) ⟨rfl, rfl⟩ fun hs => ⟨hs.1, rfl⟩
  | pass a =>
    simp only [Net.step, hsrv] at hstep
    obtain ⟨ha, rfl⟩ := Option.ite_some_none_eq_some.mp hstep
    exact hsame.pass ha

theorem Inv.start (h : Host) (lag : ℕ) : Inv h lag (.start h : Net n) (.start h) where
  srv := rfl
  fits := by
    have hfree : ∀ i, ¬ 0 ≤ (Srv.start h : Srv n).cliSocks i := by
      intro i hi
      have hneg : (0 : ℤ) ≤ -1 := hi
      omega
    refine ⟨AtHead.start, ⟨fun i j hi => absurd hi (hfree i), fun id => ?_⟩, fun _ _ => rfl, Nat.le_refl _⟩
    constructor
    · exact fun hlive => absurd hlive.1 (Nat.not_lt_zero _)
    · rintro ⟨i, hi, -⟩
      exact absurd hi (hfree i)
  law := .start

theorem runs_and_fits (hnet : (exchange h n lag).Reachable net) : ∃ s, Inv h lag net s := by
  refine (exchange h n lag).invariant (P := fun net => ∃ s, Inv h lag net s) ⟨_, .start h lag⟩ ?_ hnet
  rintro net e net' - ⟨s, hinv⟩ hstep
  obtain ⟨s', hinv', -⟩ := hinv.step hstep
  exact ⟨s', hinv'⟩

end Step

end NetProg.Exchange
