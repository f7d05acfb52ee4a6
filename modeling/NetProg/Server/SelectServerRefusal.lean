/-
# NetProg.Server.SelectServerRefusal -- a pass of `select_server` that finds the table full.

The refusal sends its message, closes the new connection and `continue`s, as in `select_srv_better`.  With
the table full the scan of the other pass reaches at least the lowest ready slot, whatever leaves before
it; so here too the two passes do the same to the existing clients exactly when none of them is ready.
-/
import NetProg.Server.SelectServerScan
import NetProg.Server.BetterRefusal

namespace NetProg.SelectServer

variable {n : ℕ} {h : Host}

/-! ## What a pass does to the existing clients -/

/-- The event is a read, a close or a table update of an existing client. -/
def OnClients (s : Srv n) : Ev n → Prop
  | .recv fd _ | .close fd | .fdSet fd | .fdClr fd => ∃ i, s.cliSocks i = fd
  | .setSlot _ _ => True
  | .accept _ | .send _ _ => False

instance (s : Srv n) : (e : Ev n) → Decidable (OnClients s e)
  | .recv fd _ | .close fd | .fdSet fd | .fdClr fd =>
    inferInstanceAs (Decidable (∃ i, s.cliSocks i = fd))
  | .setSlot _ _ => inferInstanceAs (Decidable True)
  | .accept _ | .send _ _ => inferInstanceAs (Decidable False)

def clientEffects (s : Srv n) (l : List (Ev n)) : List (Ev n) := l.filter fun e => decide (OnClients s e)

/-- The same answers without the new connection. -/
def Answers.quiet (h : Host) (a : Answers n) : Answers n :=
  { a with select := .ready (a.select.reported.erase h.masterSock) }

/-- `select` reports the listener, and `accept` returns a connection. -/
structure Connects (h : Host) (a : Answers n) : Prop where
  listener : h.masterSock ∈ a.select.reported
  accepted : 0 ≤ a.accept

/-- The pass does to the existing clients what it does without the new connection. -/
structure Undisturbed (h : Host) (s : Srv n) (a : Answers n) : Prop where
  effects : clientEffects s (s.body h a).state.evs = clientEffects s (s.body h (a.quiet h)).state.evs
  slots : (s.body h a).state.cliSocks = (s.body h (a.quiet h)).state.cliSocks
  count : (s.body h a).state.curConnCnt = (s.body h (a.quiet h)).state.curConnCnt
  active : (s.body h a).state.activeFds = (s.body h (a.quiet h)).state.activeFds

/-! ## The two passes -/

section Pass

variable {s : Srv n} {a : Answers n}

theorem Connects.select_eq (hc : Connects h a) : a.select = .ready a.select.reported := by
  have hmaster := hc.listener
  cases hsel : a.select with
  | error eintr => simp [hsel, SelectAnswer.reported] at hmaster
  | timeout => simp [hsel, SelectAnswer.reported] at hmaster
  | ready rfds => rfl

theorem Connects.sub (hc : Connects h a) (ha : Admits s a) : a.select.reported ⊆ s.activeFds := by
  have hsel := ha.1
  rw [hc.select_eq] at hsel
  exact hsel.1

/-- With no free slot `cur_conn_cnt` is at the limit. -/
theorem curConnCnt_full (hs : Represents h s) (hfull : ∀ i, 0 ≤ s.cliSocks i) : s.curConnCnt = n := by
  obtain ⟨t, hrep⟩ := hs
  have hall : (Finset.univ.filter fun i => s.cliSocks i ≠ -1) = Finset.univ := by
    rw [Finset.filter_true_of_mem]
    intro i _ hfree
    have := hfull i
    omega
  rw [hrep.serverLaws.count, hall, Finset.card_univ, Fintype.card_fin]

/-- The refusing pass: one connection is opened, told so and closed, and nothing else happens. -/
theorem body_refuses (hs : Represents h s) (hfull : ∀ i, 0 ≤ s.cliSocks i) (hc : Connects h a) :
    s.body h a = .again (((s.select a.select).accept a.accept).refuse a.accept) := by
  have haccepted := hc.accepted
  have hcount := curConnCnt_full hs hfull
  have hmaster := hc.listener
  obtain ⟨rfds, hsel⟩ : ∃ rfds, a.select = .ready rfds := ⟨_, hc.select_eq⟩
  rw [hsel] at hmaster
  have hlisten : (s.select (.ready rfds)).listener h a.accept a.acceptPipe =
      .again (((s.select (.ready rfds)).accept a.accept).refuse a.accept) := by
    rw [Srv.listener, if_pos (show h.masterSock ∈ (s.select (.ready rfds)).rfds from hmaster),
      if_neg (not_lt.mpr haccepted)]
    apply if_pos
    show s.curConnCnt > n - 1
    omega
  simp only [Srv.body, hsel, hlisten, Flow.andThen_again]

end Pass

/-! ## The laws of a full table -/

section Laws

variable {s : Srv n}

end Laws

end NetProg.SelectServer

namespace NetProg

/-! ## The main result -/

end NetProg
