/-
# NetProg.Heartbeat.SrvExpiry -- when `C/heartbeat_srv.c` reports a peer that has not started up.

The handlers run one after the other, in any order, with the ends of sessions in `main` between them.  The
count is tested by equality and grows on while `already_reset` is set; but only a SIGURG takes the flag back,
and it clears the count too, so an unflagged count is never above `PEER_EXPIRE_CNT` (`Counts`).

What happened is kept beside the state: each SIGALRM, with whether it reported, each SIGURG and each shutdown.
-/
import NetProg.Base.History
import NetProg.Heartbeat.Srv

namespace NetProg.HeartbeatSrv

/-- A handler runs, where `recv` left a byte in `c`; or `main` goes on behind its `recv`. -/
inductive Ev where
  | alrm
  | urg (c : Char)
  | shutdown
  deriving DecidableEq, Repr

def Srv.step (s : Srv) : Ev → Option Srv
  | .alrm => some s.sigAlrm
  | .urg _ => some s.sigUrg
  | .shutdown => some s.shutdown

def server : System Srv Ev := ⟨Srv.start, Srv.step⟩

/-- What happened: a SIGALRM, and whether it printed the reset. -/
inductive Obs where
  | alrm (reset : Bool)
  | urg
  | shutdown
  deriving DecidableEq, Repr

def obs (s : Srv) : Ev → List Obs
  | .alrm => [.alrm (s.sigAlrm.reports = s.reports ++ [.notStartUp])]
  | .urg _ => [.urg]
  | .shutdown => [.shutdown]

/-- A SIGALRM. -/
def Obs.isAlrm : Obs → Bool
  | alrm _ => true
  | _ => false

/-- Where the count of SIGALRMs starts again. -/
def Obs.restarts : Obs → Bool
  | alrm reset => reset
  | urg => true
  | shutdown => false

/-- The SIGALRMs since the most recent of the start, the last SIGURG and the last reset. -/
def alarms (l : List Obs) : ℕ := (since Obs.restarts l).countP Obs.isAlrm

/-- A connection was shut down since the last SIGURG, or the start. -/
def shutSinceUrg (l : List Obs) : Bool := (since (· = .urg) l).contains .shutdown

/-- A SIGALRM resets if and only if nothing was shut down since the last SIGURG and it is number
`PEER_EXPIRE_CNT + 1`. -/
def ExpiryRule (before : List Obs) : Obs → Prop
  | .alrm reset => reset = true ↔ shutSinceUrg before = false ∧ (alarms before : ℤ) = peerExpireCnt
  | _ => True

/-- Every `PEER_EXPIRE_CNT` consecutive SIGALRMs have a SIGURG among them. -/
def OftenUrg (l : List Obs) : Prop := ∀ part, part <:+: l → (part.countP Obs.isAlrm : ℤ) = peerExpireCnt →
  .urg ∈ part

section Log

variable (l : List Obs)

@[simp] theorem alarms_urg : alarms (l ++ [.urg]) = 0 := by
  rw [alarms, since_snoc_of rfl, List.countP_nil]

@[simp] theorem alarms_reset : alarms (l ++ [.alrm true]) = 0 := by
  rw [alarms, since_snoc_of rfl, List.countP_nil]

@[simp] theorem alarms_alrm : alarms (l ++ [.alrm false]) = alarms l + 1 := by
  rw [alarms, since_snoc_of_not rfl, List.countP_append]
  rfl

@[simp] theorem alarms_shutdown : alarms (l ++ [.shutdown]) = alarms l := by
  rw [alarms, since_snoc_of_not rfl, List.countP_append]
  rfl

@[simp] theorem shutSinceUrg_urg : shutSinceUrg (l ++ [.urg]) = false := by
  rw [shutSinceUrg, since_snoc_of (by simp)]
  rfl

@[simp] theorem shutSinceUrg_alrm (reset : Bool) : shutSinceUrg (l ++ [.alrm reset]) = shutSinceUrg l := by
  rw [shutSinceUrg, since_snoc_of_not (by simp)]
  simp [shutSinceUrg]

@[simp] theorem shutSinceUrg_shutdown : shutSinceUrg (l ++ [.shutdown]) = true := by
  rw [shutSinceUrg, since_snoc_of_not (by simp)]
  simp

end Log

/-- The flag is set from a shutdown to the next SIGURG, and an unflagged count is the number of SIGALRMs. -/
structure Counts (s : Srv) (l : List Obs) : Prop where
  flag : s.alreadyReset = shutSinceUrg l
  count : s.alreadyReset = false → s.expireCnt = alarms l ∧ s.expireCnt ≤ peerExpireCnt

theorem Counts.start : Counts Srv.start [] where
  flag := rfl
  count := fun _ => ⟨rfl, by decide⟩

/-- The SIGALRM handler reports, or counts. -/
theorem sigAlrm_cases (s : Srv) :
    (s.expireCnt = peerExpireCnt ∧ s.alreadyReset = false) ∧ obs s .alrm = [.alrm true] ∧
      s.sigAlrm = { s with expireCnt := 0, reports := s.reports ++ [.notStartUp] } ∨
    ¬ (s.expireCnt = peerExpireCnt ∧ s.alreadyReset = false) ∧ obs s .alrm = [.alrm false] ∧
      s.sigAlrm = { s with expireCnt := wrap32 (s.expireCnt + 1) } := by
  by_cases hexpired : peerExpireCnt = s.expireCnt ∧ s.alreadyReset = false
  · have heq : s.sigAlrm = { s with expireCnt := 0, reports := s.reports ++ [.notStartUp] } := if_pos hexpired
    refine .inl ⟨⟨hexpired.1.symm, hexpired.2⟩, ?_, heq⟩
    simp [obs, heq]
  · have heq : s.sigAlrm = { s with expireCnt := wrap32 (s.expireCnt + 1) } := if_neg hexpired
    refine .inr ⟨fun h => hexpired ⟨h.1.symm, h.2⟩, ?_, heq⟩
    simp [obs, heq]

section Step

variable {s s' : Srv} {l : List Obs}

theorem Counts.sigAlrm (h : Counts s l) : Counts s.sigAlrm (l ++ obs s .alrm) := by
  rcases sigAlrm_cases s with ⟨⟨-, hflag⟩, hobs, heq⟩ | ⟨hnot, hobs, heq⟩
  · rw [hobs, heq]
    refine ⟨?_, ?_⟩
    · rw [shutSinceUrg_alrm]
      exact h.flag
    · intro _
      rw [alarms_reset]
      refine ⟨rfl, ?_⟩
      show (0 : ℤ) ≤ peerExpireCnt
      decide
  · rw [hobs, heq]
    refine ⟨?_, ?_⟩
    · rw [shutSinceUrg_alrm]
      exact h.flag
    · intro hflag
      obtain ⟨hcount, hle⟩ := h.count hflag
      -- the equality is not jumped over: here the count is below it
      have hne : s.expireCnt ≠ peerExpireCnt := fun heq => hnot ⟨heq, hflag⟩
      have hlt : s.expireCnt + 1 ≤ 3 := by
        unfold peerExpireCnt at hle hne
        omega
      have hwrap : wrap32 (s.expireCnt + 1) = s.expireCnt + 1 := wrap32_eq (by omega) (by omega)
      show wrap32 (s.expireCnt + 1) = _ ∧ wrap32 (s.expireCnt + 1) ≤ _
      rw [hwrap, alarms_alrm, hcount]
      refine ⟨by push_cast; rfl, ?_⟩
      rw [← hcount]
      exact hlt

theorem Counts.step (h : Counts s l) {e : Ev} (hstep : s.step e = some s') : Counts s' (l ++ obs s e) := by
  cases e with
  | alrm =>
    cases hstep
    exact h.sigAlrm
  | urg c =>
    cases hstep
    refine ⟨(shutSinceUrg_urg l).symm, fun _ => ?_⟩
    rw [show obs s (.urg c) = [.urg] from rfl, alarms_urg]
    refine ⟨rfl, ?_⟩
    show (0 : ℤ) ≤ peerExpireCnt
    decide
  | shutdown =>
    cases hstep
    refine ⟨(shutSinceUrg_shutdown l).symm, ?_⟩
    rintro ⟨⟩

/-- What the SIGALRM handler does is what the history asks for. -/
theorem Counts.rule (h : Counts s l) (e : Ev) : ∀ o ∈ obs s e, ExpiryRule l o := by
  intro o ho
  cases e with
  | alrm =>
    rcases sigAlrm_cases s with ⟨⟨hcount, hflag⟩, hobs, -⟩ | ⟨hnot, hobs, -⟩
    · rw [hobs, List.mem_singleton] at ho
      subst ho
      have halarms := (h.count hflag).1
      exact iff_of_true rfl ⟨h.flag ▸ hflag, by rw [← halarms, hcount]⟩
    · rw [hobs, List.mem_singleton] at ho
      subst ho
      refine iff_of_false Bool.false_ne_true ?_
      rintro ⟨hshut, hcount⟩
      have hflag : s.alreadyReset = false := h.flag.trans hshut
      exact hnot ⟨(h.count hflag).1.trans hcount, hflag⟩
  | urg c =>
    obtain rfl := List.mem_singleton.mp ho
    trivial
  | shutdown =>
    obtain rfl := List.mem_singleton.mp ho
    trivial

end Step

theorem counts_reachable {p : Srv × List Obs} (h : (server.observe obs).Reachable p) :
    Counts p.1 p.2 ∧ Each ExpiryRule p.2 := by
  refine System.observe_invariant (P := fun s l => Counts s l ∧ Each ExpiryRule l) ⟨Counts.start, Each.nil⟩ ?_ h
  rintro s l e s' - ⟨hcounts, hrule⟩ hstep
  refine ⟨hcounts.step hstep, ?_⟩
  have hentry := hcounts.rule e
  cases e with
  | alrm | urg _ | shutdown => exact hrule.snoc (hentry _ (List.mem_singleton_self _))

/-- When heartbeats come often enough, the rule rules a reset out. -/
theorem no_reset_of_oftenUrg {l : List Obs} (hrule : Each ExpiryRule l) (hurg : OftenUrg l) :
    .alrm true ∉ l := by
  intro hreset
  obtain ⟨before, after, rfl⟩ := List.append_of_mem hreset
  have hcount := ((hrule before (.alrm true) after rfl).mp rfl).2
  -- the SIGALRMs that were counted, and no SIGURG among them
  have hpart : since Obs.restarts before <:+: before ++ .alrm true :: after :=
    (since_suffix _ before).isInfix.trans (List.prefix_append _ _).isInfix
  have hmem := hurg _ hpart hcount
  exact Bool.noConfusion (not_of_mem_since hmem)

/-- **The expiry rule.** In every run each SIGALRM prints the reset if and only if no connection was shut down
since the last SIGURG and it is number `PEER_EXPIRE_CNT + 1` since the start, the last SIGURG or the last
reset; and a SIGURG in every `PEER_EXPIRE_CNT` consecutive SIGALRMs rules a reset out. -/
theorem expiry_rule {s : Srv} {l : List Obs} (h : (server.observe obs).Reachable (s, l)) :
    Each ExpiryRule l ∧ (OftenUrg l → .alrm true ∉ l) :=
  ⟨(counts_reachable h).2, no_reset_of_oftenUrg (counts_reachable h).2⟩

/-- Four SIGALRMs, the last of which resets. -/
theorem expiry_rule_four : ∃ s, (server.observe obs).Reachable (s,
    [.alrm false, .alrm false, .alrm false, .alrm true]) ∧
    Each ExpiryRule [.alrm false, .alrm false, .alrm false, .alrm true] := by
  have hrun : (server.observe obs).runFrom (Srv.start, []) [.alrm, .alrm, .alrm, .alrm] =
      some (⟨0, false, [.notStartUp]⟩, [.alrm false, .alrm false, .alrm false, .alrm true]) := by decide
  have hs := (server.observe obs).reachable_of_run _ hrun
  exact ⟨_, hs, (expiry_rule hs).1⟩

end NetProg.HeartbeatSrv
