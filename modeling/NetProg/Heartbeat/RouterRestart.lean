/-
# NetProg.Heartbeat.RouterRestart -- a router that starts with what an earlier run left in the file.

`main` does not write the counter file, so a router goes on counting from the number that is in it, with an
`already_reset` of its own that is 0.  A number above `PEER_EXPIRE_CNT`, which every run leaves that has reset
its peer, is past the equality of the test.
-/
import NetProg.Heartbeat.RouterOutage

namespace NetProg.Heartbeat

/-- A router at its first `accept`, with this file. -/
def startWith (file : File) : Router := { Router.start with file := file }

/-- The peer sends no heartbeat in this run, and `PEER_EXPIRE_CNT + 1` SIGALRMs are delivered. -/
def Silent (seg : List AtomicEv) : Prop :=
  (∀ e ∈ seg, e.isBeat = false) ∧ seg.countP AtomicEv.isAlrm = peerExpireCnt + 1

theorem silent_replicate (stack : List Char) : Silent (List.replicate 31 (.alrm stack)) := by
  refine ⟨fun e he => ?_, ?_⟩
  · obtain ⟨-, rfl⟩ := List.mem_replicate.mp he
    rfl
  · rw [List.countP_replicate]
    rfl

/-- Above the limit the SIGALRMs count on, and a sum that does not fit in an `int` is negative: none of the
numbers read is `PEER_EXPIRE_CNT`. -/
theorem counts_on {s : Router} {n : ℕ} (hn : 30 < n) (stack : List Char) (k : ℕ) (hk : n + k ≤ 2 ^ 31 + 31)
    (hfile : Holds s.file (wrap32 n)) :
    ∃ t, atomicRouter.runFrom s (List.replicate k (.alrm stack)) = some t ∧ resets t = resets s := by
  induction k generalizing s n with
  | zero => exact ⟨s, rfl, rfl⟩
  | succ k ih =>
    have hread := hfile.read stack
    have hne : wrap32 n ≠ peerExpireCnt := by
      intro heq
      have hdvd : ((2 ^ 32 : ℕ) : ℤ) ∣ wrap32 n - n := Int.dvd_bmod_sub_self
      rw [heq, peerExpireCnt] at hdvd
      omega
    have hnot : ¬ s.expired (readExpireCnt stack s.file) = true := by
      rw [hread, Router.expired, Bool.and_eq_true, decide_eq_true_eq]
      exact fun h => hne h.1.symm
    obtain ⟨-, hresets, hwritten⟩ := sigAlrm_counts stack hnot
    have hnext : Holds (s.sigAlrm stack).file (wrap32 ((n + 1 : ℕ) : ℤ)) := by
      have hsum : wrap32 (wrap32 n + 1) = wrap32 ((n + 1 : ℕ) : ℤ) := by
        rw [Nat.cast_succ]
        exact Int.bmod_add_bmod
      rw [hwritten, hread, hsum]
      exact holds_write _ (wrap32_natAbs_le _)
    obtain ⟨t, ht, hsame⟩ := ih (Nat.lt_succ_of_lt hn) (by omega) hnext
    exact ⟨t, atomicRouter.runFrom_cons rfl ht, hsame.trans hresets⟩

/-- **A router whose peer never sends a heartbeat resets it within `PEER_EXPIRE_CNT + 1` SIGALRMs if and only
if the number left in the file is at most `PEER_EXPIRE_CNT`.** -/
theorem leftOver_resets_iff {file : File} {n : ℕ} (hfile : Holds file n) (hn : n < 2 ^ 31) :
    (∀ seg t, Silent seg → atomicRouter.runFrom (startWith file) seg = some t → 0 < resets t) ↔
      (n : ℤ) ≤ peerExpireCnt := by
  constructor
  · intro hall
    by_contra hgt
    have hlimit : 30 < n := by
      simp only [peerExpireCnt] at hgt
      omega
    have hwrap : wrap32 (n : ℤ) = n := wrap32_eq (by omega) (by omega)
    have hstart : Holds (startWith file).file (wrap32 (n : ℤ)) := by
      rw [hwrap]
      exact hfile
    obtain ⟨t, ht, hsame⟩ := counts_on hlimit [] 31 (by omega) hstart
    have hpos := hall _ t (silent_replicate []) ht
    rw [hsame] at hpos
    exact Nat.lt_irrefl 0 hpos
  · rintro hle seg t ⟨hno, hcount⟩ hrun
    simp only [peerExpireCnt] at hle hcount
    exact detects (s := startWith file) (k := n) hrun hno rfl hfile (by omega) (by omega)

/-- With 30 in the file the first SIGALRM resets the peer. -/
theorem leftOver_resets_iff_thirty : ∃ t, atomicRouter.runFrom (startWith ['3', '0', nul])
    (List.replicate 31 (.alrm [])) = some t ∧ 0 < resets t := by
  have hfile : Holds ['3', '0', nul] ((30 : ℕ) : ℤ) := ⟨⟨[], rfl⟩, by decide⟩
  cases hrun : atomicRouter.runFrom (startWith ['3', '0', nul]) (List.replicate 31 (.alrm [])) with
  | none => exact absurd hrun (by decide +kernel)
  | some t =>
    exact ⟨t, rfl, (leftOver_resets_iff hfile (by decide)).mpr (by decide) _ t (silent_replicate []) hrun⟩

/-- A run resets its peer and is killed; the next router never does. -/
theorem leftOver_no_reset : ∃ s t, atomicRouter.Reachable s ∧ resets s = 1 ∧
    atomicRouter.runFrom (startWith s.file) (List.replicate 31 (.alrm [])) = some t ∧ resets t = 0 := by
  obtain ⟨s, hs, hend⟩ := atomicRouter.exists_reachable_of_run (List.replicate 31 (.alrm []))
    (fun s => resets s == 1 && (atomicRouter.runFrom (startWith s.file) (List.replicate 31 (.alrm []))).any
      fun t => resets t == 0) (by decide +kernel)
  rw [Bool.and_eq_true, beq_iff_eq] at hend
  obtain ⟨t, hrun, hzero⟩ := (Option.any_eq_true _ _).mp hend.2
  exact ⟨s, t, hs, hend.1, hrun, beq_iff_eq.mp hzero⟩

end NetProg.Heartbeat
