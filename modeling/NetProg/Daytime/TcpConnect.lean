/-
# NetProg.Daytime.TcpConnect -- what `tcp_connect` of `C/daytime_tcp_client.c` returns.

`(n == getaddrinfo(...)) != 0` compares where it should assign: the error is reported when `getaddrinfo` happens
to return what the uninitialised `n` holds, also if that is 0, and when it fails with another value the loop
reads a `res` that was never set.  Behind a list without a connection `NULL == res` is only printed, and the
descriptor of the last entry, which is closed, is returned.  With the loop itself as in `AddrList`, the function
does what it is for exactly when `n` is right and some entry connects (`tcpConnect_reliable_iff`).
-/
import NetProg.Daytime.AddrList

namespace NetProg.TcpConnect

open AddrList

variable {α : Type*}

/-- How far `tcp_connect` has got: it reported an error with the text for `n`, its behaviour is undefined, the
loop goes on, or it has returned `sockfd`. -/
inductive Outcome where
  | reported (n : ℤ)
  | undefined
  | running
  | returned (w : Walk)

/-- `tcp_connect` after `k` iterations, when `n` is in the local, `getaddrinfo` returns `gai`, and with 0 the
list `l`. -/
def tcpConnect (n gai : ℤ) (l : List α) (o : ℕ → Answer) (k : ℕ) : Outcome :=
  if n = gai then .reported n
  -- `res` was not assigned
  else if gai ≠ 0 then .undefined
  else
    match (loop .tcpConnect l).along o k with
    | .ret w => .returned w
    | _ => .running

/-- `sockfd` is open and connected to the first entry whose `connect` succeeded, and nothing else is open. -/
structure Connected (l : List α) (o : ℕ → Answer) (w : Walk) (fd : ℤ) (i : ℕ) : Prop where
  returned : w.sockfd = some fd
  opened : w.opened = {fd}
  attached : w.attached = some (fd, i)
  entry : i < l.length
  connects : (o i).attach = 0
  first : ∀ j < i, (o j).attach ≠ 0

/-- An error is reported if and only if `getaddrinfo` failed, and what is returned is connected. -/
structure Reliable (n gai : ℤ) (l : List α) (o : ℕ → Answer) : Prop where
  reports : (∃ k m, tcpConnect n gai l o k = .reported m) ↔ gai ≠ 0
  returns : ∀ k w, tcpConnect n gai l o k = .returned w → ∃ fd i, Connected l o w fd i

section Run

variable {n gai : ℤ} {l : List α} {o : ℕ → Answer} {k : ℕ} {w : Walk}

theorem reported_iff (n gai : ℤ) (l : List α) (o : ℕ → Answer) :
    (∃ k m, tcpConnect n gai l o k = .reported m) ↔ n = gai := by
  constructor
  · rintro ⟨k, m, h⟩
    by_contra hne
    rw [tcpConnect, if_neg hne] at h
    split_ifs at h
    split at h <;> cases h
  · intro heq
    exact ⟨0, n, if_pos heq⟩

theorem returned_iff : tcpConnect n gai l o k = .returned w ↔
    n ≠ gai ∧ gai = 0 ∧ (loop .tcpConnect l).along o k = .ret w := by
  unfold tcpConnect
  split_ifs with heq hgai
  · simp [heq]
  · simp [hgai]
  · obtain rfl : gai = 0 := not_not.mp hgai
    cases (loop .tcpConnect l).along o k <;> simp [heq]

/-- With a socket, `connect` decides. -/
theorem attempt_connect {a : Answer} (hsocket : 0 ≤ a.socket) :
    attempt .tcpConnect a = if a.attach = 0 then .done else .refused := by
  rw [attempt, if_neg (not_lt.mpr hsocket), if_neg (by simp [Caller.setsReuseAddr])]

/-- Nothing was connected: the loop returns all the same. -/
theorem returns_closed (hsockets : ∀ k, 0 ≤ (o k).socket) (hn : n ≠ 0)
    (hnone : ∀ i < l.length, (o i).attach ≠ 0) :
    ∃ w, tcpConnect n 0 l o (l.length + 1) = .returned w ∧ w.opened = ∅ ∧ w.attached = none := by
  have hrefused : Refused .tcpConnect o l.length := by
    intro i hi
    rw [attempt_connect (hsockets i), if_neg (hnone i hi)]
  obtain ⟨w, hend, -, -, hopened, hattached⟩ := along_exhausted hrefused
  exact ⟨w, returned_iff.mpr ⟨hn, rfl, hend⟩, hopened, hattached⟩

/-- Some entry connects: what is returned is the first that does. -/
theorem connected_of_returned (hsockets : ∀ k, 0 ≤ (o k).socket) (hsome : ∃ i < l.length, (o i).attach = 0)
    (hret : (loop .tcpConnect l).along o k = .ret w) : ∃ fd i, Connected l o w fd i := by
  have hwalks := (walks_iff .tcpConnect l o).mpr fun k _ _ => hsockets k
  obtain ⟨hend, hrefused⟩ := hwalks.stops k w hret
  have hfirst : ∀ j < w.res, (o j).attach ≠ 0 := by
    intro j hj hzero
    have hattempt := hrefused j hj
    rw [attempt_connect (hsockets j), if_pos hzero] at hattempt
    cases hattempt
  obtain ⟨i, hi, hzero⟩ := hsome
  obtain ⟨hlt, hdone⟩ := hend.resolve_right fun hres => hfirst i (hres ▸ hi) hzero
  obtain ⟨v, hlater, -, hsockfd, hopened, hattached⟩ := along_done hlt hrefused hdone
  obtain rfl : v = w := by
    rcases hlater k with hv | ⟨-, u, hu⟩
    · exact Flow.ret.inj (hv.symm.trans hret)
    · rw [hu] at hret
      cases hret
  refine ⟨_, v.res, hsockfd, hopened, hattached, hlt, ?_, hfirst⟩
  rw [attempt_connect (hsockets v.res)] at hdone
  split_ifs at hdone with hattach
  exact hattach

end Run

/-! ## The main result -/

/-- **When `tcp_connect` returns only connected sockets.**  For every value of `n`, every result of
`getaddrinfo`, every list and every stream of outcomes in which `socket` succeeds. -/
theorem tcpConnect_reliable_iff (n gai : ℤ) (l : List α) (o : ℕ → Answer)
    (hsockets : ∀ k, 0 ≤ (o k).socket) :
    Reliable n gai l o ↔ (n = gai ↔ gai ≠ 0) ∧ (gai = 0 → ∃ i < l.length, (o i).attach = 0) := by
  constructor
  · rintro ⟨hreports, hreturns⟩
    rw [reported_iff] at hreports
    refine ⟨hreports, ?_⟩
    rintro rfl
    by_contra hnone
    have hn : n ≠ 0 := fun heq => hreports.mp heq rfl
    obtain ⟨w, hw, -, hattached⟩ := returns_closed (l := l) (o := o) hsockets hn fun i hi hzero =>
      hnone ⟨i, hi, hzero⟩
    obtain ⟨fd, i, hconnected⟩ := hreturns _ w hw
    cases hattached.symm.trans hconnected.attached
  · rintro ⟨hreports, hsome⟩
    refine ⟨(reported_iff n gai l o).trans hreports, fun k w hw => ?_⟩
    obtain ⟨-, hgai, hret⟩ := returned_iff.mp hw
    exact connected_of_returned hsockets (hsome hgai) hret

/-- The first of two addresses refuses: descriptor 3 is connected to the second. -/
theorem tcpConnect_reliable_iff_second :
    Reliable (-1) 0 [(), ()] (fun k => ⟨3, 0, if k = 0 then -1 else 0⟩) := by
  refine (tcpConnect_reliable_iff (-1) 0 [(), ()] _ fun k => ?_).mpr ⟨by decide, fun _ => ⟨1, ?_, ?_⟩⟩
  · show (0 : ℤ) ≤ 3
    decide
  · decide
  · decide

/-- With 0 in `n` the success of `getaddrinfo` is reported as an error, with -1 its failure is not; and the
descriptor of a refused connection is returned when it is closed. -/
theorem tcpConnect_unreliable :
    tcpConnect 0 0 [()] (fun _ => ⟨3, 0, 0⟩) 0 = .reported 0 ∧
      tcpConnect (-1) (-2) [()] (fun _ => ⟨3, 0, 0⟩) 0 = .undefined ∧
      (∃ w, tcpConnect (-1) 0 [()] (fun _ => ⟨3, 0, -1⟩) 2 = .returned w ∧ w.sockfd = some 3 ∧ w.opened = ∅) ∧
      ¬ Reliable (-1) 0 [()] (fun _ => ⟨3, 0, -1⟩) := by
  refine ⟨rfl, rfl, ⟨_, rfl, rfl, rfl⟩, fun hreliable => ?_⟩
  obtain ⟨fd, i, hconnected⟩ := hreliable.returns 2 _ rfl
  cases hconnected.attached

end NetProg.TcpConnect
