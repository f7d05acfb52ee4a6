/-
# NetProg.Daytime.AddrList -- the loops over the list that `getaddrinfo` returned.

`tcp_listen` (in `C/daytime_tcp_server.c` and `C/daytime_tcp_server_daemon.c`), `tcp_connect`
(`C/daytime_tcp_client.c`) and `udp_server` (`C/daytime_udp_server.c`) try one entry after the other: they
make a socket, and bind or connect it; if that fails they close it and go to the next entry.  The first error
path, for `socket` itself, is a `continue` that jumps over `res = res->ai_next`, so that the same entry is
tried again, for ever if the kernel has not got its family.  A walk is as it should be exactly when `socket`
succeeds at every entry that it comes to (`walks_iff`).

`res` is the position in the list; `NULL` is its length.  The kernel's answers are a stream, one for each
iteration.
-/
import Mathlib.Data.Finset.Basic
import NetProg.Base.Loop
import NetProg.Base.Stream

namespace NetProg.AddrList

variable {α : Type*}

/-- The four functions. -/
inductive Caller where
  | tcpListen
  | daemonTcpListen
  | tcpConnect
  | udpServer
  deriving DecidableEq, Repr

/-- `SO_REUSEADDR` is set before the `bind`. -/
def Caller.setsReuseAddr : Caller → Bool
  | tcpListen | daemonTcpListen => true
  | tcpConnect | udpServer => false

/-- What the calls of one iteration return; `attach` is `bind` or `connect`. -/
structure Answer where
  socket : ℤ
  setsockopt : ℤ
  attach : ℤ
  deriving DecidableEq, Repr

/-- The locals (`sockfd` is `none` before it is assigned), the entries for which `socket` was called, the
sockets that are open, and the descriptor that was bound or connected, with its entry. -/
structure Walk where
  res : ℕ
  sockfd : Option ℤ
  tried : List ℕ
  opened : Finset ℤ
  attached : Option (ℤ × ℕ)

namespace Walk

def start : Walk := ⟨0, none, [], ∅, none⟩

/-- `sockfd = socket(res->ai_family, res->ai_socktype, res->ai_protocol)`. -/
def socket (w : Walk) (fd : ℤ) : Walk :=
  { w with
    sockfd := some fd
    tried := w.tried ++ [w.res]
    opened := if fd < 0 then w.opened else insert fd w.opened }

/-- `close(sockfd); res = res->ai_next;`. -/
def next (w : Walk) (fd : ℤ) : Walk := { w with opened := w.opened.erase fd, res := w.res + 1 }

/-- One iteration; `ret` is the end of the loop, by `break` or at the end of the list. -/
def body (c : Caller) (l : List α) (w : Walk) (a : Answer) : Flow Walk :=
  if w.res < l.length then
    if a.socket < 0 then .again (w.socket a.socket)
    else if c.setsReuseAddr ∧ a.setsockopt < 0 then .exit "setsockopt" (w.socket a.socket)
    else if a.attach = 0 then .ret { w.socket a.socket with attached := some (a.socket, w.res) }
    else .next ((w.socket a.socket).next a.socket)
  else .ret w

end Walk

/-- The loop of `c` over the list `l`. -/
def loop (c : Caller) (l : List α) : System (Flow Walk) Answer :=
  whileLoop (Walk.body c l) (fun _ _ => True) Walk.start

/-! ## The law -/

/-- How one iteration ends. -/
inductive Attempt where
  | noSocket
  | exits
  | refused
  | done
  deriving DecidableEq, Repr

def attempt (c : Caller) (a : Answer) : Attempt :=
  if a.socket < 0 then .noSocket
  else if c.setsReuseAddr ∧ a.setsockopt < 0 then .exits
  else if a.attach = 0 then .done
  else .refused

/-- The first `k` iterations made a socket that could not be bound or connected. -/
def Refused (c : Caller) (o : ℕ → Answer) (k : ℕ) : Prop := ∀ j < k, attempt c (o j) = .refused

/-- The loop ends, with no entry tried twice, and by `break` only at the first entry that works, or behind the
last one if there is none. -/
structure Walks (c : Caller) (l : List α) (o : ℕ → Answer) : Prop where
  ends : ∃ k, ∀ w, (loop c l).along o k ≠ .next w
  once : ∀ k, ((loop c l).along o k).state.tried.Nodup
  stops : ∀ k w, (loop c l).along o k = .ret w →
    (w.res < l.length ∧ attempt c (o w.res) = .done ∨ w.res = l.length) ∧ Refused c o w.res

/-! ## Along the stream -/

section Along

variable {c : Caller} {l : List α} {o : ℕ → Answer} {k : ℕ}

theorem loop_step (w : Walk) (a : Answer) : (loop c l).step (.next w) a = some (w.body c l a).loopBack :=
  whileLoop_step.mpr ⟨w, rfl, trivial, rfl⟩

/-- What an iteration does, in terms of how it ends. -/
theorem body_eq {w : Walk} (hlt : w.res < l.length) (a : Answer) : w.body c l a =
    match attempt c a with
    | .noSocket => .again (w.socket a.socket)
    | .exits => .exit "setsockopt" (w.socket a.socket)
    | .done => .ret { w.socket a.socket with attached := some (a.socket, w.res) }
    | .refused => .next ((w.socket a.socket).next a.socket) := by
  rw [Walk.body, if_pos hlt, attempt]
  split_ifs <;> rfl

theorem socket_nonneg_iff (a : Answer) : 0 ≤ a.socket ↔ attempt c a ≠ .noSocket := by
  unfold attempt
  split_ifs <;> simp <;> omega

/-- **After `k` sockets that were refused** the loop is at entry `k`, each entry before it has been tried once,
and nothing is open. -/
theorem along_refused (hk : k ≤ l.length) (hrefused : Refused c o k) : ∃ w, (loop c l).along o k = .next w ∧
    w.res = k ∧ w.tried = List.range k ∧ w.opened = ∅ ∧ w.attached = none := by
  induction k with
  | zero => exact ⟨Walk.start, rfl, rfl, rfl, rfl, rfl⟩
  | succ k ih =>
    obtain ⟨w, hw, hres, htried, hopened, hattached⟩ := ih (Nat.le_of_succ_le hk) fun j hj =>
      hrefused j (Nat.lt_succ_of_lt hj)
    have hlast := hrefused k (Nat.lt_succ_self k)
    have hlt : w.res < l.length := by omega
    have hsock : ¬ (o k).socket < 0 := by
      rw [not_lt, socket_nonneg_iff (c := c), hlast]
      exact Attempt.noConfusion
    refine ⟨(w.socket (o k).socket).next (o k).socket, ?_, ?_, ?_, ?_, hattached⟩
    · apply System.along_succ hw
      rw [loop_step, body_eq hlt, hlast]
      rfl
    · exact congrArg (· + 1) hres
    · show w.tried ++ [w.res] = List.range (k + 1)
      rw [htried, hres, List.range_succ]
    · show (if (o k).socket < 0 then w.opened else insert (o k).socket w.opened).erase (o k).socket = ∅
      rw [if_neg hsock, hopened]
      simp

/-- **An entry that works** ends the loop: its socket is left, and is the only one that is open. -/
theorem along_done (hk : k < l.length) (hrefused : Refused c o k) (hdone : attempt c (o k) = .done) : ∃ w : Walk,
    (∀ m, (loop c l).along o m = .ret w ∨ m ≤ k ∧ ∃ v, (loop c l).along o m = .next v) ∧ w.res = k ∧
      w.sockfd = some (o k).socket ∧ w.opened = {(o k).socket} ∧ w.attached = some ((o k).socket, k) := by
  obtain ⟨w, hw, hres, -, hopened, -⟩ := along_refused (Nat.le_of_lt hk) hrefused
  have hend : (loop c l).along o (k + 1) =
      .ret { w.socket (o k).socket with attached := some ((o k).socket, w.res) } := by
    apply System.along_succ hw
    rw [loop_step, body_eq (by omega), hdone]
    rfl
  have hsock : 0 ≤ (o k).socket := by
    rw [socket_nonneg_iff (c := c), hdone]
    exact Attempt.noConfusion
  refine ⟨{ w.socket (o k).socket with attached := some ((o k).socket, w.res) }, fun m => ?_, hres, rfl, ?_,
    congrArg (fun i => some ((o k).socket, i)) hres⟩
  · rcases Nat.lt_or_ge k m with hlt | hge
    · exact .inl (System.along_of_stuck hend (whileLoop_stuck (by rintro v ⟨⟩)) hlt)
    · obtain ⟨v, hv, -⟩ := along_refused (hge.trans (Nat.le_of_lt hk)) fun j hj =>
        hrefused j (Nat.lt_of_lt_of_le hj hge)
      exact .inr ⟨hge, v, hv⟩
  · show (if (o k).socket < 0 then w.opened else insert (o k).socket w.opened) = {(o k).socket}
    rw [if_neg (not_lt.mpr hsock), hopened]
    rfl

/-- **A list without one** leaves the socket of the last entry, which is closed. -/
theorem along_exhausted (hrefused : Refused c o l.length) : ∃ w : Walk,
    (loop c l).along o (l.length + 1) = .ret w ∧ w.res = l.length ∧ w.tried = List.range l.length ∧
      w.opened = ∅ ∧ w.attached = none := by
  obtain ⟨w, hw, hres, htried, hopened, hattached⟩ := along_refused (Nat.le_refl l.length) hrefused
  have hbody : w.body c l (o l.length) = .ret w := if_neg (by omega)
  refine ⟨w, System.along_succ hw ?_, hres, htried, hopened, hattached⟩
  rw [loop_step, hbody]
  rfl

/-- The first iteration that does not end with a refused socket. -/
theorem exists_first {n : ℕ} (h : ¬ Refused c o n) :
    ∃ j < n, Refused c o j ∧ attempt c (o j) ≠ .refused := by
  induction n with
  | zero => exact absurd (fun j hj => absurd hj (Nat.not_lt_zero j)) h
  | succ n ih =>
    by_cases hn : Refused c o n
    · refine ⟨n, Nat.lt_succ_self n, hn, fun hlast => h fun j hj => ?_⟩
      rcases Nat.lt_succ_iff_lt_or_eq.mp hj with hlt | rfl
      · exact hn j hlt
      · exact hlast
    · obtain ⟨j, hj, hfirst⟩ := ih hn
      exact ⟨j, Nat.lt_succ_of_lt hj, hfirst⟩

/-- **The loop is left at entry `k`**: the law only has to be looked at there. -/
theorem walks_of_left (hk : k ≤ l.length) (hrefused : Refused c o k) {f : Flow Walk}
    (hf : (loop c l).along o (k + 1) = f) (hleft : ∀ w, f ≠ .next w) (honce : f.state.tried.Nodup)
    (hstops : ∀ w, f = .ret w → w.res = k ∧ (k < l.length → attempt c (o k) = .done)) : Walks c l o := by
  have hlater : ∀ m, k < m → (loop c l).along o m = f := fun m hm =>
    System.along_of_stuck hf (whileLoop_stuck hleft) hm
  have hbefore : ∀ m ≤ k, ∃ w, (loop c l).along o m = .next w ∧ w.tried = List.range m := by
    intro m hm
    obtain ⟨w, hw, -, htried, -⟩ := along_refused (hm.trans hk) fun j hj =>
      hrefused j (Nat.lt_of_lt_of_le hj hm)
    exact ⟨w, hw, htried⟩
  refine ⟨⟨k + 1, ?_⟩, fun m => ?_, fun m w hm => ?_⟩
  · rwa [hf]
  · rcases Nat.lt_or_ge k m with hlt | hge
    · rwa [hlater m hlt]
    · obtain ⟨w, hw, htried⟩ := hbefore m hge
      rw [hw]
      show w.tried.Nodup
      rw [htried]
      exact List.nodup_range
  · rcases Nat.lt_or_ge k m with hlt | hge
    · rw [hlater m hlt] at hm
      obtain ⟨hres, hdone⟩ := hstops w hm
      rw [hres]
      refine ⟨?_, hrefused⟩
      rcases Nat.lt_or_ge k l.length with hin | hout
      · exact .inl ⟨hin, hdone hin⟩
      · exact .inr (Nat.le_antisymm hk hout)
    · obtain ⟨v, hv, -⟩ := hbefore m hge
      rw [hv] at hm
      cases hm

/-- The whole list was refused. -/
theorem walks_refused (hrefused : Refused c o l.length) : Walks c l o := by
  obtain ⟨w, hend, hres, htried, -⟩ := along_exhausted hrefused
  apply walks_of_left (Nat.le_refl l.length) hrefused hend
  · rintro v ⟨⟩
  · show w.tried.Nodup
    rw [htried]
    exact List.nodup_range
  · rintro v ⟨⟩
    exact ⟨hres, fun hlt => absurd hlt (Nat.lt_irrefl _)⟩

/-- A socket was made, and not refused. -/
theorem walks_left (hk : k < l.length) (hrefused : Refused c o k) (hsocket : attempt c (o k) ≠ .noSocket)
    (hnot : attempt c (o k) ≠ .refused) : Walks c l o := by
  obtain ⟨w, hw, hres, htried, -⟩ := along_refused (Nat.le_of_lt hk) hrefused
  have hlt : w.res < l.length := by omega
  have honce : (w.tried ++ [w.res]).Nodup := by
    rw [htried, hres, ← List.range_succ]
    exact List.nodup_range
  cases hattempt : attempt c (o k) with
  | noSocket => exact absurd hattempt hsocket
  | refused => exact absurd hattempt hnot
  | exits =>
    apply walks_of_left (f := .exit "setsockopt" (w.socket (o k).socket)) (Nat.le_of_lt hk) hrefused
    · apply System.along_succ hw
      rw [loop_step, body_eq hlt, hattempt]
      rfl
    · rintro v ⟨⟩
    · exact honce
    · rintro v ⟨⟩
  | done =>
    apply walks_of_left (f := .ret { w.socket (o k).socket with attached := some ((o k).socket, w.res) })
      (Nat.le_of_lt hk) hrefused
    · apply System.along_succ hw
      rw [loop_step, body_eq hlt, hattempt]
      rfl
    · rintro v ⟨⟩
    · exact honce
    · rintro v ⟨⟩
      exact ⟨hres, fun _ => hattempt⟩

/-- **Without a socket the same entry is tried again.** -/
theorem not_walks (hk : k < l.length) (hrefused : Refused c o k) (hsocket : attempt c (o k) = .noSocket) :
    ¬ Walks c l o := by
  intro hwalks
  obtain ⟨w, hw, hres, -, -⟩ := along_refused (Nat.le_of_lt hk) hrefused
  have hlt : w.res < l.length := by omega
  have hagain : (loop c l).along o (k + 1) = .next (w.socket (o k).socket) := by
    apply System.along_succ hw
    rw [loop_step, body_eq hlt, hsocket]
    rfl
  have htwice := hwalks.once (k + 1 + 1)
  have hstep : (loop c l).along o (k + 1 + 1) =
      ((w.socket (o k).socket).body c l (o (k + 1))).loopBack := by
    apply System.along_succ hagain
    exact loop_step _ _
  have htried : ((w.socket (o k).socket).body c l (o (k + 1))).state.tried = w.tried ++ [w.res] ++ [w.res] := by
    rw [body_eq (show (w.socket (o k).socket).res < l.length from hlt)]
    cases attempt c (o (k + 1)) <;> rfl
  rw [hstep, Flow.state_loopBack, htried, List.append_assoc, List.nodup_append] at htwice
  exact absurd htwice.2.1 (by simp)

end Along

/-! ## The main result -/

/-- **When the loops over the address list end as they should**: in all four functions, for every list and every
stream of outcomes. -/
theorem walks_iff (c : Caller) (l : List α) (o : ℕ → Answer) :
    Walks c l o ↔ ∀ k < l.length, Refused c o k → 0 ≤ (o k).socket := by
  constructor
  · intro hwalks k hk hrefused
    rw [socket_nonneg_iff (c := c)]
    exact fun hsocket => not_walks hk hrefused hsocket hwalks
  · intro hsockets
    by_cases hall : Refused c o l.length
    · exact walks_refused hall
    · obtain ⟨k, hk, hrefused, hnot⟩ := exists_first hall
      exact walks_left hk hrefused ((socket_nonneg_iff (o k)).mp (hsockets k hk hrefused)) hnot

/-- `socket` fails whenever it is called: in none of the functions does the loop get beyond the first entry. -/
theorem loop_forever :
    (∀ c k, ∃ w, (loop c [()]).along (fun _ => ⟨-1, 0, 0⟩) k = .next w ∧ w.res = 0) ∧
    ¬ ∃ c, Walks c [()] (fun _ => ⟨-1, 0, 0⟩) := by
  have hforever : ∀ c k, ∃ w, (loop c [()]).along (fun _ => ⟨-1, 0, 0⟩) k = .next w ∧ w.res = 0 := by
    intro c k
    induction k with
    | zero => exact ⟨Walk.start, rfl, rfl⟩
    | succ k ih =>
      obtain ⟨w, hw, hres⟩ := ih
      refine ⟨w.socket (-1), System.along_succ hw ?_, hres⟩
      rw [loop_step, body_eq (by rw [hres]; exact Nat.one_pos)]
      rfl
  refine ⟨hforever, ?_⟩
  rintro ⟨c, hwalks⟩
  obtain ⟨k, hk⟩ := hwalks.ends
  obtain ⟨w, hw, -⟩ := hforever c k
  exact hk w hw

end NetProg.AddrList
