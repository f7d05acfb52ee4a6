/-
# NetProg.FdPassing.MyOpen -- `my_open` of `C/mycat.c` and its child, `C/openfile.c`.

The parent makes a socket pair, lets a child open the file and send the descriptor over it, waits for the
child's exit status, and receives.  `fd`, the result, is only assigned where something is known of it: by
`read_fd`, once `recvmsg` has returned data, and for a status other than 0.  When the child exits with 0 and
`recvmsg` fails or finds the end of the stream, `read_fd` returns early, `my_open` does not look at what it
returns, and an undefined value is printed and returned (`myOpen_clean_iff`).

The child sends before it exits with 0 (`openfile_status`), so that with `openfile` at the other end only a
`recvmsg` that fails is left (`myOpen_openfile_iff`).
-/
import NetProg.Base.CString
import NetProg.Base.Loop

namespace NetProg.FdPassing

/-- `#define BUF_SIZE 256`, in both files. -/
def bufSize : ℕ := 256

/-- `SOL_SOCKET`. -/
def solSocket : ℤ := 1

/-- `SCM_RIGHTS`. -/
def scmRights : ℤ := 1

/-- `CMSG_LEN(sizeof(int))`: a header of 16 bytes and the descriptor. -/
def cmsgLen : ℕ := 20

/-- A control message, with the `int` that stands in it. -/
structure Cmsg where
  len : ℕ
  level : ℤ
  type : ℤ
  fd : ℤ
  deriving DecidableEq, Repr

/-- A control message that carries one descriptor. -/
def Cmsg.rights (fd : ℤ) : Cmsg := ⟨cmsgLen, solSocket, scmRights, fd⟩

/-- What `recvmsg` returns: `-1`, or the bytes stored (none at the end of the stream) and the first control
message, if there is one. -/
inductive RecvMsg where
  | error
  | data (bs : List UInt8) (control : Option Cmsg)
  deriving DecidableEq, Repr

/-- At most `sizeof(recv_buf)` bytes are stored. -/
def RecvMsg.Admits : RecvMsg → Prop
  | error => True
  | data bs _ => bs.length ≤ bufSize

instance : (r : RecvMsg) → Decidable r.Admits
  | .error => inferInstanceAs (Decidable True)
  | .data bs _ => inferInstanceAs (Decidable (bs.length ≤ bufSize))

/-- What `waitpid` says of the child. -/
inductive Wait where
  | error
  | killed
  | exited (status : UInt8)
  deriving DecidableEq, Repr

/-! ## The parent -/

/-- The locals of `my_open` in the parent; `fd` is `none` before it is assigned. -/
structure Parent where
  fd : Option ℤ
  recvBuf : Vector UInt8 bufSize
  open0 : Bool
  open1 : Bool

namespace Parent

/-- Behind `fork`, with both ends open. -/
def start : Parent := ⟨none, cleared bufSize, true, true⟩

/-- `read_fd(sockfd[1], recv_buf, sizeof(recv_buf), &fd)`; the caller drops what it returns. -/
def readFd (p : Parent) : RecvMsg → Flow Parent
  | .error => .next p
  | .data [] _ => .next p
  | .data (b :: bs) control =>
    let p := { p with recvBuf := store p.recvBuf 0 (b :: bs) }
    match control with
    | none => .next { p with fd := some (-1) }
    | some c =>
      if c.len = cmsgLen then
        if c.level ≠ solSocket then .exit "SOL_SOCKET != cmptr->cmsg_level" p
        else if c.type ≠ scmRights then .exit "SCM_RIGHTS != cmptr->cmsg_type" p
        else .next { p with fd := some c.fd }
      else .next { p with fd := some (-1) }

/-- `printf("... recv_buf = %s ...", ..., recv_buf, fd)`. -/
def print (p : Parent) : Flow Parent :=
  if (cString p.recvBuf.toList).isSome then .next p else .undef p

/-- `close(sockfd[1]); return fd;`. -/
def finish (p : Parent) : Flow Parent := .ret { p with open1 := false }

/-- `my_open` in the parent, from its `close(sockfd[0])`. -/
def myOpen (wait : Wait) (recv : RecvMsg) : Flow Parent :=
  let p := { start with open0 := false }
  match wait with
  | .error => .exit "waitpid" p
  | .killed => .exit "child did not terminate" p
  | .exited status =>
    if status = 0 then ((p.readFd recv).andThen print).andThen finish
    else finish { p with fd := some (-1) }

end Parent

/-- The descriptor that came, if one did. -/
def RecvMsg.received : RecvMsg → Option ℤ
  | data (_ :: _) (some c) =>
    if c.len = cmsgLen ∧ c.level = solSocket ∧ c.type = scmRights then some c.fd else none
  | _ => none

/-- `my_open` returns `v`, with both ends of the pair closed. -/
structure Returns (f : Flow Parent) (v : ℤ) : Prop where
  returned : ∃ p, f = .ret p
  fd : f.state.fd = some v
  closed0 : f.state.open0 = false
  closed1 : f.state.open1 = false

/-- Behind a child that exited with `status`: the descriptor that was received, or -1 if there was none. -/
def Clean (status : UInt8) (recv : RecvMsg) : Prop :=
  Returns (Parent.myOpen (.exited status) recv) (if status = 0 then recv.received.getD (-1) else -1)

/-- `recvmsg` returned data that can be printed as a string, and no control message of the expected length but
one that carries a descriptor. -/
def RecvMsg.Good : RecvMsg → Prop
  | data (b :: bs) control => (untilNul (b :: bs)).length < bufSize ∧
      ∀ c, control = some c → c.len = cmsgLen → c.level = solSocket ∧ c.type = scmRights
  | _ => False

section Parent

variable {p : Parent} {bs : List UInt8}

/-- What was received into the cleared buffer is printed if a NUL ends it there. -/
theorem print_received (hbs : bs.length ≤ bufSize) (hbuf : p.recvBuf = store (cleared bufSize) 0 bs) :
    p.print = if (untilNul bs).length < bufSize then .next p else .undef p := by
  rw [Parent.print, hbuf, cString_store_cleared hbs]
  by_cases hfits : (untilNul bs).length < bufSize
  · rw [if_pos hfits, if_pos hfits, Option.isSome_some, if_pos rfl]
  · rw [if_neg hfits, if_neg hfits, Option.isSome_none, if_neg Bool.false_ne_true]

theorem print_cleared (hbuf : p.recvBuf = cleared bufSize) : p.print = .next p := by
  apply if_pos
  have hnul : (0 : UInt8) ∈ (cleared bufSize).toList := by
    rw [← List.drop_zero (l := (cleared bufSize).toList), drop_cleared]
    exact List.mem_replicate.mpr ⟨by decide, rfl⟩
  rw [hbuf, cString_of_mem hnul]
  rfl

theorem finish_returns_iff {v : ℤ} : Returns p.finish v ↔ p.fd = some v ∧ p.open0 = false :=
  ⟨fun h => ⟨h.fd, h.closed0⟩, fun h => ⟨⟨_, rfl⟩, h.1, h.2, rfl⟩⟩

/-- With data in the buffer and `fd` assigned, printing decides. -/
theorem print_finish_returns_iff (hclear : p.recvBuf = cleared bufSize) (hopen : p.open0 = false)
    (hbs : bs.length ≤ bufSize) (v w : ℤ) :
    Returns ((Parent.print { p with recvBuf := store p.recvBuf 0 bs, fd := some v }).andThen Parent.finish) w ↔
      (untilNul bs).length < bufSize ∧ v = w := by
  rw [print_received hbs (by rw [hclear])]
  split_ifs with hfits
  · rw [Flow.andThen_next, finish_returns_iff]
    simp [hfits, hopen]
  · refine iff_of_false ?_ fun h => hfits h.1
    rintro ⟨⟨q, hq⟩, -, -, -⟩
    cases hq

end Parent

/-- **An early return of `read_fd`** leaves `fd` as it was. -/
theorem not_clean_of_early {recv : RecvMsg} (hearly : ∀ p : Parent, p.readFd recv = .next p) :
    ¬ Clean 0 recv := by
  intro hclean
  have hprint : ({ Parent.start with open0 := false } : Parent).print =
      .next { Parent.start with open0 := false } := print_cleared rfl
  rw [Clean, if_pos rfl, Parent.myOpen] at hclean
  simp only [if_true, hearly, Flow.andThen_next, hprint] at hclean
  cases (finish_returns_iff.mp hclean).1

/-- With data, what remains is the control message. -/
theorem clean_data_iff {b : UInt8} {bs : List UInt8} (control : Option Cmsg)
    (hbs : (b :: bs).length ≤ bufSize) :
    Clean 0 (.data (b :: bs) control) ↔ (RecvMsg.data (b :: bs) control).Good := by
  obtain ⟨p, hp, hclear, hopen⟩ : ∃ p : Parent, ({ Parent.start with open0 := false } : Parent) = p ∧
      p.recvBuf = cleared bufSize ∧ p.open0 = false := ⟨_, rfl, rfl, rfl⟩
  rw [Clean, if_pos rfl, Parent.myOpen, RecvMsg.Good, hp]
  simp only [if_true]
  match control with
  | none =>
    simp only [Parent.readFd, Flow.andThen_next]
    rw [print_finish_returns_iff hclear hopen hbs]
    simp [RecvMsg.received]
  | some c =>
    by_cases hlen : c.len = cmsgLen
    · by_cases hlevel : c.level = solSocket
      · by_cases htype : c.type = scmRights
        · simp only [Parent.readFd, hlen, hlevel, htype, ne_eq, not_true, if_true, if_false, Flow.andThen_next]
          rw [print_finish_returns_iff hclear hopen hbs]
          simp [RecvMsg.received, hlen, hlevel, htype]
        · simp only [Parent.readFd, hlen, hlevel, htype, ne_eq, not_true, not_false_eq_true, if_true, if_false,
            Flow.andThen_exit]
          refine iff_of_false ?_ fun h => htype (h.2 c rfl hlen).2
          rintro ⟨⟨q, hq⟩, -, -, -⟩
          cases hq
      · simp only [Parent.readFd, hlen, hlevel, ne_eq, not_false_eq_true, if_true, Flow.andThen_exit]
        refine iff_of_false ?_ fun h => hlevel (h.2 c rfl hlen).1
        rintro ⟨⟨q, hq⟩, -, -, -⟩
        cases hq
    · simp only [Parent.readFd, hlen, if_false, Flow.andThen_next]
      rw [print_finish_returns_iff hclear hopen hbs]
      simp [RecvMsg.received, hlen]

theorem clean_iff {status : UInt8} {recv : RecvMsg} (hrecv : recv.Admits) :
    Clean status recv ↔ (status = 0 → recv.Good) := by
  by_cases hstatus : status = 0
  · subst hstatus
    rw [forall_prop_of_true rfl]
    match recv with
    | .error => exact iff_of_false (not_clean_of_early fun _ => rfl) id
    | .data [] control => exact iff_of_false (not_clean_of_early fun _ => rfl) id
    | .data (b :: bs) control => exact clean_data_iff control hrecv
  · rw [forall_prop_of_false hstatus, iff_true, Clean, if_neg hstatus, Parent.myOpen]
    simp only [if_neg hstatus]
    exact finish_returns_iff.mpr ⟨rfl, rfl⟩

/-- **When `my_open` passes the descriptor or fails cleanly.**  For every exit status of the child and every
result of `recvmsg`. -/
theorem myOpen_clean_iff (status : UInt8) (recv : RecvMsg) (hrecv : recv.Admits) :
    Clean status recv ↔ (status = 0 → recv.Good) :=
  clean_iff hrecv

/-- Ten bytes and descriptor 5. -/
theorem myOpen_clean_iff_five : Clean 0 (.data (List.replicate 10 104) (some (Cmsg.rights 5))) := by
  refine (myOpen_clean_iff 0 _ (by decide)).mpr fun _ => ⟨by decide, fun c hc _ => ?_⟩
  cases hc
  exact ⟨rfl, rfl⟩

/-- The child exits with 0, and the stream ends: `fd` is returned as it was, undefined. -/
theorem myOpen_undefined : (∃ p, Parent.myOpen (.exited 0) (.data [] none) = .ret p ∧ p.fd = none) ∧
    ¬ Clean 0 (.data [] none) := by
  have hprint : ({ Parent.start with open0 := false } : Parent).print =
      .next { Parent.start with open0 := false } := print_cleared rfl
  refine ⟨⟨{ Parent.start with open0 := false, open1 := false }, ?_, rfl⟩, not_clean_of_early fun _ => rfl⟩
  simp only [Parent.myOpen, if_true, Parent.readFd, Flow.andThen_next, hprint]
  rfl

/-! ## The child -/

/-- `char send_buf[BUF_SIZE] = "hellowrold"`, as far as it is sent. -/
def sendBuf : List UInt8 := [104, 101, 108, 108, 111, 119, 114, 111, 108, 100]

/-- `exit(errno > 0 ? errno : 255)`. -/
def exitStatus (errno : ℕ) : UInt8 := UInt8.ofNat (if 0 < errno then errno else 255)

/-- `main` of `openfile.c`: the exit status, and the descriptor that was sent.  `open` and `sendmsg` return the
descriptor and nothing, or set `errno`. -/
def openfile (opened : Except ℕ ℤ) (sendmsg : Except ℕ Unit) : UInt8 × Option ℤ :=
  match opened with
  | .error errno => (exitStatus errno, none)
  | .ok fd =>
    match sendmsg with
    | .error errno => (exitStatus errno, none)
    | .ok _ => (0, some fd)

/-- What `recvmsg` may return when the child has exited.  Without a message the stream has ended; the kernel
gives the descriptor a number of its own, and drops the control message when none is free. -/
def Delivers (sent : Option ℤ) (recv : RecvMsg) : Prop :=
  recv = .error ∨
    match sent with
    | none => ∃ control, recv = .data [] control
    | some _ => recv = .data sendBuf none ∨ ∃ fd, recv = .data sendBuf (some (Cmsg.rights fd))

theorem sendBuf_admits (control : Option Cmsg) : (RecvMsg.data sendBuf control).Admits := by
  show sendBuf.length ≤ bufSize
  decide

/-- No error number is 0 in its low byte. -/
def IsErrno (errno : ℕ) : Prop := errno % 256 ≠ 0

/-- **`openfile` exits with 0 exactly when it has sent the descriptor.** -/
theorem openfile_status {opened : Except ℕ ℤ} {sendmsg : Except ℕ Unit}
    (hopen : ∀ errno, opened = .error errno → IsErrno errno)
    (hsend : ∀ errno, sendmsg = .error errno → IsErrno errno) :
    (openfile opened sendmsg).1 = 0 ↔ (openfile opened sendmsg).2.isSome := by
  have hfails : ∀ errno, IsErrno errno → exitStatus errno ≠ 0 := by
    intro errno herrno hzero
    have hpos : 0 < errno := Nat.pos_of_ne_zero fun h0 => herrno (by rw [h0])
    have hmod := congrArg UInt8.toNat hzero
    rw [exitStatus, if_pos hpos, UInt8.toNat_ofNat'] at hmod
    exact herrno hmod
  cases opened with
  | error errno => exact iff_of_false (hfails errno (hopen errno rfl)) Bool.false_ne_true
  | ok fd =>
    cases sendmsg with
    | error errno => exact iff_of_false (hfails errno (hsend errno rfl)) Bool.false_ne_true
    | ok _ => exact iff_of_true rfl rfl

/-- **With `openfile` as the child** only a `recvmsg` that fails leaves the result undefined. -/
theorem myOpen_openfile_iff {opened : Except ℕ ℤ} {sendmsg : Except ℕ Unit}
    (hopen : ∀ errno, opened = .error errno → IsErrno errno)
    (hsend : ∀ errno, sendmsg = .error errno → IsErrno errno) {recv : RecvMsg}
    (hrecv : Delivers (openfile opened sendmsg).2 recv) :
    Clean (openfile opened sendmsg).1 recv ↔ ¬ ((openfile opened sendmsg).1 = 0 ∧ recv = .error) := by
  have hstatus := openfile_status hopen hsend
  rcases hrecv with rfl | hdata
  · rw [clean_iff (show RecvMsg.Admits .error from trivial)]
    simp [RecvMsg.Good]
  · cases hsent : (openfile opened sendmsg).2 with
    | none =>
      rw [hsent] at hdata hstatus
      obtain ⟨control, rfl⟩ := hdata
      have hne : (openfile opened sendmsg).1 ≠ 0 := fun h0 => Bool.false_ne_true (hstatus.mp h0)
      rw [clean_iff (Nat.zero_le _)]
      exact iff_of_true (fun h0 => absurd h0 hne) fun h => hne h.1
    | some fd =>
      rw [hsent] at hdata
      rcases hdata with rfl | ⟨fd', rfl⟩
      · rw [clean_iff (sendBuf_admits none)]
        exact iff_of_true (fun _ => ⟨by decide, fun c hc => by cases hc⟩) (by simp)
      · rw [clean_iff (sendBuf_admits _)]
        refine iff_of_true (fun _ => ⟨by decide, fun c hc _ => ?_⟩) (by simp)
        cases hc
        exact ⟨rfl, rfl⟩

end NetProg.FdPassing
