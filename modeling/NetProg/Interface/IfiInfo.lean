/-
# NetProg.Interface.IfiInfo -- `get_ifi_info` of `C/simple_interface_info.c`.

The function asks for the interfaces with SIOCGIFCONF, in a buffer that grows until the answer fits, and walks
over the records of the answer.  Its braces are in the wrong places.  The walk and the two `free` calls stand in
the `while (1)`, the `free` calls even in the walk, and no `return` is left: a record that is kept frees the
buffer and the head of the list at once (`Released`), a further record is read from the freed buffer, and behind
the last one the loop starts again (`filled_ne_ret`).  The one way to the end of the function is a SIOCGIFCONF
that fails, and there no value is returned (`getIfiInfo_never`).

One step of the model is either the head of the loop, with `malloc` and SIOCGIFCONF, or one record.  The heap is
the current buffer, the list, and whether they are freed; to touch what is freed or out of bounds is undefined.
`sockfd` gets the value of a comparison, 0, so that all the requests go to descriptor 0; they are answered by the
kernel all the same.  `ifi_index`, `ifi_mtu` and `ifi_hlen`, which stay 0 because `sdlname` is never set, are
left out.
-/
import Mathlib.Data.UInt
import NetProg.Base.CString
import NetProg.Base.Loop
import NetProg.Base.Stream

namespace NetProg.IfiInfo

/-! ## Constants of the system -/

def afInet : ℕ := 2

def afInet6 : ℕ := 10

/-- `IFNAMSIZ`, which is `sizeof(ifr->ifr_name)` too. -/
def ifnamsiz : ℕ := 16

/-- `sizeof(struct ifreq)`. -/
def sizeofIfreq : ℕ := 40

/-- `sizeof(struct sockaddr)`, which is `sizeof(struct sockaddr_in)` too. -/
def sizeofSockaddr : ℕ := 16

/-- `sizeof(struct sockaddr_in6)`. -/
def sizeofSockaddrIn6 : ℕ := 28

def iffUp : UInt16 := 0x1

def iffBroadcast : UInt16 := 0x2

def iffPointopoint : UInt16 := 0x10

/-- `':'`. -/
def colon : UInt8 := 58

/-- `strchr(mem, c)`, for a `c` that is not NUL: the place of the first `c`, or NULL; and no result when the search
leaves `mem`. -/
def strchr (c : UInt8) : List UInt8 → Option (Option ℕ)
  | [] => none
  | b :: bs => if b = c then some (some 0) else if b = 0 then some none else (strchr c bs).map (·.map (· + 1))

/-- A `short` in memory. -/
def le16 : List UInt8 → ℕ
  | lo :: hi :: _ => lo.toNat + 256 * hi.toNat
  | _ => 0

/-! ## State -/

/-- `struct ifi_info`. -/
structure Node where
  name : List UInt8
  flags : UInt16
  myflags : UInt16
  addr : Option (List UInt8)
  brdaddr : Option (List UInt8)
  dstaddr : Option (List UInt8)
  deriving DecidableEq, Repr

/-- The head of the `while (1)`, or the head of the walk. -/
inductive Pc where
  | alloc
  | record
  deriving DecidableEq, Repr

/-- The locals; `buf` is the block that `buf` points to, and `alive` says that it is not freed; `nodes` is the list
from `ifihead`, and `headFreed` says that its first node is.  `offsets` are those at which records were read. -/
structure Ifi where
  pc : Pc
  len : ℤ
  lastlen : ℤ
  buf : List UInt8
  alive : Bool
  ifcLen : ℤ
  ptr : ℕ
  lastname : List UInt8
  nodes : List Node
  headFreed : Bool
  offsets : List ℕ
  deriving DecidableEq, Repr

/-- SIOCGIFCONF fails, with `errno` equal to EINVAL or not and `ifc_len` as it is then; or it stores `ifc_len`
bytes of records, in a block that now holds `mem`. -/
inductive Conf where
  | fails (einval : Bool) (ifcLen : ℤ)
  | filled (ifcLen : ℤ) (mem : List UInt8)
  deriving DecidableEq, Repr

def Conf.isFilled : Conf → Bool
  | fails _ _ => false
  | filled _ _ => true

/-- The answers in one step: `malloc` and SIOCGIFCONF at the head of the loop; for a record the flags, if
SIOCGIFFLAGS succeeds, and the address that SIOCGIFDSTADDR leaves. -/
structure Answers where
  malloc : Bool
  conf : Conf
  flags : Option UInt16
  dstaddr : List UInt8
  deriving DecidableEq, Repr

namespace Ifi

/-- `lastlen = 0; len = 100 * sizeof(struct ifreq);`. -/
def start : Ifi where
  pc := .alloc
  len := 100 * sizeofIfreq
  lastlen := 0
  buf := []
  alive := false
  ifcLen := 0
  ptr := 0
  lastname := []
  nodes := []
  headFreed := false
  offsets := []

/-- The statements between SIOCGIFCONF and the walk. -/
def startWalk (s : Ifi) : Ifi :=
  { s with pc := .record, nodes := [], headFreed := false, lastname := [0], ptr := 0, offsets := [] }

/-- The head of the loop, down to the walk. -/
def fill (s : Ifi) (a : Answers) : Flow Ifi :=
  if a.malloc = false then .exit "malloc" s
  else
    match a.conf with
    | .fails einval ifcLen =>
      if einval = false ∨ s.lastlen ≠ 0 then .exit "ioctl" s
      -- `break`, to the end of the function
      else if ifcLen = s.lastlen then .ret { s with ifcLen := ifcLen, alive := true }
      -- the buffer is freed, and the walk over it begins
      else .next { s with
        lastlen := ifcLen, len := s.len + 10 * sizeofIfreq, ifcLen := ifcLen, alive := false }.startWalk
    | .filled ifcLen mem => .next { s with buf := mem, alive := true, ifcLen := ifcLen }.startWalk

/-- Read `n` bytes of the buffer. -/
def peek (s : Ifi) (off n : ℕ) (use : List UInt8 → Flow Ifi) : Flow Ifi :=
  if s.alive ∧ off + n ≤ s.buf.length then use ((s.buf.drop off).take n) else .undef s

/-- The address length that the first `switch` takes for a family. -/
def sockaddrLen (fam : ℕ) : ℕ := if fam = afInet6 then sizeofSockaddrIn6 else sizeofSockaddr

/-- The first `switch`, and `ptr += sizeof(ifr->ifr_name) + len`. -/
def advance (s : Ifi) (fam : ℕ) : Ifi :=
  { s with len := sockaddrLen fam, ptr := s.ptr + ifnamsiz + sockaddrLen fam }

/-- `if (NULL != cptr) *cptr = 0;`, with `cptr` found in the name at `off`. -/
def cut (s : Ifi) (off : ℕ) : Option ℕ → Ifi
  | none => s
  | some cptr => { s with buf := s.buf.set (off + cptr) 0 }

/-- The node goes to the end of the list; `free(buf); free(ifihead);`. -/
def append (s : Ifi) (node : Node) : Ifi :=
  { s with nodes := s.nodes ++ [node], alive := false, headFreed := true }

/-- The new node.  `ifi_myflags = flags` drops what was worked out for `myflags`. -/
def newNode (name : List UInt8) (flags : UInt16) (addr dstaddr : Option (List UInt8)) : Node :=
  ⟨name.take (ifnamsiz - 1) ++ [0], flags, flags, addr, none, dstaddr⟩

/-- The walk's body behind the test of the flags; `calloc` is taken to succeed. -/
def keep (s : Ifi) (off fam : ℕ) (name : List UInt8) (flags : UInt16) (dstaddr : List UInt8) : Flow Ifi :=
  if fam = afInet then
    s.peek (off + ifnamsiz) sizeofSockaddr fun addr =>
      -- nothing is allocated for `ifi_brdaddr`, and `memcpy` goes to NULL
      if flags &&& iffBroadcast ≠ 0 then .undef s
      else if flags &&& iffPointopoint ≠ 0 then
        .next (s.append (newNode name flags (some addr) (some dstaddr)))
      else .next (s.append (newNode name flags (some addr) none))
  else if fam = afInet6 then
    s.peek (off + ifnamsiz) sizeofSockaddrIn6 fun addr =>
      -- `ifrcopy` ends before the 28 bytes do
      if flags &&& iffPointopoint ≠ 0 then .undef s
      else .next (s.append (newNode name flags (some addr) none))
  else .next (s.append (newNode name flags none none))

/-- From `ifrcopy = *ifr` on; a request for the flags that fails leaves the family where they are. -/
def ask (s : Ifi) (off fam : ℕ) (name : List UInt8) (a : Answers) : Flow Ifi :=
  s.peek off sizeofIfreq fun ifr =>
    if a.flags.getD (UInt16.ofNat (le16 (ifr.drop ifnamsiz))) &&& iffUp = 0 then .again s
    else s.keep off fam name (a.flags.getD (UInt16.ofNat (le16 (ifr.drop ifnamsiz)))) a.dstaddr

/-- `strncmp(lastname, ifr->ifr_name, IFNAMSIZ)`, and the `memcpy` behind it. -/
def compare (doaliases : ℤ) (s : Ifi) (off fam : ℕ) (a : Answers) : Flow Ifi :=
  s.peek off ifnamsiz fun name =>
    if untilNul s.lastname = untilNul name ∧ doaliases = 0 then .again s
    else ({ s with lastname := name }).ask off fam name a

/-- The test of the family, and `strchr(ifr->ifr_name, ':')`. -/
def select (family doaliases : ℤ) (s : Ifi) (off fam : ℕ) (a : Answers) : Flow Ifi :=
  if (fam : ℤ) ≠ family then .again s
  else
    match strchr colon (s.buf.drop off) with
    | none => .undef s
    | some cptr => (s.cut off cptr).compare doaliases off fam a

/-- The record at `ptr` is looked at. -/
def visit (s : Ifi) : Ifi := { s with offsets := s.offsets ++ [s.ptr] }

/-- One record. -/
def record (family doaliases : ℤ) (s : Ifi) (a : Answers) : Flow Ifi :=
  s.visit.peek (s.ptr + ifnamsiz) 2 fun bytes =>
    (s.visit.advance (le16 bytes)).select family doaliases s.ptr (le16 bytes) a

/-- One step. -/
def body (family doaliases : ℤ) (s : Ifi) (a : Answers) : Flow Ifi :=
  match s.pc with
  | .alloc => s.fill a
  | .record =>
    if (s.ptr : ℤ) < s.ifcLen then s.record family doaliases a else .again { s with pc := .alloc }

/-- The block has `len` bytes, and an answer of `ifc_len` bytes is in it. -/
def Admits (s : Ifi) (a : Answers) : Prop :=
  match s.pc, a.conf with
  | .alloc, .filled ifcLen mem => (mem.length : ℤ) = s.len ∧ 0 ≤ ifcLen ∧ ifcLen ≤ s.len
  | _, _ => True

instance (s : Ifi) (a : Answers) : Decidable (s.Admits a) :=
  match h : s.pc, h' : a.conf with
  | .alloc, .filled ifcLen mem =>
    decidable_of_iff ((mem.length : ℤ) = s.len ∧ 0 ≤ ifcLen ∧ ifcLen ≤ s.len) (by simp only [Admits, h, h'])
  | .alloc, .fails _ _ => decidable_of_iff True (by simp only [Admits, h, h'])
  | .record, _ => decidable_of_iff True (by simp only [Admits, h])

end Ifi

/-- `get_ifi_info(family, doaliases)`, with what `socket` returns. -/
def getIfiInfo (family doaliases socket : ℤ) : System (Flow Ifi) Answers :=
  { whileLoop (Ifi.body family doaliases) Ifi.Admits Ifi.start with
    init := if socket < 0 then .exit "socket" Ifi.start else .next Ifi.start }

/-- How a call ends. -/
inductive End where
  | value (ifihead : List Node)
  | noValue
  | exit (msg : String)
  | undefined
  deriving DecidableEq, Repr

/-- How the call has ended, if it has.  No statement returns a value: behind the loop is the end of the
function. -/
def ending : Flow Ifi → Option End
  | .ret _ => some .noValue
  | .exit msg _ => some (.exit msg)
  | .undef _ => some .undefined
  | .next _ | .again _ => none

/-- The call returns a list, when the kernel answers as in `o`. -/
def Returns (family doaliases socket : ℤ) (o : ℕ → Answers) : Prop :=
  ∃ k nodes, ending ((getIfiInfo family doaliases socket).along o k) = some (.value nodes)

/-- At most one record was kept, never as an alias or with a broadcast address, and then the head of the list is
freed, and the buffer that the walk is in. -/
structure Released (s : Ifi) : Prop where
  one : s.nodes.length ≤ 1
  plain : ∀ node ∈ s.nodes, node.myflags = node.flags ∧ node.brdaddr = none
  head : s.nodes ≠ [] → s.headFreed = true
  buffer : s.pc = .record → s.nodes ≠ [] → s.alive = false

/-! ## One step -/

section Step

variable {s : Ifi} {P : Ifi → Prop} {off n : ℕ} {use : List UInt8 → Flow Ifi}

theorem peek_holds (hs : P s) (huse : s.alive = true → ∀ bs, (use bs).Holds P) : (s.peek off n use).Holds P := by
  unfold Ifi.peek
  split_ifs with hin
  · exact huse hin.1 _
  · exact hs

theorem peek_ne_ret {t : Ifi} (huse : ∀ bs, use bs ≠ .ret t) : s.peek off n use ≠ .ret t := by
  unfold Ifi.peek
  split_ifs
  · exact huse _
  · rintro ⟨⟩

/-- Only what was not freed can be read. -/
theorem peek_freed (hs : s.alive = false) : s.peek off n use = .undef s := by
  unfold Ifi.peek
  simp [hs]

/-- As long as nothing was kept. -/
theorem Released.of_nil (hnil : s.nodes = []) : Released s where
  one := by
    rw [hnil]
    exact Nat.zero_le 1
  plain := by
    rw [hnil]
    exact fun _ hnode => absurd hnode List.not_mem_nil
  head := fun hkept => absurd hnil hkept
  buffer := fun _ hkept => absurd hnil hkept

/-- In the walk over a buffer that is not freed nothing has been kept. -/
theorem Released.nodes_eq_nil (hs : Released s) (hpc : s.pc = .record) (halive : s.alive = true) : s.nodes = [] := by
  by_contra hkept
  rw [hs.buffer hpc hkept] at halive
  cases halive

theorem Released.append (hnodes : s.nodes = []) (name : List UInt8) (flags : UInt16)
    (addr dstaddr : Option (List UInt8)) : Released (s.append (Ifi.newNode name flags addr dstaddr)) where
  one := by
    show (s.nodes ++ [_]).length ≤ 1
    rw [hnodes]
    exact Nat.le_refl 1
  plain := by
    intro node hnode
    rw [show (s.append _).nodes = s.nodes ++ [_] from rfl, hnodes, List.nil_append, List.mem_singleton] at hnode
    subst hnode
    exact ⟨rfl, rfl⟩
  head := fun _ => rfl
  buffer := fun _ _ => rfl

/-- `t` differs from `s` neither in the list, nor in what is freed, nor in the place in the code. -/
structure Framed (s t : Ifi) : Prop where
  pc : t.pc = s.pc
  nodes : t.nodes = s.nodes
  alive : t.alive = s.alive
  head : t.headFreed = s.headFreed

theorem cut_framed (s : Ifi) (off : ℕ) (cptr : Option ℕ) : Framed s (s.cut off cptr) := by
  cases cptr <;> exact ⟨rfl, rfl, rfl, rfl⟩

theorem Released.congr (hs : Released s) {t : Ifi} (hframe : Framed s t) : Released t where
  one := hframe.nodes ▸ hs.one
  plain := hframe.nodes ▸ hs.plain
  head := by
    rw [hframe.nodes, hframe.head]
    exact hs.head
  buffer := by
    rw [hframe.pc, hframe.nodes, hframe.alive]
    exact hs.buffer

/-- What the statements of the walk keep that change the state: the node, the cut at the colon, and the name that
is remembered. -/
structure Kept (P : Ifi → Prop) : Prop where
  append : ∀ {s}, P s → s.alive = true → ∀ name flags addr dstaddr, P (s.append (Ifi.newNode name flags addr dstaddr))
  cut : ∀ {s}, P s → ∀ off cptr, P (s.cut off cptr)
  named : ∀ {s}, P s → ∀ name, P { s with lastname := name }

namespace Kept

theorem keep (hP : Kept P) (hs : P s) (halive : s.alive = true) (off fam : ℕ) (name : List UInt8) (flags : UInt16)
    (dstaddr : List UInt8) : (s.keep off fam name flags dstaddr).Holds P := by
  unfold Ifi.keep
  -- a node is appended, or the behaviour is undefined, at once or behind a read
  split_ifs <;>
    first
    | exact hP.append hs halive _ _ _ _
    | exact peek_holds hs fun _ _ => hP.append hs halive _ _ _ _
    | exact peek_holds hs fun _ _ => hs

theorem ask (hP : Kept P) (hs : P s) (off fam : ℕ) (name : List UInt8) (a : Answers) :
    (s.ask off fam name a).Holds P := by
  refine peek_holds hs fun halive ifr => ?_
  split_ifs
  · exact hs
  · exact hP.keep hs halive off fam name _ _

theorem compare (hP : Kept P) (doaliases : ℤ) (hs : P s) (off fam : ℕ) (a : Answers) :
    (s.compare doaliases off fam a).Holds P := by
  refine peek_holds hs fun _ name => ?_
  split_ifs
  · exact hs
  · exact hP.ask (hP.named hs name) off fam name a

/-- **What these three keep, the rest of the record's pass keeps.** -/
theorem select (hP : Kept P) (family doaliases : ℤ) (hs : P s) (off fam : ℕ) (a : Answers) :
    (s.select family doaliases off fam a).Holds P := by
  unfold Ifi.select
  split_ifs
  · exact hs
  · split
    · exact hs
    · next cptr _ => exact hP.compare doaliases (hP.cut hs off cptr) off fam a

end Kept

theorem kept_released : Kept fun s => Released s ∧ s.pc = .record where
  append := fun hs halive name flags addr dstaddr =>
    ⟨.append (hs.1.nodes_eq_nil hs.2 halive) name flags addr dstaddr, hs.2⟩
  cut := by
    intro s hs off cptr
    have hframe := cut_framed s off cptr
    exact ⟨hs.1.congr hframe, hframe.pc.trans hs.2⟩
  named := fun hs name => ⟨hs.1.congr ⟨rfl, rfl, rfl, rfl⟩, hs.2⟩

theorem keep_ne_ret (off fam : ℕ) (name : List UInt8) (flags : UInt16) (dstaddr : List UInt8) (t : Ifi) :
    s.keep off fam name flags dstaddr ≠ .ret t := by
  unfold Ifi.keep
  split_ifs <;> first | exact peek_ne_ret fun _ => by rintro ⟨⟩ | rintro ⟨⟩

/-- **A record keeps it.** -/
theorem record_released (family doaliases : ℤ) (hs : Released s) (hpc : s.pc = .record) (a : Answers) :
    (s.record family doaliases a).Holds Released := by
  refine peek_holds (hs.congr ⟨rfl, rfl, rfl, rfl⟩) fun _ bytes => ?_
  have hadvanced : Released (s.visit.advance (le16 bytes)) := hs.congr ⟨rfl, rfl, rfl, rfl⟩
  exact (kept_released.select family doaliases ⟨hadvanced, hpc⟩ s.ptr (le16 bytes) a).1

/-- **No record leaves the function.** -/
theorem record_ne_ret (family doaliases : ℤ) (s : Ifi) (a : Answers) (t : Ifi) :
    s.record family doaliases a ≠ .ret t := by
  refine peek_ne_ret fun bytes => ?_
  unfold Ifi.select
  split_ifs
  · rintro ⟨⟩
  · split
    · rintro ⟨⟩
    · refine peek_ne_ret fun name => ?_
      split_ifs
      · rintro ⟨⟩
      · refine peek_ne_ret fun ifr => ?_
        split_ifs
        · rintro ⟨⟩
        · exact keep_ne_ret _ _ _ _ _ t

theorem body_released (family doaliases : ℤ) (hs : Released s) (a : Answers) :
    (s.body family doaliases a).Holds Released := by
  unfold Ifi.body
  cases hpc : s.pc with
  | alloc =>
    simp only [Ifi.fill]
    split_ifs
    · exact hs
    · cases a.conf with
      | fails einval ifcLen =>
        dsimp only
        split_ifs
        · exact hs
        · have halloc : ∀ {t : Ifi}, t.pc = s.pc → t.pc ≠ .record := fun h h' => by
            rw [h, hpc] at h'
            cases h'
          exact ⟨hs.one, hs.plain, hs.head, fun h => absurd h (halloc rfl)⟩
        · exact .of_nil rfl
      | filled ifcLen mem => exact .of_nil rfl
  | record =>
    dsimp only
    split_ifs
    · exact record_released family doaliases hs hpc a
    · exact ⟨hs.one, hs.plain, hs.head, fun h => by cases h⟩

/-- **The end of the function** is only reached when SIOCGIFCONF fails. -/
theorem conf_of_body_ret {family doaliases : ℤ} {a : Answers} {t : Ifi}
    (hret : s.body family doaliases a = .ret t) : a.conf.isFilled = false := by
  unfold Ifi.body at hret
  cases hpc : s.pc with
  | alloc =>
    rw [hpc] at hret
    cases hconf : a.conf with
    | fails einval ifcLen => rfl
    | filled ifcLen mem =>
      simp only [Ifi.fill, hconf] at hret
      split_ifs at hret
  | record =>
    rw [hpc] at hret
    dsimp only at hret
    split_ifs at hret
    exact absurd hret (record_ne_ret family doaliases s a t)

/-- Behind a record that was kept the next one is read from the freed buffer. -/
theorem body_undef (family doaliases : ℤ) (hs : Released s) (hpc : s.pc = .record) (hkept : s.nodes ≠ [])
    (hmore : (s.ptr : ℤ) < s.ifcLen) (a : Answers) : (s.body family doaliases a).isUndef = true := by
  have hfreed : s.visit.alive = false := hs.buffer hpc hkept
  unfold Ifi.body
  rw [hpc]
  dsimp only
  rw [if_pos hmore, Ifi.record, peek_freed hfreed]
  rfl

end Step

/-! ## Every run -/

section Run

variable {family doaliases socket : ℤ} {f : Flow Ifi}

theorem getIfiInfo_step {f f' : Flow Ifi} {a : Answers} : (getIfiInfo family doaliases socket).step f a = some f' ↔
    ∃ s, f = .next s ∧ s.Admits a ∧ f' = (s.body family doaliases a).loopBack := by
  show (whileLoop (Ifi.body family doaliases) Ifi.Admits Ifi.start).step f a = some f' ↔ _
  exact whileLoop_step

theorem released (hf : (getIfiInfo family doaliases socket).Reachable f) : f.Holds Released := by
  refine System.invariant _ (P := fun f => f.Holds Released) ?_ ?_ hf
  · have hstart : Released Ifi.start := .of_nil rfl
    unfold getIfiInfo
    split_ifs <;> exact hstart
  · intro f a f' _ hs hstep
    obtain ⟨s, rfl, -, rfl⟩ := getIfiInfo_step.mp hstep
    rw [Flow.Holds, Flow.state_loopBack]
    exact body_released family doaliases hs a

/-- **As long as SIOCGIFCONF succeeds the function does not come to its end.** -/
theorem filled_ne_ret
    (hf : ((getIfiInfo family doaliases socket).restrict fun _ a => a.conf.isFilled = true).Reachable f) (s : Ifi) :
    f ≠ .ret s := by
  refine System.restrict_invariant _ (P := fun f => f ≠ .ret s) ?_ ?_ hf
  · unfold getIfiInfo
    split_ifs <;> rintro ⟨⟩
  · intro f a f' _ _ hfilled hstep hret
    obtain ⟨t, rfl, -, rfl⟩ := getIfiInfo_step.mp hstep
    rw [conf_of_body_ret (Flow.loopBack_eq_ret.mp hret)] at hfilled
    cases hfilled

/-- No way out of the function carries a value. -/
theorem not_returns (o : ℕ → Answers) : ¬ Returns family doaliases socket o := by
  rintro ⟨k, nodes, hend⟩
  cases hk : (getIfiInfo family doaliases socket).along o k <;>
    · rw [hk] at hend
      cases hend

end Run

/-! ## The main result -/

/-- **`get_ifi_info` never returns a list.**  For every family, with aliases or without, whatever the kernel answers:
no list is returned; a record that is kept frees the list and the buffer before the function ends, and a further
record is then read from what is freed; and while SIOCGIFCONF succeeds the function does not even come to its
end. -/
theorem getIfiInfo_never (family doaliases socket : ℤ) :
    (∀ o, ¬ Returns family doaliases socket o) ∧
    (∀ f, (getIfiInfo family doaliases socket).Reachable f → f.Holds Released) ∧
    (∀ s, AtHead (getIfiInfo family doaliases socket) s → s.pc = .record → s.nodes ≠ [] →
      (s.ptr : ℤ) < s.ifcLen → ∀ a, (s.body family doaliases a).isUndef = true) ∧
    ∀ f, ((getIfiInfo family doaliases socket).restrict fun _ a => a.conf.isFilled = true).Reachable f →
      ∀ s, f ≠ .ret s := by
  refine ⟨not_returns, fun f hf => released hf, ?_, fun f hf => filled_ne_ret hf⟩
  intro s hs hpc hkept hmore a
  exact body_undef family doaliases (released hs) hpc hkept hmore a

/-- The record of `lo`: its name, AF_INET with port 0, 127.0.0.1, and what is left of the 40 bytes. -/
def loRecord : List UInt8 :=
  [108, 111] ++ List.replicate 14 0 ++ [2, 0, 0, 0, 127, 0, 0, 1] ++ List.replicate 16 0

/-- `lo` is the only interface; it is up, and a loopback device. -/
def loAnswers : Answers where
  malloc := true
  conf := .filled 40 (loRecord ++ List.replicate 3960 0)
  flags := some 0x49
  dstaddr := []

/-- One step for SIOCGIFCONF, and one for the record. -/
theorem lo_kept : ∃ s, AtHead (getIfiInfo afInet 0 3) s ∧ s.pc = .record ∧ s.nodes.length = 1 ∧
    (s.ptr : ℤ) < s.ifcLen := by
  obtain ⟨s, hs, hkept⟩ := exists_atHead_of_run (getIfiInfo afInet 0 3) [loAnswers, loAnswers]
    (fun s => decide (s.pc = .record ∧ s.nodes.length = 1 ∧ (s.ptr : ℤ) < s.ifcLen)) (by decide +kernel)
  exact ⟨s, hs, of_decide_eq_true hkept⟩

/-- On the answers of a machine with `lo` alone. -/
theorem getIfiInfo_never_lo : ¬ Returns afInet 0 3 (fun _ => loAnswers) ∧
    ∃ s, AtHead (getIfiInfo afInet 0 3) s ∧ s.nodes.length = 1 ∧ Released s ∧
      (s.body afInet 0 loAnswers).isUndef = true := by
  obtain ⟨hreturns, hreleased, hundef, -⟩ := getIfiInfo_never afInet 0 3
  obtain ⟨s, hs, hpc, hone, hmore⟩ := lo_kept
  have hkept : s.nodes ≠ [] := List.ne_nil_of_length_pos (by rw [hone]; exact Nat.one_pos)
  exact ⟨hreturns _, s, hs, hone, hreleased _ hs, hundef s hs hpc hkept hmore loAnswers⟩

/-- The record of `lo` is kept, and with that the buffer and the list are freed; the walk goes on behind the 32
bytes it takes for the record, in the freed buffer. -/
theorem getIfiInfo_lo_undefined : ¬ Returns afInet 0 3 (fun _ => loAnswers) ∧
    ∃ s, AtHead (getIfiInfo afInet 0 3) s ∧ s.nodes.length = 1 ∧ s.headFreed = true ∧ s.alive = false ∧
      (s.body afInet 0 loAnswers).isUndef = true := by
  obtain ⟨s, hs, hpc, hone, hmore⟩ := lo_kept
  have hkept : s.nodes ≠ [] := List.ne_nil_of_length_pos (by rw [hone]; exact Nat.one_pos)
  have hfreed : Released s := released hs
  exact ⟨not_returns _, s, hs, hone, hfreed.head hkept, hfreed.buffer hpc hkept,
    body_undef afInet 0 hfreed hpc hkept hmore loAnswers⟩

end NetProg.IfiInfo
