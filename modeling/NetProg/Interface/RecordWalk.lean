/-
# NetProg.Interface.RecordWalk -- which records the walk of `get_ifi_info` reads.

The kernel fills the buffer with records of `sizeof(struct ifreq)`, 40 bytes, whatever the family: the address is
in a union with larger members.  The walk goes on by the name and the address that the family has, which is 32
bytes, or 44 for AF_INET6 (`stride_ne`).  So the second record it reads is never the second record, and a walk
reads the records and nothing else only if there is none, or one of AF_INET6, behind which its step leaves the
answer (`walksRecords_iff`).  When that one is kept, 28 bytes of its address are copied, 4 of them from behind the
answer.
-/
import NetProg.Interface.IfiInfo

namespace NetProg.IfiInfo

/-! ## The answer of SIOCGIFCONF -/

/-- `struct ifreq`, as SIOCGIFCONF stores it: the name, a `struct sockaddr`, and the rest of the union. -/
structure Ifreq where
  name : List UInt8
  addr : List UInt8
  rest : List UInt8
  length_name : name.length = ifnamsiz
  length_addr : addr.length = sizeofSockaddr
  length_rest : rest.length = sizeofIfreq - ifnamsiz - sizeofSockaddr

namespace Ifreq

def bytes (r : Ifreq) : List UInt8 := r.name ++ r.addr ++ r.rest

/-- `ifr_addr.sa_family`. -/
def family (r : Ifreq) : ℕ := le16 r.addr

/-- Nothing is in front of the name's first NUL or colon. -/
def Nameless (r : Ifreq) : Prop := r.name.head? = some 0 ∨ r.name.head? = some colon

end Ifreq

/-- In `t`, at the head of the loop, SIOCGIFCONF fills the buffer with these records. -/
structure Fills (t : Ifi) (a : Answers) (recs : List Ifreq) : Prop where
  alloc : t.pc = .alloc
  malloc : a.malloc = true
  conf : ∃ behind, a.conf = .filled (sizeofIfreq * recs.length) ((recs.map Ifreq.bytes).flatten ++ behind)
  admits : t.Admits a

/-! ## The law -/

/-- Where the records start. -/
def starts (n : ℕ) : List ℕ := (List.range n).map (sizeofIfreq * ·)

/-- The buffer ends where the answer does. -/
def Ifi.cutBlock (s : Ifi) : Ifi := { s with buf := s.buf.take s.ifcLen.toNat }

/-- The pass reads nothing behind `ifc_len`: it is also defined when the buffer ends there. -/
def Confined (family doaliases : ℤ) (s : Ifi) (a : Answers) : Prop :=
  (s.cutBlock.body family doaliases a).isUndef = false

/-- The walk that begins behind step `k`, over `n` records, comes to its end, reads nothing behind the answer, and
has then read a record at the start of each, and nowhere else. -/
def WalksRecords (family doaliases socket : ℤ) (o : ℕ → Answers) (k n : ℕ) : Prop :=
  ∃ m t, (∀ j < m, ∃ s, (getIfiInfo family doaliases socket).along o (k + 1 + j) = .next s ∧ s.pc = .record ∧
      Confined family doaliases s (o (k + 1 + j))) ∧
    (getIfiInfo family doaliases socket).along o (k + 1 + m) = .next t ∧ t.pc = .alloc ∧ t.offsets = starts n

/-- The walk makes no node of its first record, if that is one of AF_INET6: another family is asked for, the name
is empty and so taken for an alias, or SIOCGIFFLAGS does not say that the interface is up. -/
def Skipped (family doaliases : ℤ) (r : Ifreq) (a : Answers) : Prop :=
  family ≠ afInet6 ∨ (doaliases = 0 ∧ r.Nameless) ∨ ∀ flags, a.flags = some flags → flags &&& iffUp = 0

/-! ## One pass -/

section Pass

variable {s t : Ifi} {family doaliases : ℤ} {a : Answers}

theorem peek_of_le {off n : ℕ} {use : List UInt8 → Flow Ifi} (halive : s.alive = true)
    (hle : off + n ≤ s.buf.length) : s.peek off n use = use ((s.buf.drop off).take n) := if_pos ⟨halive, hle⟩

theorem peek_of_lt {off n : ℕ} {use : List UInt8 → Flow Ifi} (hlt : s.buf.length < off + n) :
    s.peek off n use = .undef s := if_neg fun h => absurd h.2 (Nat.not_le.mpr hlt)

/-- In both cases the step is not the size of a record. -/
theorem stride_ne (fam : ℕ) : ifnamsiz + Ifi.sockaddrLen fam = 32 ∧ fam ≠ afInet6 ∨
    ifnamsiz + Ifi.sockaddrLen fam = 44 ∧ fam = afInet6 := by
  unfold Ifi.sockaddrLen
  by_cases hfam : fam = afInet6
  · exact .inr ⟨by rw [if_pos hfam]; rfl, hfam⟩
  · exact .inl ⟨by rw [if_neg hfam]; rfl, hfam⟩

/-- Where the walk is, and what it has looked at, is the same. -/
structure SameTrail (s t : Ifi) : Prop where
  pc : t.pc = s.pc
  ifcLen : t.ifcLen = s.ifcLen
  ptr : t.ptr = s.ptr
  offsets : t.offsets = s.offsets

theorem kept_sameTrail (s : Ifi) : Kept (SameTrail s) where
  append := fun h _ _ _ _ _ => ⟨h.pc, h.ifcLen, h.ptr, h.offsets⟩
  cut := by
    intro t h off cptr
    cases cptr <;> exact ⟨h.pc, h.ifcLen, h.ptr, h.offsets⟩
  named := fun h _ => ⟨h.pc, h.ifcLen, h.ptr, h.offsets⟩

/-- A record was read at `ptr`, and the walk is at the same place in the code. -/
structure Trail (s t : Ifi) : Prop where
  pc : t.pc = s.pc
  ifcLen : t.ifcLen = s.ifcLen
  offsets : t.offsets = s.offsets ++ [s.ptr]

theorem record_trail (family doaliases : ℤ) (s : Ifi) (a : Answers) :
    (s.record family doaliases a).Holds (Trail s) := by
  refine peek_holds ⟨rfl, rfl, rfl⟩ fun _ bytes => ?_
  have h := (kept_sameTrail (s.visit.advance (le16 bytes))).select family doaliases ⟨rfl, rfl, rfl, rfl⟩ s.ptr
    (le16 bytes) a
  exact ⟨h.pc, h.ifcLen, h.offsets⟩

theorem le16_take (l : List UInt8) {n : ℕ} (hn : 2 ≤ n) : le16 (l.take n) = le16 l := by
  obtain ⟨n, rfl⟩ := Nat.exists_eq_add_of_le' hn
  match l with
  | [] | [_] => rfl
  | _ :: _ :: _ => rfl

theorem le16_append {l : List UInt8} (hl : 2 ≤ l.length) (l' : List UInt8) : le16 (l ++ l') = le16 l := by
  match l with
  | [] | [_] => simp at hl
  | _ :: _ :: _ => rfl

/-- The family of the record at `ptr`. -/
def Ifi.famAt (s : Ifi) : ℕ := le16 ((s.buf.drop (s.ptr + ifnamsiz)).take 2)

theorem length_bytes (r : Ifreq) : r.bytes.length = sizeofIfreq := by
  rw [Ifreq.bytes, List.length_append, List.length_append, r.length_name, r.length_addr, r.length_rest]
  rfl

theorem famAt_of_bytes {r : Ifreq} {behind : List UInt8} (hbuf : s.buf = r.bytes ++ behind) (hptr : s.ptr = 0) :
    s.famAt = r.family := by
  have htail : s.buf = r.name ++ (r.addr ++ (r.rest ++ behind)) := by
    rw [hbuf, Ifreq.bytes, List.append_assoc, List.append_assoc]
  rw [Ifi.famAt, htail, hptr, Nat.zero_add, ← r.length_name, List.drop_left, le16_take _ (Nat.le_refl 2),
    le16_append, Ifreq.family]
  rw [r.length_addr]
  decide

/-- **The step of the walk**, if the record could be read. -/
theorem record_ptr (hdefined : (s.record family doaliases a).isUndef = false) :
    (s.record family doaliases a).state.ptr = s.ptr + (ifnamsiz + Ifi.sockaddrLen s.famAt) := by
  unfold Ifi.record Ifi.peek at hdefined ⊢
  split_ifs at hdefined ⊢
  · have h := (kept_sameTrail (s.visit.advance s.famAt)).select family doaliases ⟨rfl, rfl, rfl, rfl⟩ s.ptr s.famAt a
    exact h.ptr.trans (Nat.add_assoc _ _ _)
  · cases hdefined

theorem body_record (hpc : s.pc = .record) (hmore : (s.ptr : ℤ) < s.ifcLen) :
    s.body family doaliases a = s.record family doaliases a := by
  unfold Ifi.body
  rw [hpc]
  exact if_pos hmore

theorem body_end (hpc : s.pc = .record) (hend : ¬ (s.ptr : ℤ) < s.ifcLen) :
    s.body family doaliases a = .again { s with pc := .alloc } := by
  unfold Ifi.body
  rw [hpc]
  exact if_neg hend

/-- The walk only adds to the offsets. -/
theorem offsets_body (hpc : s.pc = .record) : s.offsets <+: (s.body family doaliases a).state.offsets := by
  by_cases hmore : (s.ptr : ℤ) < s.ifcLen
  · have htrail : Trail s (s.record family doaliases a).state := record_trail family doaliases s a
    rw [body_record hpc hmore, htrail.offsets]
    exact List.prefix_append _ _
  · rw [body_end hpc hmore]
    exact List.prefix_refl _

end Pass

/-! ## Along a run -/

section Along

variable {family doaliases socket : ℤ} {o : ℕ → Answers} {i k m : ℕ} {s t : Ifi} {recs : List Ifreq}

theorem along_body (hs : (getIfiInfo family doaliases socket).along o i = .next s) (ha : s.Admits (o i)) :
    (getIfiInfo family doaliases socket).along o (i + 1) = (s.body family doaliases (o i)).loopBack := by
  apply System.along_succ hs
  exact getIfiInfo_step.mpr ⟨s, rfl, ha, rfl⟩

theorem admits_record {a : Answers} (hpc : s.pc = .record) : s.Admits a := by
  unfold Ifi.Admits
  rw [hpc]
  trivial

/-- The state in which the walk over the records begins. -/
def Ifi.begun (t : Ifi) (recs : List Ifreq) (behind : List UInt8) : Ifi :=
  { t with
    buf := (recs.map Ifreq.bytes).flatten ++ behind, alive := true, ifcLen := sizeofIfreq * recs.length }.startWalk

theorem along_fills (ht : (getIfiInfo family doaliases socket).along o k = .next t) (hfills : Fills t (o k) recs) :
    ∃ behind, (getIfiInfo family doaliases socket).along o (k + 1) = .next (t.begun recs behind) := by
  obtain ⟨behind, hconf⟩ := hfills.conf
  refine ⟨behind, ?_⟩
  rw [along_body ht hfills.admits, Ifi.body, hfills.alloc]
  dsimp only
  rw [Ifi.fill, if_neg (by simp [hfills.malloc]), hconf]
  rfl

/-- What was read up to one step of the walk was read in the end. -/
theorem offsets_prefix
    (hpasses : ∀ j < m, ∃ s, (getIfiInfo family doaliases socket).along o (k + j) = .next s ∧ s.pc = .record)
    (hs : (getIfiInfo family doaliases socket).along o (k + i) = .next s) (d : ℕ) (hle : i + d ≤ m)
    (ht : (getIfiInfo family doaliases socket).along o (k + (i + d)) = .next t) : s.offsets <+: t.offsets := by
  induction d generalizing t with
  | zero =>
    obtain rfl := Flow.next.inj (hs.symm.trans ht)
    exact List.prefix_refl _
  | succ d ih =>
    obtain ⟨u, hu, hpc⟩ := hpasses (i + d) hle
    have hbefore := ih (Nat.le_of_lt hle) hu
    have hstep := along_body hu (admits_record hpc)
    rw [show k + (i + d) + 1 = k + (i + (d + 1)) from rfl, ht] at hstep
    have hstate := congrArg Flow.state hstep
    rw [Flow.state_loopBack] at hstate
    refine hbefore.trans ?_
    rw [show t = _ from hstate]
    exact offsets_body hpc

/-- A step of the walk that reads a record is not its last one. -/
theorem next_of_record {u : Ifi}
    (hpasses : ∀ j < m, ∃ s, (getIfiInfo family doaliases socket).along o (k + j) = .next s ∧ s.pc = .record)
    (hend : (getIfiInfo family doaliases socket).along o (k + m) = .next u) (hout : u.pc = .alloc) (hi : i < m)
    (hs : (getIfiInfo family doaliases socket).along o (k + i) = .next s) (hmore : (s.ptr : ℤ) < s.ifcLen) :
    i + 1 < m ∧ ∃ v, (getIfiInfo family doaliases socket).along o (k + (i + 1)) = .next v ∧ v.pc = .record ∧
      Trail s v ∧ v.ptr = s.ptr + (ifnamsiz + Ifi.sockaddrLen s.famAt) := by
  have hpc : s.pc = .record := by
    obtain ⟨s', hs', hpc⟩ := hpasses i hi
    rwa [Flow.next.inj (hs.symm.trans hs')]
  have hstep := along_body hs (admits_record hpc)
  rw [body_record hpc hmore] at hstep
  have hfrom : ∀ v, (getIfiInfo family doaliases socket).along o (k + (i + 1)) = .next v →
      Trail s v ∧ v.ptr = s.ptr + (ifnamsiz + Ifi.sockaddrLen s.famAt) := by
    intro v hv
    rw [show k + i + 1 = k + (i + 1) from rfl, hv] at hstep
    have hstate := congrArg Flow.state hstep
    have hdefined := congrArg Flow.isUndef hstep
    rw [Flow.state_loopBack] at hstate
    rw [Flow.isUndef_loopBack] at hdefined
    rw [show v = _ from hstate]
    exact ⟨record_trail family doaliases s (o (k + i)), record_ptr hdefined.symm⟩
  rcases Nat.lt_or_eq_of_le (Nat.succ_le_of_lt hi) with hlt | rfl
  · obtain ⟨v, hv, hpcv⟩ := hpasses (i + 1) hlt
    exact ⟨hlt, v, hv, hpcv, hfrom v hv⟩
  · have hsame := (hfrom u hend).1.pc
    rw [hout, hpc] at hsame
    cases hsame

theorem second_start {n p : ℕ} (h : [0, p] <+: starts n) : p = sizeofIfreq := by
  obtain ⟨rest, hrest⟩ := h
  have hget : (starts n)[1]? = some p := by
    rw [← hrest]
    rfl
  rw [starts, List.getElem?_map, Option.map_eq_some_iff] at hget
  obtain ⟨j, hj, rfl⟩ := hget
  rw [List.getElem?_eq_some_iff] at hj
  obtain ⟨hlt, hj⟩ := hj
  rw [List.getElem_range] at hj
  rw [← hj, Nat.mul_one]

/-- The walk over at least one record: it comes to a second step, and that must be its end. -/
theorem second_step {r : Ifreq} {rs : List Ifreq}
    (ht : (getIfiInfo family doaliases socket).along o k = .next t) (hfills : Fills t (o k) (r :: rs))
    (hwalks : WalksRecords family doaliases socket o k (rs.length + 1)) :
    ∃ behind, (getIfiInfo family doaliases socket).along o (k + 1) = .next (t.begun (r :: rs) behind) ∧
      Confined family doaliases (t.begun (r :: rs) behind) (o (k + 1)) ∧ rs = [] ∧ r.family = afInet6 := by
  obtain ⟨m, u, hpasses, hend, hout, hoffsets⟩ := hwalks
  obtain ⟨behind, hbegin⟩ := along_fills ht hfills
  have hrecords : ∀ j < m, ∃ s, (getIfiInfo family doaliases socket).along o (k + 1 + j) = .next s ∧
      s.pc = .record := fun j hj =>
    let ⟨s, hs, hpc, _⟩ := hpasses j hj
    ⟨s, hs, hpc⟩
  have hm : 0 < m := by
    rcases Nat.eq_zero_or_pos m with rfl | hpos
    · obtain rfl := Flow.next.inj (hbegin.symm.trans hend)
      cases hout
    · exact hpos
  have hconfined : Confined family doaliases (t.begun (r :: rs) behind) (o (k + 1)) := by
    obtain ⟨s, hs, -, hconfined⟩ := hpasses 0 hm
    rwa [← Flow.next.inj (hbegin.symm.trans hs)] at hconfined
  have hbuf : (t.begun (r :: rs) behind).buf = r.bytes ++ ((rs.map Ifreq.bytes).flatten ++ behind) :=
    List.append_assoc _ _ _
  have hlen : (t.begun (r :: rs) behind).ifcLen = sizeofIfreq * (rs.length + 1) := rfl
  have hfirst : ((t.begun (r :: rs) behind).ptr : ℤ) < (t.begun (r :: rs) behind).ifcLen := by
    rw [hlen]
    show (0 : ℤ) < 40 * (rs.length + 1)
    omega
  obtain ⟨hm₂, v, hv, -, htrail, hptr⟩ := next_of_record hrecords hend hout hm hbegin hfirst
  rw [famAt_of_bytes hbuf rfl, show (t.begun (r :: rs) behind).ptr = 0 from rfl, Nat.zero_add] at hptr
  have hcases := stride_ne r.family
  rw [← hptr] at hcases
  by_cases hmore : (v.ptr : ℤ) < v.ifcLen
  · -- the second record is read where none starts
    obtain ⟨hm₃, w, hw, -, htrail₂, -⟩ := next_of_record hrecords hend hout hm₂ hv hmore
    have hread : [0, v.ptr] <+: starts (rs.length + 1) := by
      have hprefix := offsets_prefix hrecords hw (m - 2) (by omega) (t := u) (by rwa [Nat.add_sub_cancel' (by omega)])
      rw [htrail₂.offsets, htrail.offsets, hoffsets] at hprefix
      exact hprefix
    have hsecond : v.ptr = 40 := second_start hread
    omega
  · rw [htrail.ifcLen, hlen] at hmore
    have hsize : (sizeofIfreq : ℤ) = 40 := rfl
    rw [hsize] at hmore
    have hone : rs.length = 0 := by omega
    rcases hcases with ⟨hshort, -⟩ | ⟨-, hfam⟩
    · omega
    · exact ⟨behind, hbegin, hconfined, List.eq_nil_of_length_eq_zero hone, hfam⟩

end Along

/-! ## One record of AF_INET6 -/

section Inet6

/-- A text that ends in a NUL is searched no further; what is found is the character. -/
theorem strchr_of_nul {c : UInt8} (hc : c ≠ 0) (l tl : List UInt8) :
    ∃ cptr, strchr c (l ++ 0 :: tl) = some cptr ∧ ∀ i, cptr = some i → l[i]? = some c := by
  induction l with
  | nil =>
    refine ⟨none, ?_, fun i hi => by cases hi⟩
    rw [List.nil_append, strchr, if_neg hc.symm, if_pos rfl]
  | cons b l ih =>
    rw [List.cons_append, strchr]
    split_ifs with hb hnul
    · refine ⟨some 0, rfl, fun i hi => ?_⟩
      cases hi
      exact congrArg some hb
    · exact ⟨none, rfl, fun i hi => by cases hi⟩
    · obtain ⟨cptr, hcptr, hfound⟩ := ih
      refine ⟨cptr.map (· + 1), by rw [hcptr, Option.map_some], fun i hi => ?_⟩
      obtain ⟨j, hj, rfl⟩ := Option.map_eq_some_iff.mp hi
      exact hfound j hj

theorem untilNul_eq_nil_iff {l : List UInt8} (hl : l ≠ []) : untilNul l = [] ↔ l.head? = some 0 := by
  cases l with
  | nil => exact absurd rfl hl
  | cons b l => simp [untilNul]

variable {r : Ifreq} {s : Ifi} {behind : List UInt8}

theorem addr_inet6 (hfam : r.family = afInet6) : ∃ as, r.addr = 10 :: 0 :: as := by
  have hlen := r.length_addr
  rw [Ifreq.family] at hfam
  match haddr : r.addr with
  | [] | [_] => rw [haddr] at hlen; simp [sizeofSockaddr] at hlen
  | lo :: hi :: as =>
    rw [haddr] at hfam
    have hsum : lo.toNat + 256 * hi.toNat = 10 := hfam
    have hlo : lo = 10 := UInt8.toNat_inj.mp (show lo.toNat = 10 by omega)
    have hhi : hi = 0 := UInt8.toNat_inj.mp (show hi.toNat = 0 by omega)
    rw [hlo, hhi]
    exact ⟨as, rfl⟩

/-- **The name of such a record** ends in it, and the cut at the colon stays in the name. -/
theorem cut_bytes (hfam : r.family = afInet6) (hbuf : s.buf = r.bytes ++ behind) :
    ∃ cptr, strchr colon s.buf = some cptr ∧ (s.cut 0 cptr).buf.length = s.buf.length ∧
      le16 ((s.cut 0 cptr).buf.drop ifnamsiz) = afInet6 ∧
      (untilNul ((s.cut 0 cptr).buf.take ifnamsiz) = [] ↔ r.Nameless) := by
  obtain ⟨as, haddr⟩ := addr_inet6 hfam
  have htext : s.buf = (r.name ++ [10]) ++ 0 :: (as ++ r.rest ++ behind) := by
    rw [hbuf, Ifreq.bytes, haddr]
    simp
  have hname : s.buf.take ifnamsiz = r.name := by
    rw [htext, List.append_assoc, ← r.length_name, List.take_left]
  have hfamily : le16 (s.buf.drop ifnamsiz) = afInet6 := by
    rw [htext, List.append_assoc, ← r.length_name, List.drop_left]
    rfl
  have hne : r.name ≠ [] := List.ne_nil_of_length_pos (by rw [r.length_name]; decide)
  obtain ⟨cptr, hcptr, hfound⟩ := strchr_of_nul (show colon ≠ 0 by decide) (r.name ++ [10]) (as ++ r.rest ++ behind)
  have hfirst : r.name.head? = some colon → cptr = some 0 := by
    intro hhead
    obtain ⟨nm, hnm⟩ := List.head?_eq_some_iff.mp hhead
    rw [hnm, List.cons_append, List.cons_append, strchr, if_pos rfl] at hcptr
    exact (Option.some.inj hcptr).symm
  refine ⟨cptr, by rw [htext, hcptr], ?_⟩
  cases cptr with
  | none =>
    refine ⟨rfl, hfamily, ?_⟩
    rw [show (s.cut 0 none).buf = s.buf from rfl, hname, untilNul_eq_nil_iff hne, Ifreq.Nameless]
    exact (or_iff_left fun hhead => by cases hfirst hhead).symm
  | some i =>
    have hcolon := hfound i rfl
    have hi : i < ifnamsiz := by
      rw [← r.length_name]
      by_contra hge
      rw [List.getElem?_append_right (Nat.not_lt.mp hge)] at hcolon
      exact absurd (List.mem_singleton.mp (List.mem_of_getElem? hcolon)) (by decide)
    have hset : (s.cut 0 (some i)).buf = s.buf.set i 0 := by
      show s.buf.set (0 + i) 0 = _
      rw [Nat.zero_add]
    rw [hset]
    refine ⟨List.length_set, by rw [List.drop_set_of_lt hi, hfamily], ?_⟩
    have hne' : r.name.set i 0 ≠ [] := by simpa using hne
    rw [List.take_set, hname, untilNul_eq_nil_iff hne', Ifreq.Nameless]
    cases i with
    | zero =>
      obtain ⟨b, nm, hnm⟩ := List.exists_cons_of_ne_nil hne
      rw [hnm] at hcolon ⊢
      exact iff_of_true rfl (.inr hcolon)
    | succ i =>
      obtain ⟨b, nm, hnm⟩ := List.exists_cons_of_ne_nil hne
      rw [hnm] at hfirst ⊢
      exact (or_iff_left fun hhead => by cases hfirst hhead).symm

/-- From `ifrcopy = *ifr` on; a request for the flags that fails leaves 10 in their place. -/
theorem ask_inet6 (halive : s.alive = true) (hlen : sizeofIfreq ≤ s.buf.length)
    (hfamily : le16 (s.buf.drop ifnamsiz) = afInet6) (name : List UInt8) (a : Answers) :
    ((∀ flags, a.flags = some flags → flags &&& iffUp = 0) → s.ask 0 afInet6 name a = .again s) ∧
      ((¬ ∀ flags, a.flags = some flags → flags &&& iffUp = 0) → s.buf.length = sizeofIfreq →
        s.ask 0 afInet6 name a = .undef s) := by
  have hcopy : le16 ((((s.buf.drop 0).take sizeofIfreq)).drop ifnamsiz) = afInet6 := by
    rw [List.drop_zero, List.drop_take, le16_take _ (by decide), hfamily]
  rw [Ifi.ask, peek_of_le halive (by rwa [Nat.zero_add]), hcopy]
  cases a.flags with
  | none =>
    refine ⟨fun _ => if_pos (by decide), fun hup => absurd (fun flags h => ?_) hup⟩
    cases h
  | some flags =>
    constructor
    · intro hdown
      exact if_pos (hdown flags rfl)
    · intro hup hsize
      have hflags : ¬ flags &&& iffUp = 0 := fun hdown => hup fun flags' h => by
        cases h
        exact hdown
      rw [Option.getD_some, if_neg hflags, Ifi.keep, if_neg (by decide), if_pos rfl]
      apply peek_of_lt
      rw [hsize]
      decide

/-- The comparison with `lastname`, which is empty, and what follows it. -/
theorem compare_inet6 (halive : s.alive = true) (hlen : sizeofIfreq ≤ s.buf.length) (hlast : s.lastname = [0])
    (hfamily : le16 (s.buf.drop ifnamsiz) = afInet6)
    (hnameless : untilNul (s.buf.take ifnamsiz) = [] ↔ r.Nameless) (doaliases : ℤ) (a : Answers) :
    (Skipped afInet6 doaliases r a → ∃ u, s.compare doaliases 0 afInet6 a = .again u) ∧
      (¬ Skipped afInet6 doaliases r a → s.buf.length = sizeofIfreq →
        ∃ u, s.compare doaliases 0 afInet6 a = .undef u) := by
  have halias : untilNul s.lastname = untilNul ((s.buf.drop 0).take ifnamsiz) ∧ doaliases = 0 ↔
      doaliases = 0 ∧ r.Nameless := by
    rw [hlast, List.drop_zero, show untilNul [0] = [] from rfl, eq_comm, hnameless, and_comm]
  have hname : 0 + ifnamsiz ≤ s.buf.length := (show 0 + ifnamsiz ≤ sizeofIfreq by decide).trans hlen
  rw [Ifi.compare, peek_of_le halive hname]
  by_cases hskip : doaliases = 0 ∧ r.Nameless
  · rw [if_pos (halias.mpr hskip)]
    exact ⟨fun _ => ⟨s, rfl⟩, fun hkept => absurd (.inr (.inl hskip)) hkept⟩
  · rw [if_neg fun h => hskip (halias.mp h)]
    obtain ⟨hdown, hup⟩ := ask_inet6 (s := { s with lastname := (s.buf.drop 0).take ifnamsiz }) halive hlen hfamily
      ((s.buf.drop 0).take ifnamsiz) a
    constructor
    · rintro (hother | hempty | hflags)
      · exact absurd rfl hother
      · exact absurd hempty hskip
      · exact ⟨_, hdown hflags⟩
    · intro hkept hsize
      exact ⟨_, hup (fun hflags => hkept (.inr (.inr hflags))) hsize⟩

/-- The pass gets to the test of the family. -/
theorem record_eq_select (hfam : r.family = afInet6) (hbuf : s.buf = r.bytes ++ behind) (halive : s.alive = true)
    (hptr : s.ptr = 0) (family doaliases : ℤ) (a : Answers) :
    s.record family doaliases a = (s.visit.advance afInet6).select family doaliases 0 afInet6 a := by
  have hfamAt : le16 ((s.visit.buf.drop (s.ptr + ifnamsiz)).take 2) = afInet6 :=
    (famAt_of_bytes hbuf hptr).trans hfam
  have hin : s.ptr + ifnamsiz + 2 ≤ s.visit.buf.length := by
    rw [show s.visit.buf = s.buf from rfl, hbuf, List.length_append, length_bytes, hptr]
    show 18 ≤ 40 + behind.length
    omega
  rw [Ifi.record, peek_of_le (show s.visit.alive = true from halive) hin, hfamAt, hptr]

/-- **What the pass does with such a record**: it skips it, or goes on to the address, of which it reads more than
the record has. -/
theorem record_inet6 (hfam : r.family = afInet6) (hbuf : s.buf = r.bytes ++ behind) (halive : s.alive = true)
    (hptr : s.ptr = 0) (hlast : s.lastname = [0]) (family doaliases : ℤ) (a : Answers) :
    (Skipped family doaliases r a → ∃ u, s.record family doaliases a = .again u) ∧
      (¬ Skipped family doaliases r a → behind = [] → ∃ u, s.record family doaliases a = .undef u) := by
  rw [record_eq_select hfam hbuf halive hptr, Ifi.select]
  by_cases hfamily : (afInet6 : ℤ) = family
  · subst hfamily
    have hlen : s.buf.length = sizeofIfreq + behind.length := by rw [hbuf, List.length_append, length_bytes]
    obtain ⟨cptr, hcptr, hcutlen, hcutfam, hnameless⟩ := cut_bytes (s := s.visit.advance afInet6) hfam hbuf
    have hcutalive := (cut_framed (s.visit.advance afInet6) 0 cptr).alive.trans halive
    have hcutlast : ((s.visit.advance afInet6).cut 0 cptr).lastname = [0] := by cases cptr <;> exact hlast
    have hcutlen' := hcutlen.trans hlen
    obtain ⟨hskipped, hkept⟩ := compare_inet6 hcutalive (hcutlen' ▸ Nat.le_add_right _ _) hcutlast hcutfam hnameless
      doaliases a
    rw [if_neg (not_not.mpr rfl), List.drop_zero, hcptr]
    refine ⟨hskipped, fun hnot hend => hkept hnot ?_⟩
    rw [hcutlen', hend]
    rfl
  · rw [if_pos hfamily]
    exact ⟨fun _ => ⟨_, rfl⟩, fun hkept => absurd (.inl (Ne.symm hfamily)) hkept⟩

end Inet6

/-! ## One walk -/

section Walk

variable {family doaliases socket : ℤ} {o : ℕ → Answers} {k : ℕ} {t : Ifi} {r : Ifreq} {behind : List UInt8}

theorem confined_end {s : Ifi} {a : Answers} (hpc : s.pc = .record) (hend : ¬ (s.ptr : ℤ) < s.ifcLen) :
    Confined family doaliases s a := by
  rw [Confined, body_end (s := s.cutBlock) hpc hend]
  rfl

theorem ptr_lt_begun (t : Ifi) (r : Ifreq) (behind : List UInt8) :
    ((t.begun [r] behind).ptr : ℤ) < (t.begun [r] behind).ifcLen := by
  show (0 : ℤ) < 40 * 1
  omega

/-- Over one record of AF_INET6 the first pass reads nothing behind it exactly when it skips it. -/
theorem confined_begun_iff (hfam : r.family = afInet6) (a : Answers) :
    Confined family doaliases (t.begun [r] behind) a ↔ Skipped family doaliases r a := by
  have hbuf : (t.begun [r] behind).cutBlock.buf = r.bytes ++ [] := by
    show (([r].map Ifreq.bytes).flatten ++ behind).take 40 = _
    rw [List.map_singleton, List.flatten_singleton, List.append_nil]
    exact List.take_left' (length_bytes r)
  have hbody : (t.begun [r] behind).cutBlock.body family doaliases a =
      (t.begun [r] behind).cutBlock.record family doaliases a := body_record rfl (ptr_lt_begun t r behind)
  obtain ⟨hskipped, hkept⟩ := record_inet6 hfam hbuf rfl rfl rfl family doaliases a
  rw [Confined, hbody]
  constructor
  · intro hdefined
    by_contra hnot
    obtain ⟨u, hu⟩ := hkept hnot rfl
    rw [hu] at hdefined
    cases hdefined
  · intro hskip
    obtain ⟨u, hu⟩ := hskipped hskip
    rw [hu]
    rfl

theorem walks_nil (ht : (getIfiInfo family doaliases socket).along o k = .next t) (hfills : Fills t (o k) []) :
    WalksRecords family doaliases socket o k 0 := by
  obtain ⟨behind, hbegin⟩ := along_fills ht hfills
  have hend : ¬ ((t.begun [] behind).ptr : ℤ) < (t.begun [] behind).ifcLen := by
    show ¬ (0 : ℤ) < 40 * 0
    omega
  have hlast := along_body hbegin (admits_record rfl)
  rw [body_end rfl hend] at hlast
  refine ⟨1, _, fun j hj => ?_, hlast, rfl, rfl⟩
  obtain rfl : j = 0 := Nat.lt_one_iff.mp hj
  exact ⟨_, hbegin, rfl, confined_end rfl hend⟩

theorem walks_singleton (ht : (getIfiInfo family doaliases socket).along o k = .next t)
    (hfills : Fills t (o k) [r]) (hfam : r.family = afInet6) (hskip : Skipped family doaliases r (o (k + 1))) :
    WalksRecords family doaliases socket o k 1 := by
  obtain ⟨behind, hbegin⟩ := along_fills ht hfills
  have hbuf : (t.begun [r] behind).buf = r.bytes ++ behind := by
    show ([r].map Ifreq.bytes).flatten ++ behind = _
    rw [List.map_singleton, List.flatten_singleton]
  obtain ⟨u, hu⟩ := (record_inet6 hfam hbuf rfl rfl rfl family doaliases (o (k + 1))).1 hskip
  have htrail : Trail (t.begun [r] behind) u := by
    have h := record_trail family doaliases (t.begun [r] behind) (o (k + 1))
    rwa [hu] at h
  have hptr : u.ptr = 44 := by
    have hdefined : ((t.begun [r] behind).record family doaliases (o (k + 1))).isUndef = false := by rw [hu]; rfl
    have hstep := record_ptr hdefined
    rw [hu, famAt_of_bytes hbuf rfl, hfam] at hstep
    exact hstep
  have hsecond := along_body hbegin (admits_record rfl)
  rw [body_record rfl (ptr_lt_begun t r behind), hu] at hsecond
  have hend : ¬ (u.ptr : ℤ) < u.ifcLen := by
    rw [hptr, htrail.ifcLen]
    show ¬ (44 : ℤ) < 40 * 1
    omega
  have hlast := along_body hsecond (admits_record htrail.pc)
  rw [body_end htrail.pc hend] at hlast
  refine ⟨2, _, fun j hj => ?_, hlast, rfl, htrail.offsets⟩
  match j with
  | 0 => exact ⟨_, hbegin, rfl, (confined_begun_iff hfam _).mpr hskip⟩
  | 1 => exact ⟨u, hsecond, htrail.pc, confined_end htrail.pc hend⟩

end Walk

/-! ## The main result -/

/-- **When the walk reads the records.**  For every run, every number of records and every mixture of families:
it does so exactly when there is no record, or one of AF_INET6 that is skipped. -/
theorem walksRecords_iff {family doaliases socket : ℤ} {o : ℕ → Answers} {k : ℕ} {t : Ifi} {recs : List Ifreq}
    (ht : (getIfiInfo family doaliases socket).along o k = .next t) (hfills : Fills t (o k) recs) :
    WalksRecords family doaliases socket o k recs.length ↔
      recs = [] ∨ ∃ r, recs = [r] ∧ r.family = afInet6 ∧ Skipped family doaliases r (o (k + 1)) := by
  constructor
  · intro hwalks
    cases recs with
    | nil => exact .inl rfl
    | cons r rs =>
      obtain ⟨behind, -, hconfined, rfl, hfam⟩ := second_step ht hfills hwalks
      exact .inr ⟨r, rfl, hfam, (confined_begun_iff hfam _).mp hconfined⟩
  · rintro (rfl | ⟨r, rfl, hfam, hskip⟩)
    · exact walks_nil ht hfills
    · exact walks_singleton ht hfills hfam hskip

/-- `lo`, with an address of this family. -/
def loWith (fam : UInt8) : Ifreq where
  name := [108, 111] ++ List.replicate 14 0
  addr := [fam, 0, 0, 0, 127, 0, 0, 1] ++ List.replicate 8 0
  rest := List.replicate 8 0
  length_name := rfl
  length_addr := rfl
  length_rest := rfl

/-- SIOCGIFCONF stores one record; the interface is up. -/
def oneRecord (r : Ifreq) : Answers where
  malloc := true
  conf := .filled 40 (r.bytes ++ List.replicate 3960 0)
  flags := some 0x49
  dstaddr := []

theorem fills_oneRecord (r : Ifreq) : Fills Ifi.start (oneRecord r) [r] where
  alloc := rfl
  malloc := rfl
  conf := by
    refine ⟨List.replicate 3960 0, ?_⟩
    rw [List.map_singleton, List.flatten_singleton]
    rfl
  admits := by
    show ((r.bytes ++ List.replicate 3960 0).length : ℤ) = 4000 ∧ (0 : ℤ) ≤ 40 ∧ (40 : ℤ) ≤ 4000
    rw [List.length_append, length_bytes, List.length_replicate]
    decide

/-- AF_INET is asked for, and the one record is of AF_INET6. -/
theorem walksRecords_iff_inet6 : WalksRecords afInet 0 3 (fun _ => oneRecord (loWith 10)) 0 1 :=
  (walksRecords_iff rfl (fills_oneRecord (loWith 10))).mpr
    (.inr ⟨_, rfl, by decide, .inl (by decide)⟩)

/-- AF_INET6 is asked for, and the one record is of AF_INET: the walk reads it, and another one at 32. -/
theorem walk_reads_between : ¬ WalksRecords afInet6 0 3 (fun _ => oneRecord (loWith 2)) 0 1 ∧
    ∃ s, (getIfiInfo afInet6 0 3).along (fun _ => oneRecord (loWith 2)) 3 = .next s ∧ s.offsets = [0, 32] := by
  constructor
  · intro hwalks
    have hone : WalksRecords afInet6 0 3 (fun _ => oneRecord (loWith 2)) 0 (([] : List Ifreq).length + 1) := hwalks
    obtain ⟨-, -, -, -, hfam⟩ := second_step rfl (fills_oneRecord (loWith 2)) hone
    exact absurd hfam (by decide)
  · have hread : ((getIfiInfo afInet6 0 3).along (fun _ => oneRecord (loWith 2)) 3).nextHas
        (fun s => s.offsets == [0, 32]) = true := by decide +kernel
    cases hs : (getIfiInfo afInet6 0 3).along (fun _ => oneRecord (loWith 2)) 3 with
    | next s =>
      rw [hs] at hread
      exact ⟨s, rfl, beq_iff_eq.mp hread⟩
    | again s | ret s | exit msg s | undef s =>
      rw [hs] at hread
      cases hread

end NetProg.IfiInfo
