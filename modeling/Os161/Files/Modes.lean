import Os161.Files.Proofs
import Os161.Files.ReadWrite
import Os161.Vfs.Paths

/-!
# Access modes

`fd_table_open` keeps the whole flag word, and `read` and `write` compare it with the bare modes.
-/

open Os161.Lib Os161.Kern Os161.Userprog Function List Option

namespace Os161.Files

abbrev O_ACCMODE : BitVec 32 := 3

def openFlags (flags : BitVec 32) : Vfs.Paths.OpenFlags where
  how := if flags &&& O_ACCMODE = 0 then .rdonly
    else if flags &&& O_ACCMODE = 1 then .wronly
    else if flags &&& O_ACCMODE = 2 then .rdwr
    else .other
  creat := flags &&& 4 ≠ 0
  excl := flags &&& 8 ≠ 0
  trunc := flags &&& 16 ≠ 0

/-- The flag words with which `vfs_open` can succeed. -/
def Accepted (flags : BitVec 32) : Prop := (openFlags flags).how ≠ .other ∧
    ((openFlags flags).trunc = true → (openFlags flags).canwrite = true)

theorem openTruncate_spec (k : Vfs.Paths.Kernel) (vn : Nat) (flags : Vfs.Paths.OpenFlags) :
    Triple False (fun _ => True) (Vfs.Paths.openTruncate k vn flags) fun r _ =>
      r = none → flags.trunc = true → flags.canwrite = true := by
  by_cases hwrite : flags.canwrite = true
  · exact Triple.any.post fun _ _ _ _ _ => hwrite
  · unfold Vfs.Paths.openTruncate
    split
    · exact Triple.ret fun _ _ hr => nomatch hr
    · next htrunc => exact Triple.ret fun _ _ _ ht => absurd ht htrunc

theorem triple_error {α β : Type} (f : Vfs.Paths.Act α) (e : Errno) (Q : Prop) :
    Triple False (fun _ => True) (f >>= fun _ => pure (.error e : Except Errno β)) fun r _ =>
      (∃ b, r = .ok b) → Q := by
  apply Triple.bind Triple.any
  intro _
  apply Triple.ret
  rintro s - ⟨b, hb⟩
  cases hb

theorem openVnode_spec (k : Vfs.Paths.Kernel) (vn : Nat) (flags : Vfs.Paths.OpenFlags) :
    Triple False (fun _ => True) (Vfs.Paths.openVnode k vn flags) fun r _ =>
      (∃ vn', r = .ok vn') → flags.trunc = true → flags.canwrite = true := by
  apply Triple.bind Triple.any
  rintro (_ | e)
  · apply Triple.bind Triple.any
    intro _
    apply Triple.bind (openTruncate_spec k vn flags)
    rintro (_ | e)
    · exact Triple.ret fun _ hr _ => hr rfl
    · apply Triple.bind Triple.any
      intro _
      exact triple_error _ e _
  · exact triple_error _ e _

theorem accepted_of_vfsOpen (k : Vfs.Paths.Kernel) (path : Vfs.Paths.Path) (flags : BitVec 32) :
    Triple False (fun _ => True) (Vfs.Paths.vfsOpen k path (openFlags flags)) fun r _ =>
      (∃ vn, r = .ok vn) → Accepted flags := by
  unfold Vfs.Paths.vfsOpen
  by_cases hhow : (openFlags flags).how = .other
  · rw [if_pos hhow]
    apply Triple.ret
    rintro s - ⟨vn, hvn⟩
    cases hvn
  · rw [if_neg hhow]
    apply Triple.bind Triple.any
    rintro (e | vn)
    · exact Triple.ret fun _ _ hr => nomatch hr.choose_spec
    · apply (openVnode_spec k vn _).post
      exact fun r s hr hok => ⟨hhow, hr hok⟩

def mayAccess (flags : BitVec 32) (rw : Rw) : Bool := match (openFlags flags).how, rw with
  | .rdonly, .UIO_READ | .wronly, .UIO_WRITE | .rdwr, _ => true
  | _, _ => false

structure Call where
  rw : Rw
  buf : Addr
  nbytes : BitVec 32

structure Access extends Call where
  cur : Thread
  mem : Memory
  vop : Vop

def access (p : Nat) (fd : Int) (s : State) (a : Access) : Option Result := match a.rw with
  | .UIO_READ => read s p fd a.buf a.nbytes a.cur a.mem a.vop
  | .UIO_WRITE => write s p fd a.buf a.nbytes a.cur a.mem a.vop

def accessStep (p : Nat) (fd : Int) (s : State) (a : Access) : Option State :=
  (access p fd s a).map Result.state

/-- A call that the mode forbids fails with EBADF, and the vnode is not asked. -/
def Enforced (p : Nat) (fd : Int) (flags : BitVec 32) (s : State) (a : Access) : Prop :=
  ∀ r, access p fd s a = some r → mayAccess flags a.rw = true ∨ r = refuse s a.mem .EBADF

/-- The calls that the code turns down because of the mode. -/
def TurnedDown (flags : BitVec 32) (c : Call) : Prop := match c.rw with
  | .UIO_READ => flags = 1 ∧ c.buf ≠ 0
  | .UIO_WRITE => flags = 0 ∧ ¬ (c.buf = 0 ∨ c.buf = 0x40000000 ∨ c.buf = 0x80000000)

section Modes

variable {s s' : State} {p f : Nat} {fd : Int} {flags : BitVec 32} {a : Access} {r : Result}

def Opened (s : State) (p : Nat) (fd : Int) (flags : BitVec 32) : Prop :=
  ∃ f, s.fileAt p fd = some f ∧ (s.file f).flag = flags.toInt

theorem fileAt_fin (s : State) (p : Nat) (i : Fin maxFileOpen) : s.fileAt p (i : Nat) = s.slot p i := by
  have hfd : (0 : Int) ≤ (i : Nat) ∧ ((i : Nat) : Int) < maxFileOpen :=
    ⟨Int.natCast_nonneg _, Int.ofNat_lt.mpr i.isLt⟩
  exact dif_pos hfd

theorem opened_of_open {o : Outcome} {i : Fin maxFileOpen}
    (h : fdTableOpen s p flags.toInt o = some (s', .ok i)) : Opened s' p (i : Nat) flags := by
  obtain ⟨t, f, vn, ht, -, -, -, -, rfl⟩ := fdTableOpen_ok h
  refine ⟨f, ?_, ?_⟩
  · rw [fileAt_fin, slot_setSlot (s := s.opened f flags.toInt vn o.lock) ht, if_pos ⟨rfl, rfl⟩]
  · change (update s.file f _ f).flag = _
    rw [update_self]

theorem transfer_state {rw : Rw} {buf : Addr} {nbytes : BitVec 32} {cur : Thread} {mem : Memory}
    {vop : Vop} (h : transfer s f rw buf nbytes cur mem vop = some r) :
    r.state = s ∨ ∃ off, r.state = s.seek f off := by
  obtain ⟨d, -, rfl⟩ := map_eq_some_iff.mp h
  split
  · exact .inl rfl
  · exact .inr ⟨_, rfl⟩

theorem Opened.seek (h : Opened s p fd flags) (f : Nat) (off : Int) :
    Opened (s.seek f off) p fd flags := by
  obtain ⟨g, hg, hflag⟩ := h
  refine ⟨g, hg, ?_⟩
  unfold State.seek
  simp only [update_apply]
  split
  · next heq => rw [← hflag, heq]
  · exact hflag

theorem access_state (hr : access p fd s a = some r) :
    r.state = s ∨ ∃ f off, r.state = s.seek f off := by
  have hrefuse : ∀ {e}, some (refuse s a.mem e) = some r →
      r.state = s ∨ ∃ f off, r.state = s.seek f off := by
    rintro e ⟨⟩
    exact .inl rfl
  have htransfer : ∀ {f}, transfer s f a.rw a.buf a.nbytes a.cur a.mem a.vop = some r →
      r.state = s ∨ ∃ f off, r.state = s.seek f off :=
    fun {f} hf => (transfer_state hf).imp_right fun hseek => ⟨f, hseek⟩
  unfold access at hr
  cases hrw : a.rw with
  | UIO_READ =>
    simp only [hrw, read] at hr htransfer
    split at hr
    · split at hr
      · exact hrefuse hr
      · obtain ⟨t, -, hr⟩ := bind_eq_some_iff.mp hr
        split at hr
        · exact hrefuse hr
        · split at hr
          · exact hrefuse hr
          · exact htransfer hr
    · exact hrefuse hr
  | UIO_WRITE =>
    simp only [hrw, write] at hr htransfer
    split at hr
    · obtain ⟨t, -, hr⟩ := bind_eq_some_iff.mp hr
      split at hr
      · exact hrefuse hr
      · split at hr
        · exact hrefuse hr
        · split at hr
          · exact hrefuse hr
          · exact htransfer hr
    · exact hrefuse hr

theorem rdonly_iff (h : (s.file f).flag = flags.toInt) : (s.file f).flag = O_RDONLY ↔ flags = 0 := by
  rw [h]
  exact BitVec.toInt_inj (y := 0)

theorem wronly_iff (h : (s.file f).flag = flags.toInt) : (s.file f).flag = O_WRONLY ↔ flags = 1 := by
  rw [h]
  exact BitVec.toInt_inj (y := 1)

theorem access_cases (h : Opened s p fd flags) (a : Access) :
    TurnedDown flags a.toCall ∧ access p fd s a = some (refuse s a.mem .EBADF) ∨
      ¬ TurnedDown flags a.toCall ∧ (access p fd s a = some (refuse s a.mem .EFAULT) ∨
        ∃ f, access p fd s a = transfer s f a.rw a.buf a.nbytes a.cur a.mem a.vop) := by
  obtain ⟨f, hf, hflag⟩ := h
  unfold TurnedDown access
  cases a.rw with
  | UIO_READ =>
    by_cases hbuf : a.buf = 0
    · obtain ⟨hfd, -⟩ := fileAt_some hf
      exact .inr ⟨fun hdown => hdown.2 hbuf, .inl (read_null hfd hbuf)⟩
    · simp only [read_open hf hbuf, wronly_iff hflag]
      by_cases hmode : flags = 1
      · exact .inl ⟨⟨hmode, hbuf⟩, if_pos hmode⟩
      · exact .inr ⟨fun hdown => hmode hdown.1, .inr ⟨f, if_neg hmode⟩⟩
  | UIO_WRITE =>
    simp only [write_open hf, rdonly_iff hflag]
    by_cases hbuf : a.buf = 0 ∨ a.buf = 0x40000000 ∨ a.buf = 0x80000000
    · exact .inr ⟨fun hdown => hdown.2 hbuf, .inl (if_pos hbuf)⟩
    · by_cases hmode : flags = 0
      · exact .inl ⟨⟨hmode, hbuf⟩, by rw [if_neg hbuf, if_pos hmode]⟩
      · exact .inr ⟨fun hdown => hmode hdown.1, .inr ⟨f, by rw [if_neg hbuf, if_neg hmode]⟩⟩

theorem Opened.step (h : Opened s p fd flags) (hstep : accessStep p fd s a = some s') :
    Opened s' p fd flags := by
  obtain ⟨r, hr, rfl⟩ := map_eq_some_iff.mp hstep
  obtain hsame | ⟨f, off, hseek⟩ := access_state hr
  · rwa [hsame]
  · rw [hseek]
    exact h.seek f off

end Modes

def Call.idle (c : Call) : Access := ⟨c, ⟨none, fun _ => false⟩, fun _ => 0, .ret none⟩

section Runs

variable {s : State} {p : Nat} {fd : Int} {flags : BitVec 32}

theorem turnedDown_of_enforced {c : Call} (h : Opened s p fd flags)
    (henf : Enforced p fd flags s c.idle) :
    (mayAccess flags c.rw = true ∨ TurnedDown flags c) ∧ ∃ s', accessStep p fd s c.idle = some s' := by
  unfold accessStep
  obtain ⟨hdown, hr⟩ | ⟨-, hr | ⟨f, hr⟩⟩ := access_cases h c.idle
  · exact ⟨.inr hdown, _, by rw [hr]; rfl⟩
  · refine ⟨.inl ((henf _ hr).resolve_right fun heq => ?_), _, by rw [hr]; rfl⟩
    cases congrArg Result.ret heq
  · refine ⟨.inl ((henf _ (hr.trans (transfer_ret _))).resolve_right fun heq => ?_), _,
      by rw [hr]; rfl⟩
    cases congrArg Result.ret heq

theorem calls_of_meets {calls : List Call} (h : Opened s p fd flags)
    (hmeets : Meets (accessStep p fd) (Enforced p fd flags) s (calls.map Call.idle)) :
    ∀ c ∈ calls, mayAccess flags c.rw = true ∨ TurnedDown flags c := by
  induction calls generalizing s with
  | nil => exact forall_mem_nil _
  | cons c calls ih =>
    obtain ⟨henf, hrest⟩ := hmeets
    obtain ⟨hc, s', hstep⟩ := turnedDown_of_enforced h henf
    exact forall_mem_cons.mpr ⟨hc, ih (h.step hstep) (hrest s' hstep)⟩

theorem meets_of_calls {as : List Access} (h : Opened s p fd flags)
    (hall : ∀ a ∈ as, mayAccess flags a.rw = true ∨ TurnedDown flags a.toCall) :
    Meets (accessStep p fd) (Enforced p fd flags) s as := by
  induction as generalizing s with
  | nil => trivial
  | cons a as ih =>
    rw [forall_mem_cons] at hall
    refine ⟨fun r hr => hall.1.imp_right fun hdown => ?_, fun s' hstep => ih (h.step hstep) hall.2⟩
    obtain ⟨-, hsame⟩ | ⟨hnot, -⟩ := access_cases h a
    · rw [hsame] at hr
      exact (some.inj hr).symm
    · exact absurd hdown hnot

end Runs

/-- The flag word is the bare mode, and the buffer passes the test that comes first. -/
theorem modes_enforced_iff (s s' : State) (p : Nat) (flags : BitVec 32) (o : Outcome)
    (fd : Fin maxFileOpen) (hopen : fdTableOpen s p flags.toInt o = some (s', .ok fd))
    (calls : List Call) :
    (∀ as : List Access, as.map Access.toCall = calls →
        Meets (accessStep p (fd : Nat)) (Enforced p (fd : Nat) flags) s' as) ↔
      ∀ c ∈ calls, mayAccess flags c.rw = true ∨ TurnedDown flags c := by
  have h := opened_of_open hopen
  constructor
  · intro hall
    apply calls_of_meets h (hall (calls.map Call.idle) ?_)
    rw [List.map_map]
    exact map_id calls
  · rintro hall as rfl
    exact meets_of_calls h (forall_mem_map.mp hall)

def creating : BitVec 32 := 4

def fresh : State :=
  { init (fun _ => ⟨0, 0, 0, 0⟩) with procs := {1}, table := fun _ => some fun _ => none }

def takeByte : Vop := .uiomove [0] fun _ => .ret none

theorem fd_zero_lt : 0 < maxFileOpen := by decide

def created : State := (fresh.opened 7 creating.toInt 3 true).setSlot 1 ⟨0, fd_zero_lt⟩ (some 7)

theorem open_fresh :
    fdTableOpen fresh 1 creating.toInt ⟨some 7, .ok 3, true⟩ = some (created, .ok ⟨0, fd_zero_lt⟩) := rfl

theorem fileAt_created : created.fileAt 1 0 = some 7 := rfl

theorem exec_takeByte (mem : Memory) (buf : Addr) (offset : BitVec 32) :
    takeByte.exec ⟨none, fun _ => false⟩ mem (mkKuio buf 1 offset .UIO_WRITE) =
      some ⟨mem, (mkKuio buf 1 offset .UIO_WRITE).advance 1, [[mem buf]], none⟩ := by
  have hmove : uiomove ⟨none, fun _ => false⟩ mem (mkKuio buf 1 offset .UIO_WRITE) [0] =
      some ⟨[mem buf], mem, (mkKuio buf 1 offset .UIO_WRITE).advance 1, none⟩ := by
    rw [uiomove_sys rfl rfl rfl]
    unfold memmove
    rw [reach_eq fun _ _ => rfl, if_neg (lt_irrefl _)]
    simp [mkKuio, Memory.load]
  unfold takeByte Vop.exec
  rw [hmove]
  rfl

theorem write_to_rdonly : Accepted creating ∧ mayAccess creating .UIO_WRITE = false ∧
      fdTableOpen fresh 1 creating.toInt ⟨some 7, .ok 3, true⟩ = some (created, .ok ⟨0, fd_zero_lt⟩) ∧
        ∃ r, write created 1 0 0x1000 1 ⟨none, fun _ => false⟩ (fun _ => 1) takeByte = some r ∧
          r.pieces = some [[1]] ∧ r.ret = .ok 1 := by
  refine ⟨⟨by decide, by decide⟩, by decide, open_fresh, ?_⟩
  rw [write_open fileAt_created, if_neg (by decide), if_neg (by decide)]
  unfold transfer
  simp only [exec_takeByte, map_some]
  exact ⟨_, rfl, rfl, rfl⟩

theorem modes_enforced_bare : fdTableOpen fresh 1 (0 : BitVec 32).toInt ⟨some 7, .ok 3, true⟩ =
        some ((fresh.opened 7 0 3 true).setSlot 1 ⟨0, fd_zero_lt⟩ (some 7), .ok ⟨0, fd_zero_lt⟩) ∧
      ∀ as : List Access, as.map Access.toCall = [⟨.UIO_WRITE, 0x1000, 1⟩, ⟨.UIO_READ, 0x1000, 1⟩] →
        Meets (accessStep 1 (0 : Nat)) (Enforced 1 (0 : Nat) 0)
          ((fresh.opened 7 0 3 true).setSlot 1 ⟨0, fd_zero_lt⟩ (some 7)) as := by
  refine ⟨rfl, ?_⟩
  apply (modes_enforced_iff fresh _ 1 0 ⟨some 7, .ok 3, true⟩ ⟨0, fd_zero_lt⟩ rfl _).mpr
  rw [forall_mem_cons, forall_mem_singleton]
  exact ⟨.inr ⟨rfl, by decide⟩, .inl (by decide)⟩

end Os161.Files
