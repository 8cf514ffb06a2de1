import Os161.Files.ReadWrite

/-!
# Pointers from user level

`read` and `write` hand the address of the program to `mk_kuio`, which makes a request between two
buffers of the kernel, and `waitpid` stores through its pointer.
-/

open Os161.Kern Os161.Userprog List Option BitVec

namespace Os161.Files

def inRange (base n x : BitVec 32) : Prop := (x - base).toNat < n.toNat

structure IsKernel (uio : Uio) : Prop where
  seg : uio.segflg = .UIO_SYSSPACE
  space : uio.space = none
  len : uio.len = uio.resid

section Range

variable {uio : Uio} {cur : Thread} {mem mem' : Memory} {ptr : List UInt8} {base n x : BitVec 32}
variable {k : Nat} {m : Moved} {vop : Vop} {d : Done}

theorem isKernel_mkKuio (buf : Addr) (nbytes offset : BitVec 32) (rw : Rw) :
    IsKernel (mkKuio buf nbytes offset rw) := ⟨rfl, rfl, rfl⟩

theorem IsKernel.advance (h : IsKernel uio) (k : Nat) : IsKernel (uio.advance k) where
  seg := h.seg
  space := h.space
  len := by
    unfold Uio.advance
    rw [h.len]

theorem inRange_of_lt (hk : k ≤ n.toNat) {i : Nat} (hi : i < k) :
    inRange base n (base + BitVec.ofNat 32 i) := by
  unfold inRange
  rw [add_comm, add_sub_cancel, toNat_ofNat, Nat.mod_eq_of_lt (by omega)]
  omega

theorem inRange_advance (hk : k ≤ uio.resid.toNat)
    (h : inRange (uio.advance k).base (uio.advance k).resid x) : inRange uio.base uio.resid x := by
  unfold inRange Uio.advance at h
  unfold inRange
  bv_omega

theorem inRange_store (hk : ptr.length ≤ n.toNat) (h : mem.store base ptr x ≠ mem x) :
    inRange base n x := by
  unfold inRange
  by_contra hle
  exact h (store_of_le (by omega))

structure IsMoved (mem : Memory) (uio : Uio) (ptr : List UInt8) (m : Moved) : Prop where
  err : m.err = none
  left : m.uio = uio.advance (min uio.resid.toNat ptr.length)
  read : uio.rw = .UIO_READ →
    m.mem = mem.store uio.base (ptr.take (min uio.resid.toNat ptr.length)) ∧ m.ptr = ptr
  write : uio.rw = .UIO_WRITE → m.mem = mem ∧
    m.ptr = mem.load uio.base (min uio.resid.toNat ptr.length) ++
      ptr.drop (min uio.resid.toNat ptr.length)

theorem isMoved (h : IsKernel uio) (hm : uiomove cur mem uio ptr = some m) : IsMoved mem uio ptr m := by
  rw [uiomove_sys h.seg h.space h.len] at hm
  generalize hk : min uio.resid.toNat ptr.length = k at hm
  have hlen : (ptr.take k).length = k := length_take_of_le (by omega)
  obtain ⟨⟨part, mem'⟩, hpart, rfl⟩ := map_eq_some_iff.mp hm
  unfold memmove at hpart
  split at hpart
  · cases hpart
  · refine ⟨rfl, by rw [hk], fun hrw => ?_, fun hrw => ?_⟩
    · rw [hrw] at hpart
      cases hpart
      rw [hk]
      exact ⟨rfl, take_append_drop k ptr⟩
    · rw [hrw, hlen] at hpart
      cases hpart
      rw [hk]
      exact ⟨rfl, rfl⟩

theorem IsMoved.inRange (h : IsMoved mem uio ptr m) (hx : m.mem x ≠ mem x) :
    inRange uio.base uio.resid x := by
  cases hrw : uio.rw with
  | UIO_READ =>
    rw [(h.read hrw).1] at hx
    apply inRange_store _ hx
    rw [length_take]
    omega
  | UIO_WRITE =>
    rw [(h.write hrw).1] at hx
    exact absurd rfl hx

theorem exec_inRange (h : IsKernel uio) (hd : vop.exec cur mem uio = some d)
    (hx : d.mem x ≠ mem x) : inRange uio.base uio.resid x := by
  induction vop generalizing mem uio d with
  | ret err =>
    cases hd
    exact absurd rfl hx
  | uiomove ptr next ih =>
    obtain ⟨m, hm, hd⟩ := bind_eq_some_iff.mp hd
    have hmoved := isMoved h hm
    rw [hmoved.err] at hd
    obtain ⟨d', hd', rfl⟩ := map_eq_some_iff.mp hd
    by_cases hsame : d'.mem x = m.mem x
    · exact hmoved.inRange fun heq => hx (hsame.trans heq)
    · rw [hmoved.left] at hd'
      exact inRange_advance (min_le_left ..) (ih m.ptr (h.advance _) hd' hsame)

section

variable (h : IsKernel uio) (hrw : uio.rw = .UIO_WRITE)
include h hrw

theorem exec_write
    (hd : vop.exec cur mem uio = some d) : d.mem = mem := by
  induction vop generalizing mem uio d with
  | ret err =>
    cases hd
    rfl
  | uiomove ptr next ih =>
    obtain ⟨m, hm, hd⟩ := bind_eq_some_iff.mp hd
    have hmoved := isMoved h hm
    rw [hmoved.err] at hd
    obtain ⟨d', hd', rfl⟩ := map_eq_some_iff.mp hd
    rw [hmoved.left] at hd'
    exact (ih m.ptr (h.advance _) hrw hd').trans (hmoved.write hrw).1

theorem uiomove_congr
    (hmem : ∀ x, inRange uio.base uio.resid x → mem' x = mem x)
    (hm : uiomove cur mem uio ptr = some m) :
    uiomove cur mem' uio ptr = some { m with mem := mem' } := by
  have hload : mem'.load uio.base (min uio.resid.toNat ptr.length) =
      mem.load uio.base (min uio.resid.toNat ptr.length) :=
    load_congr fun i hi => hmem _ (inRange_of_lt (min_le_left ..) hi)
  have hlen : (ptr.take (min uio.resid.toNat ptr.length)).length = min uio.resid.toNat ptr.length :=
    length_take_of_le (min_le_right ..)
  rw [uiomove_sys h.seg h.space h.len] at hm ⊢
  unfold memmove at hm ⊢
  rw [hrw, hlen] at hm ⊢
  split at hm
  · cases hm
  · next hreach =>
    rw [if_neg hreach, hload]
    cases hm
    rfl

theorem exec_congr
    (hmem : ∀ x, inRange uio.base uio.resid x → mem' x = mem x)
    (hd : vop.exec cur mem uio = some d) :
    vop.exec cur mem' uio = some { d with mem := mem' } := by
  induction vop generalizing uio d with
  | ret err =>
    cases hd
    rfl
  | uiomove ptr next ih =>
    obtain ⟨m, hm, hd⟩ := bind_eq_some_iff.mp hd
    have hmoved := isMoved h hm
    rw [hmoved.err] at hd
    obtain ⟨d', hd', rfl⟩ := map_eq_some_iff.mp hd
    rw [hmoved.left, (hmoved.write hrw).1] at hd'
    have hrest := ih m.ptr (h.advance _) hrw
      (fun x hx => hmem x (inRange_advance (min_le_left ..) hx)) hd'
    unfold Vop.exec
    rw [uiomove_congr h hrw hmem hm, bind_some]
    simp [hmoved.err, hmoved.left, hrest, map_some]

end

end Range

/-! ## The calls -/

def Outside (buf : Addr) (n : Nat) : Prop := ∃ i < n, USERTOP ≤ buf.toNat + i

/-- A bad buffer is reported; for a good one only its own bytes are written. -/
def ReadSafe (s : State) (p : Nat) (fd : Int) (buf : Addr) (nbytes : BitVec 32) (cur : Thread)
    (mem : Memory) (vop : Vop) : Prop :=
  ∀ r, read s p fd buf nbytes cur mem vop = some r →
    (Outside buf nbytes.toNat → r.ret = .error .EFAULT ∧ ∀ x, USERTOP ≤ x.toNat → r.mem x = mem x) ∧
    (¬ Outside buf nbytes.toNat → ∀ x, r.mem x ≠ mem x → inRange buf nbytes x ∧ x.toNat < USERTOP)

/-- A bad buffer is reported; for a good one all depends on its own bytes alone. -/
def WriteSafe (s : State) (p : Nat) (fd : Int) (buf : Addr) (nbytes : BitVec 32) (cur : Thread)
    (mem : Memory) (vop : Vop) : Prop :=
  ∀ r, write s p fd buf nbytes cur mem vop = some r →
    (Outside buf nbytes.toNat → r.ret = .error .EFAULT ∧ r.pieces = none) ∧
    (¬ Outside buf nbytes.toNat → r.mem = mem ∧
      ∀ mem', (∀ x, inRange buf nbytes x ∧ x.toNat < USERTOP → mem' x = mem x) →
        write s p fd buf nbytes cur mem' vop = some { r with mem := mem' })

/-- What `waitpid` finds for its pid. A child has this exit code once the wait is over. -/
inductive Kid where
  | null
  | other
  | child (exitCode : BitVec 32)

def wordBytes (w : BitVec 32) : List UInt8 := [24, 16, 8, 0].map fun k => UInt8.ofNat (w >>> k).toNat

/-- An address that is not aligned, or a fault, is a panic. -/
def storeWord (cur : Thread) (mem : Memory) (status : Addr) (w : BitVec 32) : Option Memory :=
  if status.toNat % 4 ≠ 0 ∨ cur.faults status = true then none else some (mem.store status (wordBytes w))

def waitpid (status : Addr) (options : Int) (kid : Kid) (cur : Thread) (mem : Memory) :
    Option (Memory × Except Errno Unit) :=
  if options ≠ 0 then some (mem, .error .EINVAL)
  else
    match kid with
    | .null => (storeWord cur mem status (-1)).map fun mem => (mem, .error .EAGAIN)
    | .other => some (mem, .error .ENOMEM)
    | .child code => (storeWord cur mem status code).map fun mem => (mem, .ok ())

def WaitSafe (status : Addr) (options : Int) (kid : Kid) (cur : Thread) (mem : Memory) : Prop :=
  ∀ r, waitpid status options kid cur mem = some r →
    (Outside status 4 → r.2 = .error .EFAULT ∧ ∀ x, USERTOP ≤ x.toNat → r.1 x = mem x) ∧
    (¬ Outside status 4 → ∀ x, r.1 x ≠ mem x → inRange status 4 x ∧ x.toNat < USERTOP)

section Safe

variable {s : State} {p f : Nat} {t : Table} {fd : Int} {buf status : Addr} {nbytes : BitVec 32}
variable {x : Addr} {rw : Rw} {cur : Thread} {mem mem' : Memory} {vop : Vop} {r : Result}

theorem inRange_user {n : BitVec 32} (h : ¬ Outside buf n.toNat) (hx : inRange buf n x) :
    x.toNat < USERTOP := by
  have hle : x.toNat ≤ buf.toNat + (x - buf).toNat := by bv_omega
  by_contra hge
  exact h ⟨(x - buf).toNat, hx, le_trans (not_lt.mp hge) hle⟩

theorem transfer_inRange (h : transfer s f rw buf nbytes cur mem vop = some r)
    (hx : r.mem x ≠ mem x) : inRange buf nbytes x := by
  obtain ⟨d, hd, rfl⟩ := map_eq_some_iff.mp h
  apply exec_inRange (isKernel_mkKuio ..) hd
  cases hderr : d.err <;> simpa only [hderr] using hx

theorem transfer_write (h : transfer s f .UIO_WRITE buf nbytes cur mem vop = some r) : r.mem = mem := by
  obtain ⟨d, hd, rfl⟩ := map_eq_some_iff.mp h
  have hmem := exec_write (isKernel_mkKuio ..) rfl hd
  cases hderr : d.err <;> simpa only [hderr] using hmem

theorem transfer_congr (hmem : ∀ x, inRange buf nbytes x → mem' x = mem x)
    (h : transfer s f .UIO_WRITE buf nbytes cur mem vop = some r) :
    transfer s f .UIO_WRITE buf nbytes cur mem' vop = some { r with mem := mem' } := by
  obtain ⟨d, hd, rfl⟩ := map_eq_some_iff.mp h
  unfold transfer
  simp only [exec_congr (isKernel_mkKuio ..) rfl hmem hd, map_some]
  cases d.err <;> rfl

theorem read_cases (h : read s p fd buf nbytes cur mem vop = some r) :
    (∃ e, r = refuse s mem e) ∨ ∃ f, transfer s f .UIO_READ buf nbytes cur mem vop = some r := by
  unfold read at h
  split at h
  · split at h
    · exact .inl ⟨_, (some.inj h).symm⟩
    · obtain ⟨t, -, h⟩ := bind_eq_some_iff.mp h
      split at h
      · exact .inl ⟨_, (some.inj h).symm⟩
      · split at h
        · exact .inl ⟨_, (some.inj h).symm⟩
        · exact .inr ⟨_, h⟩
  · exact .inl ⟨_, (some.inj h).symm⟩

theorem write_cases (h : write s p fd buf nbytes cur mem vop = some r) : (∃ e, r = refuse s mem e ∧
        ∀ mem', write s p fd buf nbytes cur mem' vop = some (refuse s mem' e)) ∨
      ∃ f, transfer s f .UIO_WRITE buf nbytes cur mem vop = some r ∧
        ∀ mem', write s p fd buf nbytes cur mem' vop =
          transfer s f .UIO_WRITE buf nbytes cur mem' vop := by
  by_cases hfd : 0 ≤ fd ∧ fd < maxFileOpen
  · have ht : ∃ t, s.table p = some t := by
      unfold write at h
      rw [dif_pos hfd] at h
      obtain ⟨t, ht, -⟩ := bind_eq_some_iff.mp h
      exact ⟨t, ht⟩
    obtain ⟨t, ht⟩ := ht
    cases hf : s.fileAt p fd with
    | none =>
      rw [write_closed ht hf] at h
      exact .inl ⟨_, (some.inj h).symm, fun _ => write_closed ht hf⟩
    | some f =>
      simp only [write_open hf] at h ⊢
      split at h
      · next hbuf => exact .inl ⟨_, (some.inj h).symm, fun _ => if_pos hbuf⟩
      · next hbuf =>
        split at h
        · next hflag =>
          exact .inl ⟨_, (some.inj h).symm, fun _ => by rw [if_neg hbuf, if_pos hflag]⟩
        · next hflag => exact .inr ⟨f, h, fun _ => by rw [if_neg hbuf, if_neg hflag]⟩
  · have href : ∀ mem', write s p fd buf nbytes cur mem' vop = some (refuse s mem' .EBADF) :=
      fun _ => dif_neg hfd
    rw [href] at h
    exact .inl ⟨_, (some.inj h).symm, href⟩

theorem readSafe (hgood : ¬ Outside buf nbytes.toNat) : ReadSafe s p fd buf nbytes cur mem vop := by
  intro r hr
  refine ⟨fun hout => absurd hout hgood, fun _ x hx => ?_⟩
  obtain ⟨e, rfl⟩ | ⟨f, htransfer⟩ := read_cases hr
  · exact absurd rfl hx
  · have hin := transfer_inRange htransfer hx
    exact ⟨hin, inRange_user hgood hin⟩

theorem writeSafe (hgood : ¬ Outside buf nbytes.toNat) : WriteSafe s p fd buf nbytes cur mem vop := by
  intro r hr
  refine ⟨fun hout => absurd hout hgood, fun _ => ?_⟩
  obtain ⟨e, rfl, hall⟩ | ⟨f, htransfer, hall⟩ := write_cases hr
  · exact ⟨rfl, fun mem' _ => hall mem'⟩
  · refine ⟨transfer_write htransfer, fun mem' hmem => ?_⟩
    rw [hall]
    exact transfer_congr (fun x hx => hmem x ⟨hx, inRange_user hgood hx⟩) htransfer

theorem read_idle (ht : s.table p = some t) (hnull : ¬ ((0 ≤ fd ∧ fd < maxFileOpen) ∧ buf = 0)) :
    ∃ r, read s p fd buf nbytes cur mem (.ret none) = some r ∧ r.ret ≠ .error .EFAULT := by
  cases hf : s.fileAt p fd with
  | none => exact ⟨_, read_closed ht hf hnull, nofun⟩
  | some f =>
    obtain ⟨hfd, -⟩ := fileAt_some hf
    rw [read_open hf fun hz => hnull ⟨hfd, hz⟩]
    split
    · exact ⟨_, rfl, nofun⟩
    · exact ⟨_, transfer_ret _, nofun⟩

theorem write_idle (ht : s.table p = some t)
    (hbuf : ¬ (s.fileAt p fd ≠ none ∧ (buf = 0 ∨ buf = 0x40000000 ∨ buf = 0x80000000))) :
    ∃ r, write s p fd buf nbytes cur mem (.ret none) = some r ∧ r.ret ≠ .error .EFAULT := by
  cases hf : s.fileAt p fd with
  | none => exact ⟨_, write_closed ht hf, nofun⟩
  | some f =>
    rw [write_open hf, if_neg fun hz => hbuf ⟨by rw [hf]; exact some_ne_none f, hz⟩]
    split
    · exact ⟨_, rfl, nofun⟩
    · exact ⟨_, transfer_ret _, nofun⟩

theorem waitSafe (hgood : ¬ Outside status 4) (options : Int) (kid : Kid) :
    WaitSafe status options kid cur mem := by
  have hstore : ∀ w mem', storeWord cur mem status w = some mem' → ∀ x, mem' x ≠ mem x →
      inRange status 4 x ∧ x.toNat < USERTOP := by
    intro w mem' hw x hx
    unfold storeWord at hw
    split at hw
    · cases hw
    · cases hw
      have hlen : (wordBytes w).length ≤ (4 : BitVec 32).toNat := le_of_eq rfl
      have hin : inRange status 4 x := inRange_store hlen hx
      exact ⟨hin, inRange_user hgood hin⟩
  intro r hr
  refine ⟨fun hout => absurd hout hgood, fun _ x hx => ?_⟩
  unfold waitpid at hr
  split at hr
  · cases hr
    exact absurd rfl hx
  · cases kid with
    | null =>
      obtain ⟨mem', hw, rfl⟩ := map_eq_some_iff.mp hr
      exact hstore _ _ hw x hx
    | other =>
      cases hr
      exact absurd rfl hx
    | child code =>
      obtain ⟨mem', hw, rfl⟩ := map_eq_some_iff.mp hr
      exact hstore _ _ hw x hx

theorem readSafe_iff (ht : s.table p = some t) :
    (∀ cur mem vop, ReadSafe s p fd buf nbytes cur mem vop) ↔
      ¬ Outside buf nbytes.toNat ∨ (0 ≤ fd ∧ fd < maxFileOpen) ∧ buf = 0 := by
  constructor
  · intro hsafe
    by_contra hnot
    obtain ⟨hout, hnull⟩ := not_or.mp hnot
    obtain ⟨r, hr, hret⟩ := @read_idle s p t fd buf nbytes ⟨none, fun _ => false⟩ (fun _ => 0) ht hnull
    exact hret ((hsafe _ _ _ r hr).1 (not_not.mp hout)).1
  · rintro (hgood | ⟨hfd, hnull⟩) cur mem vop
    · exact readSafe hgood
    · intro r hr
      rw [read_null hfd hnull] at hr
      cases hr
      exact ⟨fun _ => ⟨rfl, fun _ _ => rfl⟩, fun _ x hx => absurd rfl hx⟩

theorem writeSafe_iff (ht : s.table p = some t) :
    (∀ cur mem vop, WriteSafe s p fd buf nbytes cur mem vop) ↔ ¬ Outside buf nbytes.toNat ∨
        s.fileAt p fd ≠ none ∧ (buf = 0 ∨ buf = 0x40000000 ∨ buf = 0x80000000) := by
  constructor
  · intro hsafe
    by_contra hnot
    obtain ⟨hout, hbuf⟩ := not_or.mp hnot
    obtain ⟨r, hr, hret⟩ := @write_idle s p t fd buf nbytes ⟨none, fun _ => false⟩ (fun _ => 0) ht hbuf
    exact hret ((hsafe _ _ _ r hr).1 (not_not.mp hout)).1
  · rintro (hgood | ⟨hopen, hbuf⟩) cur mem vop
    · exact writeSafe hgood
    · obtain ⟨f, hf⟩ := ne_none_iff_exists'.mp hopen
      have hall : ∀ mem', write s p fd buf nbytes cur mem' vop = some (refuse s mem' .EFAULT) :=
        fun mem' => by rw [write_open hf, if_pos hbuf]
      intro r hr
      rw [hall] at hr
      cases hr
      exact ⟨fun _ => ⟨rfl, rfl⟩, fun _ => ⟨rfl, fun mem' _ => hall mem'⟩⟩

theorem waitSafe_iff :
    (∀ options kid cur mem, WaitSafe status options kid cur mem) ↔ ¬ Outside status 4 := by
  constructor
  · intro hsafe hout
    have hret := (hsafe 1 .other ⟨none, fun _ => false⟩ (fun _ => 0) _ rfl).1 hout
    cases hret.1
  · exact fun hgood options kid cur mem => waitSafe hgood options kid

end Safe

/-- A few addresses are refused by name. The pointer of `waitpid` is never refused. -/
theorem pointers_checked_iff (s : State) (p : Nat) (t : Table) (ht : s.table p = some t) (fd : Int)
    (buf : Addr) (nbytes : BitVec 32) (status : Addr) :
    ((∀ cur mem vop, ReadSafe s p fd buf nbytes cur mem vop) ↔
      ¬ Outside buf nbytes.toNat ∨ (0 ≤ fd ∧ fd < maxFileOpen) ∧ buf = 0) ∧
    ((∀ cur mem vop, WriteSafe s p fd buf nbytes cur mem vop) ↔ ¬ Outside buf nbytes.toNat ∨
        s.fileAt p fd ≠ none ∧ (buf = 0 ∨ buf = 0x40000000 ∨ buf = 0x80000000)) ∧
    ((∀ options kid cur mem, WaitSafe status options kid cur mem) ↔ ¬ Outside status 4) :=
  ⟨readSafe_iff ht, writeSafe_iff ht, waitSafe_iff⟩

def reader : State where
  procs := {1}
  table := fun _ => some fun fd => if fd.val = 0 then some 7 else none
  live := {7}
  file := fun _ => ⟨0, 1, O_RDONLY, 3⟩
  opencount := fun _ => 1
  rwLock := fun _ => true

def giveByte : Vop := .uiomove [7] fun _ => .ret none

theorem read_into_kernel :
    ∃ r, read reader 1 0 0x80001000 1 ⟨none, fun _ => false⟩ (fun _ => 0) giveByte = some r ∧
      r.ret = .ok 1 ∧ r.mem 0x80001000 = 7 := by
  have hopen : reader.fileAt 1 0 = some 7 := rfl
  have hmove : ∀ offset, uiomove ⟨none, fun _ => false⟩ (fun _ => 0)
      (mkKuio 0x80001000 1 offset .UIO_READ) [7] =
        some ⟨[7], Memory.store (fun _ => 0) 0x80001000 [7],
          (mkKuio 0x80001000 1 offset .UIO_READ).advance 1, none⟩ := by
    intro offset
    rw [uiomove_sys rfl rfl rfl]
    rfl
  rw [read_open hopen (by decide), if_neg (by decide)]
  unfold transfer giveByte
  simp only [Vop.exec, hmove, bind_some, map_some]
  refine ⟨_, rfl, ?_, ?_⟩
  · decide
  · decide

theorem pointers_checked_reader :
    reader.table 1 = some (fun fd => if fd.val = 0 then some 7 else none) ∧
      ∀ cur mem vop, ReadSafe reader 1 0 0x1000 512 cur mem vop := by
  refine ⟨rfl, (pointers_checked_iff reader 1 _ rfl 0 0x1000 512 0x2000).1.mpr (.inl ?_)⟩
  rintro ⟨i, hi, htop⟩
  change i < 512 at hi
  change 0x80000000 ≤ 0x1000 + i at htop
  omega

end Os161.Files
