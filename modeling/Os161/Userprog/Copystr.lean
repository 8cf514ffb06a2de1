import Os161.Userprog.Strings

/-!
# String copies

`copystr`, `copyinstr` and `copyoutstr` of `kern/lib/copyinout.c`. A fault ends the copy through
`copyfail`.
-/

open Os161.Kern List BitVec

namespace Os161.Userprog.Copystr

/-- The loop from `i` on. It ends with the value of `*gotlen`, or with no NUL found. -/
def copyLoop (cur : Thread) (dest src : Addr) : (n i : Nat) → Memory →
    Memory × Option (Except Errno Nat)
  | 0, _, mem => (mem, none)
  | n + 1, i, mem =>
    if cur.faults (src + BitVec.ofNat 32 i) || cur.faults (dest + BitVec.ofNat 32 i) then
      (mem, some (.error .EFAULT))
    else
      let mem := mem.store (dest + BitVec.ofNat 32 i) [mem (src + BitVec.ofNat 32 i)]
      if mem (src + BitVec.ofNat 32 i) = 0 then (mem, some (.ok (i + 1)))
      else copyLoop cur dest src n (i + 1) mem

def copystr (cur : Thread) (mem : Memory) (dest src : Addr) (maxlen stoplen : Nat) :
    Memory × Except Errno Nat :=
  let (mem, found) := copyLoop cur dest src (min maxlen stoplen) 0 mem
  (mem, found.getD (.error (if stoplen < maxlen then .EFAULT else .ENAMETOOLONG)))

/-- The copies from and to user level differ in the side that is checked. -/
def checkedCopy (cur : Thread) (mem : Memory) (userptr dest src : Addr) (len : BitVec 32) :
    Memory × Except Errno Nat :=
  match copycheck userptr.toNat len.toNat with
  | .error e => (mem, .error e)
  | .ok stoplen => copystr cur mem dest src len.toNat stoplen

def copyinstr (cur : Thread) (mem : Memory) (usersrc dest : Addr) (len : BitVec 32) :
    Memory × Except Errno Nat :=
  checkedCopy cur mem usersrc dest usersrc len

def copyoutstr (cur : Thread) (mem : Memory) (src userdest : Addr) (len : BitVec 32) :
    Memory × Except Errno Nat :=
  checkedCopy cur mem userdest userdest src len

def usable (cur : Thread) (dest src : Addr) (n : Nat) : Nat := (List.range n).findIdx fun i =>
    cur.faults (src + BitVec.ofNat 32 i) || cur.faults (dest + BitVec.ofNat 32 i)

/-- A copy of at most `len` bytes when user space ends after `room` more. -/
def outcome (cur : Thread) (mem : Memory) (dest src : Addr) (len room : Nat) :
    Memory × Except Errno Nat :=
  let n := usable cur dest src (min len room)
  let bytes := mem.load src n
  let str := bytes.takeWhile (· ≠ 0)
  if 0 ∈ bytes then (mem.store dest (str ++ [0]), .ok (str.length + 1))
  else (mem.store dest bytes,
    .error (if n < min len room ∨ room < len then .EFAULT else .ENAMETOOLONG))

section Loop

variable {cur cur' : Thread} {mem mem' : Memory} {dest src : Addr}
variable {n k m maxlen stoplen len room : Nat}

def Apart (dest src : Addr) (n : Nat) : Prop :=
  n < 2 ^ 32 ∧ ∀ i < n, ∀ j < n, src + BitVec.ofNat 32 i ≠ dest + BitVec.ofNat 32 j

theorem Apart.mono (h : Apart dest src n) (hk : k ≤ n) : Apart dest src k :=
  ⟨lt_of_le_of_lt hk h.1, fun i hi j hj =>
    h.2 i (lt_of_lt_of_le hi hk) j (lt_of_lt_of_le hj hk)⟩

theorem usable_le : usable cur dest src n ≤ n := by
  have hle : usable cur dest src n ≤ (List.range n).length := findIdx_le_length
  rwa [length_range] at hle

theorem usable_before (hk : k < usable cur dest src n) :
    (cur.faults (src + BitVec.ofNat 32 k) || cur.faults (dest + BitVec.ofNat 32 k)) = false := by
  have hbefore := not_of_lt_findIdx hk
  rwa [getElem_range] at hbefore

theorem usable_at (h : usable cur dest src n < n) :
    (cur.faults (src + BitVec.ofNat 32 (usable cur dest src n)) ||
      cur.faults (dest + BitVec.ofNat 32 (usable cur dest src n))) = true := by
  have hidx : usable cur dest src n < (List.range n).length := by rwa [length_range]
  have hfault := findIdx_getElem (w := hidx)
  have hget : (List.range n)[usable cur dest src n] = usable cur dest src n := getElem_range hidx
  exact hget ▸ hfault

theorem Apart.store {bs : List UInt8} (h : Apart dest src n) (hk : k < n) (hbs : bs.length ≤ n) :
    mem.store dest bs (src + BitVec.ofNat 32 k) = mem (src + BitVec.ofNat 32 k) :=
  store_elsewhere (h.2 k hk) hbs

theorem copyLoop_step (happart : Apart dest src (k + 1))
    (hfault : (cur.faults (src + BitVec.ofNat 32 k) || cur.faults (dest + BitVec.ofNat 32 k)) = false) :
    copyLoop cur dest src (m + 1) k (mem.store dest (mem.load src k)) =
      if mem (src + BitVec.ofNat 32 k) = 0 then
        (mem.store dest (mem.load src (k + 1)), some (.ok (k + 1)))
      else copyLoop cur dest src m (k + 1) (mem.store dest (mem.load src (k + 1))) := by
  have hk := Nat.lt_succ_self k
  have hbefore : mem.store dest (mem.load src k) (src + BitVec.ofNat 32 k) =
      mem (src + BitVec.ofNat 32 k) := happart.store hk (by rw [length_load]; exact Nat.le_succ k)
  have hafter : mem.store dest (mem.load src (k + 1)) (src + BitVec.ofNat 32 k) =
      mem (src + BitVec.ofNat 32 k) := happart.store hk (by rw [length_load])
  have hstore : mem.store dest (mem.load src (k + 1)) = (mem.store dest (mem.load src k)).store
      (dest + BitVec.ofNat 32 k) [mem (src + BitVec.ofNat 32 k)] := by
    have hlen : (mem.load src k).length + (mem.load (src + BitVec.ofNat 32 k) 1).length ≤ 2 ^ 32 := by
      rw [length_load, length_load]
      exact le_of_lt happart.1
    rw [load_add, store_append hlen, length_load]
    simp [Memory.load]
  rw [copyLoop, if_neg (by rw [hfault]; decide)]
  simp [hbefore, ← hstore, hafter]

theorem usable_eq_self (h : ∀ i < n, (cur.faults (src + BitVec.ofNat 32 i) ||
    cur.faults (dest + BitVec.ofNat 32 i)) = false) : usable cur dest src n = n := by
  apply le_antisymm usable_le
  apply Nat.le_of_not_lt
  intro hlt
  exact Bool.false_ne_true ((h _ hlt).symm.trans (usable_at hlt))

theorem copyLoop_run (happart : Apart dest src (k + m))
    (hgood : ∀ j < k, (cur.faults (src + BitVec.ofNat 32 j) || cur.faults (dest + BitVec.ofNat 32 j)) =
      false ∧ mem (src + BitVec.ofNat 32 j) ≠ 0) :
    copyLoop cur dest src (k + m) 0 mem =
      copyLoop cur dest src m k (mem.store dest (mem.load src k)) := by
  induction k generalizing m with
  | zero => simp [Memory.load]
  | succ k ih =>
    obtain ⟨hfault, hbyte⟩ := hgood k (Nat.lt_succ_self k)
    rw [add_right_comm, add_assoc] at happart ⊢
    rw [ih happart fun j hj => hgood j (Nat.lt_succ_of_lt hj),
      copyLoop_step (happart.mono (by omega)) hfault, if_neg hbyte]

theorem take_load (hk : k ≤ n) : (mem.load src n).take k = mem.load src k := by
  rw [Memory.load, ← map_take, take_range, min_eq_left hk]
  rfl

theorem mem_load {ch : UInt8} : ch ∈ mem.load src n ↔ ∃ j < n, mem (src + BitVec.ofNat 32 j) = ch := by
  simp [Memory.load]

theorem load_succ : mem.load src (n + 1) = mem.load src n ++ [mem (src + BitVec.ofNat 32 n)] := by
  rw [load_add]
  simp [Memory.load]

theorem exists_nul (h : 0 ∈ mem.load src n) : ∃ k < n, mem (src + BitVec.ofNat 32 k) = 0 ∧
    (∀ j < k, mem (src + BitVec.ofNat 32 j) ≠ 0) ∧
    (mem.load src n).takeWhile (· ≠ 0) = mem.load src k := by
  obtain ⟨str, rest, hload, hstr⟩ := eq_append_cons_of_mem h
  have hlen := congrArg List.length hload
  rw [length_load, length_append, length_cons] at hlen
  have hprefix : mem.load src str.length = str := by
    rw [← take_load (n := n) (by omega), hload, take_left]
  have hzero : mem.load src (str.length + 1) = str ++ [0] := by
    rw [← take_load (n := n) (by omega), hload, take_length_add_append]
    rfl
  refine ⟨str.length, by omega, ?_, ?_, ?_⟩
  · rw [load_succ, hprefix, append_cancel_left_eq] at hzero
    exact head_eq_of_cons_eq hzero
  · intro j hj hnul
    rw [← hprefix] at hstr
    exact hstr (mem_load.mpr ⟨j, hj, hnul⟩)
  · rw [hload, hprefix, takeWhile_append_of_pos, takeWhile_cons_of_neg, append_nil]
    · decide
    · intro ch hch
      exact decide_eq_true fun h0 => hstr (h0 ▸ hch)

theorem copyLoop_nul (happart : Apart dest src n) (hnul : 0 ∈ mem.load src (usable cur dest src n)) :
    copyLoop cur dest src n 0 mem =
      (mem.store dest ((mem.load src (usable cur dest src n)).takeWhile (· ≠ 0) ++ [0]),
        some (.ok (((mem.load src (usable cur dest src n)).takeWhile (· ≠ 0)).length + 1))) := by
  have husable : usable cur dest src n ≤ n := usable_le
  obtain ⟨k, hk, hzero, hbefore, hstr⟩ := exists_nul hnul
  obtain ⟨m, rfl⟩ : ∃ m, n = k + (m + 1) := ⟨n - k - 1, by omega⟩
  have hload : mem.load src k ++ [0] = mem.load src (k + 1) := by rw [load_succ, hzero]
  rw [copyLoop_run happart fun j hj => ⟨usable_before (lt_trans hj hk), hbefore j hj⟩,
    copyLoop_step (happart.mono (by omega)) (usable_before hk), if_pos hzero, hstr, hload, length_load]

theorem copyLoop_no_nul (happart : Apart dest src n)
    (hnul : 0 ∉ mem.load src (usable cur dest src n)) :
    copyLoop cur dest src n 0 mem = (mem.store dest (mem.load src (usable cur dest src n)),
      if usable cur dest src n < n then some (.error .EFAULT) else none) := by
  have hsum : usable cur dest src n + (n - usable cur dest src n) = n := Nat.add_sub_cancel' usable_le
  have hrun : copyLoop cur dest src (usable cur dest src n + (n - usable cur dest src n)) 0 mem =
      copyLoop cur dest src (n - usable cur dest src n) (usable cur dest src n)
        (mem.store dest (mem.load src (usable cur dest src n))) := by
    apply copyLoop_run (by rwa [hsum])
    exact fun j hj => ⟨usable_before hj, fun h0 => hnul (mem_load.mpr ⟨j, hj, h0⟩)⟩
  rw [hsum] at hrun
  rw [hrun]
  split_ifs with hfault
  · obtain ⟨m, hm⟩ := Nat.exists_eq_add_one_of_ne_zero (Nat.sub_ne_zero_of_lt hfault)
    rw [hm, copyLoop, if_pos (usable_at hfault)]
  · rw [Nat.sub_eq_zero_of_le (Nat.le_of_not_lt hfault), copyLoop]

theorem copystr_eq (happart : Apart dest src (min maxlen stoplen)) :
    copystr cur mem dest src maxlen stoplen = outcome cur mem dest src maxlen stoplen := by
  by_cases hnul : 0 ∈ mem.load src (usable cur dest src (min maxlen stoplen))
  · simp only [copystr, outcome, copyLoop_nul happart hnul, if_pos hnul]
    rfl
  · simp only [copystr, outcome, copyLoop_no_nul happart hnul, if_neg hnul]
    by_cases hfault : usable cur dest src (min maxlen stoplen) < min maxlen stoplen
    · simp [hfault]
    · simp [hfault]

structure Same (cur cur' : Thread) (mem mem' : Memory) (dest src : Addr) (n : Nat) : Prop where
  faults : ∀ i < n, cur'.faults (src + BitVec.ofNat 32 i) = cur.faults (src + BitVec.ofNat 32 i) ∧
    cur'.faults (dest + BitVec.ofNat 32 i) = cur.faults (dest + BitVec.ofNat 32 i)
  bytes : ∀ i < n, mem' (src + BitVec.ofNat 32 i) = mem (src + BitVec.ofNat 32 i)

theorem Same.usable_eq (h : Same cur cur' mem mem' dest src n) :
    usable cur' dest src n = usable cur dest src n := by
  have hfaults : ∀ i ∈ List.range n,
      (cur'.faults (src + BitVec.ofNat 32 i) || cur'.faults (dest + BitVec.ofNat 32 i)) =
        (cur.faults (src + BitVec.ofNat 32 i) || cur.faults (dest + BitVec.ofNat 32 i)) := by
    intro i hi
    obtain ⟨hsrc, hdest⟩ := h.faults i (mem_range.mp hi)
    rw [hsrc, hdest]
  apply le_antisymm
  · exact findIdx_le_findIdx fun i hi hfault => (hfaults i hi).trans hfault
  · exact findIdx_le_findIdx fun i hi hfault => (hfaults i hi).symm.trans hfault

theorem Same.outcome_eq (h : Same cur cur' mem mem' dest src (min len room)) :
    (outcome cur' mem' dest src len room).2 = (outcome cur mem dest src len room).2 := by
  have hload : mem'.load src (usable cur dest src (min len room)) =
      mem.load src (usable cur dest src (min len room)) :=
    load_congr fun i hi => h.bytes i (lt_of_lt_of_le hi usable_le)
  simp only [outcome, h.usable_eq, hload]
  split_ifs <;> rfl

theorem outcome_elsewhere {x : Addr} (hx : ∀ i < min len room, x ≠ dest + BitVec.ofNat 32 i) :
    (outcome cur mem dest src len room).1 x = mem x := by
  have husable : usable cur dest src (min len room) ≤ min len room := usable_le
  by_cases hnul : 0 ∈ mem.load src (usable cur dest src (min len room))
  · simp only [outcome, if_pos hnul]
    obtain ⟨k, hk, -, -, hstr⟩ := exists_nul hnul
    apply store_elsewhere hx
    rw [hstr, length_append, length_load]
    exact le_trans hk husable
  · simp only [outcome, if_neg hnul]
    apply store_elsewhere hx
    rwa [length_load]

theorem outcome_min : outcome cur mem dest src len (min len room) = outcome cur mem dest src len room := by
  simp [outcome]

theorem store_self (x : Addr) : mem.store x [mem src] src = mem src := by
  by_cases hx : src = x
  · simp [Memory.store, hx]
  · exact store_one_of_ne hx

theorem strings_copystr (i : Nat) (r : Memory × Option (Except Errno Nat))
    (hr : copyLoop cur dest src (min maxlen stoplen) i mem = r) :
    (Strings.copystr cur maxlen stoplen mem (dest + BitVec.ofNat 32 i) (src + BitVec.ofNat 32 i)).1 = r.1 ∧
    ∀ e, (Strings.copystr cur maxlen stoplen mem (dest + BitVec.ofNat 32 i)
        (src + BitVec.ofNat 32 i)).2 = some e ↔
      r.2.getD (.error (if stoplen < maxlen then .EFAULT else .ENAMETOOLONG)) = .error e := by
  subst hr
  induction maxlen generalizing stoplen i mem with
  | zero => simp [Strings.copystr, copyLoop]
  | succ maxlen ih =>
    cases stoplen with
    | zero => simp [Strings.copystr, copyLoop]
    | succ stoplen =>
      rw [Nat.succ_min_succ]
      unfold Strings.copystr copyLoop
      simp only [store_self, Nat.succ_lt_succ_iff, next_addr]
      by_cases hfault : (cur.faults (src + BitVec.ofNat 32 i) ||
        cur.faults (dest + BitVec.ofNat 32 i)) = true
      · rw [if_pos hfault, if_pos hfault]
        simp
      · rw [if_neg hfault, if_neg hfault]
        by_cases hzero : mem (src + BitVec.ofNat 32 i) = 0
        · simp [if_pos hzero]
        · rw [if_neg hzero, if_neg hzero]
          exact ih (i + 1)

end Loop

def InKernel (buf : Addr) (n : Nat) : Prop := USERTOP ≤ buf.toNat ∧ buf.toNat + n ≤ 2 ^ 32

/-- It touches no more than `min len room` bytes on either side. -/
structure Exact (call : Thread → Memory → Memory × Except Errno Nat) (dest src : Addr)
    (len room : Nat) : Prop where
  result : ∀ cur mem, call cur mem = outcome cur mem dest src len room
  reads : ∀ cur cur' mem mem', Same cur cur' mem mem' dest src (min len room) →
    (call cur' mem').2 = (call cur mem).2
  writes : ∀ cur mem x, (∀ i < min len room, x ≠ dest + BitVec.ofNat 32 i) →
    (call cur mem).1 x = mem x

theorem Exact.of_result {call : Thread → Memory → Memory × Except Errno Nat} {dest src : Addr}
    {len room : Nat} (h : ∀ cur mem, call cur mem = outcome cur mem dest src len room) :
    Exact call dest src len room where
  result := h
  reads cur cur' mem mem' hsame := by
    rw [h, h]
    exact hsame.outcome_eq
  writes cur mem x hx := by
    rw [h]
    exact outcome_elsewhere hx

theorem copycheck_cases {p len : Nat} (hlen : 0 < len) (hp : p < 2 ^ 32) (hlen' : len < 2 ^ 32) :
    copycheck p len =
      if p + len ≤ 2 ^ 32 ∧ p < USERTOP then .ok (min len (USERTOP - p)) else .error .EFAULT := by
  have htop : sub32 (add32 p len) 1 = if p + len ≤ 2 ^ 32 then p + len - 1 else p + len - 1 - 2 ^ 32 := by
    unfold add32 sub32
    split_ifs <;> omega
  unfold copycheck
  simp only [htop, USERTOP]
  split_ifs <;> first | rfl | omega | (congr 1; omega)

section Checked

variable {cur : Thread} {mem : Memory} {p buf : Addr} {len : BitVec 32}

theorem InKernel.apart (h : InKernel buf (min len.toNat (USERTOP - p.toNat))) :
    Apart buf p (min len.toNat (USERTOP - p.toNat)) ∧ Apart p buf (min len.toNat (USERTOP - p.toNat)) := by
  obtain ⟨hbuf, hend⟩ := h
  generalize hn : min len.toNat (USERTOP - p.toNat) = n at hend ⊢
  have hne : ∀ i < n, ∀ j < n, p + BitVec.ofNat 32 i ≠ buf + BitVec.ofNat 32 j := by
    intro i hi j hj heq
    have hnat := congrArg BitVec.toNat heq
    rw [toNat_add, toNat_add, toNat_ofNat, toNat_ofNat] at hnat
    omega
  exact ⟨⟨by omega, hne⟩, ⟨by omega, fun i hi j hj heq => hne j hj i hi heq.symm⟩⟩

theorem checkedCopy_eq {dest src : Addr} (hlen : len ≠ 0) (hwrap : p.toNat + len.toNat ≤ 2 ^ 32)
    (happart : Apart dest src (min len.toNat (USERTOP - p.toNat))) :
    checkedCopy cur mem p dest src len = outcome cur mem dest src len.toNat (USERTOP - p.toNat) := by
  have hpos : 0 < len.toNat := Nat.pos_of_ne_zero fun h0 => hlen (eq_of_toNat_eq h0)
  unfold checkedCopy
  rw [copycheck_cases hpos p.isLt len.isLt]
  by_cases huser : p.toNat < USERTOP
  · rw [if_pos ⟨hwrap, huser⟩]
    dsimp only
    rw [copystr_eq (by rwa [← Nat.min_assoc, min_self]), outcome_min]
  · have hroom : USERTOP - p.toNat = 0 := Nat.sub_eq_zero_of_le (Nat.le_of_not_lt huser)
    rw [if_neg fun h => huser h.2, hroom]
    simp [outcome, usable, Memory.load, hpos]

theorem checkedCopy_wraps {dest src : Addr} (hwrap : 2 ^ 32 < p.toNat + len.toNat) :
    checkedCopy cur mem p dest src len = (mem, .error .EFAULT) := by
  have hp := p.isLt
  unfold checkedCopy
  rw [copycheck_cases (by omega) hp len.isLt, if_neg fun h => Nat.not_le_of_lt hwrap h.1]

theorem copyable_eq (hlen : len ≠ 0) : copyable cur p len.toNat =
    if p.toNat + len.toNat ≤ USERTOP then (cur.reach p len.toNat,
      if cur.reach p len.toNat < len.toNat then some .EFAULT else none)
    else (0, some .EFAULT) := by
  have hpos : 0 < len.toNat := Nat.pos_of_ne_zero fun h0 => hlen (eq_of_toNat_eq h0)
  unfold copyable
  rw [copycheck_cases hpos p.isLt len.isLt]
  by_cases hroom : p.toNat + len.toNat ≤ USERTOP
  · have hmin : min len.toNat (USERTOP - p.toNat) = len.toNat := by omega
    rw [if_pos ⟨le_trans hroom (by decide), by omega⟩, if_pos hroom, hmin]
    simp
  · rw [if_neg hroom]
    by_cases huser : p.toNat + len.toNat ≤ 2 ^ 32 ∧ p.toNat < USERTOP
    · rw [if_pos huser]
      have hne : min len.toNat (USERTOP - p.toNat) ≠ len.toNat := by omega
      simp only [if_pos hne]
    · rw [if_neg huser]

/-- A string is copied up to its NUL, the limit or the end of user space. A limit with which the
block would wrap around is refused. -/
theorem user_copies_checked (p : Addr) (len : BitVec 32) (hlen : len ≠ 0) :
    (∀ cur, copyable cur p len.toNat = if p.toNat + len.toNat ≤ USERTOP then (cur.reach p len.toNat,
        if cur.reach p len.toNat < len.toNat then some .EFAULT else none)
      else (0, some .EFAULT)) ∧
    (p.toNat + len.toNat ≤ 2 ^ 32 → ∀ buf, InKernel buf (min len.toNat (USERTOP - p.toNat)) →
      Exact (fun cur mem => copyinstr cur mem p buf len) buf p len.toNat (USERTOP - p.toNat) ∧
      Exact (fun cur mem => copyoutstr cur mem buf p len) p buf len.toNat (USERTOP - p.toNat)) ∧
    (2 ^ 32 < p.toNat + len.toNat → ∀ cur mem buf,
      copyinstr cur mem p buf len = (mem, .error .EFAULT) ∧
      copyoutstr cur mem buf p len = (mem, .error .EFAULT)) := by
  refine ⟨fun cur => copyable_eq hlen, fun hwrap buf hbuf => ?_, fun hwrap cur mem buf => ?_⟩
  · exact ⟨.of_result fun cur mem => checkedCopy_eq hlen hwrap hbuf.apart.1,
      .of_result fun cur mem => checkedCopy_eq hlen hwrap hbuf.apart.2⟩
  · exact ⟨checkedCopy_wraps hwrap, checkedCopy_wraps hwrap⟩

end Checked

theorem copyinstr_wraps :
    InKernel 0x80000000 (min (0xFFFFFFFF : BitVec 32).toNat (USERTOP - (0x1000 : Addr).toNat)) ∧
      ¬ Exact (fun cur mem => copyinstr cur mem 0x1000 0x80000000 0xFFFFFFFF) 0x80000000 0x1000
        (0xFFFFFFFF : BitVec 32).toNat (USERTOP - (0x1000 : Addr).toNat) := by
  refine ⟨⟨by decide, by decide⟩, fun h => ?_⟩
  have hresult := h.result ⟨none, fun _ => false⟩ fun _ => 0
  have hpos : 0 < min (0xFFFFFFFF : BitVec 32).toNat (USERTOP - (0x1000 : Addr).toNat) := by decide
  generalize (0xFFFFFFFF : BitVec 32).toNat = len at hresult hpos
  generalize USERTOP - (0x1000 : Addr).toNat = room at hresult hpos
  have hnul : 0 ∈ Memory.load (fun _ => 0) 0x1000
      (usable ⟨none, fun _ => false⟩ 0x80000000 0x1000 (min len room)) := by
    rw [usable_eq_self fun _ _ => rfl]
    exact mem_load.mpr ⟨0, hpos, rfl⟩
  simp only [outcome, if_pos hnul] at hresult
  cases congrArg Prod.snd hresult

theorem user_copies_checked_hi :
    (copyinstr ⟨none, fun _ => false⟩ (Memory.store (fun _ => 1) 0x1000 [104, 105, 0]) 0x1000
      0x80000000 8).2 = .ok 3 := by
  have hexact := ((user_copies_checked 0x1000 8 (by decide)).2.1 (by decide) 0x80000000
    ⟨by decide, by decide⟩).1
  exact (congrArg Prod.snd (hexact.result ⟨none, fun _ => false⟩
    (Memory.store (fun _ => 1) 0x1000 [104, 105, 0]))).trans rfl

end Os161.Userprog.Copystr
