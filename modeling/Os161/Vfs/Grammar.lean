import Os161.Vfs.InPlace

/-!
# How a path starts

The forms `device:path`, `:path`, `/path` and `path`, and what `getdevice` makes of each. The bytes
around the string may fault: they are never looked at.
-/

open Os161.Lib Os161.Kern Os161.Userprog List Option

namespace Os161.Vfs.InPlace

open Function (update update_self update_of_ne)
open Paths (getstart decref)
open Strings (loadByte storeByte stringAt stringFrom)

def StrAt (cur : Thread) (mem : Memory) : Addr → List UInt8 → Prop
  | a, [] => cur.faults a = false ∧ mem a = 0
  | a, ch :: str => cur.faults a = false ∧ mem a = ch ∧ ch ≠ 0 ∧ StrAt cur mem (a + 1) str

structure Parsed where
  start : Paths.Start
  offset : Nat
  cut : Option Nat

structure Rest (rest : List UInt8) (skipped : Nat) : Prop where
  slashes : rest.take skipped = List.replicate skipped SLASH
  stops : (rest.drop skipped).head? ≠ some SLASH

theorem Rest.succ {rest : List UInt8} {n : Nat} (h : Rest rest (n + 1)) :
    ∃ subpath, rest = SLASH :: subpath ∧ Rest subpath n := by
  obtain ⟨hslashes, hstops⟩ := h
  cases rest with
  | nil => simp at hslashes
  | cons ch subpath =>
    rw [take_succ_cons, replicate_succ, List.cons.injEq] at hslashes
    exact ⟨subpath, by rw [hslashes.1], hslashes.2, hstops⟩

theorem Rest.le_length {rest : List UInt8} {n : Nat} (h : Rest rest n) : n ≤ rest.length := by
  have hlen := congrArg List.length h.slashes
  rw [length_take, length_replicate] at hlen
  omega

theorem Rest.exists_skipped (rest : List UInt8) : ∃ n, Rest rest n := by
  induction rest with
  | nil => exact ⟨0, rfl, nofun⟩
  | cons ch rest ih =>
    by_cases hch : ch = SLASH
    · obtain ⟨n, hslashes, hstops⟩ := ih
      exact ⟨n + 1, by rw [take_succ_cons, hslashes, hch]; rfl, hstops⟩
    · exact ⟨0, rfl, by simpa using hch⟩

inductive Parses : List UInt8 → Parsed → Prop where
  | device {devname rest : List UInt8} {n : Nat} : devname ≠ [] → COLON ∉ devname →
      SLASH ∉ devname → Rest rest n →
      Parses (devname ++ COLON :: rest)
        ⟨.device (toPath devname), devname.length + 1 + n, some devname.length⟩
  | curfs {rest : List UInt8} {n : Nat} : Rest rest n → Parses (COLON :: rest) ⟨.curfs, 1 + n, none⟩
  | bootfs {rest : List UInt8} {n : Nat} : Rest rest n → Parses (SLASH :: rest) ⟨.bootfs, 1 + n, none⟩
  | curdir {str : List UInt8} : str.head? ≠ some SLASH →
      (∀ devname rest, str = devname ++ COLON :: rest → SLASH ∈ devname) → Parses str ⟨.curdir, 0, none⟩

def Parsed.write (r : Parsed) (mem : Memory) (a : Addr) : Memory := match r.cut with
  | none => mem
  | some n => mem.store (a + BitVec.ofNat 32 n) [0]

section Strings

variable {cur : Thread} {mem mem' : Memory} {a : Addr} {str pre rest : List UInt8} {n : Nat}
variable {ch : UInt8} {r : Parsed} {α : Type}
  {v : Paths.State}

theorem add_succ (a : Addr) (n : Nat) : a + 1 + BitVec.ofNat 32 n = a + BitVec.ofNat 32 (n + 1) := by
  rw [BitVec.add_assoc, BitVec.ofNat_add, BitVec.add_comm (BitVec.ofNat 32 n)]
  rfl

theorem StrAt.drop (h : StrAt cur mem a (pre ++ rest)) :
    StrAt cur mem (a + BitVec.ofNat 32 pre.length) rest := by
  induction pre generalizing a with
  | nil => simpa using h
  | cons ch pre ih =>
    have hrest := ih h.2.2.2
    rwa [add_succ] at hrest

section

variable (h : StrAt cur mem a str)
include h

theorem StrAt.skip (hn : n ≤ str.length) : StrAt cur mem (a + BitVec.ofNat 32 n) (str.drop n) := by
  rw [← take_append_drop n str] at h
  have hdrop := h.drop
  rwa [length_take, min_eq_left hn] at hdrop

theorem StrAt.head : cur.faults a = false ∧ mem a = str.headD 0 := by
  cases str with
  | nil => exact h
  | cons ch str => exact ⟨h.1, h.2.1⟩

theorem StrAt.nonzero (hn : n < str.length) : mem (a + BitVec.ofNat 32 n) ≠ 0 := by
  induction str generalizing a n with
  | nil => exact absurd hn (Nat.not_lt_zero n)
  | cons ch str ih =>
    cases n with
    | zero =>
      rw [BitVec.add_zero, h.2.1]
      exact h.2.2.1
    | succ n =>
      rw [← add_succ]
      exact ih h.2.2.2 (Nat.lt_of_succ_lt_succ hn)

theorem StrAt.length_lt : str.length < 2 ^ 32 := by
  by_contra hlong
  have hnul : StrAt cur mem (a + BitVec.ofNat 32 str.length) [] := by
    rw [← append_nil str] at h
    exact h.drop
  have hsame : BitVec.ofNat 32 (str.length - 2 ^ 32) = BitVec.ofNat 32 str.length := by
    apply BitVec.eq_of_toNat_eq
    rw [BitVec.toNat_ofNat, BitVec.toNat_ofNat]
    omega
  have hearlier := h.nonzero (n := str.length - 2 ^ 32) (by omega)
  rw [hsame] at hearlier
  exact hearlier hnul.2

theorem load_head : load cur a ⟨mem, v⟩ = some (str.headD 0, ⟨mem, v⟩) := by
  obtain ⟨hfault, hbyte⟩ := h.head
  simp [load, loadByte, hfault, hbyte]

end

theorem store_run (hfault : cur.faults a = false) :
    store cur a ch ⟨mem, v⟩ = some ((), ⟨mem.store a [ch], v⟩) := by
  simp [store, storeByte, hfault]

theorem stringFrom_eq (h : StrAt cur mem a str) (hn : str.length < n) :
    stringFrom cur mem n a = some str := by
  induction str generalizing a n with
  | nil =>
    obtain ⟨m, rfl⟩ := Nat.exists_eq_add_one_of_ne_zero (Nat.ne_zero_of_lt hn)
    simp [stringFrom, loadByte, h.1, h.2]
  | cons ch str ih =>
    obtain ⟨m, rfl⟩ := Nat.exists_eq_add_one_of_ne_zero (Nat.ne_zero_of_lt hn)
    have hload : loadByte cur mem a = some ch := by simp [loadByte, h.1, h.2.1]
    have hrest := ih h.2.2.2 (Nat.lt_of_succ_lt_succ hn)
    simp only [stringFrom, hload, bind_eq_bind, bind_some, if_neg h.2.2.1, hrest]
    rfl

theorem path_eq (h : StrAt cur mem a str) : path cur a ⟨mem, v⟩ = some (toPath str, ⟨mem, v⟩) := by
  have hstring : stringAt cur mem a = some str := stringFrom_eq h h.length_lt
  simp only [path, hstring]
  rfl

theorem findMark_pre (h : StrAt cur mem a (pre ++ rest)) (hcolon : COLON ∉ pre)
    (hslash : SLASH ∉ pre) : findMark cur (pre.length + n) a ⟨mem, v⟩ =
      findMark cur n (a + BitVec.ofNat 32 pre.length) ⟨mem, v⟩ := by
  induction pre generalizing a with
  | nil => simp
  | cons ch pre ih =>
    rw [mem_cons, not_or] at hcolon hslash
    have hload : load cur a ⟨mem, v⟩ = some (ch, ⟨mem, v⟩) := load_head h
    have hmark : ¬ (ch = COLON ∨ ch = SLASH) := not_or.mpr ⟨Ne.symm hcolon.1, Ne.symm hslash.1⟩
    rw [length_cons, add_right_comm, ← add_succ, ← ih h.2.2.2 hcolon.2 hslash.2]
    simp [findMark, bind, StateT.bind, hload, bind_some, if_neg h.2.2.1, if_neg hmark]

theorem findMark_eq (h : StrAt cur mem a (pre ++ ch :: rest)) (hcolon : COLON ∉ pre)
    (hslash : SLASH ∉ pre) (hch : ch = COLON ∨ ch = SLASH) :
    findMark cur (2 ^ 32) a ⟨mem, v⟩ =
      some (some (a + BitVec.ofNat 32 pre.length, ch), ⟨mem, v⟩) := by
  have hlen := h.length_lt
  rw [length_append, length_cons] at hlen
  obtain ⟨n, hn⟩ : ∃ n, 2 ^ 32 = pre.length + (n + 1) := ⟨2 ^ 32 - pre.length - 1, by omega⟩
  have hload : load cur (a + BitVec.ofNat 32 pre.length) ⟨mem, v⟩ = some (ch, ⟨mem, v⟩) :=
    load_head h.drop
  rw [hn, findMark_pre h hcolon hslash]
  simp only [findMark, bind, StateT.bind, hload, bind_some, if_neg h.drop.2.2.1, if_pos hch]
  rfl

theorem findMark_none (h : StrAt cur mem a str) (hcolon : COLON ∉ str) (hslash : SLASH ∉ str) :
    findMark cur (2 ^ 32) a ⟨mem, v⟩ = some (none, ⟨mem, v⟩) := by
  have hlen := h.length_lt
  obtain ⟨n, hn⟩ : ∃ n, 2 ^ 32 = str.length + (n + 1) := ⟨2 ^ 32 - str.length - 1, by omega⟩
  rw [← append_nil str] at h
  have hload : load cur (a + BitVec.ofNat 32 str.length) ⟨mem, v⟩ = some (0, ⟨mem, v⟩) :=
    load_head h.drop
  rw [hn, findMark_pre h hcolon hslash]
  simp only [findMark, bind, StateT.bind, hload, bind_some]
  rfl

theorem skipSlashes_eq {k : Nat} (h : StrAt cur mem a rest) (hrest : Rest rest k) (hn : k < n) :
    skipSlashes cur n a ⟨mem, v⟩ = some (a + BitVec.ofNat 32 k, ⟨mem, v⟩) := by
  obtain ⟨m, rfl⟩ := Nat.exists_eq_add_one_of_ne_zero (Nat.ne_zero_of_lt hn)
  have hload : load cur a ⟨mem, v⟩ = some (rest.headD 0, ⟨mem, v⟩) := load_head h
  induction k generalizing a rest m with
  | zero =>
    have hstops : rest.headD 0 ≠ SLASH := by
      have hhead := hrest.stops
      cases rest with
      | nil => exact fun h0 => absurd h0 (by decide)
      | cons ch rest => exact fun heq => hhead (congrArg some heq)
    simp only [skipSlashes, bind, StateT.bind, hload, bind_some, if_neg hstops, BitVec.add_zero]
    rfl
  | succ k ih =>
    obtain ⟨subpath, rfl, hsub⟩ := hrest.succ
    obtain ⟨m, rfl⟩ := Nat.exists_eq_add_one_of_ne_zero (Nat.ne_zero_of_lt (Nat.lt_of_succ_lt_succ hn))
    have hskip := ih h.2.2.2 hsub m (Nat.lt_of_succ_lt_succ hn) (load_head h.2.2.2)
    rw [add_succ] at hskip
    rw [skipSlashes]
    simp only [bind, StateT.bind, hload, bind_some, headD_cons, if_pos, hskip]

theorem store_nul (mem : Memory) (c x : Addr) : mem.store c [0] x = if x = c then 0 else mem x := by
  by_cases hx : x = c
  · simp [Memory.store, hx]
  · rw [if_neg hx, store_one_of_ne hx]

theorem add_ofNat_ne {m : Nat} (a : Addr) (hm : m < 2 ^ 32) (hn : n < 2 ^ 32) (hne : m ≠ n) :
    a + BitVec.ofNat 32 m ≠ a + BitVec.ofNat 32 n := by
  intro heq
  have hsame := congrArg BitVec.toNat ((BitVec.add_right_inj a).mp heq)
  rw [BitVec.toNat_ofNat, BitVec.toNat_ofNat] at hsame
  omega

theorem add_ne_self (a : Addr) (hpos : 0 < n) (hn : n < 2 ^ 32) : a + BitVec.ofNat 32 n ≠ a := by
  have hne := add_ofNat_ne (n := 0) a hn (by decide) (ne_of_gt hpos)
  rwa [BitVec.add_zero] at hne

theorem StrAt.congr (h : StrAt cur mem a str)
    (hsame : ∀ i ≤ str.length, mem' (a + BitVec.ofNat 32 i) = mem (a + BitVec.ofNat 32 i)) :
    StrAt cur mem' a str := by
  have hhead := hsame 0 (Nat.zero_le _)
  rw [BitVec.add_zero] at hhead
  induction str generalizing a with
  | nil => exact ⟨h.1, hhead.trans h.2⟩
  | cons ch str ih =>
    have hrest : ∀ i ≤ str.length, mem' (a + 1 + BitVec.ofNat 32 i) = mem (a + 1 + BitVec.ofNat 32 i) := by
      intro i hi
      rw [add_succ]
      exact hsame (i + 1) (Nat.succ_le_succ hi)
    have hnext := hrest 0 (Nat.zero_le _)
    rw [BitVec.add_zero] at hnext
    exact ⟨h.1, hhead.trans h.2.1, h.2.2.1, ih h.2.2.2 hrest hnext⟩

theorem StrAt.before (h : StrAt cur mem a (pre ++ rest)) :
    StrAt cur (mem.store (a + BitVec.ofNat 32 pre.length) [0]) a pre := by
  have hlen := h.length_lt
  induction pre generalizing a with
  | nil =>
    rw [length_nil, BitVec.add_zero]
    exact ⟨h.head.1, by rw [store_nul, if_pos rfl]⟩
  | cons ch pre ih =>
    rw [cons_append, length_cons, length_append] at hlen
    have hne : a ≠ a + BitVec.ofNat 32 (pre.length + 1) :=
      (add_ne_self a (Nat.succ_pos _) (by omega)).symm
    have hpre := ih h.2.2.2 h.2.2.2.length_lt
    rw [add_succ] at hpre
    exact ⟨h.1, by rw [length_cons, store_nul, if_neg hne, h.2.1], h.2.2.1, hpre⟩

theorem StrAt.after (h : StrAt cur mem a (pre ++ ch :: rest)) :
    StrAt cur (mem.store (a + BitVec.ofNat 32 pre.length) [0])
      (a + BitVec.ofNat 32 (pre.length + 1)) rest := by
  have hlen := h.length_lt
  rw [length_append, length_cons] at hlen
  have hrest : StrAt cur mem (a + BitVec.ofNat 32 (pre.length + 1)) rest := by
    have hnext := h.drop.2.2.2
    rwa [next_addr] at hnext
  apply hrest.congr
  intro i hi
  have hne := add_ofNat_ne (m := pre.length + 1 + i) (n := pre.length) a (by omega) (by omega) (by omega)
  rw [BitVec.add_assoc, ← BitVec.ofNat_add, store_nul, if_neg hne]

/-! ## The four forms -/

theorem marked (str : List UInt8) : (COLON ∉ str ∧ SLASH ∉ str) ∨ ∃ pre ch rest,
    str = pre ++ ch :: rest ∧ COLON ∉ pre ∧ SLASH ∉ pre ∧ (ch = COLON ∨ ch = SLASH) := by
  induction str with
  | nil => exact .inl ⟨not_mem_nil, not_mem_nil⟩
  | cons ch str ih =>
    by_cases hch : ch = COLON ∨ ch = SLASH
    · exact .inr ⟨[], ch, str, rfl, not_mem_nil, not_mem_nil, hch⟩
    · rw [not_or] at hch
      obtain ⟨hcolon, hslash⟩ | ⟨pre, mark, rest, rfl, hcolon, hslash, hmark⟩ := ih
      · exact .inl ⟨not_mem_cons_of_ne_of_not_mem (Ne.symm hch.1) hcolon,
          not_mem_cons_of_ne_of_not_mem (Ne.symm hch.2) hslash⟩
      · exact .inr ⟨ch :: pre, mark, rest, rfl,
          not_mem_cons_of_ne_of_not_mem (Ne.symm hch.1) hcolon,
          not_mem_cons_of_ne_of_not_mem (Ne.symm hch.2) hslash, hmark⟩

theorem slash_before_colon {devname : List UInt8} (hcolon : COLON ∉ pre)
    (heq : pre ++ SLASH :: rest = devname ++ COLON :: str) : SLASH ∈ devname := by
  have hne : SLASH ≠ COLON := by decide
  obtain ⟨mid, rfl, hmid⟩ | ⟨mid, rfl, hmid⟩ := append_eq_append_iff.mp heq
  · cases mid with
    | nil => exact absurd (List.cons.inj hmid).1 hne
    | cons ch mid => simp [(List.cons.inj hmid).1]
  · cases mid with
    | nil => exact absurd (List.cons.inj hmid).1.symm hne
    | cons ch mid => simp [(List.cons.inj hmid).1] at hcolon

theorem Parses.exists_parsed (str : List UInt8) : ∃ r, Parses str r := by
  obtain ⟨hcolon, hslash⟩ | ⟨pre, ch, rest, rfl, hcolon, hslash, hch⟩ := marked str
  · refine ⟨_, .curdir (fun hhead => hslash (mem_of_head? hhead)) ?_⟩
    rintro devname rest rfl
    simp at hcolon
  · obtain ⟨n, hrest⟩ := Rest.exists_skipped rest
    cases pre with
    | nil =>
      obtain rfl | rfl := hch
      · exact ⟨_, .curfs hrest⟩
      · exact ⟨_, .bootfs hrest⟩
    | cons first pre =>
      obtain rfl | rfl := hch
      · exact ⟨_, .device (cons_ne_nil _ _) hcolon hslash hrest⟩
      · refine ⟨_, .curdir ?_ fun devname str heq => slash_before_colon hcolon heq⟩
        exact fun hhead => hslash (some.inj hhead ▸ mem_cons_self)

theorem fromRoot_eq {start : Paths.Start} {b : Addr} (k : Host)
    (hskip : ∀ v, skipSlashes cur (2 ^ 32) (a + 1) ⟨mem, v⟩ = some (b, ⟨mem, v⟩)) :
    fromRoot cur k start a ⟨mem, v⟩ =
      (getstart k.toKernel start v).map fun p => (p.1.map (·, b), ⟨mem, p.2⟩) := by
  simp only [fromRoot, quiet, bind, StateT.bind]
  match getstart k.toKernel start v with
  | none => rfl
  | some (.error e, v') => rfl
  | some (.ok vn, v') =>
    simp only [map_some, bind_some, StateT.bind, bind, hskip]
    rfl

theorem fromCurdir_eq (k : Host) : fromCurdir k a ⟨mem, v⟩ =
    (getstart k.toKernel .curdir v).map fun p => (p.1.map (·, a), ⟨mem, p.2⟩) := by
  simp only [fromCurdir, quiet, bind, StateT.bind]
  match getstart k.toKernel .curdir v with
  | none => rfl
  | some (.error e, v') => rfl
  | some (.ok vn, v') => rfl

theorem fromDevice_eq {colon b : Addr} {devname : Paths.Path} (k : Host)
    (hstore : store cur colon 0 ⟨mem, v⟩ = some ((), ⟨mem', v⟩))
    (hskip : skipSlashes cur (2 ^ 32) (colon + 1) ⟨mem', v⟩ = some (b, ⟨mem', v⟩))
    (hpath : path cur a ⟨mem', v⟩ = some (devname, ⟨mem', v⟩)) :
    fromDevice cur k a colon ⟨mem, v⟩ =
      (getstart k.toKernel (.device devname) v).map fun p => (p.1.map (·, b), ⟨mem', p.2⟩) := by
  simp only [fromDevice, quiet, bind, StateT.bind, hstore, bind_some, hskip, hpath]
  match getstart k.toKernel (.device devname) v with
  | none => rfl
  | some (.error e, v') => rfl
  | some (.ok vn, v') => rfl

theorem getdevice_device {devname : List UInt8} (k : Host)
    (h : StrAt cur mem a (devname ++ COLON :: rest)) (hne : devname ≠ []) (hcolon : COLON ∉ devname)
    (hslash : SLASH ∉ devname) (hrest : Rest rest n) :
    getdevice cur k a ⟨mem, v⟩ = (getstart k.toKernel (.device (toPath devname)) v).map fun p =>
      (p.1.map (·, a + BitVec.ofNat 32 (devname.length + 1 + n)),
        ⟨mem.store (a + BitVec.ofNat 32 devname.length) [0], p.2⟩) := by
  have hlen := h.length_lt
  rw [length_append, length_cons] at hlen
  have hmark := findMark_eq (v := v) h hcolon hslash (.inl rfl)
  have hbegin : a + BitVec.ofNat 32 devname.length ≠ a :=
    add_ne_self a (length_pos_of_ne_nil hne) (by omega)
  have hskip := skipSlashes_eq (v := v) h.after hrest
    (lt_of_le_of_lt hrest.le_length (by omega : rest.length < 2 ^ 32))
  rw [BitVec.add_assoc, ← BitVec.ofNat_add, ← next_addr a devname.length] at hskip
  simp only [getdevice, bind, StateT.bind, hmark, bind_some, if_neg hbegin, if_pos]
  exact fromDevice_eq k (store_run h.drop.1) hskip (path_eq h.before)

theorem getdevice_root {start : Paths.Start} (k : Host) (h : StrAt cur mem a (ch :: rest))
    (hch : ch = COLON ∧ start = .curfs ∨ ch = SLASH ∧ start = .bootfs) (hrest : Rest rest n) :
    getdevice cur k a ⟨mem, v⟩ = (getstart k.toKernel start v).map fun p =>
      (p.1.map (·, a + BitVec.ofNat 32 (1 + n)), ⟨mem, p.2⟩) := by
  have hlen := h.length_lt
  rw [length_cons] at hlen
  have hbegin : StrAt cur mem a ([] ++ ch :: rest) := h
  have hmark := findMark_eq (v := v) hbegin not_mem_nil not_mem_nil
    (hch.imp And.left And.left)
  have hstart : (if ch = SLASH then Paths.Start.bootfs else .curfs) = start := by
    obtain ⟨rfl, rfl⟩ | ⟨rfl, rfl⟩ := hch <;> rfl
  have hskip : ∀ v, skipSlashes cur (2 ^ 32) (a + 1) ⟨mem, v⟩ =
      some (a + BitVec.ofNat 32 (1 + n), ⟨mem, v⟩) := by
    intro v
    rw [skipSlashes_eq h.2.2.2 hrest
      (Nat.lt_of_le_of_lt hrest.le_length (by omega : rest.length < 2 ^ 32)), add_succ, Nat.add_comm]
  simp only [getdevice, bind, StateT.bind, hmark, bind_some, length_nil, BitVec.add_zero,
    if_pos, hstart]
  exact fromRoot_eq k hskip

theorem getdevice_curdir (k : Host) (h : StrAt cur mem a str) (hhead : str.head? ≠ some SLASH)
    (hcolon : ∀ devname rest, str = devname ++ COLON :: rest → SLASH ∈ devname) :
    getdevice cur k a ⟨mem, v⟩ = (getstart k.toKernel .curdir v).map fun p =>
      (p.1.map (·, a), ⟨mem, p.2⟩) := by
  rw [← fromCurdir_eq]
  obtain ⟨hnocolon, hnoslash⟩ | ⟨pre, ch, rest, rfl, hpre, hslash, rfl | rfl⟩ := marked str
  · simp only [getdevice, bind, StateT.bind, findMark_none h hnocolon hnoslash, bind_some]
  · exact absurd (hcolon pre rest rfl) hslash
  · have hlen := h.length_lt
    rw [length_append, length_cons] at hlen
    have hpos : pre ≠ [] := by
      rintro rfl
      exact hhead rfl
    have hbegin : a + BitVec.ofNat 32 pre.length ≠ a :=
      add_ne_self a (length_pos_of_ne_nil hpos) (by omega)
    have hne : SLASH ≠ COLON := by decide
    simp only [getdevice, bind, StateT.bind, findMark_eq h hpre hslash (.inr rfl), bind_some,
      if_neg hbegin, if_neg hne]

theorem drop_device (devname rest : List UInt8) (n : Nat) :
    (devname ++ COLON :: rest).drop (devname.length + 1 + n) = rest.drop n := by
  rw [add_assoc, drop_length_add_append, add_comm, drop_succ_cons]

theorem Parses.subpath (h : StrAt cur mem a str) (hr : Parses str r) :
    StrAt cur (r.write mem a) (a + BitVec.ofNat 32 r.offset) (str.drop r.offset) ∧
      (str.drop r.offset).head? ≠ some SLASH := by
  cases hr with
  | @device devname rest n hne hcolon hslash hrest =>
    have hsub := h.after.skip hrest.le_length
    rw [BitVec.add_assoc, ← BitVec.ofNat_add] at hsub
    rw [drop_device]
    exact ⟨hsub, hrest.stops⟩
  | @curfs rest n hrest =>
    have hsub := h.2.2.2.skip hrest.le_length
    rw [add_succ] at hsub
    rw [add_comm]
    exact ⟨hsub, hrest.stops⟩
  | @bootfs rest n hrest =>
    have hsub := h.2.2.2.skip hrest.le_length
    rw [add_succ] at hsub
    rw [add_comm]
    exact ⟨hsub, hrest.stops⟩
  | curdir hhead hcolon => exact ⟨by rwa [BitVec.add_zero], hhead⟩

theorem getdevice_parses (k : Host) (h : StrAt cur mem a str) (hr : Parses str r) :
    getdevice cur k a ⟨mem, v⟩ = (getstart k.toKernel r.start v).map fun p =>
      (p.1.map (·, a + BitVec.ofNat 32 r.offset), ⟨r.write mem a, p.2⟩) := by
  cases hr with
  | device hne hcolon hslash hrest => exact getdevice_device k h hne hcolon hslash hrest
  | curfs hrest => exact getdevice_root k h (.inl ⟨rfl, rfl⟩) hrest
  | bootfs hrest => exact getdevice_root k h (.inr ⟨rfl, rfl⟩) hrest
  | curdir hhead hcolon =>
    rw [BitVec.add_zero]
    exact getdevice_curdir k h hhead hcolon

/-! ## Where the lookup starts -/

/-- With the number of calls of a file system. -/
def startOf (k : Paths.Kernel) (v : Paths.State) : Paths.Start → Option (Except Errno Nat × Nat)
  | .device devname =>
    match Names.vfsGetroot k.knowndevs devname with
    | .root fs => some (.ok (k.getroot v.calls fs), 1)
    | .vnode vn => some (.ok vn, 0)
    | .err e => some (.error e, 0)
    | .panic => none
  | .curfs =>
    match v.cwd with
    | none => some (.error .ENOENT, 0)
    | some vn => (k.vnFs vn).map fun fs => (.ok (k.getroot v.calls fs), 1)
  | .bootfs => some (k.bootfsVnode.elim (.error .ENOENT) .ok, 0)
  | .curdir => some (v.cwd.elim (.error .ENOENT) .ok, 0)

/-- A vnode that is handed back has one reference more. -/
def hold (v : Paths.State) : Except Errno Nat × Nat → Paths.State
  | (.error _, calls) => { v with calls := v.calls + calls }
  | (.ok vn, calls) =>
    { v with refcount := update v.refcount vn (v.refcount vn + 1), calls := v.calls + calls }

/-- The current directory is given back, and the root is kept. -/
theorem decref_hold {k : Paths.Kernel} {vn : Nat} (g calls : Nat) (hpos : 0 < v.refcount vn) :
    let refs := update v.refcount vn (v.refcount vn + 1)
    decref k vn { v with refcount := update refs g (refs g + 1), calls := calls } =
      some ((), { v with refcount := update v.refcount g (v.refcount g + 1), calls := calls }) := by
  intro refs
  have hmany : 1 < update refs g (refs g + 1) vn := by
    by_cases hg : vn = g
    · simp [refs, hg]
    · simpa [refs, hg] using hpos
  unfold decref
  rw [if_neg (by dsimp only; omega), if_pos hmany]
  congr 3
  funext w
  by_cases hw : w = vn <;> by_cases hg : w = g <;> simp_all [refs]

theorem getstart_eq {k : Paths.Kernel} (hcwd : ∀ vn, v.cwd = some vn → 0 < v.refcount vn)
    (start : Paths.Start) :
    getstart k start v = (startOf k v start).map fun res => (res.1, hold v res) := by
  have hcurdir : Paths.vfsGetcurdir v = (startOf k v .curdir).map fun res => (res.1, hold v res) := by
    obtain ⟨refcount, opencount, cwd, calls, stuck⟩ := v
    cases cwd <;> rfl
  unfold startOf getstart
  cases start with
  | curdir => exact hcurdir
  | device devname =>
    unfold Paths.vfsGetroot
    dsimp only
    cases Names.vfsGetroot k.knowndevs devname <;> rfl
  | bootfs =>
    cases k.bootfsVnode <;> rfl
  | curfs =>
    simp only [Paths.getcurfs, bind, StateT.bind, hcurdir, startOf, map_some, bind_some]
    cases hv : v.cwd with
    | none => rfl
    | some vn =>
      simp only [elim_some]
      cases k.vnFs vn with
      | none => rfl
      | some fs =>
        exact congrArg (Option.bind · _) (decref_hold (k.getroot v.calls fs) (v.calls + 1) (hcwd vn hv))

/-- Whatever is around the string may fault. -/
theorem getdevice_grammar (k : Host) (v : Paths.State)
    (hcwd : ∀ vn, v.cwd = some vn → 0 < v.refcount vn) (h : StrAt cur mem a str) :
    (∃ r, Parses str r) ∧ ∀ r, Parses str r →
      (getdevice cur k a ⟨mem, v⟩ = (startOf k.toKernel v r.start).map fun res =>
        (res.1.map (·, a + BitVec.ofNat 32 r.offset), ⟨r.write mem a, hold v res⟩)) ∧
      StrAt cur (r.write mem a) (a + BitVec.ofNat 32 r.offset) (str.drop r.offset) ∧
      (str.drop r.offset).head? ≠ some SLASH := by
  refine ⟨Parses.exists_parsed str, fun r hr => ⟨?_, hr.subpath h⟩⟩
  rw [getdevice_parses k h hr, getstart_eq hcwd, Option.map_map]
  rfl

/-- One emufs on the device `a`. -/
def emuHost : Host where
  knowndevs := [⟨['a'], some (Names.mkrawname ['a']), some 0, 5, some ⟨0, none⟩⟩]
  vnFs := fun _ => some ⟨0, none⟩
  bootfsVnode := none
  getroot := fun _ _ => 7
  lookup := fun _ _ _ => .error .ENOENT
  lookparent := fun _ _ _ => .error .ENOENT
  creat := fun _ _ _ _ => .error .ENOENT
  gettype := fun _ _ => .ok true
  answer := fun _ _ => none
  cut := fun _ => emufsCut

def fenced : Thread := ⟨none, fun a => 4 < (a - 4096).toNat⟩

def devicePath : Memory := Memory.store (fun _ => 0) 4096 [97, 58, 47, 98]

def idle : Paths.State := ⟨fun _ => 1, fun _ => 0, none, 0, fun _ => 0⟩

theorem devicePath_strAt : StrAt fenced devicePath 4096 [97, 58, 47, 98] := by
  simp [StrAt, fenced, devicePath, Memory.store]

theorem getdevice_grammar_device : Parses [97, 58, 47, 98] ⟨.device ['a'], 3, some 1⟩ ∧
    getdevice fenced emuHost 4096 ⟨devicePath, idle⟩ = some (.ok (7, 4099),
      ⟨devicePath.store 4097 [0], { idle with refcount := update (fun _ => 1) 7 2, calls := 1 }⟩) := by
  have hparses : Parses [97, 58, 47, 98] ⟨.device ['a'], 3, some 1⟩ :=
    @Parses.device [97] [47, 98] 1 (by decide) (by decide) (by decide) ⟨rfl, by decide⟩
  exact ⟨hparses, ((getdevice_grammar emuHost idle nofun devicePath_strAt).2 _ hparses).1⟩

/-! ## The same functions on strings that nobody else sees -/

theorem toNat_toChar (ch : UInt8) : (Char.ofNat ch.toNat).toNat = ch.toNat := by
  have hvalid : ch.toNat.isValidChar := .inl (lt_trans ch.toNat_lt (by decide))
  rw [Char.ofNat, dif_pos hvalid]
  rfl

theorem toChar_inj {x y : UInt8} : Char.ofNat x.toNat = Char.ofNat y.toNat ↔ x = y := by
  refine ⟨fun h => ?_, fun h => by rw [h]⟩
  have hnat := congrArg Char.toNat h
  rw [toNat_toChar, toNat_toChar] at hnat
  exact UInt8.toNat_inj.mp hnat

theorem toChar_colon : Char.ofNat ch.toNat = ':' ↔ ch = COLON := toChar_inj (y := COLON)

theorem toChar_slash : Char.ofNat ch.toNat = '/' ↔ ch = SLASH := toChar_inj (y := SLASH)

theorem toPath_unmarked (hcolon : COLON ∉ pre) (hslash : SLASH ∉ pre) :
    ∀ ch ∈ toPath pre, decide (ch ≠ ':' ∧ ch ≠ '/') = true := by
  intro ch hch
  obtain ⟨x, hx, rfl⟩ := mem_map.mp hch
  rw [decide_eq_true_eq, Ne, Ne, toChar_colon, toChar_slash]
  exact ⟨fun h => hcolon (h ▸ hx), fun h => hslash (h ▸ hx)⟩

theorem skipSlashes_toPath (hrest : Rest rest n) :
    Paths.skipSlashes (toPath rest) = toPath (rest.drop n) := by
  induction n generalizing rest with
  | zero =>
    cases rest with
    | nil => rfl
    | cons ch rest =>
      have hne : ¬ Char.ofNat ch.toNat = '/' := fun h => hrest.stops (congrArg some (toChar_slash.mp h))
      simp [Paths.skipSlashes, toPath, hne]
  | succ n ih =>
    obtain ⟨subpath, rfl, hsub⟩ := hrest.succ
    rw [drop_succ_cons, ← ih hsub]
    rfl

theorem splitPath_mark (pre rest : List UInt8) (hcolon : COLON ∉ pre) (hslash : SLASH ∉ pre)
    (hch : ch = COLON ∨ ch = SLASH) : Paths.splitPath (toPath (pre ++ ch :: rest)) =
      if ch = COLON then (if pre = [] then .curfs else .device (toPath pre), Paths.skipSlashes (toPath rest))
      else if pre = [] then (.bootfs, Paths.skipSlashes (toPath rest))
      else (.curdir, toPath (pre ++ ch :: rest)) := by
  have hpre := toPath_unmarked hcolon hslash
  have hmark : ¬ decide (Char.ofNat ch.toNat ≠ ':' ∧ Char.ofNat ch.toNat ≠ '/') = true := by
    rw [decide_eq_true_eq, Ne, Ne, toChar_colon, toChar_slash, ← not_or, not_not]
    exact hch
  have happend : toPath (pre ++ ch :: rest) = toPath pre ++ Char.ofNat ch.toNat :: toPath rest := by
    simp [toPath]
  have hnil : toPath pre = [] ↔ pre = [] := map_eq_nil_iff
  rw [Paths.splitPath, happend, takeWhile_append_of_pos hpre, dropWhile_append_of_pos hpre,
    takeWhile_cons_of_neg (p := fun a => decide (a ≠ ':' ∧ a ≠ '/')) hmark,
    dropWhile_cons_of_neg (p := fun a => decide (a ≠ ':' ∧ a ≠ '/')) hmark]
  simp [toChar_colon, hnil]

theorem Parses.splitPath_eq (hr : Parses str r) :
    Paths.splitPath (toPath str) = (r.start, toPath (str.drop r.offset)) := by
  cases hr with
  | @device devname rest n hne hcolon hslash hrest =>
    rw [splitPath_mark devname rest hcolon hslash (.inl rfl), if_pos rfl, if_neg hne, skipSlashes_toPath hrest,
      drop_device]
  | @curfs rest n hrest =>
    rw [add_comm 1, drop_succ_cons, ← skipSlashes_toPath hrest]
    exact splitPath_mark [] rest not_mem_nil not_mem_nil (.inl rfl)
  | @bootfs rest n hrest =>
    rw [add_comm 1, drop_succ_cons, ← skipSlashes_toPath hrest]
    exact splitPath_mark [] rest not_mem_nil not_mem_nil (.inr rfl)
  | curdir hhead hcolon =>
    obtain ⟨hnocolon, hnoslash⟩ | ⟨pre, ch, rest, rfl, hpre, hslash, rfl | rfl⟩ := marked str
    · rw [Paths.splitPath, dropWhile_eq_nil_iff.mpr (toPath_unmarked hnocolon hnoslash)]
      rfl
    · exact absurd (hcolon pre rest rfl) hslash
    · have hne : pre ≠ [] := by
        rintro rfl
        exact hhead rfl
      rw [splitPath_mark pre rest hpre hslash (.inr rfl), if_neg (by decide), if_neg hne]
      rfl

theorem bind_refines {β : Type} {m : InMem α} {f : Paths.Act α} {g : α → InMem β}
    {g' : α → Paths.Act β} (hm : m ⟨mem, v⟩ = quiet f ⟨mem', v⟩)
    (hg : ∀ x v, g x ⟨mem', v⟩ = quiet (g' x) ⟨mem', v⟩) :
    (m >>= g) ⟨mem, v⟩ = quiet (f >>= g') ⟨mem', v⟩ := by
  simp only [bind, StateT.bind, hm, quiet]
  match f v with
  | none => rfl
  | some (x, v') => exact hg x v'

theorem quiet_bind {β : Type} (f : Paths.Act α) (g : α → Paths.Act β) :
    quiet (f >>= g) = quiet f >>= fun x => quiet (g x) := by
  funext w
  simp only [quiet, bind, StateT.bind]
  match f w.vfs with
  | none => rfl
  | some (x, v) => rfl

theorem quiet_then {vn : Nat} (k : Host) (v : Paths.State) (f : Paths.Act α) :
    (quiet f >>= fun result => quiet (decref k.toKernel vn) >>= fun _ => pure result) ⟨mem, v⟩ =
      quiet (f >>= fun result => decref k.toKernel vn >>= fun _ => pure result) ⟨mem, v⟩ := by
  simp only [quiet_bind]
  rfl

theorem getdevice_paths (k : Paths.Kernel) (hr : Parses str r) : Paths.getdevice k (toPath str) v =
      (getstart k r.start v).map fun p => (p.1.map (·, toPath (str.drop r.offset)), p.2) := by
  simp only [Paths.getdevice, hr.splitPath_eq, bind, StateT.bind]
  match getstart k r.start v with
  | none => rfl
  | some (.error e, v') => rfl
  | some (.ok vn, v') => rfl

theorem vfsLookup_refines (k : Host) (h : StrAt cur mem a str) (hr : Parses str r) :
    vfsLookup cur k a ⟨mem, v⟩ =
      quiet (Paths.vfsLookup k.toKernel (toPath str)) ⟨r.write mem a, v⟩ := by
  have hpath : ∀ v, path cur (a + BitVec.ofNat 32 r.offset) ⟨r.write mem a, v⟩ =
      some (toPath (str.drop r.offset), ⟨r.write mem a, v⟩) := fun v => path_eq (hr.subpath h).1
  simp only [vfsLookup, quiet, Paths.vfsLookup, bind, StateT.bind, getdevice_parses k h hr,
    getdevice_paths k.toKernel hr]
  match getstart k.toKernel r.start v with
  | none => rfl
  | some (.error e, v') => rfl
  | some (.ok vn, v') =>
    simp only [map_some, bind_some, Except.map, StateT.bind, bind, hpath]
    split_ifs
    · rfl
    · exact quiet_then k v' (Paths.vopLookup k.toKernel vn (toPath (str.drop r.offset)))

section

variable (k : Host) (hcut : ∀ dir subpath n, k.cut dir subpath = some n → n < subpath.length)
include k hcut

theorem vfsLookparent_refines
    (h : StrAt cur mem a str) : ∃ mem', vfsLookparent cur k a ⟨mem, v⟩ =
      quiet (Paths.vfsLookparent k.toKernel (toPath str)) ⟨mem', v⟩ := by
  obtain ⟨r, hr⟩ := Parses.exists_parsed str
  have hsub := (hr.subpath h).1
  have hpath : ∀ v, path cur (a + BitVec.ofNat 32 r.offset) ⟨r.write mem a, v⟩ =
      some (toPath (str.drop r.offset), ⟨r.write mem a, v⟩) := fun v => path_eq hsub
  simp only [vfsLookparent, quiet, Paths.vfsLookparent, bind, StateT.bind, getdevice_parses k h hr,
    getdevice_paths k.toKernel hr]
  match getstart k.toKernel r.start v with
  | none => exact ⟨mem, rfl⟩
  | some (.error e, v') => exact ⟨r.write mem a, rfl⟩
  | some (.ok vn, v') =>
    simp only [map_some, bind_some, Except.map, StateT.bind, bind, hpath]
    split_ifs with hnil
    · exact ⟨r.write mem a, quiet_then k v' (pure (Except.error Errno.EINVAL))⟩
    · have hlen : (toPath (str.drop r.offset)).length = (str.drop r.offset).length := length_map _
      match hc : k.cut vn (toPath (str.drop r.offset)) with
      | none => exact ⟨r.write mem a, quiet_then k v' (Paths.vopLookparent k.toKernel vn _)⟩
      | some n =>
        have hn := hcut _ _ _ hc
        have hfault := (hsub.skip (n := n) (by omega)).head.1
        simp only [cutPath, StateT.bind, bind, store_run hfault, bind_some]
        exact ⟨_, quiet_then k v' (Paths.vopLookparent k.toKernel vn _)⟩

theorem openCreate_refines
    (excl : Bool)
    (h : StrAt cur mem a str) : ∃ mem', openCreate cur k a excl ⟨mem, v⟩ =
      quiet (Paths.openCreate k.toKernel (toPath str) excl) ⟨mem', v⟩ := by
  obtain ⟨mem', hparent⟩ := vfsLookparent_refines (v := v) k hcut h
  refine ⟨mem', bind_refines hparent fun result v' => ?_⟩
  match result with
  | .error e => rfl
  | .ok (dir, name) => exact quiet_then k v' (Paths.vopCreat k.toKernel dir name excl)

theorem vfsOpen_refines
    (flags : Paths.OpenFlags) (h : StrAt cur mem a str) :
    ∃ mem', vfsOpen cur k a flags ⟨mem, v⟩ =
      quiet (Paths.vfsOpen k.toKernel (toPath str) flags) ⟨mem', v⟩ := by
  have hfound : ∃ mem', (if flags.creat then openCreate cur k a flags.excl else vfsLookup cur k a)
      ⟨mem, v⟩ = quiet (if flags.creat then Paths.openCreate k.toKernel (toPath str) flags.excl
        else Paths.vfsLookup k.toKernel (toPath str)) ⟨mem', v⟩ := by
    split_ifs
    · exact openCreate_refines k hcut flags.excl h
    · obtain ⟨r, hr⟩ := Parses.exists_parsed str
      exact ⟨r.write mem a, vfsLookup_refines k h hr⟩
  obtain ⟨mem', hvnode⟩ := hfound
  unfold vfsOpen Paths.vfsOpen
  by_cases hother : flags.how = .other
  · rw [if_pos hother, if_pos hother]
    exact ⟨mem, rfl⟩
  · rw [if_neg hother, if_neg hother]
    refine ⟨mem', bind_refines hvnode fun result v' => ?_⟩
    match result with
    | .error e => rfl
    | .ok vn => rfl

end

end Strings

theorem emufsCut_lt {path : Paths.Path} (h : emufsCut path = some n) : n < path.length := by
  obtain ⟨m, hm, rfl⟩ := map_eq_some_iff.mp h
  have hlt := (findIdx?_eq_some_iff_findIdx_eq.mp hm).1
  rw [length_reverse] at hlt
  omega

theorem vfsOpen_refines_device : ∃ mem', vfsOpen fenced emuHost 4096 ⟨.rdonly, true, false, false⟩
      ⟨devicePath, idle⟩ =
    quiet (Paths.vfsOpen emuHost.toKernel (toPath [97, 58, 47, 98]) ⟨.rdonly, true, false, false⟩)
      ⟨mem', idle⟩ :=
  vfsOpen_refines emuHost (fun _ _ _ => emufsCut_lt) _ devicePath_strAt

end Os161.Vfs.InPlace
