import Os161.Userprog.Copystr

/-!
# How much `uiomove` moves

The step of its loop is bounded by the `iovec` and by the buffer, and not by `uio_resid`.
-/

open Os161.Kern List Option BitVec

namespace Os161.Userprog.Uiomove

open Copystr (copycheck_cases copyable_eq)

def good (r : Option Moved) : Option Moved := r.filter fun m => m.err.isNone

def moves (cur : Thread) : Memory → Uio → List (List UInt8) → Option Moved
  | mem, uio, [] => some ⟨[], mem, uio, none⟩
  | mem, uio, buf :: bufs => do
    let r ← good (uiomove cur mem uio buf)
    let rest ← moves cur r.mem r.uio bufs
    return { rest with ptr := r.ptr ++ rest.ptr }

/-- The buffer has sixteen zeros. The assertion is that the request is a read. -/
def zerosLoop (cur : Thread) (mem : Memory) (uio : Uio) (n : Nat) : Option Moved :=
  if _h : n = 0 then some ⟨[], mem, uio, none⟩
  else
    match uiomove cur mem uio (List.replicate (min 16 n) 0) with
    | none => none
    | some r => if r.err.isSome then some r else zerosLoop cur r.mem r.uio (n - min 16 n)
termination_by n
decreasing_by omega

def uiomovezeros (cur : Thread) (mem : Memory) (uio : Uio) (n : Nat) : Option Moved :=
  if uio.rw = .UIO_READ then zerosLoop cur mem uio n else none

structure Loop where
  mem : Memory
  uio : Uio
  ptr : List UInt8

inductive Round (cur : Thread) : Loop → Loop → Prop where
  | mk {s : Loop} {part : List UInt8} {mem : Memory} : s.ptr ≠ [] → s.uio.resid ≠ 0 →
      min s.uio.len.toNat s.ptr.length ≠ 0 →
      movePart cur s.mem s.uio (s.ptr.take (min s.uio.len.toNat s.ptr.length)) =
        some (part, mem, none) →
      Round cur s ⟨mem, s.uio.advance (min s.uio.len.toNat s.ptr.length),
        s.ptr.drop (min s.uio.len.toNat s.ptr.length)⟩

def SizeReachedZero (s : Loop) : Prop :=
  s.ptr ≠ [] ∧ s.uio.resid ≠ 0 ∧ min s.uio.len.toNat s.ptr.length = 0

def spaceOk (cur : Thread) (uio : Uio) : Prop :=
  uio.space = if uio.segflg = .UIO_SYSSPACE then none else cur.vmspace

def Accessible (cur : Thread) (uio : Uio) (k : Nat) : Prop :=
  cur.reach uio.base k = k ∧ (uio.segflg = .UIO_SYSSPACE ∨ k = 0 ∨ uio.base.toNat + k ≤ USERTOP)

def Carried (mem : Memory) (uio : Uio) (ptr : List UInt8) (k : Nat) (r : Moved) : Prop :=
  match uio.rw with
  | .UIO_READ => r.mem = mem.store uio.base (ptr.take k) ∧ r.ptr = ptr
  | .UIO_WRITE => r.mem = mem ∧ r.ptr = mem.load uio.base k ++ ptr.drop k

structure Transferred (mem : Memory) (uio : Uio) (ptr : List UInt8) (k : Nat) (r : Moved) : Prop where
  carried : Carried mem uio ptr k r
  offset : r.uio.offset.toInt = uio.offset.toInt + k
  resid : r.uio.resid.toNat + k = uio.resid.toNat
  len : r.uio.len.toNat + k = uio.len.toNat
  rest : r.uio = { uio with
    base := uio.base + BitVec.ofNat 32 k
    offset := r.uio.offset
    resid := r.uio.resid
    len := r.uio.len }

/-- What `uio.h` says of a call. -/
structure ExactMove (cur : Thread) (mem : Memory) (uio : Uio) (ptr : List UInt8) : Prop where
  amount : ∀ r, good (uiomove cur mem uio ptr) = some r →
    Transferred mem uio ptr (min ptr.length uio.resid.toNat) r
  no_panic : spaceOk cur uio → ∀ s, Relation.ReflTransGen (Round cur) ⟨mem, uio, ptr⟩ s →
    ¬ SizeReachedZero s
  sequence : ∀ bufs, bufs ≠ [] → bufs.flatten = ptr →
    moves cur mem uio bufs = good (uiomove cur mem uio ptr)

def Bounded (uio : Uio) (n : Nat) : Prop :=
  n ≤ uio.resid.toNat ∨ uio.len = uio.resid ∨ uio.resid = 0

section Rounds

variable {cur : Thread} {mem mem' : Memory} {uio : Uio} {ptr part part' : List UInt8} {k m n : Nat}
variable {r : Moved} {s : Loop} {bs : List UInt8} {k' : Nat} {bufs : List (List UInt8)}

theorem reach_eq_iff {base : Addr} :
    cur.reach base n = n ↔ ∀ i < n, cur.faults (base + BitVec.ofNat 32 i) = false := by
  refine ⟨fun h i hi => ?_, reach_eq⟩
  have hall : (List.range n).takeWhile (fun i => !cur.faults (base + BitVec.ofNat 32 i)) = List.range n :=
    (List.takeWhile_prefix _).eq_of_length (h.trans length_range.symm)
  have hi' := takeWhile_eq_self_iff.mp hall i (mem_range.mpr hi)
  simpa using hi'

theorem accessible_zero : Accessible cur uio 0 :=
  ⟨reach_eq_iff.mpr fun i hi => absurd hi (Nat.not_lt_zero i), .inr (.inl rfl)⟩

theorem accessible_add (h : m + n < 2 ^ 32) : Accessible cur uio (m + n) ↔
    Accessible cur uio m ∧ Accessible cur (uio.advance m) n := by
  have hbase : (uio.advance m).base = uio.base + BitVec.ofNat 32 m := rfl
  have hnat : (uio.base + BitVec.ofNat 32 m).toNat = (uio.base.toNat + m) % 2 ^ 32 := by
    rw [toNat_add, toNat_ofNat, Nat.add_mod_mod]
  have hfaults : (∀ i < m + n, cur.faults (uio.base + BitVec.ofNat 32 i) = false) ↔
      (∀ i < m, cur.faults (uio.base + BitVec.ofNat 32 i) = false) ∧
        ∀ i < n, cur.faults (uio.base + BitVec.ofNat 32 m + BitVec.ofNat 32 i) = false := by
    simp only [add_assoc, ← ofNat_add]
    refine ⟨fun h => ⟨fun i hi => h i (by omega), fun i hi => h (m + i) (by omega)⟩, fun h i hi => ?_⟩
    by_cases him : i < m
    · exact h.1 i him
    · have hi' := h.2 (i - m) (by omega)
      rwa [Nat.add_sub_cancel' (Nat.le_of_not_lt him)] at hi'
  unfold Accessible
  rw [reach_eq_iff, reach_eq_iff, reach_eq_iff, hbase, hnat, hfaults]
  have htop : USERTOP = 2 ^ 31 := rfl
  constructor
  · rintro ⟨⟨hfirst, hsecond⟩, hroom⟩
    refine ⟨⟨hfirst, ?_⟩, hsecond, ?_⟩
    all_goals
      obtain hsys | hroom := hroom
      · exact .inl hsys
      · omega
  · rintro ⟨⟨hfirst, hroom⟩, hsecond, hroom'⟩
    refine ⟨⟨hfirst, hsecond⟩, ?_⟩
    obtain hsys | hroom := hroom
    · exact .inl hsys
    · obtain hsys | hroom' := hroom'
      · exact .inl hsys
      · omega

theorem Accessible.mono (h : Accessible cur uio n) (hn : n < 2 ^ 32) (hk : k ≤ n) :
    Accessible cur uio k := by
  obtain ⟨m, rfl⟩ := Nat.exists_eq_add_of_le hk
  exact ((accessible_add hn).mp h).1

def carry (mem : Memory) (uio : Uio) (part : List UInt8) : List UInt8 × Memory := match uio.rw with
  | .UIO_READ => (part, mem.store uio.base part)
  | .UIO_WRITE => (mem.load uio.base part.length, mem)

theorem copyable_part (hpart : part ≠ []) (hlen : part.length < 2 ^ 32) {base : Addr} :
    copyable cur base part.length =
      if base.toNat + part.length ≤ USERTOP then (cur.reach base part.length,
        if cur.reach base part.length < part.length then some .EFAULT else none)
      else (0, some .EFAULT) := by
  have hnat : (BitVec.ofNat 32 part.length).toNat = part.length := by
    rw [toNat_ofNat, Nat.mod_eq_of_lt hlen]
  have hne : BitVec.ofNat 32 part.length ≠ 0 := by
    intro h0
    have hzero := congrArg BitVec.toNat h0
    rw [hnat] at hzero
    exact hpart (length_eq_zero_iff.mp hzero)
  have hcheck : copyable cur base (BitVec.ofNat 32 part.length).toNat = _ := copyable_eq hne
  rwa [hnat] at hcheck

theorem movePart_ok (hpart : part ≠ []) (hlen : part.length < 2 ^ 32) :
    movePart cur mem uio part = some (part', mem', none) ↔
      Accessible cur uio part.length ∧ carry mem uio part = (part', mem') := by
  have hpos : part.length ≠ 0 := fun h0 => hpart (length_eq_zero_iff.mp h0)
  have hreach : cur.reach uio.base part.length < part.length ↔
      ¬ cur.reach uio.base part.length = part.length := by
    have hle : cur.reach uio.base part.length ≤ (List.range part.length).length :=
      (List.takeWhile_prefix _).length_le
    rw [length_range] at hle
    omega
  unfold movePart Accessible carry memmove copyout copyin
  rw [copyable_part hpart hlen]
  simp only [hreach]
  by_cases hok : cur.reach uio.base part.length = part.length <;>
    by_cases hroom : uio.base.toNat + part.length ≤ USERTOP <;>
    cases uio.segflg <;> cases uio.rw <;> simp [hok, hroom, hpos]

theorem good_map {r : Option Moved} (bs : List UInt8) :
    good (r.map fun m => { m with ptr := bs ++ m.ptr }) =
      (good r).map fun m => { m with ptr := bs ++ m.ptr } := by
  cases r with
  | none => rfl
  | some m =>
    unfold good
    simp only [map_some, filter_some]
    split_ifs <;> rfl

theorem good_round (hptr : ptr ≠ []) (hresid : uio.resid ≠ 0) (hn : ptr.length < 2 ^ 32)
    (hk : min uio.len.toNat ptr.length = k) (hk0 : k ≠ 0) (hacc : Accessible cur uio k) :
    good (moveLoop cur mem uio ptr) =
      (good (moveLoop cur (carry mem uio (ptr.take k)).2 (uio.advance k) (ptr.drop k))).map fun m =>
        { m with ptr := (carry mem uio (ptr.take k)).1 ++ m.ptr } := by
  have hlen : (ptr.take k).length = k := by rw [length_take]; omega
  have hpart : ptr.take k ≠ [] := fun h => hk0 (by rw [← hlen, h]; rfl)
  have hmove : movePart cur mem uio (ptr.take k) =
      some ((carry mem uio (ptr.take k)).1, (carry mem uio (ptr.take k)).2, none) :=
    (movePart_ok hpart (by omega)).mpr ⟨hlen.symm ▸ hacc, rfl⟩
  rw [moveLoop, dif_neg (not_or.mpr ⟨hptr, hresid⟩)]
  simp only [hk]
  rw [dif_neg hk0, hmove]
  exact good_map _

theorem good_accessible (hptr : ptr ≠ []) (hresid : uio.resid ≠ 0)
    (hn : ptr.length < 2 ^ 32) (hk : min uio.len.toNat ptr.length = k)
    (h : good (moveLoop cur mem uio ptr) = some r) : k ≠ 0 ∧ Accessible cur uio k := by
  rw [moveLoop, dif_neg (not_or.mpr ⟨hptr, hresid⟩)] at h
  simp only [hk] at h
  by_cases hk0 : k = 0
  · rw [dif_pos hk0] at h
    cases h
  · refine ⟨hk0, ?_⟩
    have hlen : (ptr.take k).length = k := by rw [length_take]; omega
    have hpart : ptr.take k ≠ [] := fun h => hk0 (by rw [← hlen, h]; rfl)
    rw [dif_neg hk0] at h
    match hmove : movePart cur mem uio (ptr.take k) with
    | none =>
      rw [hmove] at h
      cases h
    | some (part, mem', some e) =>
      rw [hmove] at h
      cases h
    | some (part, mem', none) =>
      rw [← hlen]
      exact ((movePart_ok hpart (by omega)).mp hmove).1

theorem Round.moveLoop_eq {t : Loop} (h : Round cur s t) : ∃ part : List UInt8,
    moveLoop cur s.mem s.uio s.ptr =
      (moveLoop cur t.mem t.uio t.ptr).map fun r => { r with ptr := part ++ r.ptr } := by
  obtain ⟨hptr, hresid, hsize, hmove⟩ := h
  rw [moveLoop, dif_neg (not_or.mpr ⟨hptr, hresid⟩)]
  rw [dif_neg hsize, hmove]
  exact ⟨_, rfl⟩

theorem SizeReachedZero.moveLoop_eq (h : SizeReachedZero s) :
    moveLoop cur s.mem s.uio s.ptr = none := by
  rw [moveLoop, dif_neg (not_or.mpr ⟨h.1, h.2.1⟩)]
  rw [dif_pos h.2.2]

def done (mem : Memory) (uio : Uio) (ptr : List UInt8) (k : Nat) : Moved :=
  ⟨(carry mem uio (ptr.take k)).1 ++ ptr.drop k, (carry mem uio (ptr.take k)).2, uio.advance k, none⟩

theorem done_zero : done mem uio ptr 0 = ⟨ptr, mem, uio, none⟩ := by
  unfold done carry
  cases uio.rw <;> simp [Memory.load]

theorem uiomove_eq (hspace : spaceOk cur uio) : uiomove cur mem uio ptr = moveLoop cur mem uio ptr :=
  if_pos hspace

section

variable (hlen : uio.resid.toNat ≤ uio.len.toNat)
include hlen

theorem bounded_step (hbound : Bounded uio ptr.length)
    (hresid : uio.resid ≠ 0) (hk : min ptr.length uio.resid.toNat = k) :
    min uio.len.toNat ptr.length = k ∧ (ptr.drop k = [] ∨ (uio.advance k).resid = 0) := by
  have hsize : min uio.len.toNat ptr.length = k := by
    obtain hle | heq | h0 := hbound
    · omega
    · rw [heq, Nat.min_comm, hk]
    · exact absurd h0 hresid
  refine ⟨hsize, ?_⟩
  by_cases hall : ptr.length ≤ k
  · exact .inl (drop_eq_nil_of_le hall)
  · right
    apply eq_of_toNat_eq
    rw [advance_resid (by omega)]
    change uio.resid.toNat - k = 0
    omega

theorem good_bounded (hn : ptr.length < 2 ^ 32)
    (hbound : Bounded uio ptr.length) (hspace : spaceOk cur uio)
    (hacc : Accessible cur uio (min ptr.length uio.resid.toNat)) :
    good (uiomove cur mem uio ptr) = some (done mem uio ptr (min ptr.length uio.resid.toNat)) := by
  rw [uiomove_eq hspace]
  generalize hk : min ptr.length uio.resid.toNat = k at hacc ⊢
  by_cases hstop : ptr = [] ∨ uio.resid = 0
  · obtain rfl : k = 0 := by
      obtain rfl | hstop := hstop
      · exact hk.symm.trans (Nat.zero_min _)
      · rw [hstop] at hk
        exact hk.symm.trans (Nat.min_zero _)
    rw [moveLoop_stop hstop, done_zero]
    rfl
  · obtain ⟨hptr, hresid⟩ := not_or.mp hstop
    obtain ⟨hsize, hend⟩ := bounded_step hlen hbound hresid hk
    have hpos := length_pos_iff.mpr hptr
    have hresid0 : uio.resid.toNat ≠ 0 := fun h0 => hresid (eq_of_toNat_eq h0)
    rw [good_round hptr hresid hn hsize (by omega) hacc, moveLoop_stop hend]
    rfl

theorem good_some (hn : ptr.length < 2 ^ 32)
    (h : good (uiomove cur mem uio ptr) = some r) :
    spaceOk cur uio ∧ Accessible cur uio (min ptr.length uio.resid.toNat) := by
  by_cases hspace : spaceOk cur uio
  · refine ⟨hspace, ?_⟩
    rw [uiomove_eq hspace] at h
    by_cases hstop : ptr = [] ∨ uio.resid = 0
    · have hzero : min ptr.length uio.resid.toNat = 0 := by
        obtain rfl | hstop := hstop
        · exact Nat.zero_min _
        · rw [hstop]
          exact Nat.min_zero _
      rw [hzero]
      exact accessible_zero
    · obtain ⟨hptr, hresid⟩ := not_or.mp hstop
      exact (good_accessible hptr hresid hn rfl h).2.mono (by omega) (by omega)
  · have hnone : uiomove cur mem uio ptr = none := if_neg hspace
    rw [hnone] at h
    cases h

end

theorem advance_add : (uio.advance m).advance n = uio.advance (m + n) := by
  simp [Uio.advance, ofNat_add, add_assoc, sub_sub]

theorem take_append_parts (hk : k ≤ ptr.length)
    (hend : k = ptr.length ∨ k' = 0) : (ptr ++ bs).take (k + k') = ptr.take k ++ bs.take k' := by
  obtain rfl | rfl := hend
  · rw [take_length_add_append, take_length]
  · rw [add_zero, take_append_of_le_length hk, take_zero, append_nil]

theorem drop_append_parts (hk : k ≤ ptr.length)
    (hend : k = ptr.length ∨ k' = 0) : (ptr ++ bs).drop (k + k') = ptr.drop k ++ bs.drop k' := by
  obtain rfl | rfl := hend
  · rw [drop_length_add_append, drop_length, nil_append]
  · rw [add_zero, drop_append_of_le_length hk, drop_zero]

theorem done_append (hk : k ≤ ptr.length) (hk' : k' ≤ bs.length)
    (hend : k = ptr.length ∨ k' = 0) (hn : k + k' < 2 ^ 32) :
    { done (done mem uio ptr k).mem (uio.advance k) bs k' with
      ptr := (done mem uio ptr k).ptr ++ (done (done mem uio ptr k).mem (uio.advance k) bs k').ptr } =
    done mem uio (ptr ++ bs) (k + k') := by
  have hlen : (ptr.take k).length = k := by rw [length_take, min_eq_left hk]
  have hlen' : (bs.take k').length = k' := by rw [length_take, min_eq_left hk']
  have hbase : (uio.advance k).base = uio.base + BitVec.ofNat 32 k := rfl
  have hrw : (uio.advance k).rw = uio.rw := rfl
  unfold done carry
  cases hdir : uio.rw with
  | UIO_READ =>
    simp only [hrw, hdir, hbase, take_append_drop, advance_add]
    rw [take_append_parts hk hend, store_append (by rw [hlen, hlen']; omega), hlen]
  | UIO_WRITE =>
    have hall : ((ptr ++ bs).take (k + k')).length = k + k' := by
      rw [take_append_parts hk hend, length_append, hlen, hlen']
    simp only [hrw, hdir, hbase, advance_add, hlen, hlen', hall, drop_append_parts hk hend, load_add]
    obtain rfl | rfl := hend
    · simp
    · simp [Memory.load]

theorem advance_len (h : n ≤ uio.len.toNat) : (uio.advance n).len.toNat = uio.len.toNat - n := by
  unfold Uio.advance
  simp only [toNat_sub, toNat_ofNat]
  omega

theorem Bounded.mono (hbound : Bounded uio n) (hk : k ≤ n) : Bounded uio k :=
  hbound.imp (le_trans hk) id

theorem Bounded.advance (hbound : Bounded uio (m + n)) (hk : min m uio.resid.toNat = k) :
    Bounded (uio.advance k) n := by
  obtain hle | heq | h0 := hbound
  · left
    rw [advance_resid (by omega)]
    omega
  · right; left
    simp [Uio.advance, heq]
  · right; right
    obtain rfl : k = 0 := by
      rw [h0] at hk
      exact hk.symm.trans (Nat.min_zero m)
    rw [advance_zero, h0]

section

variable (hlen : uio.resid.toNat ≤ uio.len.toNat)
include hlen

theorem moves_bounded
    (hn : bufs.flatten.length < 2 ^ 32) (hbound : Bounded uio bufs.flatten.length)
    (hspace : spaceOk cur uio)
    (hacc : Accessible cur uio (min bufs.flatten.length uio.resid.toNat)) :
    moves cur mem uio bufs =
      some (done mem uio bufs.flatten (min bufs.flatten.length uio.resid.toNat)) := by
  induction bufs generalizing mem uio with
  | nil =>
    rw [flatten_nil, length_nil, Nat.zero_min, done_zero]
    rfl
  | cons buf bufs ih =>
    rw [flatten_cons, length_append] at hn hbound hacc ⊢
    generalize hk : min buf.length uio.resid.toNat = k
    have hresid : (uio.advance k).resid.toNat = uio.resid.toNat - k := advance_resid (by omega)
    have hlen' : (uio.advance k).len.toNat = uio.len.toNat - k := advance_len (by omega)
    have hsum : min (buf.length + bufs.flatten.length) uio.resid.toNat =
        k + min bufs.flatten.length (uio.advance k).resid.toNat := by omega
    rw [hsum, accessible_add (by omega)] at hacc
    have hfirst : good (uiomove cur mem uio buf) = some (done mem uio buf k) := by
      rw [← hk]
      apply good_bounded hlen (by omega) (hbound.mono (Nat.le_add_right _ _)) hspace
      rw [hk]
      exact hacc.1
    have hrest : moves cur (done mem uio buf k).mem (uio.advance k) bufs = some _ :=
      ih (by omega) (by omega) (hbound.advance hk) hspace hacc.2
    have happend : _ = done mem uio (buf ++ bufs.flatten)
        (k + min bufs.flatten.length (uio.advance k).resid.toNat) :=
      done_append (by omega) (by omega) (by omega) (by omega)
    rw [hsum, ← happend]
    simp only [moves, hfirst, bind_eq_bind, bind_some]
    rw [show (done mem uio buf k).uio = uio.advance k from rfl, hrest]
    rfl

theorem moves_some
    (hn : bufs.flatten.length < 2 ^ 32) (hbufs : bufs ≠ [])
    (h : moves cur mem uio bufs = some r) :
    spaceOk cur uio ∧ Accessible cur uio (min bufs.flatten.length uio.resid.toNat) := by
  induction bufs generalizing mem uio r with
  | nil => exact absurd rfl hbufs
  | cons buf bufs ih =>
    rw [flatten_cons, length_append] at hn ⊢
    obtain ⟨r₁, hfirst, h⟩ := bind_eq_some_iff.mp h
    obtain ⟨r₂, hrest, -⟩ := bind_eq_some_iff.mp h
    obtain ⟨hspace, hacc⟩ := good_some hlen (by omega) hfirst
    refine ⟨hspace, ?_⟩
    by_cases hfit : buf.length ≤ uio.resid.toNat
    · -- The call is bounded, and the others go on from where it has ended.
      rw [min_eq_left hfit] at hacc
      have hdone : good (uiomove cur mem uio buf) = some _ :=
        good_bounded hlen (by omega) (.inl hfit) hspace (by rwa [min_eq_left hfit])
      rw [min_eq_left hfit, hfirst] at hdone
      cases hdone
      change moves cur _ (uio.advance buf.length) bufs = some r₂ at hrest
      have hresid : (uio.advance buf.length).resid.toNat = uio.resid.toNat - buf.length :=
        advance_resid hfit
      have hlen' : (uio.advance buf.length).len.toNat = uio.len.toNat - buf.length :=
        advance_len (by omega)
      have hsum : min (buf.length + bufs.flatten.length) uio.resid.toNat =
        buf.length + min bufs.flatten.length (uio.advance buf.length).resid.toNat := by omega
      rw [hsum, accessible_add (by omega)]
      refine ⟨hacc, ?_⟩
      by_cases hnil : bufs = []
      · rw [hnil, flatten_nil, length_nil, Nat.zero_min]
        exact accessible_zero
      · exact (ih (by omega) (by omega) hnil hrest).2
    · rw [min_eq_right (by omega)] at hacc ⊢
      exact hacc

theorem good_none (hn : ptr.length < 2 ^ 32)
    (huse : ¬ (spaceOk cur uio ∧ Accessible cur uio (min ptr.length uio.resid.toNat))) :
    good (uiomove cur mem uio ptr) = none :=
  eq_none_iff_forall_ne_some.mpr fun _ h => huse (good_some hlen hn h)

theorem moves_none
    (hn : bufs.flatten.length < 2 ^ 32) (hbufs : bufs ≠ [])
    (huse : ¬ (spaceOk cur uio ∧ Accessible cur uio (min bufs.flatten.length uio.resid.toNat))) :
    moves cur mem uio bufs = none :=
  eq_none_iff_forall_ne_some.mpr fun _ h => huse (moves_some hlen hn hbufs h)

theorem moves_eq_good
    (hn : bufs.flatten.length < 2 ^ 32) (hbound : Bounded uio bufs.flatten.length) (hbufs : bufs ≠ []) :
    moves cur mem uio bufs = good (uiomove cur mem uio bufs.flatten) := by
  by_cases huse : spaceOk cur uio ∧ Accessible cur uio (min bufs.flatten.length uio.resid.toNat)
  · rw [moves_bounded hlen hn hbound huse.1 huse.2, good_bounded hlen hn hbound huse.1 huse.2]
  · rw [moves_none hlen hn hbufs huse, good_none hlen hn huse]

end

/-! ## Which calls are exact -/

theorem Transferred.of_done (hk : k ≤ ptr.length) (hresid : k ≤ uio.resid.toNat)
    (hlen : k ≤ uio.len.toNat) (hoffset : uio.offset.toInt + k < 2 ^ 31) :
    Transferred mem uio ptr k (done mem uio ptr k) where
  carried := by
    have htake : (ptr.take k).length = k := by rw [length_take, min_eq_left hk]
    unfold Carried done carry
    cases uio.rw with
    | UIO_READ => exact ⟨rfl, take_append_drop k ptr⟩
    | UIO_WRITE => exact ⟨rfl, by simp [htake]⟩
  offset := by
    have hlow := le_toInt uio.offset
    have hmod : (uio.offset + BitVec.ofNat 32 k).toInt = (uio.offset.toInt + k).bmod (2 ^ 32) := by
      rw [toInt_add, toInt_eq_toNat_bmod (BitVec.ofNat 32 k), toNat_ofNat,
        Nat.mod_eq_of_lt (lt_of_le_of_lt hresid uio.resid.isLt), Int.add_bmod_bmod]
    change (uio.offset + BitVec.ofNat 32 k).toInt = _
    rw [hmod]
    apply Int.bmod_eq_of_le <;> omega
  resid := by
    change (uio.advance k).resid.toNat + k = _
    rw [advance_resid hresid]
    omega
  len := by
    change (uio.advance k).len.toNat + k = _
    rw [advance_len hlen]
    omega
  rest := rfl

section

variable (hlen : uio.resid.toNat ≤ uio.len.toNat)
include hlen

theorem not_sizeReachedZero : ¬ SizeReachedZero ⟨mem, uio, ptr⟩ := by
  rintro ⟨hptr, hresid, hsize⟩
  have hpos := length_pos_iff.mpr hptr
  have hresid0 : uio.resid.toNat ≠ 0 := fun h0 => hresid (eq_of_toNat_eq h0)
  simp only at hpos hsize hresid0
  omega

theorem bounded_no_panic
    (hbound : Bounded uio ptr.length)
    (h : Relation.ReflTransGen (Round cur) ⟨mem, uio, ptr⟩ s) : ¬ SizeReachedZero s := by
  have hinv : s = ⟨mem, uio, ptr⟩ ∨ s.ptr = [] ∨ s.uio.resid = 0 := by
    induction h with
    | refl => exact .inl rfl
    | tail _ hround ih =>
      obtain ⟨hptr, hresid, -, -⟩ := hround
      obtain rfl | hstop | hstop := ih
      · right
        obtain ⟨hsize, hend⟩ := bounded_step hlen hbound hresid rfl
        simp only [hsize]
        exact hend
      · exact absurd hstop hptr
      · exact absurd hstop hresid
  obtain rfl | hstop | hstop := hinv
  · exact not_sizeReachedZero hlen
  · exact fun h => h.1 hstop
  · exact fun h => h.2.1 hstop

theorem inaccessible_no_panic
    (hn : ptr.length < 2 ^ 32) (hacc : ¬ Accessible cur uio (min ptr.length uio.resid.toNat))
    (h : Relation.ReflTransGen (Round cur) ⟨mem, uio, ptr⟩ s) : ¬ SizeReachedZero s := by
  obtain rfl | ⟨t, hround, -⟩ := Relation.ReflTransGen.cases_head_iff.mp h
  · exact not_sizeReachedZero hlen
  · obtain ⟨hptr, hresid, hsize, hmove⟩ := hround
    have htake : (ptr.take (min uio.len.toNat ptr.length)).length = min uio.len.toNat ptr.length := by
      rw [length_take]
      omega
    have hpart : ptr.take (min uio.len.toNat ptr.length) ≠ [] :=
      fun h => hsize (by rw [← htake, h]; rfl)
    have huse := ((movePart_ok hpart (by omega)).mp hmove).1
    exact absurd (huse.mono (by omega) (by omega)) hacc

theorem unbounded_resid
    (hn : ptr.length < 2 ^ 32) (hbound : ¬ Bounded uio ptr.length) (hspace : spaceOk cur uio)
    (h : good (uiomove cur mem uio ptr) = some r) : r.uio.resid ≠ 0 := by
  obtain ⟨hlong, hbound⟩ := not_or.mp hbound
  obtain ⟨hne, hresid⟩ := not_or.mp hbound
  have hspare : uio.resid.toNat ≠ uio.len.toNat := fun heq => hne (eq_of_toNat_eq heq.symm)
  have hptr : ptr ≠ [] := fun h0 => hlong (by rw [h0]; exact Nat.zero_le _)
  rw [uiomove_eq hspace] at h
  obtain ⟨hk0, hacc⟩ := good_accessible hptr hresid hn rfl h
  rw [good_round hptr hresid hn rfl hk0 hacc] at h
  generalize hk : min uio.len.toNat ptr.length = k at h hacc
  have hwrap : (uio.advance k).resid ≠ 0 := by
    intro h0
    have hnat := congrArg BitVec.toNat h0
    simp only [Uio.advance, toNat_sub, toNat_ofNat] at hnat
    change _ = 0 at hnat
    omega
  by_cases hend : ptr.drop k = []
  · rw [moveLoop_stop (.inl hend)] at h
    cases h
    exact hwrap
  · -- The `iovec` is used up, and the residue is not zero.
    have hdrop : k < ptr.length := Nat.lt_of_not_le fun hle => hend (drop_eq_nil_of_le hle)
    have hempty : (uio.advance k).len.toNat = 0 := by
      rw [advance_len (by omega)]
      omega
    obtain ⟨m, hm, -⟩ := map_eq_some_iff.mp h
    have hround := (good_accessible hend hwrap (by rw [length_drop]; omega) rfl hm).1
    rw [hempty, Nat.zero_min] at hround
    exact absurd rfl hround

theorem split_succeeds
    (hspace : spaceOk cur uio) (hresid : uio.resid.toNat ≤ ptr.length)
    (hacc : Accessible cur uio uio.resid.toNat) :
    ∃ r, moves cur mem uio [ptr.take uio.resid.toNat, ptr.drop uio.resid.toNat] = some r := by
  generalize hk : uio.resid.toNat = k at hresid hacc
  have htake : (ptr.take k).length = k := by rw [length_take, min_eq_left hresid]
  have hmin : min (ptr.take k).length uio.resid.toNat = k := by omega
  have hfirst : good (uiomove cur mem uio (ptr.take k)) = some (done mem uio (ptr.take k) k) := by
    have hgood : good (uiomove cur mem uio (ptr.take k)) = some _ :=
      good_bounded hlen (by omega) (.inl (by omega)) hspace (by rwa [hmin])
    rwa [hmin] at hgood
  have hzero : (uio.advance k).resid = 0 := by
    apply eq_of_toNat_eq
    rw [advance_resid (by omega), hk]
    exact Nat.sub_self k
  have hspace' : spaceOk cur (uio.advance k) := hspace
  have hsecond : good (uiomove cur (done mem uio (ptr.take k) k).mem (uio.advance k) (ptr.drop k)) =
      some ⟨ptr.drop k, (done mem uio (ptr.take k) k).mem, uio.advance k, none⟩ := by
    rw [uiomove_eq hspace', moveLoop_stop (.inr hzero)]
    rfl
  have huio : (done mem uio (ptr.take k) k).uio = uio.advance k := rfl
  simp only [moves, hfirst, bind_eq_bind, bind_some, huio, hsecond]
  exact ⟨_, rfl⟩

theorem unbounded_not_exact (hn : ptr.length < 2 ^ 32)
    (hbound : ¬ Bounded uio ptr.length) (hspace : spaceOk cur uio)
    (hacc : Accessible cur uio uio.resid.toNat) : ¬ ExactMove cur mem uio ptr := by
  intro hexact
  have hlong : ¬ ptr.length ≤ uio.resid.toNat := (not_or.mp hbound).1
  have hmin : min ptr.length uio.resid.toNat = uio.resid.toNat := by omega
  obtain ⟨r, hr⟩ : ∃ r, moves cur mem uio
      [ptr.take uio.resid.toNat, ptr.drop uio.resid.toNat] = some r :=
    split_succeeds hlen hspace (by omega) hacc
  rw [hexact.sequence _ (by simp) (by simp)] at hr
  have hresid := (hexact.amount r hr).resid
  rw [hmin] at hresid
  exact unbounded_resid hlen hn hbound hspace hr (eq_of_toNat_eq (by simpa using hresid))

end

theorem exactMove_iff (cur : Thread) (mem : Memory) (uio : Uio) (ptr : List UInt8)
    (hn : ptr.length < 2 ^ 32) (hlen : uio.resid.toNat ≤ uio.len.toNat) :
    ExactMove cur mem uio ptr ↔ (Bounded uio ptr.length ∧
        uio.offset.toInt + (min ptr.length uio.resid.toNat : Nat) < 2 ^ 31) ∨
      ¬ (spaceOk cur uio ∧ Accessible cur uio (min ptr.length uio.resid.toNat)) := by
  constructor
  · intro hexact
    by_cases huse : spaceOk cur uio ∧ Accessible cur uio (min ptr.length uio.resid.toNat)
    · left
      obtain ⟨hspace, hacc⟩ := huse
      have hbound : Bounded uio ptr.length := by
        by_contra hbound
        have hlong : ¬ ptr.length ≤ uio.resid.toNat := (not_or.mp hbound).1
        rw [min_eq_right (by omega)] at hacc
        exact unbounded_not_exact hlen hn hbound hspace hacc hexact
      refine ⟨hbound, ?_⟩
      have hoffset := (hexact.amount _ (good_bounded hlen hn hbound hspace hacc)).offset
      rw [← hoffset]
      exact toInt_lt
    · exact .inr huse
  · rintro (⟨hbound, hoffset⟩ | huse)
    · exact
        { amount := by
            intro r hr
            obtain ⟨hspace, hacc⟩ := good_some hlen hn hr
            rw [good_bounded hlen hn hbound hspace hacc] at hr
            cases hr
            exact .of_done (by omega) (by omega) (by omega) hoffset
          no_panic := fun _ s hs => bounded_no_panic hlen hbound hs
          sequence := by
            rintro bufs hbufs rfl
            exact moves_eq_good hlen hn hbound hbufs }
    · exact
        { amount := fun r hr => absurd (good_some hlen hn hr) huse
          no_panic := fun hspace s hs =>
            inaccessible_no_panic hlen hn (fun hacc => huse ⟨hspace, hacc⟩) hs
          sequence := by
            rintro bufs hbufs rfl
            rw [moves_none hlen hn hbufs huse, good_none hlen hn huse] }

end Rounds

section Zeros

variable {cur : Thread} {mem : Memory} {uio : Uio} {n : Nat}

def zeros (n : Nat) : List (List UInt8) :=
  if _h : n = 0 then [] else List.replicate (min 16 n) 0 :: zeros (n - min 16 n)
termination_by n
decreasing_by omega

theorem zeros_flatten (n : Nat) : (zeros n).flatten = List.replicate n 0 := by
  fun_induction zeros n with
  | case1 => rfl
  | case2 n h ih =>
    rw [flatten_cons, ih, replicate_append_replicate]
    congr 1
    omega

theorem zerosLoop_moves : (good (zerosLoop cur mem uio n)).map (fun r => (r.mem, r.uio)) =
    (moves cur mem uio (zeros n)).map fun r => (r.mem, r.uio) := by
  induction n using zeros.induct generalizing mem uio with
  | case1 =>
    rw [zerosLoop, zeros]
    rfl
  | case2 n hn ih =>
    rw [zerosLoop, zeros, dif_neg hn, dif_neg hn, moves]
    match huio : uiomove cur mem uio (List.replicate (min 16 n) 0) with
    | none => rfl
    | some ⟨ptr, mem', uio', some e⟩ => rfl
    | some ⟨ptr, mem', uio', none⟩ =>
      have hgood : good (some ⟨ptr, mem', uio', none⟩) = some ⟨ptr, mem', uio', none⟩ := rfl
      simp only [hgood, bind_eq_bind, bind_some, isSome_none, Bool.false_eq_true, if_false, ih]
      cases moves cur mem' uio' (zeros (n - min 16 n)) <;> rfl

theorem uiomovezeros_eq (hread : uio.rw = .UIO_READ) (hlen : uio.resid.toNat ≤ uio.len.toNat)
    (hn : n < 2 ^ 32) (hpos : 0 < n) (hbound : Bounded uio n) :
    (good (uiomovezeros cur mem uio n)).map (fun r => (r.mem, r.uio)) =
      (good (uiomove cur mem uio (List.replicate n 0))).map fun r => (r.mem, r.uio) := by
  have hflat := zeros_flatten n
  have hlength : (zeros n).flatten.length = n := by rw [hflat, length_replicate]
  have hne : zeros n ≠ [] := by
    intro hnil
    rw [hnil] at hlength
    exact ne_of_lt hpos hlength
  have hmoves : moves cur mem uio (zeros n) = good (uiomove cur mem uio (zeros n).flatten) :=
    moves_eq_good hlen (by rwa [hlength]) (by rwa [hlength]) hne
  rw [uiomovezeros, if_pos hread, zerosLoop_moves, hmoves, hflat]

end Zeros

def kernelThread : Thread := ⟨none, fun _ => false⟩

def spare : Uio := ⟨0x80001000, 8, 0, 4, .UIO_SYSSPACE, .UIO_READ, none⟩

theorem uiomove_too_far : ¬ ExactMove kernelThread (fun _ => 0) spare [1, 2, 3, 4, 5, 6] := by
  apply unbounded_not_exact (by decide) (by decide)
  · unfold Bounded
    decide
  · rfl
  · exact ⟨reach_eq_iff.mpr fun _ _ => rfl, .inl rfl⟩

theorem exactMove_four : ExactMove kernelThread (fun _ => 0) spare [1, 2, 3, 4] :=
  (exactMove_iff kernelThread (fun _ => 0) spare [1, 2, 3, 4] (by decide) (by decide)).mpr
    (.inl ⟨.inl (by decide), by decide⟩)

theorem uiomovezeros_four : (good (uiomovezeros kernelThread (fun _ => 1) spare 4)).map
    (fun r => (r.mem, r.uio)) = (good (uiomove kernelThread (fun _ => 1) spare (List.replicate 4 0))).map
      fun r => (r.mem, r.uio) :=
  uiomovezeros_eq rfl (by decide) (by decide) (by decide) (.inl (by decide))

end Os161.Userprog.Uiomove
