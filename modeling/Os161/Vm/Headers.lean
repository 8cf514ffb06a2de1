import Os161.Sfs.Eof
import Os161.Vm.Regions

/-!
# The headers of an executable

`load_elf` of `loadelf.c` with the reads that it makes of a file on SFS. An `off_t` is signed.
-/

open List

namespace Os161.Vm.Headers

open Os161.Sfs (File Sound toOff)

def field (bs : List UInt8) (pos n : Nat) : Nat :=
  ((bs.drop pos).take n).foldl (fun v b => 256 * v + b.toNat) 0

def isExec (eh : List UInt8) : Bool :=
  eh.take 7 == [0x7f, 0x45, 0x4c, 0x46, 1, 2, 1] && field eh 20 4 == 1 && field eh 16 2 == 2 &&
    field eh 18 2 == 8

def phnum (eh : List UInt8) : Nat := field eh 44 2

def phoffset (eh : List UInt8) (i : Nat) : Nat := field eh 28 4 + i * field eh 42 2

def ptype (bs : List UInt8) : PType := let t := field bs 0 4
  if t = 0 then .null else if t = 1 then .load else if t = 6 then .phdr else
    if t = 0x70000000 then .reginfo else .other

def phdr (bs : List UInt8) : Phdr :=
  ⟨ptype bs, field bs 4 4, field bs 8 4, field bs 16 4, field bs 20 4, field bs 24 4⟩

inductive Failure where
  | exec (e : Errno)
  | read (e : Errno)

/-- `reads` are the offsets and the sizes of the calls of `VOP_READ`. -/
structure Loaded where
  reads : List (Int × Nat)
  as : Addrspace
  failed : Option Failure

section Load

variable (f : File) (wild : Int → Nat → Except Errno (List UInt8))

/-- `wild` is what comes of a read at a negative offset, or of a panic. -/
def vopRead (off : Int) (n : Nat) : Except Errno (List UInt8) :=
  match off, Sfs.io f ⟨.read, off.toNat, n, []⟩ with
  | .ofNat _, .ok (_, uio, none) => .ok uio.buf
  | .ofNat _, .ok (_, _, some e) => .error e
  | _, _ => wild off n

/-- Goes on with what has been read, if that is all. -/
def reading (off : Int) (n : Nat) (as : Addrspace) (k : List UInt8 → Loaded) : Loaded :=
  match vopRead f wild off n with
  | .error e => ⟨[(off, n)], as, some (.read e)⟩
  | .ok bs =>
    if bs.length < n then ⟨[(off, n)], as, some (.exec .ENOEXEC)⟩
    else { k bs with reads := (off, n) :: (k bs).reads }

def pass (act : Nat → List Phdr → Addrspace → Addrspace × Option Errno) (eh : List UInt8) :
    (n i : Nat) → Addrspace → Loaded
  | 0, _, as => ⟨[], as, none⟩
  | n + 1, i, as => reading f wild (toOff (phoffset eh i)) 32 as fun bs =>
    match act i [phdr bs] as with
    | (as, some e) => ⟨[], as, some (.exec e)⟩
    | (as, none) => pass act eh n (i + 1) as

def segments (as : Addrspace) (v : Nat) (junk : Nat → Nat) (eh : List UInt8) : Loaded :=
  if isExec eh then
    let first := pass f wild (fun _ => defineRegions junk) eh (phnum eh) 0 as
    if first.failed.isSome then first
    else
      let second := pass f wild setOffsets eh (phnum eh) 0 { first.as with v := v }
      { second with reads := first.reads ++ second.reads }
  else ⟨[], as, some (.exec .ENOEXEC)⟩

def loadElf (as : Addrspace) (v : Nat) (junk : Nat → Nat) : Loaded :=
  reading f wild 0 52 as (segments f wild as v junk)

end Load

/-- `skip` of `sfs_io`, as it is handed to `sfs_partialio`. -/
def skip (off : Int) : Nat := (off.tmod 512 % 2 ^ 32).toNat

def len (off : Int) (resid : Nat) : Nat := min ((512 + 2 ^ 32 - skip off) % 2 ^ 32) resid

/-- No read is outside of the file, and none of what there is not of it. -/
structure Inside (f : File) (r : Loaded) : Prop where
  offset : ∀ x ∈ r.reads, 0 ≤ x.1
  buffer : ∀ x ∈ r.reads, skip x.1 + len x.1 x.2 ≤ 512
  short : ∀ x ∈ r.reads, f.contents.length < x.1 + x.2 → r.failed = some (.exec .ENOEXEC)

variable {f : File} {wild : Int → Nat → Except Errno (List UInt8)} {own : Sfs.Owner} {off : Int}
  {n i : Nat} {as : Addrspace} {k : List UInt8 → Loaded} {eh : List UInt8}
  {act : Nat → List Phdr → Addrspace → Addrspace × Option Errno}

theorem buffer_of_nonneg (h : 0 ≤ off) (n : Nat) : skip off + len off n ≤ 512 := by
  obtain ⟨m, rfl⟩ := Int.eq_ofNat_of_zero_le h
  have hskip : skip m = m % 512 := by
    unfold skip
    rw [Int.tmod_eq_emod_of_nonneg h]
    omega
  unfold len
  omega

theorem vopRead_eq (h : Sound own f) (hoff : 0 ≤ off) (hlt : off < 2 ^ 31) (hn : n < 2 ^ 30) :
    vopRead f wild off n = .ok ((f.contents.drop off.toNat).take n) := by
  obtain ⟨m, rfl⟩ := Int.eq_ofNat_of_zero_le hoff
  have hsize := h.size
  have hreads := (Sfs.reads_to_end_iff own f h.toOwns (by omega) m n (by omega) (by omega) []).2
    fun hin => by
      rw [if_pos (by omega)]
      exact ⟨by omega, .inl (by change _ ≤ 143 * 512; omega)⟩
  unfold vopRead File.contents
  rw [Int.toNat_natCast, hreads, Lib.take_drop_slice]
  rfl

theorem toOff_lt (m : Nat) : toOff m < 2 ^ 31 := by
  unfold toOff
  split <;> omega

theorem toOff_nonneg (m : Nat) : 0 ≤ toOff m ↔ m % 2 ^ 32 < 2 ^ 31 := by
  unfold toOff
  split <;> omega

/-- What is short ends the call, if it is not at a negative offset. -/
def Stops (f : File) (r : Loaded) : Prop :=
  ∀ x ∈ r.reads, 0 ≤ x.1 → f.contents.length < x.1 + x.2 → r.failed = some (.exec .ENOEXEC)

theorem inside_iff {r : Loaded} (h : Stops f r) : Inside f r ↔ ∀ x ∈ r.reads, 0 ≤ x.1 :=
  ⟨Inside.offset, fun hoff => ⟨hoff, fun x hx => buffer_of_nonneg (hoff x hx) x.2,
    fun x hx => h x hx (hoff x hx)⟩⟩

theorem stops_cons {r : Loaded} (h : Stops f r) (hfull : 0 ≤ off → off + n ≤ f.contents.length) :
    Stops f { r with reads := (off, n) :: r.reads } := by
  refine forall_mem_cons.mpr ⟨fun hoff hlt => ?_, h⟩
  omega

/-- Header `i` as the file has it. -/
def header (f : File) (eh : List UInt8) (i : Nat) : Phdr :=
  phdr ((f.contents.drop (phoffset eh i % 2 ^ 32)).take 32)

/-- Header `i` is below 2 ^ 31, and if the file has all of it and the loop goes on, so is the next. -/
def LowFrom (f : File) (act : Nat → List Phdr → Addrspace → Addrspace × Option Errno)
    (eh : List UInt8) : (n i : Nat) → Addrspace → Prop
  | 0, _, _ => True
  | n + 1, i, as => phoffset eh i % 2 ^ 32 < 2 ^ 31 ∧
      (phoffset eh i % 2 ^ 32 + 32 ≤ f.contents.length → ∀ as', act i [header f eh i] as = (as', none) →
        LowFrom f act eh n (i + 1) as')

theorem toOff_of_low {m : Nat} (h : m % 2 ^ 32 < 2 ^ 31) : toOff m = (m % 2 ^ 32 : Nat) := by
  unfold toOff
  split <;> omega

section

variable (h : Sound own f)
include h

/-- A read fails for good, with `ENOEXEC` if the file is too short, or gets all the bytes. -/
theorem reading_cases (hlt : off < 2 ^ 31) (hpos : 0 < n) (hn : n < 2 ^ 30)
    (as : Addrspace) :
    (∃ e, (∀ k, reading f wild off n as k = ⟨[(off, n)], as, some e⟩) ∧
      (0 ≤ off → f.contents.length < off + n ∧ e = .exec .ENOEXEC)) ∨
    ∃ bs, (∀ k, reading f wild off n as k = { k bs with reads := (off, n) :: (k bs).reads }) ∧
      (0 ≤ off → off + n ≤ f.contents.length ∧ bs = (f.contents.drop off.toNat).take n) := by
  have hread (hoff : 0 ≤ off) := @vopRead_eq f wild own off n h hoff hlt hn
  unfold reading
  cases hv : vopRead f wild off n with
  | error e =>
    refine .inl ⟨.read e, fun _ => rfl, fun hoff => ?_⟩
    rw [hread hoff] at hv
    cases hv
  | ok bs =>
    have hbs (hoff : 0 ≤ off) : bs = (f.contents.drop off.toNat).take n :=
      (Except.ok.inj ((hread hoff).symm.trans hv)).symm
    have hlen (hoff : 0 ≤ off) : bs.length = min n (f.contents.length - off.toNat) := by
      rw [hbs hoff, length_take, length_drop]
    by_cases hshort : bs.length < n
    · refine .inl ⟨_, fun _ => if_pos hshort, fun hoff => ⟨?_, rfl⟩⟩
      omega
    · refine .inr ⟨bs, fun _ => if_neg hshort, fun hoff => ⟨?_, hbs hoff⟩⟩
      omega

/-- What a pass does with header `i`, however many come after it. -/
theorem pass_cases (i : Nat) (as : Addrspace) :
    (∃ r : Loaded, (∀ n, pass f wild act eh (n + 1) i as = r) ∧
      r.reads = [(toOff (phoffset eh i), 32)] ∧ r.failed.isSome ∧ Stops f r ∧
        (phoffset eh i % 2 ^ 32 < 2 ^ 31 → phoffset eh i % 2 ^ 32 + 32 ≤ f.contents.length →
          (act i [header f eh i] as).2 ≠ none)) ∨
    ∃ as', (∀ n, pass f wild act eh (n + 1) i as = { pass f wild act eh n (i + 1) as' with
        reads := (toOff (phoffset eh i), 32) :: (pass f wild act eh n (i + 1) as').reads }) ∧
      (0 ≤ toOff (phoffset eh i) → toOff (phoffset eh i) + 32 ≤ f.contents.length) ∧
      (phoffset eh i % 2 ^ 32 < 2 ^ 31 → act i [header f eh i] as = (as', none)) := by
  obtain ⟨e, hrun, he⟩ | ⟨bs, hrun, hfull⟩ := @reading_cases f wild own (toOff (phoffset eh i)) 32 h
    (toOff_lt _) (by decide) (by decide) as
  · refine .inl ⟨_, fun n => hrun _, rfl, rfl, forall_mem_singleton.mpr fun hoff _ => ?_,
      fun hlow hin => ?_⟩
    · exact congrArg some (he hoff).2
    · have hshort := (he ((toOff_nonneg _).mpr hlow)).1
      rw [toOff_of_low hlow] at hshort
      omega
  · have hbs (hlow : phoffset eh i % 2 ^ 32 < 2 ^ 31) : phdr bs = header f eh i := by
      rw [(hfull ((toOff_nonneg _).mpr hlow)).2, toOff_of_low hlow, Int.toNat_natCast]
      rfl
    have hfull := fun hoff => (hfull hoff).1
    cases hact : act i [phdr bs] as with
    | mk as' o =>
      cases o with
      | none =>
        refine .inr ⟨as', fun n => ?_, hfull, fun hlow => hbs hlow ▸ hact⟩
        rw [pass, hrun, hact]
      | some e =>
        refine .inl ⟨⟨[(toOff (phoffset eh i), 32)], as', some (.exec e)⟩, fun n => ?_, rfl, rfl,
          stops_cons (r := ⟨[], as', some (.exec e)⟩) nofun hfull, fun hlow _ => ?_⟩
        · rw [pass, hrun, hact]
        · rw [← hbs hlow, hact]
          exact nofun

theorem pass_stops (n : Nat) : Stops f (pass f wild act eh n i as) := by
  induction n generalizing i as with
  | zero => exact nofun
  | succ n ih =>
    obtain ⟨r, hrun, -, -, hr, -⟩ | ⟨as', hrun, hfull, -⟩ := @pass_cases f wild own eh act h i as
    · exact hrun n ▸ hr
    · exact hrun n ▸ stops_cons ih hfull

theorem pass_nonneg_iff : (∀ x ∈ (pass f wild act eh n i as).reads, 0 ≤ x.1) ↔
    LowFrom f act eh n i as := by
  induction n generalizing i as with
  | zero => exact iff_of_true nofun trivial
  | succ n ih =>
    obtain ⟨r, hrun, hreads, -, -, hrefused⟩ | ⟨as', hrun, hfull, hgoes⟩ :=
      @pass_cases f wild own eh act h i as
    · rw [hrun n, hreads, forall_mem_singleton, toOff_nonneg]
      refine (and_iff_left_of_imp fun hlow hin as' hact => ?_).symm
      exact absurd (congrArg Prod.snd hact) (hrefused hlow hin)
    · rw [hrun n, forall_mem_cons, ih, toOff_nonneg]
      refine and_congr_right fun hlow => ⟨fun hnext _ as'' hact => ?_, fun hnext => ?_⟩
      · cases (hgoes hlow).symm.trans hact
        exact hnext
      · have hin := hfull ((toOff_nonneg _).mpr hlow)
        rw [toOff_of_low hlow] at hin
        exact hnext (by omega) as' (hgoes hlow)

/-- A pass reads the headers in order, and all of them unless it fails. -/
theorem reads_pass (n : Nat) : ∃ m ≤ n, (pass f wild act eh n i as).reads =
    (range' i m).map (fun k => (toOff (phoffset eh k), 32)) ∧
      ((pass f wild act eh n i as).failed = none → m = n) := by
  induction n generalizing i as with
  | zero => exact ⟨0, le_rfl, rfl, fun _ => rfl⟩
  | succ n ih =>
    obtain ⟨r, hrun, hreads, hfailed, -⟩ | ⟨as', hrun, -⟩ := @pass_cases f wild own eh act h i as
    · refine ⟨1, by omega, by rw [hrun n, hreads]; rfl, fun hn => ?_⟩
      rw [← hrun n, hn] at hfailed
      cases hfailed
    · obtain ⟨m, hm, hreads, hall⟩ := @ih (i + 1) as'
      rw [hrun n]
      exact ⟨m + 1, by omega, congrArg _ hreads, fun hn => congrArg (· + 1) (hall hn)⟩

end

theorem segments_spec (h : Sound own f) (v : Nat) (junk : Nat → Nat) :
    Stops f (segments f wild as v junk eh) ∧
      ((∀ x ∈ (segments f wild as v junk eh).reads, 0 ≤ x.1) ↔
        (isExec eh → LowFrom f (fun _ => defineRegions junk) eh (phnum eh) 0 as)) := by
  unfold segments
  cases isExec eh with
  | false => exact ⟨nofun, iff_of_true nofun nofun⟩
  | true =>
    have hfirst := @pass_nonneg_iff f wild own (phnum eh) 0 as eh (fun _ => defineRegions junk) h
    have hstops := @pass_stops f wild own 0 as eh (fun _ => defineRegions junk) h (phnum eh)
    simp only [if_true, forall_const, ← hfirst]
    cases hfailed : (pass f wild (fun _ => defineRegions junk) eh (phnum eh) 0 as).failed with
    | some e => exact ⟨hstops, Iff.rfl⟩
    | none =>
      refine ⟨forall_mem_append.mpr ⟨fun x hx hoff hlt => ?_, pass_stops h _⟩, ?_⟩
      · have hend := hstops x hx hoff hlt
        rw [hfailed] at hend
        cases hend
      · -- the second pass comes to no header that the first one has not read
        refine forall_mem_append.trans (and_iff_left_of_imp fun hin x hx => ?_)
        obtain ⟨m, -, hreads, hall⟩ := reads_pass h (phnum eh)
        obtain ⟨m', hle, hreads', -⟩ := reads_pass h (phnum eh)
        rw [hreads'] at hx
        obtain ⟨k, hk, rfl⟩ := mem_map.mp hx
        refine hin _ (hreads ▸ mem_map_of_mem ?_)
        rw [hall hfailed]
        rw [mem_range'_1] at hk ⊢
        omega

def nothing (_ : Int) (_ : Nat) : Except Errno (List UInt8) := .ok []

def execHeader (phoff : List UInt8) : List UInt8 :=
  [0x7f, 0x45, 0x4c, 0x46, 1, 2, 1, 0, 0, 0, 0, 0, 0, 0, 0, 0, 0, 2, 0, 8, 0, 0, 0, 1, 0, 0x40, 0, 0] ++
    phoff ++ [0, 0, 0, 0, 0, 0, 0, 0, 0, 52, 0, 32, 0, 1, 0, 0, 0, 0, 0, 0]

/-- With one header, for a page of text at 0x400000. -/
def program : List UInt8 := execHeader [0, 0, 0, 52] ++
  [0, 0, 0, 1, 0, 0, 0, 0, 0, 0x40, 0, 0, 0, 0x40, 0, 0, 0, 0, 0, 84, 0, 0, 0, 84, 0, 0, 0, 5, 0, 0, 16, 0]

def programFile : File :=
  (Sfs.serve Sfs.emptyFile (.write 0 program)).toOption.elim Sfs.emptyFile Prod.fst

def farFile : File where
  fs := { Sfs.emptyFile.fs with
    disk := fun b => if b = 4 then fun x => (execHeader [0xff, 0xff, 0xff, 0xfc]).getD x 0 else Sfs.zeros
    freemap := { nbits := 4096, v := fun ix => if ix = 0 then 0x1f else 0xff } }
  sv := { Sfs.emptyFile.sv with
    inode := { Sfs.emptyFile.sv.inode with size := 52, direct := fun k => if k.val = 0 then 4 else 0 } }

end Os161.Vm.Headers
