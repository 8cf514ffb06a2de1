import Os161.Lib.Run
import Os161.Sfs.Io
import Os161.Sfs.Truncate

/-!
# A file is an array of bytes

A request says what should become of the bytes of the file and what the reply should be.
-/

namespace Os161.Sfs

open Lib

inductive Request where
  | read (offset resid : Nat)
  | write (offset : Nat) (bytes : List UInt8)
  | truncate

structure Reply where
  uio : Uio
  err : Option Errno
  deriving DecidableEq

def serve (f : File) : Request → K (File × Reply)
  | .read offset resid => do
    let (f, uio, err) ← io f ⟨.read, offset, resid, []⟩
    pure (f, ⟨uio, err⟩)
  | .write offset bytes => do
    let (f, uio, err) ← io f ⟨.write, offset, bytes.length, bytes⟩
    pure (f, ⟨uio, err⟩)
  | .truncate => do
    let f ← truncate f 0
    pure (f, ⟨⟨.read, 0, 0, []⟩, none⟩)

/-- A write that fails before it has stored anything leaves the array. -/
def after (a : List UInt8) (q : Request) (r : Reply) : List UInt8 :=
  match q with
  | .read _ _ => a
  | .write offset bytes =>
    let stored := bytes.take (bytes.length - r.uio.resid)
    if r.err.isSome ∧ stored = [] then a else overlay a offset stored
  | .truncate => []

def Right (a : List UInt8) (q : Request) (r : Reply) : Prop :=
  match q with
  | .read offset resid =>
    r.err = none ∧ r.uio.buf = (a.drop offset).take resid ∧
      r.uio.offset = offset + r.uio.buf.length ∧ r.uio.resid = resid - r.uio.buf.length
  | .write offset bytes =>
    r.uio.resid ≤ bytes.length ∧ r.uio.offset = offset + (bytes.length - r.uio.resid) ∧
      match r.err with
      | none => r.uio.resid = 0
      | some e => e = .ENOSPC ∨ e = .EINVAL ∧ MAXBLOCKS * SFS_BLOCKSIZE ≤ r.uio.offset
  | .truncate => r.err = none

/-- The file behaves as the array that was `a` at its start. -/
def Refines : File → List UInt8 → List Request → Prop
  | f, a, [] => a.length = f.sv.inode.size
  | f, a, q :: qs => a.length = f.sv.inode.size ∧
    match serve f q with
    | .ok (f', r) => Right a q r ∧ Refines f' (after a q r) qs
    | .error _ => False

def Request.Fits : Request → Prop
  | .read offset resid => offset + resid < 2 ^ 31
  | .write offset bytes => offset + bytes.length < 2 ^ 31
  | .truncate => True

/-- A write past the end of the file starts at a block that the file has or is sure to get. -/
def Begins (f : File) : Request → Prop
  | .write offset _ => offset ≤ f.sv.inode.size ∨ offset < MAXBLOCKS * SFS_BLOCKSIZE ∧
      (f.blockAt (offset / SFS_BLOCKSIZE) ≠ 0 ∨ f.fs.Roomy)
  | _ => True

def next (f : File) (q : Request) : Option File := (serve f q).toOption.map Prod.fst

instance : DecidablePred Request.Fits
  | .read offset resid => inferInstanceAs (Decidable (offset + resid < 2 ^ 31))
  | .write offset bytes => inferInstanceAs (Decidable (offset + bytes.length < 2 ^ 31))
  | .truncate => inferInstanceAs (Decidable True)

instance (f : File) : DecidablePred (Begins f)
  | .read _ _ => inferInstanceAs (Decidable True)
  | .write _ _ =>
    have : Decidable f.fs.Roomy := inferInstanceAs (Decidable (∃ b < _, ∃ c < b, _ ∧ _))
    inferInstanceAs (Decidable (_ ∨ _ ∧ (_ ∨ _)))
  | .truncate => inferInstanceAs (Decidable True)

def File.contents (f : File) : List UInt8 := slice f.byteAt 0 f.sv.inode.size

/-- A file with blocks that are its own, and zeros in them past its end. -/
structure Sound (own : Owner) (f : File) : Prop extends Owns own f where
  size : f.sv.inode.size ≤ 143 * 512
  tail : ∀ x, f.sv.inode.size ≤ x → f.byteAt x = 0

variable {own own' : Owner} {f f' : File} {q : Request} {r : Reply}

variable {offset : Nat}

theorem serve_read {uio : Uio} {e : Option Errno} {resid : Nat}
    (h : io f ⟨.read, offset, resid, []⟩ = .ok (f', uio, e)) :
    serve f (.read offset resid) = .ok (f', ⟨uio, e⟩) := by
  simp only [serve, h, ok_bind]
  rfl

theorem serve_write {uio : Uio} {e : Option Errno} {bytes : List UInt8}
    (h : io f ⟨.write, offset, bytes.length, bytes⟩ = .ok (f', uio, e)) :
    serve f (.write offset bytes) = .ok (f', ⟨uio, e⟩) := by
  simp only [serve, h, ok_bind]
  rfl

theorem serve_truncate (h : truncate f 0 = .ok f') :
    serve f .truncate = .ok (f', ⟨⟨.read, 0, 0, []⟩, none⟩) := by
  simp only [serve, h, ok_bind]
  rfl

def Served (f : File) (q : Request) : Prop :=
  ∃ own' f' r, serve f q = .ok (f', r) ∧ Sound own' f' ∧ Right f.contents q r ∧
    f'.contents = after f.contents q r

theorem served_read (h : Sound own f) {resid : Nat} (hfits : offset + resid < 2 ^ 31) :
    Served f (.read offset resid) := by
  have hio := io_read h.toOwns h.size offset resid hfits []
  refine ⟨own, f, _, serve_read hio, h, ?_, rfl⟩
  simp [Right, Uio.got, File.contents, take_drop_slice, List.nil_append, slice_length, and_self]

theorem served_truncate (h : Sound own f) : Served f .truncate := by
  obtain ⟨own', f', htrunc, ht⟩ := truncate_spec h.toOwns 0
  have hbyte : ∀ x, f'.byteAt x = 0 := by
    intro x
    unfold File.byteAt
    rw [if_pos (ht.nothing.1 _)]
  have hzero : f'.sv.inode.size ≤ 143 * 512 := by
    rw [ht.size]
    exact Nat.zero_le _
  refine ⟨own', f', _, serve_truncate htrunc, ⟨ht.owns, hzero, fun x _ => hbyte x⟩, rfl, ?_⟩
  unfold File.contents after
  rw [ht.size]
  rfl

theorem served_write (h : Sound own f) {bytes : List UInt8}
    (hbegins : Begins f (.write offset bytes)) : Served f (.write offset bytes) := by
  have hsize := h.size
  have hwithin : offset ≤ 143 * 512 := hbegins.elim (fun hle => by omega) fun hlt => le_of_lt hlt.1
  have hfull : Uio.Full ⟨.write, offset, bytes.length, bytes⟩ := ⟨rfl, rfl⟩
  obtain ⟨own', f', n, e, hio, hw⟩ := io_write h.toOwns (by omega) hfull
  have hle : n ≤ bytes.length := hw.le
  have hmoved : bytes.length - (bytes.length - n) = n := by omega
  have htake : (bytes.take n).length = n := by
    rw [List.length_take]
    exact min_eq_left hle
  have hlast : offset + n ≤ 143 * 512 := by
    by_contra hpast
    have hblock := hw.mapped (143 * 512) hwithin (by simp only; omega)
    exact absurd (blockAt_lt hblock) (by decide)
  refine ⟨own', f', _, serve_write hio, ⟨hw.owns, ?_, ?_⟩, ⟨?_, ?_, ?_⟩, ?_⟩
  · rw [hw.size]
    exact Nat.max_le.mpr ⟨hsize, hlast⟩
  · intro x hx
    rw [hw.size, Nat.max_le] at hx
    rw [hw.bytes]
    unfold splice
    rw [htake, if_neg (by simp only at hx ⊢; omega)]
    exact h.tail x hx.1
  · exact Nat.sub_le _ _
  · change offset + n = offset + (bytes.length - (bytes.length - n))
    rw [hmoved]
  · obtain rfl | rfl | ⟨rfl, hbig⟩ := hw.error
    · have hdone : n = bytes.length := hw.done rfl
      change bytes.length - n = 0
      omega
    · exact .inl rfl
    · exact .inr ⟨rfl, hbig⟩
  · change slice f'.byteAt 0 f'.sv.inode.size = if e.isSome ∧ _ then _ else _
    simp only [Uio.put, hmoved]
    split
    · -- the size stays, since the first block was there or could be allocated
      rename_i hnone
      obtain rfl : n = 0 := by rw [← htake, hnone.2, List.length_nil]
      have he : e ≠ none := Option.isSome_iff_ne_none.mp hnone.1
      have hle : offset ≤ f.sv.inode.size := hbegins.resolve_right fun ⟨hlt, hblock⟩ => by
        obtain rfl | rfl | ⟨-, hbig⟩ := hw.error
        · exact he rfl
        · exact hblock.elim (fun hne => hne (hw.hole he)) (hw.room rfl rfl)
        · exact absurd hlt (not_lt.mpr hbig)
      rw [hw.size, hw.bytes, List.take_zero, splice_nil]
      exact congrArg (slice f.byteAt 0) (Nat.max_eq_left hle)
    · unfold File.contents
      rw [overlay_slice fun x hx _ => h.tail x hx, hw.size, hw.bytes, htake]

theorem served (h : Sound own f) (hfits : q.Fits) (hbegins : Begins f q) : Served f q := by
  cases q with
  | read offset resid => exact served_read h hfits
  | write offset bytes => exact served_write h hbegins
  | truncate => exact served_truncate h

/-- No write starts past the end of the file at a block that it cannot get. -/
theorem refines_of_begins (own : Owner) (f : File) (h : Sound own f) (qs : List Request)
    (hfits : ∀ q ∈ qs, q.Fits) (hqs : Meets next Begins f qs) : Refines f f.contents qs := by
  induction qs generalizing own f with
  | nil => exact slice_length
  | cons q qs ih =>
    rw [List.forall_mem_cons] at hfits
    obtain ⟨own', f', r, hserve, hsound, hright, hafter⟩ := served h hfits.1 hqs.1
    have hnext : next f q = some f' := by rw [next, hserve]; rfl
    refine ⟨slice_length, ?_⟩
    rw [hserve]
    refine ⟨hright, ?_⟩
    rw [← hafter]
    exact ih own' f' hsound hfits.2 (hqs.2 f' hnext)

def emptyFile : File where
  fs :=
    { nblocks := 8, disk := fun _ => zeros,
      freemap := { nbits := 4096, v := fun ix => if ix = 0 then 0x0f else 0xff },
      freemapdirty := false }
  sv :=
    { ino := 3, inode := { size := 0, type := 1, linkcount := 1, direct := fun _ => 0, indirect := 0 },
      dirty := false, refcount := 1 }

def emptyFileOwner : Owner
  | 0 => some .super
  | 1 => some (.inode 1)
  | 2 => some .map
  | 3 => some (.inode 3)
  | _ => none

theorem emptyFile_blockAt (k : Nat) : emptyFile.blockAt k = 0 := by
  by_cases hk : k < 15
  · exact blockAt_direct emptyFile ⟨k, hk⟩
  · exact blockAt_eq_zero (not_lt.mp hk) (.inr rfl)

theorem emptyFileOwner_high {b : Nat} (h : 4 ≤ b) : emptyFileOwner b = none := by
  unfold emptyFileOwner
  split <;> first | omega | rfl

theorem emptyFile_mapOk : MapOk emptyFileOwner emptyFile.fs where
  used := by decide
  high b hb _ := by
    have hbyte : emptyFile.fs.freemap.v (b / 8) = Bitmap.WORD_ALLBITS :=
      if_neg (Nat.pos_iff_ne_zero.mp (Nat.div_pos hb (by decide)))
    have hbit := Bitmap.allbits_has hbyte (Nat.mod_lt b (by decide))
    rwa [Nat.div_add_mod'] at hbit
  padded i hi hw := by
    change 4096 ≤ i at hi
    change i < 4096 at hw
    omega
  range b hb := emptyFileOwner_high (le_trans (by decide) hb)
  size := by decide
  fits := by decide
  super := rfl

theorem emptyFile_sound : Sound emptyFileOwner emptyFile where
  map := emptyFile_mapOk
  file :=
    { data := by
        intro k b hb
        rw [emptyFile_blockAt]
        refine iff_of_false (Ne.symm hb) ?_
        unfold emptyFileOwner
        split <;> simp
      ind := by
        intro b hb
        refine iff_of_false (Ne.symm hb) ?_
        unfold emptyFileOwner
        split <;> simp }
  size := by decide
  tail x _ := if_pos (emptyFile_blockAt _)

theorem refines_of_begins_empty :
    Refines emptyFile emptyFile.contents
      [.write 700 [1, 2, 3], .read 690 20, .write 73215 [4, 5], .read 73210 20, .truncate, .read 0 4] :=
  refines_of_begins emptyFileOwner emptyFile emptyFile_sound _ (by decide) (by decide +kernel)

/-- The write fails, and still makes the file that long. -/
theorem file_grows_on_failed_write :
    (∀ q ∈ [Request.write 73217 [1], .read 73216 1], q.Fits) ∧
      ¬ Refines emptyFile emptyFile.contents [.write 73217 [1], .read 73216 1] := by
  refine ⟨by decide, ?_⟩
  rintro ⟨-, hfirst⟩
  obtain ⟨-, -, hsecond⟩ := hfirst
  exact absurd hsecond.1.1 (by decide)

end Os161.Sfs
