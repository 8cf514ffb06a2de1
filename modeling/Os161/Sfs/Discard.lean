import Os161.Lib.Ends
import Os161.Sfs.Eof

/-!
# What truncation should discard

The comparisons of `sfs_truncate` are off by one for the indirect block.
-/

open List Option

namespace Os161.Sfs

open Lib

def blocklen (len : Nat) : Nat := (len + SFS_BLOCKSIZE - 1) / SFS_BLOCKSIZE

inductive Change where
  | write (offset : Nat) (bytes : List UInt8)
  | truncate (len : Nat)

def Change.Fits : Change → Prop
  | .write offset _ => offset < 2 ^ 31
  | .truncate len => len < 2 ^ 31

structure Grown where
  file : File
  rewritten : Nat → Prop

def Grown.step (g : Grown) : Change → Option Grown
  | .write offset bytes =>
    match io g.file ⟨.write, offset, bytes.length, bytes⟩ with
    | .ok (f, uio, _) => some ⟨f, fun x => g.rewritten x ∨ offset ≤ x ∧ x < uio.offset⟩
    | .error _ => none
  | .truncate len =>
    match truncate g.file len with
    | .ok f => some ⟨f, g.rewritten⟩
    | .error _ => none

def ReadsZero (f : File) (len : Nat) : Prop :=
  ∀ changes g, (∀ c ∈ changes, c.Fits) → run Grown.step ⟨f, fun _ => False⟩ changes = some g →
    ∀ offset resid f' uio, offset < 2 ^ 31 → resid < 2 ^ 32 →
      io g.file ⟨.read, offset, resid, []⟩ = .ok (f', uio, none) →
        ∀ i < uio.buf.length, len ≤ offset + i → ¬ g.rewritten (offset + i) → uio.buf[i]? = some 0

/-- `f'` is what is left of `f`: just the blocks past the end are unmapped and free. -/
structure CutTo (f f' : File) (len : Nat) : Prop where
  size : f'.sv.inode.size = len
  gone : ∀ k, blocklen len ≤ k → f'.blockAt k = 0 ∧
    (f.blockAt k ≠ 0 → f'.fs.freemap.has (f.blockAt k) = false)
  kept : ∀ k, k < blocklen len → f'.blockAt k = f.blockAt k
  indirect : f.sv.inode.indirect ≠ 0 →
    (f'.sv.inode.indirect = 0 ∧ f'.fs.freemap.has f.sv.inode.indirect = false ↔
      ∀ k, SFS_NDIRECT ≤ k → f'.blockAt k = 0)
  zero : ReadsZero f' len

/-- No block right after the new end in the indirect block, no empty indirect block when the new end
is after all but one of its blocks, and only zeros up to the end of the last block. -/
structure Clean (f : File) (len : Nat) : Prop where
  next : SFS_NDIRECT ≤ blocklen len → f.blockAt (blocklen len) = 0
  indirect : SFS_NDIRECT + SFS_DBPERIDB - 1 ≤ blocklen len → f.sv.inode.indirect ≠ 0 →
    ∃ k, SFS_NDIRECT ≤ k ∧ f.blockAt k ≠ 0
  tail : ∀ x, len ≤ x → x < blocklen len * SFS_BLOCKSIZE → f.byteAt x = 0

variable {own own' : Owner} {f f' : File} {b k len n x : Nat}

theorem foldlM_keeps {α β : Type} {P : β → Prop} {step : β → α → K β}
    (hstep : ∀ s a s', P s → step s a = .ok s' → P s') {l : List α} {s s' : β} (hs : P s)
    (h : l.foldlM step s = .ok s') : P s' := by
  induction l generalizing s with
  | nil =>
    cases h
    exact hs
  | cons a l ih =>
    obtain ⟨s₁, h₁, h⟩ := bind_eq_ok h
    exact ih (hstep s a s₁ hs h₁) h

theorem bfree_disk {fs fs' : Fs} (h : bfree fs b = .ok fs') : fs'.disk = fs.disk := by
  unfold bfree at h
  split at h
  · cases h
  · cases h
    rfl

theorem discardDirect_keeps {i : Fin SFS_NDIRECT} (h : discardDirect n f i = .ok f') :
    f'.fs.disk = f.fs.disk ∧ f'.sv.inode.indirect = f.sv.inode.indirect := by
  unfold discardDirect at h
  simp only at h
  split at h
  · obtain ⟨fs, hfree, h⟩ := bind_eq_ok h
    cases h
    exact ⟨bfree_disk hfree, rfl⟩
  · cases h
    exact ⟨rfl, rfl⟩

theorem discardSlot_disk {s s' : Scan} {j : Nat} (h : discardSlot n s j = .ok s') :
    s'.fs.disk = s.fs.disk := by
  obtain ⟨s₁, hclear, h⟩ := bind_eq_ok h
  have hsame : s'.fs = s₁.fs := by
    cases h
    split <;> rfl
  rw [hsame]
  unfold clearSlot at hclear
  split at hclear
  · obtain ⟨fs, hfree, hclear⟩ := bind_eq_ok hclear
    cases hclear
    exact bfree_disk hfree
  · cases hclear
    rfl

structure Spared (f f' : File) (n : Nat) : Prop where
  disk : ∀ b, b ≠ f.sv.inode.indirect → f'.fs.disk b = f.fs.disk b
  indirect : f'.sv.inode.indirect = f.sv.inode.indirect ∨ n < 142 ∧ f'.sv.inode.indirect = 0

theorem discardIndirect_spared (h : discardIndirect n f = .ok f') : Spared f f' n := by
  unfold discardIndirect at h
  simp only at h
  split at h
  · next hlow =>
    obtain ⟨buf, -, h⟩ := bind_eq_ok h
    obtain ⟨s, hloop, h⟩ := bind_eq_ok h
    have hdisk : s.fs.disk = f.fs.disk := by
      apply foldlM_keeps (P := fun s => s.fs.disk = f.fs.disk) _ _ hloop
      · exact fun s j s' hs hstep => (discardSlot_disk hstep).trans hs
      · rfl
    split at h
    · obtain ⟨fs, hfree, h⟩ := bind_eq_ok h
      cases h
      refine ⟨fun b _ => ?_, .inr ⟨hlow.1, rfl⟩⟩
      rw [← hdisk, ← bfree_disk hfree]
    · split at h
      · obtain ⟨fs, hwrite, h⟩ := bind_eq_ok h
        cases h
        refine ⟨fun b hb => ?_, .inl rfl⟩
        unfold wblock at hwrite
        split at hwrite
        · cases hwrite
          rw [← hdisk]
          exact Function.update_of_ne hb ..
        · cases hwrite
      · cases h
        exact ⟨fun b _ => congrFun hdisk b, .inl rfl⟩
  · cases h
    exact ⟨fun _ _ => rfl, .inl rfl⟩

theorem truncate_spared (h : truncate f len = .ok f') : Spared f f' (blocklen len) := by
  obtain ⟨f₁, hdirect, h⟩ := bind_eq_ok h
  obtain ⟨f₂, hindirect, h⟩ := bind_eq_ok h
  cases h
  have hkeeps : f₁.fs.disk = f.fs.disk ∧ f₁.sv.inode.indirect = f.sv.inode.indirect := by
    apply foldlM_keeps (P := fun f₁ : File =>
      f₁.fs.disk = f.fs.disk ∧ f₁.sv.inode.indirect = f.sv.inode.indirect) _ _ hdirect
    · intro f₁ i f₂ hf hstep
      obtain ⟨hdisk, hind⟩ := discardDirect_keeps hstep
      exact ⟨hdisk.trans hf.1, hind.trans hf.2⟩
    · exact ⟨rfl, rfl⟩
  have hspared := discardIndirect_spared hindirect
  refine ⟨fun b hb => ?_, ?_⟩
  · rw [← hkeeps.2] at hb
    exact (hspared.disk b hb).trans (congrFun hkeeps.1 b)
  · rw [← hkeeps.2]
    exact hspared.indirect

theorem Truncated.byteAt (h : Owns own f) (ht : Truncated own own' f f' len)
    (hs : Spared f f' (blocklen len)) (x : Nat) :
    f'.byteAt x = if Discarded (blocklen len) (x / 512) then 0 else f.byteAt x := by
  have htable : f'.blockAt (x / 512) =
      if Discarded (blocklen len) (x / 512) then 0 else f.blockAt (x / 512) := ht.table (x / 512)
  unfold File.byteAt
  rw [htable]
  split
  · rfl
  · split
    · rfl
    · next hne =>
      rw [hs.disk]
      -- the indirect block is no block of data
      intro heq
      have hrole := h.file.data_ne hne
      rw [heq, h.file.ind_ne (heq ▸ hne)] at hrole
      cases hrole

theorem byteAt_high (hx : 143 * 512 ≤ x) : f.byteAt x = 0 := by
  unfold File.byteAt
  rw [if_pos]
  exact blockAt_eq_zero (by omega) (.inl (by omega))

structure Zeroed (len : Nat) (g : Grown) : Prop where
  owns : ∃ own, Owns own g.file
  size : g.file.sv.inode.size < 2 ^ 31
  zero : ∀ x, len ≤ x → ¬ g.rewritten x → g.file.byteAt x = 0

theorem Zeroed.step {g g' : Grown} {c : Change} (h : Zeroed len g) (hfits : c.Fits)
    (hstep : g.step c = some g') : Zeroed len g' := by
  obtain ⟨own, howns⟩ := h.owns
  cases c with
  | write offset bytes =>
    have hfull : Uio.Full ⟨.write, offset, bytes.length, bytes⟩ := ⟨rfl, rfl⟩
    obtain ⟨own', f', n, e, hio, hw⟩ := io_write howns h.size hfull
    simp only [Grown.step, hio, some.injEq] at hstep
    subst hstep
    refine ⟨⟨own', hw.owns⟩, ?_, fun x hx hnot => ?_⟩
    · have hend : offset + n < 2 ^ 31 := by
        obtain rfl | hpos := Nat.eq_zero_or_pos n
        · exact hfits
        · have hmapped := hw.mapped (offset + n - 1) (by simp only; omega) (by simp only; omega)
          by_contra hlarge
          exact hmapped (blockAt_eq_zero (by omega) (.inl (by omega)))
      rw [hw.size]
      exact Nat.max_lt.mpr ⟨h.size, hend⟩
    · rw [not_or] at hnot
      have hout : ¬ (offset ≤ x ∧ x < offset + (bytes.take n).length) := by
        rw [length_take_of_le hw.le]
        exact hnot.2
      rw [hw.bytes]
      unfold splice
      rw [if_neg hout]
      exact h.zero x hx hnot.1
  | truncate n =>
    obtain ⟨own', f', htruncate, ht⟩ := truncate_spec howns n
    simp only [Grown.step, htruncate, some.injEq] at hstep
    subst hstep
    refine ⟨⟨own', ht.owns⟩, ?_, fun x hx hnot => ?_⟩
    · rw [ht.size]
      exact hfits
    · rw [ht.byteAt howns (truncate_spared htruncate)]
      split
      · rfl
      · exact h.zero x hx hnot

theorem Zeroed.run {g g' : Grown} {changes : List Change} (h : Zeroed len g)
    (hfits : ∀ c ∈ changes, c.Fits) (hrun : run Grown.step g changes = some g') :
    Zeroed len g' := by
  induction changes generalizing g with
  | nil =>
    cases hrun
    exact h
  | cons c changes ih =>
    rw [forall_mem_cons] at hfits
    obtain ⟨g₁, hstep, hrun⟩ := run_cons_some hrun
    exact ih (h.step hfits.1 hstep) hfits.2 hrun

theorem io_read_ok {uio : Uio} {offset resid : Nat} (h : Owns own f)
    (hsize : f.sv.inode.size < 2 ^ 31) (hoff : offset < 2 ^ 31) (hresid : resid < 2 ^ 32)
    (hio : io f ⟨.read, offset, resid, []⟩ = .ok (f', uio, none)) :
    ∃ n, uio.buf = slice f.byteAt offset n := by
  have hreads : ∀ {n}, Reads f ⟨.read, offset, resid, []⟩ n (.ok (f', uio, none)) →
      uio.buf = slice f.byteAt offset n := by
    intro n hn
    cases hn
    exact nil_append _
  by_cases hin : offset < f.sv.inode.size
  · by_cases hend : offset + resid < 2 ^ 31
    · rw [io_cut hsize hin hend] at hio
      obtain ⟨-, hread⟩ | ⟨-, f₁, uio₁, hstop⟩ :=
        ioBody_cases h ⟨.read, offset, min resid (f.sv.inode.size - offset), []⟩ rfl
      · have hcut : Reads f ⟨.read, offset, resid, []⟩ _ _ := hread.cut
        rw [hio] at hcut
        exact ⟨_, hreads hcut⟩
      · rw [hstop] at hio
        cases hio
    · rw [io_wrapped hoff hresid hsize hin (not_lt.mp hend)] at hio
      have hout : ¬ InBlocks offset resid := by
        change ¬ (offset + resid ≤ 143 * 512 ∨ resid = 0 ∧ _)
        omega
      have hstops : Stops (ioBody f ⟨.read, offset, resid, []⟩) := ioBody_stops h rfl hout
      obtain ⟨f₁, uio₁, hstop⟩ := hstops
      rw [hstop] at hio
      cases hio
  · rw [io_at_end (by rw [toOff_of_lt hsize]; omega)] at hio
    cases hio
    exact ⟨0, rfl⟩

theorem ReadsZero.byteAt (hzero : ReadsZero f len) (h : Owns own f) (hn : n = 143 * 512)
    (hx : len ≤ x) (hlow : x < n) : f.byteAt x = 0 := by
  obtain ⟨own', f', htruncate, ht⟩ := truncate_spec h n
  have hbytes : f'.byteAt x = f.byteAt x := by
    rw [ht.byteAt h (truncate_spared htruncate), if_neg]
    unfold Discarded blocklen SFS_BLOCKSIZE
    split <;> omega
  have hread := io_read ht.owns (by rw [ht.size, hn]) 0 n (by omega) []
  rw [ht.size, Nat.sub_zero, min_self] at hread
  have hfits : (Change.truncate n).Fits := by
    change n < 2 ^ 31
    omega
  have hrun : run Grown.step ⟨f, fun _ => False⟩ [.truncate n] = some ⟨f', fun _ => False⟩ := by
    simp only [run, Grown.step, htruncate]
    rfl
  have hbyte := hzero [.truncate n] _ (forall_mem_singleton.mpr hfits) hrun 0 n f' _
    (by decide) (by omega) hread x
  simp only [Uio.got, nil_append, slice_length, zero_add, getElem?_slice, hlow, hbytes,
    if_true, not_false_eq_true, some.injEq, forall_const] at hbyte
  exact hbyte hx

theorem readsZero_iff (h : Owns own f) (hsize : f.sv.inode.size < 2 ^ 31) :
    ReadsZero f len ↔ ∀ x, len ≤ x → f.byteAt x = 0 := by
  constructor
  · intro hzero x hx
    by_cases hlow : x < 143 * 512
    · exact hzero.byteAt h rfl hx hlow
    · exact byteAt_high (not_lt.mp hlow)
  · intro hbytes changes g hfits hrun offset resid f' uio hoff hresid hio i hi hx hnot
    have hstart : Zeroed len ⟨f, fun _ => False⟩ := ⟨⟨own, h⟩, hsize, fun x hx _ => hbytes x hx⟩
    have hg := hstart.run hfits hrun
    obtain ⟨own', howns⟩ := hg.owns
    obtain ⟨n, hbuf⟩ := io_read_ok howns hg.size hoff hresid hio
    rw [hbuf, slice_length] at hi
    rw [hbuf, getElem?_slice, if_pos hi, hg.zero _ hx hnot]

/-! ## The blocks -/

theorem not_discarded (h : k < n) : ¬ Discarded n k := by
  unfold Discarded
  split <;> omega

theorem discarded_iff (h : n ≤ k) (hlast : k < 143) : Discarded n k ↔ ¬ (k = n ∧ 15 ≤ k) := by
  unfold Discarded
  split <;> omega

theorem not_discarded_of_high (h : 142 ≤ n) (hk : 15 ≤ k) : ¬ Discarded n k := by
  unfold Discarded
  split <;> omega

theorem Truncated.blockAt (ht : Truncated own own' f f' len) (k : Nat) :
    f'.blockAt k = if Discarded (blocklen len) k then 0 else f.blockAt k := ht.table k

section Blocks

variable (h : Owns own f) (ht : Truncated own own' f f' len) (hs : Spared f f' (blocklen len))

include h ht

theorem Truncated.free {r : Role} (hr : r.of f.sv.ino) (hb : b ≠ 0) (hrole : own b = some r)
    (hdata : ∀ k, f'.blockAt k ≠ b) (hind : f'.sv.inode.indirect ≠ b) :
    f'.fs.freemap.has b = false := by
  have hlow : b < f'.fs.nblocks := by
    by_contra hhigh
    rw [h.map.range b (by rw [← ht.frame.nblocks]; omega)] at hrole
    cases hrole
  have hfile := ht.owns.file
  rw [ht.stable.ino] at hfile
  rw [ht.owns.map.used b hlow]
  cases hown : own' b with
  | none => rfl
  | some r' =>
    have hof : r'.of f.sv.ino := by
      by_contra hnot
      have hsame := (ht.frame.role b r' hnot).mp hown
      rw [hrole] at hsame
      cases hsame
      exact hnot hr
    cases r' with
    | super => exact hof.elim
    | map => exact hof.elim
    | inode ino => exact hof.elim
    | ind ino =>
      cases hof
      exact absurd ((hfile.ind b hb).mpr hown) hind
    | data ino k =>
      cases hof
      exact absurd ((hfile.data k b hb).mpr hown) (hdata k)

theorem Truncated.of_blockAt (hb : b ≠ 0) (hk : f'.blockAt k = b) :
    own b = some (.data f.sv.ino k) := by
  rw [ht.blockAt] at hk
  split at hk
  · exact absurd hk.symm hb
  · exact (h.file.data k b hb).mp hk

theorem Truncated.free_indirect (hi : f.sv.inode.indirect ≠ 0) (hgone : f'.sv.inode.indirect = 0) :
    f'.fs.freemap.has f.sv.inode.indirect = false := by
  have hrole := h.file.ind_ne hi
  apply ht.free h (r := .ind f.sv.ino) rfl hi hrole
  · intro k hk
    have hsame := ht.of_blockAt h hi hk
    rw [hrole] at hsame
    cases hsame
  · exact fun hind => hi (hind.symm.trans hgone)

omit h in
theorem Truncated.past (hk : blocklen len ≤ k) :
    f'.blockAt k = if k = blocklen len ∧ 15 ≤ k then f.blockAt k else 0 := by
  by_cases hlast : k < 143
  · simp only [ht.blockAt, discarded_iff hk hlast, ite_not]
  · have hzero : ∀ f : File, f.blockAt k = 0 :=
      fun f => blockAt_eq_zero (by omega) (.inl (by omega))
    rw [hzero, hzero, ite_self]

include hs

theorem Truncated.free_data (hk : f.blockAt k ≠ 0) (hgone : f'.blockAt k = 0) :
    f'.fs.freemap.has (f.blockAt k) = false := by
  have hrole := h.file.data_ne hk
  apply ht.free h (r := .data f.sv.ino k) rfl hk hrole
  · intro k' hk'
    have hsame := ht.of_blockAt h hk hk'
    rw [hrole] at hsame
    cases hsame
    exact hk (hk'.symm.trans hgone)
  · intro hind
    obtain hkeep | ⟨-, hnone⟩ := hs.indirect
    · have hsame := h.file.ind_ne (hkeep ▸ hind ▸ hk)
      rw [← hkeep, hind, hrole] at hsame
      cases hsame
    · exact hk (hind.symm.trans hnone)

theorem Truncated.clean (hcut : CutTo f f' len) (hlen : len < 2 ^ 31) : Clean f len where
  next hge := by
    have hgone := (hcut.gone (blocklen len) (le_rfl)).1
    rwa [ht.past (le_rfl), if_pos ⟨rfl, hge⟩] at hgone
  indirect hge hi := by
    by_contra hnone
    have hall : ∀ k, 15 ≤ k → f'.blockAt k = 0 := by
      intro k hk
      rw [ht.blockAt]
      split
      · rfl
      · by_contra hne
        exact hnone ⟨k, hk, hne⟩
    obtain ⟨hgone, -⟩ := (hcut.indirect hi).mpr hall
    obtain hkeep | ⟨hlow, -⟩ := hs.indirect
    · exact hi (hkeep.symm.trans hgone)
    · exact absurd hlow (not_lt.mpr hge)
  tail x hx hlt := by
    have hsize : f'.sv.inode.size < 2 ^ 31 := by rwa [ht.size]
    have hzero := (readsZero_iff ht.owns hsize).mp hcut.zero x hx
    rwa [ht.byteAt h hs, if_neg] at hzero
    exact not_discarded ((Nat.div_lt_iff_lt_mul (by decide)).mpr hlt)

theorem Truncated.cutTo (hclean : Clean f len) (hlen : len < 2 ^ 31) : CutTo f f' len := by
  have hgone : ∀ k, blocklen len ≤ k → f'.blockAt k = 0 := by
    intro k hk
    rw [ht.past hk]
    split
    · next heq =>
      rw [heq.1]
      exact hclean.next (heq.1 ▸ heq.2)
    · rfl
  refine ⟨ht.size, fun k hk => ⟨hgone k hk, fun hne => ?_⟩, ?_, ?_, ?_⟩
  · exact ht.free_data h hs hne (hgone k hk)
  · intro k hk
    rw [ht.blockAt, if_neg (not_discarded hk)]
  · intro hi
    constructor
    · intro hfreed k hk
      exact blockAt_eq_zero hk (.inr hfreed.1)
    · intro hall
      have hnone : f'.sv.inode.indirect = 0 := by
        by_cases hlow : blocklen len < 142
        · exact ht.empty hlow hall
        · obtain ⟨k, hk, hne⟩ := hclean.indirect (not_lt.mp hlow) hi
          have := hall k hk
          rw [ht.blockAt, if_neg (not_discarded_of_high (not_lt.mp hlow) hk)] at this
          exact absurd this hne
      exact ⟨hnone, ht.free_indirect h hi hnone⟩
  · have hsize : f'.sv.inode.size < 2 ^ 31 := by rwa [ht.size]
    apply (readsZero_iff ht.owns hsize).mpr
    intro x hx
    by_cases hlt : x < blocklen len * 512
    · rw [ht.byteAt h hs]
      split
      · rfl
      · exact hclean.tail x hx hlt
    · unfold File.byteAt
      rw [if_pos (hgone _ ((Nat.le_div_iff_mul_le (by decide)).mpr (not_lt.mp hlt)))]

end Blocks

theorem truncate_discards_iff (own : Owner) (f : File) (h : Owns own f) (len : Nat)
    (hlen : len < 2 ^ 31) : ∃ f', truncate f len = .ok f' ∧ (CutTo f f' len ↔ Clean f len) := by
  obtain ⟨own', f', htruncate, ht⟩ := truncate_spec h len
  have hs := truncate_spared htruncate
  refine ⟨f', htruncate, fun hcut => ?_, fun hclean => ?_⟩
  · exact ht.clean h hs hcut hlen
  · exact ht.cutTo h hs hclean hlen

def writeAndCut (offset : Nat) : K (File × File) := do
  let (f, _, _) ← io emptyFile ⟨.write, offset, 1, [1]⟩
  let f' ← truncate f offset
  pure (f, f')

theorem writeAndCut_owns {offset : Nat} (h : writeAndCut offset = .ok (f, f')) :
    truncate f offset = .ok f' ∧ ∃ own, Owns own f := by
  have hfull : Uio.Full ⟨.write, offset, 1, [1]⟩ := ⟨rfl, rfl⟩
  obtain ⟨own, f₁, n, e, hio, hw⟩ := io_write emptyFile_sound.toOwns (by decide) hfull
  unfold writeAndCut at h
  rw [hio, ok_bind] at h
  obtain ⟨f₂, htruncate, h⟩ := bind_eq_ok h
  cases h
  exact ⟨htruncate, own, hw.owns⟩

theorem block_overlooked :
    ∃ f f' own, writeAndCut 7680 = .ok (f, f') ∧ Owns own f ∧ f'.blockAt 15 = 5 ∧
      f'.fs.freemap.has 5 = true ∧ ¬ CutTo f f' 7680 := by
  have hrun : ∃ p ∈ (writeAndCut 7680).toOption,
      p.2.blockAt 15 = 5 ∧ p.2.fs.freemap.has 5 = true := by decide +kernel
  obtain ⟨⟨f, f'⟩, hok, hblock, hused⟩ := hrun
  replace hok := toOption_eq_ok hok
  obtain ⟨-, own, howns⟩ := writeAndCut_owns hok
  refine ⟨f, f', own, hok, howns, hblock, hused, fun hcut => ?_⟩
  have hgone := (hcut.gone 15 (by decide)).1
  rw [hblock] at hgone
  cases hgone

theorem truncate_discards_iff_block :
    ∃ f f' own, writeAndCut 512 = .ok (f, f') ∧ Owns own f ∧ f.blockAt 1 = 4 ∧ CutTo f f' 512 := by
  have hrun : ∃ p ∈ (writeAndCut 512).toOption, p.1.blockAt 1 = 4 := by decide +kernel
  obtain ⟨⟨f, f'⟩, hok, hblock⟩ := hrun
  replace hok := toOption_eq_ok hok
  obtain ⟨htruncate, own, howns⟩ := writeAndCut_owns hok
  obtain ⟨f₁, hsame, hiff⟩ := truncate_discards_iff own f howns 512 (by decide)
  rw [htruncate] at hsame
  cases hsame
  refine ⟨f, f', own, hok, howns, hblock, hiff.mpr ?_⟩
  refine ⟨fun hge => ?_, fun hge => ?_, fun x hx hlt => ?_⟩
  · exact absurd hge (by decide)
  · exact absurd hge (by decide)
  · rw [show blocklen 512 * SFS_BLOCKSIZE = 512 from rfl] at hlt
    omega

end Os161.Sfs
