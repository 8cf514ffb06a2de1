import Os161.Lib.Ends
import Os161.Sfs.Proofs
import Os161.Vfs.Paths

/-!
# Only regular files in the directory

The entries name regular files as long as no `vfs_link` gives the volume itself a name.
-/

open Os161.Lib Os161.Kern List Option

namespace Os161.Sfs.Regular

open Vfs.Paths (Path OpenFlags splitPath skipSlashes)

abbrev NAME_MAX : Nat := 255

/-- A path as C has it: each character is a byte, and none is NUL. -/
def IsCString (path : Path) : Prop := ∀ ch ∈ path, 0 < ch.toNat ∧ ch.toNat < 256

abbrev CString := { path : Path // IsCString path }

def toName (path : Path) : List UInt8 := path.map fun ch => UInt8.ofNat ch.toNat

def subpath (path : Path) : Path := (splitPath path).2

def sfsLookparent (s : State) (path : Path) : K (State × Except Errno (List UInt8)) := do
  let sv ← getVnode s SFS_ROOT_LOCATION
  if sv.inode.type ≠ SFS_TYPE_DIR then pure (s, .error .ENOTDIR)
  else if NAME_MAX + 1 < path.length + 1 then pure (s, .error .ENAMETOOLONG)
  else do
    let s ← incref s SFS_ROOT_LOCATION
    pure (s, .ok (toName path))

def sfsLookup (s : State) (path : Path) : K (State × Except Errno Nat) := do
  let sv ← getVnode s SFS_ROOT_LOCATION
  if sv.inode.type ≠ SFS_TYPE_DIR then pure (s, .error .ENOTDIR)
  else do
    let (s, r) ← lookonce s (toName path)
    pure (s, r.map Prod.fst)

def vfsLookparent (s : State) (path : Path) : K (State × Except Errno (List UInt8)) := do
  let s ← getroot s
  let (s, r) ← (if subpath path = [] then pure (s, .error .EINVAL) else sfsLookparent s (subpath path))
  let s ← decref s SFS_ROOT_LOCATION
  pure (s, r)

def vfsLookup (s : State) (path : Path) : K (State × Except Errno Nat) := do
  let s ← getroot s
  if subpath path = [] then pure (s, .ok SFS_ROOT_LOCATION)
  else do
    let (s, r) ← sfsLookup s (subpath path)
    let s ← decref s SFS_ROOT_LOCATION
    pure (s, r)

/-! ## The calls -/

/-- The volume, and the vnodes that are open, as often as they are. -/
structure Session where
  vol : State
  opens : List Nat

def decopen (x : Session) (vn : Nat) : K Session := if vn ∈ x.opens then
    if vn ∈ x.opens.erase vn then pure { x with opens := x.opens.erase vn }
    else do
      let vol ← syncInode x.vol vn
      pure ⟨vol, x.opens.erase vn⟩
  else throw .vnode

/-- Without the `rw_lock` of the vnode. -/
def vfsClose (x : Session) (vn : Nat) : K Session := do
  let x ← decopen x vn
  let vol ← decref x.vol vn
  pure { x with vol }

def openCreate (s : State) (path : Path) (excl : Bool) : K (State × Except Errno Nat) := do
  let (s, r) ← vfsLookparent s path
  match r with
  | .error e => pure (s, .error e)
  | .ok name => do
    let (s, r) ← creat s name excl
    let s ← decref s SFS_ROOT_LOCATION
    pure (s, r)

/-- `sfs_open`, and `sfs_opendir` for a directory; `append` is `O_APPEND`. -/
def vopOpen (sv : Sv) (flags : OpenFlags) (append : Bool) : Option Errno :=
  if sv.inode.type = SFS_TYPE_DIR then
    if flags.how ≠ .rdonly then some .EISDIR
    else if append then some .EISDIR
    else none
  else if append then some .EUNIMP
  else none

def openTruncate (x : Session) (vn : Nat) (flags : OpenFlags) : K (Session × Option Errno) :=
  if flags.trunc then
    if flags.canwrite then do
      let (vol, r) ← vopTruncate x.vol vn 0
      pure ({ x with vol }, r)
    else pure (x, some .EINVAL)
  else pure (x, none)

def openVnode (x : Session) (vn : Nat) (flags : OpenFlags) (append : Bool) :
    K (Session × Except Errno Nat) := do
  let sv ← getVnode x.vol vn
  match vopOpen sv flags append with
  | some e => do
    let vol ← decref x.vol vn
    pure ({ x with vol }, .error e)
  | none => do
    let (x, r) ← openTruncate { x with opens := vn :: x.opens } vn flags
    match r with
    | some e => do
      let x ← vfsClose x vn
      pure (x, .error e)
    | none => pure (x, .ok vn)

def vfsOpen (x : Session) (path : Path) (flags : OpenFlags) (append : Bool) :
    K (Session × Except Errno Nat) :=
  if flags.how = .other then pure (x, .error .EINVAL)
  else do
    let (vol, r) ← (if flags.creat then openCreate x.vol path flags.excl else vfsLookup x.vol path)
    match r with
    | .error e => pure ({ x with vol }, .error e)
    | .ok vn => openVnode { x with vol } vn flags append

def vfsRemove (s : State) (path : Path) : K (State × Option Errno) := do
  let (s, r) ← vfsLookparent s path
  match r with
  | .error e => pure (s, some e)
  | .ok name => do
    let (s, r) ← unlink s name
    let s ← decref s SFS_ROOT_LOCATION
    pure (s, r)

/-- Both directories are the root, so they are on one file system. -/
def vfsRename (s : State) (oldpath newpath : Path) : K (State × Option Errno) := do
  let (s, r) ← vfsLookparent s oldpath
  match r with
  | .error e => pure (s, some e)
  | .ok oldname => do
    let (s, r) ← vfsLookparent s newpath
    match r with
    | .error e => do
      let s ← decref s SFS_ROOT_LOCATION
      pure (s, some e)
    | .ok newname => do
      let (s, r) ← rename s oldname newname
      let s ← decref s SFS_ROOT_LOCATION
      let s ← decref s SFS_ROOT_LOCATION
      pure (s, r)

/-- What `oldpath` leads to is linked whatever it is. -/
def vfsLink (s : State) (oldpath newpath : Path) : K (State × Option Errno) := do
  let (s, r) ← vfsLookup s oldpath
  match r with
  | .error e => pure (s, some e)
  | .ok oldfile => do
    let (s, r) ← vfsLookparent s newpath
    match r with
    | .error e => do
      let s ← decref s oldfile
      pure (s, some e)
    | .ok newname => do
      let (s, r) ← link s newname oldfile
      let s ← decref s SFS_ROOT_LOCATION
      let s ← decref s oldfile
      pure (s, r)

inductive Call where
  | open (path : CString) (flags : OpenFlags) (append : Bool)
  | close (vn : Nat)
  | link (oldpath newpath : CString)
  | remove (path : CString)
  | rename (oldpath newpath : CString)
  /-- A reference that a current directory or the boot file system keeps. -/
  | getroot

/-- A call, whatever it returns. Only what is open can be closed. -/
def Call.exec (x : Session) : Call → K Session
  | .open path flags append => Prod.fst <$> vfsOpen x path flags append
  | .close vn => if vn ∈ x.opens then vfsClose x vn else pure x
  | .link oldpath newpath => do pure { x with vol := (← vfsLink x.vol oldpath newpath).1 }
  | .remove path => do pure { x with vol := (← vfsRemove x.vol path).1 }
  | .rename oldpath newpath => do pure { x with vol := (← vfsRename x.vol oldpath newpath).1 }
  | .getroot => do pure { x with vol := ← Sfs.getroot x.vol }

/-- No step is left where an assert fails. -/
def step (x : Session) (c : Call) : Option Session := (c.exec x).toOption

variable {path oldpath newpath : Path} {name : List UInt8}

theorem mem_of_mem_subpath {ch : Char} (h : ch ∈ subpath path) : ch ∈ path := by
  unfold subpath splitPath at h
  dsimp only at h
  split at h
  · exact h
  · rename_i c rest heq
    have hrest : ∀ a ∈ skipSlashes rest, a ∈ path := by
      intro a ha
      have hmem : a ∈ c :: rest := mem_cons_of_mem _ ((dropWhile_sublist _).mem ha)
      rw [← heq] at hmem
      exact (dropWhile_sublist _).mem hmem
    split_ifs at h
    · exact hrest ch h
    · exact hrest ch h
    · exact hrest ch h
    · exact h

theorem IsCString.subpath (h : IsCString path) : IsCString (subpath path) :=
  fun ch hch => h ch (mem_of_mem_subpath hch)

theorem IsCString.toName (h : IsCString path) : 0 ∉ toName path := by
  intro hmem
  obtain ⟨ch, hch, hzero⟩ := mem_map.mp hmem
  obtain ⟨hpos, hlt⟩ := h ch hch
  have hnat := congrArg UInt8.toNat hzero
  rw [UInt8.toNat_ofNat', Nat.mod_eq_of_lt hlt] at hnat
  exact absurd hnat (ne_of_gt hpos)

/-- `r` counts the references, and `n` entries of the directory name the directory itself. -/
structure At (size : Nat) (s : State) (r : Nat → Nat) (n : Nat) : Prop where
  inv : ∃ own, Inv size own 0 s
  refs : refs s = r
  links : rootLinks s = n

variable {size i n ino : Nat} {s s' : State} {r : Nat → Nat}

theorem handed_bump (r : Nat → Nat) (i : Nat) (o : Option Nat) :
    handed (bump r i) o = bump (handed r o) i := by
  cases o with
  | none => rfl
  | some j => exact bump_comm r i j

theorem At.loaded (h : At size s (bump r i) n) : Loaded s i := by
  obtain ⟨own, hinv⟩ := h.inv
  rw [hinv.loaded_iff_refs, h.refs]
  exact bump_pos r i

theorem At.of_entries {own : Owner} {r' : Nat → Nat} (h : At size s r n) (hinv : Inv size own 0 s')
    (hrefs : Sfs.refs s' = r') (hentries : s'.entries = s.entries) : At size s' r' n := by
  refine ⟨⟨own, hinv⟩, hrefs, ?_⟩
  rw [rootLinks, hentries]
  exact h.links

theorem At.getroot (h : At size s r n) :
    ∃ s', getroot s = .ok s' ∧ At size s' (bump r SFS_ROOT_LOCATION) n := by
  obtain ⟨own, hinv⟩ := h.inv
  obtain ⟨s', hget, hinv', hentries, hrefs⟩ := getroot_spec hinv
  refine ⟨s', hget, h.of_entries hinv' ?_ hentries⟩
  rw [hrefs, h.refs]

theorem At.incref (h : At size s (bump r i) n) :
    ∃ s', incref s i = .ok s' ∧ At size s' (bump (bump r i) i) n := by
  obtain ⟨own, hinv⟩ := h.inv
  obtain ⟨s', hincref, hinv', hentries, -, hrefs⟩ := incref_spec hinv h.loaded
  refine ⟨s', hincref, h.of_entries hinv' ?_ hentries⟩
  rw [hrefs, h.refs]

theorem At.decref (h : At size s (bump r i) n) : ∃ s', decref s i = .ok s' ∧ At size s' r n := by
  obtain ⟨own, hinv⟩ := h.inv
  obtain ⟨own', s', hdecref, hinv', hentries, hrefs⟩ := decref_spec hinv h.loaded
  exact ⟨s', hdecref, h.of_entries hinv' (bump_inj (hrefs.symm.trans h.refs)) hentries⟩

theorem At.root_dir (h : At size s r n) : (s.sv SFS_ROOT_LOCATION).inode.type = SFS_TYPE_DIR := by
  obtain ⟨own, hinv⟩ := h.inv
  exact hinv.dir.type

theorem At.sfsLookparent (h : At size s (bump r SFS_ROOT_LOCATION) n) (hpath : IsCString path) :
    ∃ s' res, sfsLookparent s path = .ok (s', res) ∧
      At size s' (handed (bump r SFS_ROOT_LOCATION) (res.toOption.map fun _ => SFS_ROOT_LOCATION)) n ∧
      ∀ name, res = .ok name → 0 ∉ name := by
  unfold Regular.sfsLookparent
  rw [h.loaded.getVnode, ok_bind, if_neg (not_not_intro h.root_dir)]
  by_cases hlen : NAME_MAX + 1 < path.length + 1
  · exact ⟨s, .error .ENAMETOOLONG, if_pos hlen, h, nofun⟩
  · obtain ⟨s', hincref, h'⟩ := h.incref
    refine ⟨s', .ok (toName path), ?_, h', ?_⟩
    · rw [if_neg hlen, hincref]
      rfl
    · rintro _ ⟨⟩
      exact hpath.toName

theorem At.vfsLookparent (h : At size s r n) (hpath : IsCString path) :
    ∃ s' res, vfsLookparent s path = .ok (s', res) ∧
      At size s' (handed r (res.toOption.map fun _ => SFS_ROOT_LOCATION)) n ∧
      ∀ name, res = .ok name → 0 ∉ name := by
  obtain ⟨s₁, hget, h₁⟩ := h.getroot
  unfold Regular.vfsLookparent
  rw [hget, ok_bind]
  by_cases hsub : subpath path = []
  · obtain ⟨s₂, hdecref, h₂⟩ := h₁.decref
    refine ⟨s₂, .error .EINVAL, ?_, h₂, nofun⟩
    rw [if_pos hsub]
    change (Sfs.decref s₁ SFS_ROOT_LOCATION >>= _) = _
    rw [hdecref]
    rfl
  · obtain ⟨s₂, res, hlook, h₂, hname⟩ := h₁.sfsLookparent hpath.subpath
    rw [handed_bump] at h₂
    obtain ⟨s₃, hdecref, h₃⟩ := h₂.decref
    refine ⟨s₃, res, ?_, h₃, hname⟩
    rw [if_neg hsub, hlook, ok_bind]
    change (Sfs.decref s₂ SFS_ROOT_LOCATION >>= _) = _
    rw [hdecref]
    rfl

theorem At.sfsLookup (h : At size s (bump r SFS_ROOT_LOCATION) n) (path : Path) :
    ∃ s' res, sfsLookup s path = .ok (s', res) ∧
      At size s' (handed (bump r SFS_ROOT_LOCATION) res.toOption) n ∧
      (n = 0 → res ≠ .ok SFS_ROOT_LOCATION) := by
  obtain ⟨own, hinv⟩ := h.inv
  obtain ⟨s', res, hlook, hinv', -, hfound, hentries, hrefs⟩ := lookonce_spec hinv h.loaded (toName path)
  have hres : (res.map Prod.fst).toOption = res.toOption.map Prod.fst := by
    cases res <;> rfl
  refine ⟨s', res.map Prod.fst, ?_, h.of_entries hinv' ?_ hentries, ?_⟩
  · unfold Regular.sfsLookup
    rw [h.loaded.getVnode, ok_bind, if_neg (not_not_intro h.root_dir), hlook]
    rfl
  · rw [hres, hrefs, h.refs]
  · intro hzero hroot
    cases res with
    | error e => cases hroot
    | ok entry =>
      obtain ⟨ino, slot⟩ := entry
      obtain rfl : ino = SFS_ROOT_LOCATION := Except.ok.inj hroot
      have hpos := links_pos (hfound _ slot rfl).2.1
      rw [hentries] at hpos
      exact absurd (h.links.trans hzero) (ne_of_gt hpos)

theorem At.vfsLookup (h : At size s r n) (path : Path) :
    ∃ s' res, vfsLookup s path = .ok (s', res) ∧ At size s' (handed r res.toOption) n ∧
      (n = 0 → (res = .ok SFS_ROOT_LOCATION ↔ subpath path = [])) := by
  obtain ⟨s₁, hget, h₁⟩ := h.getroot
  unfold Regular.vfsLookup
  rw [hget, ok_bind]
  by_cases hsub : subpath path = []
  · exact ⟨s₁, .ok SFS_ROOT_LOCATION, if_pos hsub, h₁, fun _ => iff_of_true rfl hsub⟩
  · obtain ⟨s₂, res, hlook, h₂, hroot⟩ := h₁.sfsLookup (subpath path)
    rw [handed_bump] at h₂
    obtain ⟨s₃, hdecref, h₃⟩ := h₂.decref
    refine ⟨s₃, res, ?_, h₃, fun hz => iff_of_false (hroot hz) hsub⟩
    rw [if_neg hsub, hlook, ok_bind]
    change (Sfs.decref s₂ SFS_ROOT_LOCATION >>= _) = _
    rw [hdecref]
    rfl

theorem At.creat (h : At size s (bump r SFS_ROOT_LOCATION) n) (hname : 0 ∉ name) (excl : Bool) :
    ∃ s' res, creat s name excl = .ok (s', res) ∧
      At size s' (bump (handed r res.toOption) SFS_ROOT_LOCATION) n := by
  obtain ⟨own, hinv⟩ := h.inv
  obtain ⟨own', s', res, hcreat, hinv', hlinks, hrefs⟩ := creat_spec hinv h.loaded hname excl
  refine ⟨s', res, hcreat, ⟨own', hinv'⟩, ?_, hlinks.trans h.links⟩
  rw [hrefs, h.refs, handed_bump]

theorem At.unlink (h : At size s (bump r SFS_ROOT_LOCATION) 0) (name : List UInt8) :
    ∃ s' res, unlink s name = .ok (s', res) ∧ At size s' (bump r SFS_ROOT_LOCATION) 0 := by
  obtain ⟨own, hinv⟩ := h.inv
  obtain ⟨own', s', res, hunlink, hinv', hrefs, hlinks⟩ := unlink_spec hinv h.loaded name
  refine ⟨s', res, hunlink, ⟨own', hinv'⟩, hrefs.trans h.refs, ?_⟩
  rw [h.links] at hlinks
  exact Nat.le_zero.mp hlinks

theorem At.rename (h : At size s (bump r SFS_ROOT_LOCATION) 0) (n1 : List UInt8) (hname : 0 ∉ name) :
    ∃ s' res, rename s n1 name = .ok (s', res) ∧ At size s' (bump r SFS_ROOT_LOCATION) 0 := by
  obtain ⟨own, hinv⟩ := h.inv
  obtain ⟨-, hpos⟩ | ⟨own', s', res, hrename, hinv', hrefs, hlinks⟩ :=
    rename_spec hinv h.loaded n1 hname
  · rw [h.links] at hpos
    cases hpos
  · exact ⟨s', res, hrename, ⟨own', hinv'⟩, hrefs.trans h.refs, hlinks.trans h.links⟩

theorem At.link (h : At size s (bump (bump r ino) SFS_ROOT_LOCATION) n) (hname : 0 ∉ name) :
    ∃ s' res, link s name ino = .ok (s', res) ∧ At size s' (bump (bump r ino) SFS_ROOT_LOCATION)
      (n + if res = none ∧ ino = SFS_ROOT_LOCATION then 1 else 0) := by
  obtain ⟨own, hinv⟩ := h.inv
  have hino : At size s (bump (bump r SFS_ROOT_LOCATION) ino) n := by
    rw [bump_comm]
    exact h
  obtain ⟨own', s', res, hlink, hinv', hrefs, hlinks⟩ := link_spec hinv h.loaded hino.loaded hname
  refine ⟨s', res, hlink, ⟨own', hinv'⟩, hrefs.trans h.refs, ?_⟩
  rw [hlinks, h.links]

theorem At.vopTruncate (h : At size s (bump r i) n) :
    ∃ s' res, vopTruncate s i 0 = .ok (s', res) ∧ At size s' (bump r i) n := by
  obtain ⟨own, hinv⟩ := h.inv
  obtain ⟨own', s', res, htrunc, hinv', hentries, hrefs⟩ :=
    vopTruncate_spec hinv h.loaded (Nat.two_pow_pos 31)
  exact ⟨s', res, htrunc, h.of_entries hinv' (hrefs.trans h.refs) hentries⟩

theorem At.syncInode (h : At size s (bump r i) n) :
    ∃ s', syncInode s i = .ok s' ∧ At size s' (bump r i) n := by
  obtain ⟨own, hinv⟩ := h.inv
  obtain ⟨s', hsync, -, hinv', -, hentries, hrefs⟩ := syncInode_spec hinv h.loaded Int.one_nonneg
  exact ⟨s', hsync, h.of_entries hinv' (hrefs.trans h.refs) hentries⟩

theorem At.vfsRemove (h : At size s r 0) (hpath : IsCString path) :
    ∃ s' res, vfsRemove s path = .ok (s', res) ∧ At size s' r 0 := by
  obtain ⟨s₁, look, hlook, h₁, -⟩ := h.vfsLookparent hpath
  unfold Regular.vfsRemove
  rw [hlook, ok_bind]
  cases look with
  | error e => exact ⟨s₁, some e, rfl, h₁⟩
  | ok name =>
    obtain ⟨s₂, res, hunlink, h₂⟩ := At.unlink h₁ name
    obtain ⟨s₃, hdecref, h₃⟩ := h₂.decref
    refine ⟨s₃, res, ?_, h₃⟩
    change (Sfs.unlink s₁ name >>= _) = _
    rw [hunlink, ok_bind]
    change (Sfs.decref s₂ SFS_ROOT_LOCATION >>= _) = _
    rw [hdecref]
    rfl

theorem At.vfsRename (h : At size s r 0) (hold : IsCString oldpath) (hnew : IsCString newpath) :
    ∃ s' res, vfsRename s oldpath newpath = .ok (s', res) ∧ At size s' r 0 := by
  obtain ⟨s₁, look, hlook, h₁, -⟩ := h.vfsLookparent hold
  unfold Regular.vfsRename
  rw [hlook, ok_bind]
  cases look with
  | error e => exact ⟨s₁, some e, rfl, h₁⟩
  | ok oldname =>
    obtain ⟨s₂, look, hlook, h₂, hname⟩ := h₁.vfsLookparent hnew
    change ∃ s' res, (Regular.vfsLookparent s₁ newpath >>= _) = _ ∧ _
    rw [hlook, ok_bind]
    cases look with
    | error e =>
      obtain ⟨s₃, hdecref, h₃⟩ := At.decref h₂
      refine ⟨s₃, some e, ?_, h₃⟩
      change (Sfs.decref s₂ SFS_ROOT_LOCATION >>= _) = _
      rw [hdecref]
      rfl
    | ok newname =>
      obtain ⟨s₃, res, hrename, h₃⟩ := At.rename h₂ oldname (hname newname rfl)
      obtain ⟨s₄, hdecref₁, h₄⟩ := h₃.decref
      obtain ⟨s₅, hdecref₂, h₅⟩ := At.decref h₄
      refine ⟨s₅, res, ?_, h₅⟩
      change (Sfs.rename s₂ oldname newname >>= _) = _
      rw [hrename, ok_bind]
      change (Sfs.decref s₃ SFS_ROOT_LOCATION >>= _) = _
      rw [hdecref₁, ok_bind, hdecref₂]
      rfl

theorem At.vfsLink (h : At size s r 0) (oldpath : Path) (hnew : IsCString newpath) :
    ∃ s' res, vfsLink s oldpath newpath = .ok (s', res) ∧
      At size s' r (if res = none ∧ subpath oldpath = [] then 1 else 0) := by
  obtain ⟨s₁, look, hlook, h₁, hroot⟩ := h.vfsLookup oldpath
  unfold Regular.vfsLink
  rw [hlook, ok_bind]
  cases look with
  | error e =>
    refine ⟨s₁, some e, rfl, ?_⟩
    exact h₁
  | ok oldfile =>
    have hbare : oldfile = SFS_ROOT_LOCATION ↔ subpath oldpath = [] := by
      rw [← hroot rfl, Except.ok.injEq]
    obtain ⟨s₂, look, hlook, h₂, hname⟩ := h₁.vfsLookparent hnew
    change ∃ s' res, (Regular.vfsLookparent s₁ newpath >>= _) = _ ∧ _
    rw [hlook, ok_bind]
    cases look with
    | error e =>
      obtain ⟨s₃, hdecref, h₃⟩ := At.decref h₂
      refine ⟨s₃, some e, ?_, ?_⟩
      · change (Sfs.decref s₂ oldfile >>= _) = _
        rw [hdecref]
        rfl
      · exact h₃
    | ok newname =>
      obtain ⟨s₃, res, hlink, h₃⟩ := At.link h₂ (hname newname rfl)
      obtain ⟨s₄, hdecref₁, h₄⟩ := h₃.decref
      obtain ⟨s₅, hdecref₂, h₅⟩ := h₄.decref
      refine ⟨s₅, res, ?_, ?_⟩
      · change (Sfs.link s₂ newname oldfile >>= _) = _
        rw [hlink, ok_bind]
        change (Sfs.decref s₃ SFS_ROOT_LOCATION >>= _) = _
        rw [hdecref₁, ok_bind, hdecref₂]
        rfl
      · simp only [zero_add, hbare] at h₅
        simpa only [map_eq_none_iff] using h₅

theorem At.openCreate (h : At size s r n) (hpath : IsCString path) (excl : Bool) :
    ∃ s' res, openCreate s path excl = .ok (s', res) ∧ At size s' (handed r res.toOption) n := by
  obtain ⟨s₁, look, hlook, h₁, hname⟩ := h.vfsLookparent hpath
  unfold Regular.openCreate
  rw [hlook, ok_bind]
  cases look with
  | error e => exact ⟨s₁, .error e, rfl, h₁⟩
  | ok name =>
    obtain ⟨s₂, res, hcreat, h₂⟩ := At.creat h₁ (hname name rfl) excl
    obtain ⟨s₃, hdecref, h₃⟩ := h₂.decref
    refine ⟨s₃, res, ?_, h₃⟩
    change (Sfs.creat s₁ name excl >>= _) = _
    rw [hcreat, ok_bind]
    change (Sfs.decref s₂ SFS_ROOT_LOCATION >>= _) = _
    rw [hdecref]
    rfl

/-- Each open of a vnode holds a reference to it, and `n` entries name the root. -/
def Held (size : Nat) (x : Session) (n : Nat) : Prop :=
  ∃ r, At size x.vol r n ∧ ∀ vn, x.opens.count vn ≤ r vn

variable {x x' : Session} {vn : Nat} {c : Call}

theorem exists_bump (h : 0 < r i) : ∃ r', r = bump r' i :=
  ⟨Function.update r i (r i - 1), (bump_update (Nat.sub_add_cancel h)).symm⟩

theorem Held.vol (h : Held size x n) (hvn : vn ∈ x.opens) :
    ∃ r, At size x.vol (bump r vn) n ∧ ∀ j, x.opens.count j ≤ bump r vn j := by
  obtain ⟨r, hat, hopens⟩ := h
  obtain ⟨r', rfl⟩ := exists_bump (lt_of_lt_of_le (count_pos_iff.mpr hvn) (hopens vn))
  exact ⟨r', hat, hopens⟩

theorem count_erase_le {l : List Nat} (h : ∀ j, l.count j ≤ bump r i j) (j : Nat) :
    (l.erase i).count j ≤ r j := by
  have hj := h j
  rw [bump_apply] at hj
  simp only [count_erase, beq_iff_eq]
  omega

theorem Held.vfsClose (h : Held size x n) (hvn : vn ∈ x.opens) :
    ∃ x', vfsClose x vn = .ok x' ∧ Held size x' n := by
  obtain ⟨r, hat, hopens⟩ := h.vol hvn
  have hcount := count_erase_le hopens
  unfold Regular.vfsClose decopen
  rw [if_pos hvn]
  by_cases hmore : vn ∈ x.opens.erase vn
  · obtain ⟨s', hdecref, hat'⟩ := hat.decref
    refine ⟨⟨s', x.opens.erase vn⟩, ?_, r, hat', hcount⟩
    rw [if_pos hmore]
    change (decref x.vol vn >>= _) = _
    rw [hdecref]
    rfl
  · obtain ⟨s₁, hsync, hat₁⟩ := hat.syncInode
    obtain ⟨s₂, hdecref, hat₂⟩ := hat₁.decref
    refine ⟨⟨s₂, x.opens.erase vn⟩, ?_, r, hat₂, hcount⟩
    rw [if_neg hmore, hsync]
    change (decref s₁ vn >>= _) = _
    rw [hdecref]
    rfl

theorem Held.openTruncate (h : Held size x n) (hvn : vn ∈ x.opens) (flags : OpenFlags) :
    ∃ x' res, openTruncate x vn flags = .ok (x', res) ∧ Held size x' n ∧ x'.opens = x.opens := by
  unfold Regular.openTruncate
  by_cases htrunc : flags.trunc = true
  · rw [if_pos htrunc]
    by_cases hwrite : flags.canwrite = true
    · obtain ⟨r, hat, hopens⟩ := h.vol hvn
      obtain ⟨s', res, hop, hat'⟩ := hat.vopTruncate
      refine ⟨{ x with vol := s' }, res, ?_, ⟨_, hat', hopens⟩, rfl⟩
      rw [if_pos hwrite, hop]
      rfl
    · exact ⟨x, some .EINVAL, if_neg hwrite, h, rfl⟩
  · exact ⟨x, none, if_neg htrunc, h, rfl⟩

theorem openVnode_held (hat : At size x.vol (bump r vn) n) (hopens : ∀ j, x.opens.count j ≤ r j)
    (flags : OpenFlags) (append : Bool) :
    ∃ x' res, openVnode x vn flags append = .ok (x', res) ∧ Held size x' n := by
  unfold openVnode
  rw [hat.loaded.getVnode, ok_bind]
  cases hopen : vopOpen (x.vol.sv vn) flags append with
  | some e =>
    obtain ⟨s', hdecref, hat'⟩ := hat.decref
    refine ⟨{ x with vol := s' }, .error e, ?_, r, hat', hopens⟩
    rw [hdecref]
    rfl
  | none =>
    have hheld : Held size { x with opens := vn :: x.opens } n := by
      refine ⟨_, hat, fun j => ?_⟩
      simp only [bump_apply, count_cons, beq_iff_eq]
      exact Nat.add_le_add_right (hopens j) _
    obtain ⟨x₁, res, htrunc, hheld₁, hsame⟩ := hheld.openTruncate mem_cons_self flags
    dsimp only
    rw [htrunc, ok_bind]
    cases res with
    | none => exact ⟨x₁, .ok vn, rfl, hheld₁⟩
    | some e =>
      have hmem : vn ∈ x₁.opens := hsame ▸ mem_cons_self
      obtain ⟨x₂, hclose, hheld₂⟩ := hheld₁.vfsClose hmem
      refine ⟨x₂, .error e, ?_, hheld₂⟩
      rw [hclose]
      rfl

theorem Held.vfsOpen (h : Held size x n) (hpath : IsCString path) (flags : OpenFlags) (append : Bool) :
    ∃ x' res, vfsOpen x path flags append = .ok (x', res) ∧ Held size x' n := by
  obtain ⟨r, hat, hopens⟩ := h
  have hlook : ∃ s' res, (if flags.creat then openCreate x.vol path flags.excl
      else vfsLookup x.vol path) = .ok (s', res) ∧ At size s' (handed r res.toOption) n := by
    split
    · exact hat.openCreate hpath flags.excl
    · obtain ⟨s', res, hlook, hat', -⟩ := hat.vfsLookup path
      exact ⟨s', res, hlook, hat'⟩
  unfold Regular.vfsOpen
  by_cases hhow : flags.how = .other
  · exact ⟨x, .error .EINVAL, if_pos hhow, r, hat, hopens⟩
  · obtain ⟨s', res, hlook, hat'⟩ := hlook
    rw [if_neg hhow, hlook, ok_bind]
    cases res with
    | error e => exact ⟨_, .error e, rfl, r, hat', hopens⟩
    | ok vn => exact openVnode_held (x := { x with vol := s' }) hat' hopens flags append

/-! ## Runs -/

def OnlyFiles (x : Session) : Prop :=
  ∀ d ∈ x.vol.entries, d.ino ≠ SFS_NOINO → (x.vol.sv d.ino).inode.type = SFS_TYPE_FILE

/-- A link to the volume itself, by a path with nothing after the device. -/
def NamesRoot (x : Session) : Call → Prop
  | .link oldpath newpath => subpath oldpath = [] ∧
      ∃ s', vfsLink x.vol oldpath newpath = .ok (s', none)
  | _ => False

theorem Held.onlyFiles_iff (h : Held size x n) : OnlyFiles x ↔ n = 0 := by
  obtain ⟨r, hat, -⟩ := h
  obtain ⟨own, hinv⟩ := hat.inv
  constructor
  · intro hfiles
    by_contra hne
    have hpos : 0 < rootLinks x.vol := by
      rw [hat.links]
      exact Nat.pos_of_ne_zero hne
    obtain ⟨d, hd, hroot⟩ := countP_pos_iff.mp hpos
    have htype := hfiles d hd (by rw [of_decide_eq_true hroot]; decide)
    rw [of_decide_eq_true hroot, hat.root_dir] at htype
    cases htype
  · intro hzero d hd hino
    have hpos : 0 < links x.vol.entries d.ino := countP_pos_iff.mpr ⟨d, hd, by simp⟩
    have hne : d.ino ≠ SFS_ROOT_LOCATION := by
      intro heq
      rw [heq] at hpos
      exact absurd (hat.links.trans hzero) (ne_of_gt hpos)
    rw [(hinv.good _ (.inr (.inl ⟨hino, hpos⟩))).type, if_neg hne]

theorem step_eq (h : c.exec x = .ok x') : step x c = some x' := by
  rw [step, h]
  rfl

theorem Held.step_spec (h : Held size x 0) (c : Call) :
    ∃ x' m, step x c = some x' ∧ Held size x' m ∧ (m = 0 ↔ ¬ NamesRoot x c) := by
  cases c with
  | «open» path flags append =>
    obtain ⟨x', res, hop, hheld⟩ := h.vfsOpen path.2 flags append
    refine ⟨x', 0, step_eq ?_, hheld, iff_of_true rfl id⟩
    rw [Call.exec, hop]
    rfl
  | close vn =>
    by_cases hvn : vn ∈ x.opens
    · obtain ⟨x', hop, hheld⟩ := h.vfsClose hvn
      refine ⟨x', 0, step_eq ?_, hheld, iff_of_true rfl id⟩
      rw [Call.exec, if_pos hvn, hop]
    · refine ⟨x, 0, step_eq ?_, h, iff_of_true rfl id⟩
      rw [Call.exec, if_neg hvn]
      rfl
  | link oldpath newpath =>
    obtain ⟨r, hat, hopens⟩ := h
    obtain ⟨s', res, hop, hat'⟩ := hat.vfsLink oldpath newpath.2
    refine ⟨{ x with vol := s' }, _, step_eq ?_, ⟨r, hat', hopens⟩, ?_⟩
    · rw [Call.exec, hop]
      rfl
    · have hnames : NamesRoot x (.link oldpath newpath) ↔ res = none ∧ subpath oldpath = [] := by
        rw [NamesRoot, hop]
        constructor
        · rintro ⟨hsub, s'', heq⟩
          exact ⟨congrArg Prod.snd (Except.ok.inj heq), hsub⟩
        · rintro ⟨rfl, hsub⟩
          exact ⟨hsub, s', rfl⟩
      split <;> simp [*]
  | remove path =>
    obtain ⟨r, hat, hopens⟩ := h
    obtain ⟨s', res, hop, hat'⟩ := hat.vfsRemove path.2
    refine ⟨{ x with vol := s' }, 0, step_eq ?_, ⟨r, hat', hopens⟩, iff_of_true rfl id⟩
    rw [Call.exec, hop]
    rfl
  | rename oldpath newpath =>
    obtain ⟨r, hat, hopens⟩ := h
    obtain ⟨s', res, hop, hat'⟩ := hat.vfsRename oldpath.2 newpath.2
    refine ⟨{ x with vol := s' }, 0, step_eq ?_, ⟨r, hat', hopens⟩, iff_of_true rfl id⟩
    rw [Call.exec, hop]
    rfl
  | getroot =>
    obtain ⟨r, hat, hopens⟩ := h
    obtain ⟨s', hop, hat'⟩ := hat.getroot
    refine ⟨{ x with vol := s' }, 0, step_eq ?_, ⟨_, hat', fun j => ?_⟩, iff_of_true rfl id⟩
    · rw [Call.exec, hop]
      rfl
    · rw [bump_apply]
      exact Nat.le_add_right_of_le (hopens j)

theorem Held.run_iff (h : Held size x 0) (calls : List Call) :
    ((∃ x', Lib.run step x calls = some x') ∧ Always step OnlyFiles x calls) ↔
      Meets step (fun x c => ¬ NamesRoot x c) x calls := by
  have hgood : ∀ x c, Held size x 0 → ¬ NamesRoot x c → ∃ x', step x c = some x' ∧ Held size x' 0 := by
    intro x c hx hc
    obtain ⟨x', m, hstep, hx', hm⟩ := hx.step_spec c
    obtain rfl := hm.mpr hc
    exact ⟨x', hstep, hx'⟩
  have hkeep : ∀ x c x', Held size x 0 → ¬ NamesRoot x c → step x c = some x' → Held size x' 0 := by
    intro x c x' hx hc hstep
    obtain ⟨y, hy, hheld⟩ := hgood x c hx hc
    obtain rfl : y = x' := some.inj (hy.symm.trans hstep)
    exact hheld
  have hbad : ∀ x c x', Held size x 0 → ¬ ¬ NamesRoot x c → step x c = some x' → ¬ OnlyFiles x' := by
    intro x c x' hx hc hstep hfiles
    obtain ⟨y, m, hy, hheld, hm⟩ := hx.step_spec c
    obtain rfl : y = x' := some.inj (hy.symm.trans hstep)
    exact hc (hm.mp (hheld.onlyFiles_iff.mp hfiles))
  constructor
  · rintro ⟨⟨x', hrun⟩, halways⟩
    exact meets_of_always hkeep hbad h hrun halways
  · intro hmeets
    obtain ⟨x', hrun, -⟩ := run_total hgood h hmeets
    exact ⟨⟨x', hrun⟩, always_of_meets hkeep (fun x hx => hx.onlyFiles_iff.mpr rfl) h hmeets⟩

variable {volname : List UInt8} {old img : Nat → Block}

theorem start_held {s₀ : State} {bits : Bitmap} (him : Image size volname img bits)
    (hm : Mounted size img s₀) : Held size ⟨s₀, []⟩ 0 := by
  refine ⟨fun _ => 0, ⟨⟨_, start_inv him hm⟩, ?_, ?_⟩, fun _ => Nat.le_refl 0⟩
  · funext j
    rw [refs, hm.vnodes]
    rfl
  · rw [rootLinks, hm.entries him]
    rfl

theorem only_files_iff (h : mksfs size volname old = some img) :
    ∃ s₀, domount size img = .ok (.ok s₀) ∧ ∀ calls : List Call,
      ((∃ x, Lib.run step ⟨s₀, []⟩ calls = some x) ∧ Always step OnlyFiles ⟨s₀, []⟩ calls) ↔
        Meets step (fun x c => ¬ NamesRoot x c) ⟨s₀, []⟩ calls := by
  obtain ⟨name, bits, him⟩ := mksfs_spec h
  have hpos : 0 < size := Nat.zero_lt_of_lt him.root
  obtain ⟨s₀, hmount, hm⟩ := domount_spec hpos him.magic him.nblocks him.room
  exact ⟨s₀, hmount, (start_held him hm).run_iff⟩

theorem only_files_iff_4096 : ∃ img s₀, mksfs 4096 [] (fun _ => zeros) = some img ∧
    domount 4096 img = .ok (.ok s₀) ∧ ∀ calls : List Call,
      ((∃ x, Lib.run step ⟨s₀, []⟩ calls = some x) ∧ Always step OnlyFiles ⟨s₀, []⟩ calls) ↔
        Meets step (fun x c => ¬ NamesRoot x c) ⟨s₀, []⟩ calls := by
  obtain ⟨img, h⟩ := isSome_iff_exists.mp mksfs_4096
  obtain ⟨s₀, hmount, hrun⟩ := only_files_iff h
  exact ⟨img, s₀, h, hmount, hrun⟩

theorem isCString_volume : IsCString ['v', ':'] := by simp [IsCString]

theorem isCString_x : IsCString ['v', ':', 'x'] := by simp [IsCString]

theorem isCString_y : IsCString ['v', ':', 'y'] := by simp [IsCString]

def linkVolume : Call := .link ⟨['v', ':'], isCString_volume⟩ ⟨['v', ':', 'x'], isCString_x⟩

def renameVolume : Call := .rename ⟨['v', ':', 'x'], isCString_x⟩ ⟨['v', ':', 'y'], isCString_y⟩

def panicOf {α : Type} : K α → Option Panic
  | .ok _ => none
  | .error e => some e

theorem panicOf_eq_some {α : Type} {a : K α} {e : Panic} (h : panicOf a = some e) : a = .error e := by
  cases a with
  | ok _ => cases h
  | error e' => exact congrArg Except.error (some.inj h)

def outcome (s₀ : State) : Option (List Dirent × Nat × Option Panic) :=
  (Lib.run step ⟨s₀, []⟩ [linkVolume]).map fun x =>
    (x.vol.entries, (x.vol.sv SFS_ROOT_LOCATION).inode.type, panicOf (renameVolume.exec x))

theorem outcome_4096 : ((mksfs 4096 [] fun _ => zeros).bind fun img =>
    ((domount 4096 img).toOption.bind Except.toOption).bind outcome) =
      some ([⟨SFS_ROOT_LOCATION, [120]⟩], SFS_TYPE_DIR, some .notFile) := by
  decide +kernel

theorem volume_named : ∃ img s₀ x, mksfs 4096 [] (fun _ => zeros) = some img ∧
    domount 4096 img = .ok (.ok s₀) ∧ Lib.run step ⟨s₀, []⟩ [linkVolume] = some x ∧
    ¬ OnlyFiles x ∧ renameVolume.exec x = .error .notFile := by
  obtain ⟨img, himg, hout⟩ := bind_eq_some_iff.mp outcome_4096
  obtain ⟨s₀, hs₀, hout⟩ := bind_eq_some_iff.mp hout
  obtain ⟨r, hr, hok⟩ := bind_eq_some_iff.mp hs₀
  obtain rfl := toOption_eq_ok hok
  obtain ⟨x, hx, heq⟩ := map_eq_some_iff.mp hout
  obtain ⟨hentries, htype, hpanic⟩ : x.vol.entries = [⟨SFS_ROOT_LOCATION, [120]⟩] ∧
      (x.vol.sv SFS_ROOT_LOCATION).inode.type = SFS_TYPE_DIR ∧
      panicOf (renameVolume.exec x) = some .notFile := by
    simpa only [Prod.mk.injEq] using heq
  refine ⟨img, s₀, x, himg, toOption_eq_ok hr, hx, fun hfiles => ?_, panicOf_eq_some hpanic⟩
  have hfile := hfiles ⟨SFS_ROOT_LOCATION, [120]⟩ (by rw [hentries]; exact mem_singleton_self _)
    (by decide)
  rw [htype] at hfile
  cases hfile

end Os161.Sfs.Regular
