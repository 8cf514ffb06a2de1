import Os161.Sfs.FaultIo

/-!
# A write that fails

The request is advanced when the data is copied to the buffer, before the buffer is written, and
`sfs_io` takes the length of the file from the request.
-/

open List

namespace Os161.Sfs.Faults

open Lib

/-- A prefix of the request is in the file, and it is what the request counts. -/
def StoresPrefix (f : File) (offset : Nat) (bytes : List UInt8) (f' : File) (resid : Nat) : Prop :=
  ∃ p ≤ bytes.length, f'.contents = overlay f.contents offset (bytes.take p) ∧
    f'.sv.inode.size = max f.sv.inode.size (offset + p) ∧ resid = bytes.length - p

def Unstored (env : Env) (f : File) (uio : Uio) (n : Nat) : Prop :=
  ∃ c e fate, DataCall env f uio n c ∧ env.device c = .fail e fate ∧ e ≠ .EINVAL ∧
    fate ≠ .stored ∧ (Whole uio → fate = .taken)

def StoredAnyway (env : Env) (f : File) (uio : Uio) (n : Nat) : Prop :=
  ∃ c e, DataCall env f uio n c ∧ env.device c = .fail e .stored

/-- A piece is counted that is not stored and that the file does not have already. -/
inductive Spoils (env : Env) : File → Uio → Nat → Prop where
  | here {f : File} {uio : Uio} {n : Nat} (i : Nat) : Unstored env f uio n → i < pieceLen uio →
    f.byteAt (uio.offset + i) ≠ uio.buf.getD i 0 → Spoils env f uio n
  | later {f g : File} {uio v : Uio} {n m : Nat} : 0 < uio.resid →
    piece env f uio n = .ok ((g, v, none), m) → Spoils env g v m → Spoils env f uio n

/-- The pieces of a request, up to one that fails. -/
inductive Fails (env : Env) : File → Uio → Nat → File → Uio → Prop where
  | here {f f' : File} {uio uio' : Uio} {n m : Nat} {e : Errno} :
    piece env f uio n = .ok ((f', uio', some e), m) → Fails env f uio n f' uio'
  | later {f g f' : File} {uio v uio' : Uio} {n m : Nat} : 0 < uio.resid →
    piece env f uio n = .ok ((g, v, none), m) → Fails env g v m f' uio' → Fails env f uio n f' uio'

structure Wrote (f : File) (uio : Uio) (f' : File) (uio' : Uio) (q p : Nat) : Prop
    extends Extends f f' where
  le : q ≤ p
  short : p ≤ uio.resid
  size : f'.sv.inode.size = f.sv.inode.size
  bytes : f'.byteAt = splice f.byteAt uio.offset (uio.buf.take q)
  counted : uio' = uio.put p
  bound : p = 0 ∨ uio.offset + p ≤ 143 * 512

inductive Effect (env : Env) (f : File) (uio : Uio) (n : Nat) (f' : File) (uio' : Uio) :
    Option Errno → Prop where
  | done : Wrote f uio f' uio' (pieceLen uio) (pieceLen uio) → ¬ Unstored env f uio n →
    ¬ StoredAnyway env f uio n → Effect env f uio n f' uio' none
  | refused {e : Errno} : Wrote f uio f' uio' 0 0 → ¬ Unstored env f uio n →
    ¬ StoredAnyway env f uio n → Effect env f uio n f' uio' (some e)
  | lost {e : Errno} : Wrote f uio f' uio' 0 (pieceLen uio) → Unstored env f uio n →
    ¬ StoredAnyway env f uio n → Effect env f uio n f' uio' (some e)
  | stored {e : Errno} : Wrote f uio f' uio' (pieceLen uio) (pieceLen uio) →
    StoredAnyway env f uio n → ¬ Unstored env f uio n → Effect env f uio n f' uio' (some e)

variable {env : Env} {f f' g : File} {uio uio' v : Uio} {n n' m p q : Nat} {e : Errno}

theorem pieceLen_le : pieceLen uio ≤ uio.resid := min_le_right ..

theorem pieceLen_fits : uio.offset % 512 + pieceLen uio ≤ 512 := by
  have hle : pieceLen uio ≤ 512 - uio.offset % 512 := min_le_left ..
  omega

theorem Wrote.none (h : Kept f f') : Wrote f uio f' uio 0 0 :=
  ⟨h.toExtends, le_rfl, Nat.zero_le _, h.size, by rw [take_zero, splice_nil, h.bytes],
    (put_zero uio).symm, .inl rfl⟩

theorem pieceLen_bound (hne : g.blockAt (uio.offset / 512) ≠ 0) :
    uio.offset + pieceLen uio ≤ 143 * 512 := by
  have hlt : uio.offset / 512 < 143 := blockAt_lt hne
  have hfits : uio.offset % 512 + pieceLen uio ≤ 512 := pieceLen_fits
  omega

theorem Wrote.counts (h : Kept f f') (hne : f'.blockAt (uio.offset / 512) ≠ 0) :
    Wrote f uio f' (uio.put (pieceLen uio)) 0 (pieceLen uio) := by
  have hnone : Wrote f uio f' uio 0 0 := .none h
  exact ⟨hnone.toExtends, Nat.zero_le _, pieceLen_le, hnone.size, hnone.bytes, rfl,
    .inr (pieceLen_bound hne)⟩

theorem Wrote.stores (h : Kept f g) (hfull : uio.Full) (hne : g.blockAt (uio.offset / 512) ≠ 0) :
    Wrote f uio ⟨g.fs.store (g.blockAt (uio.offset / 512)) (patched g uio), g.sv⟩
      (uio.put (pieceLen uio)) (pieceLen uio) (pieceLen uio) := by
  have htake : (uio.buf.take (pieceLen uio)).length = pieceLen uio := by
    rw [length_take, hfull.buf]
    exact min_eq_left pieceLen_le
  refine ⟨h.toExtends.trans (extends_store h.sane hne _).1, le_rfl, pieceLen_le, h.size, ?_,
    rfl, .inr (pieceLen_bound hne)⟩
  unfold patched
  rw [byteAt_store_splice hne (fun data => (extends_store h.sane hne data).2)
    (fun _ => h.sane.inj _ _ hne) rfl (by rw [htake]; exact pieceLen_fits), h.bytes]

theorem Piece.effect {r : Option Errno} (hfull : uio.Full)
    (hpiece : Piece env f uio n f' uio' r) : Effect env f uio n f' uio' r := by
  cases hpiece with
  | early hkept hcall =>
    refine .refused (.none hkept) ?_ ?_
    · rintro ⟨c, _, _, hc, -⟩
      exact hcall c hc
    · rintro ⟨c, _, hc, -⟩
      exact hcall c hc
  | @data g c hkept hne hcall he =>
    have hstores := Wrote.stores hkept hfull hne
    have hcounts := Wrote.counts hkept hne
    have hlost : Unstored env f uio n ↔ ∃ e fate, env.device c = .fail e fate ∧ e ≠ .EINVAL ∧
        fate ≠ .stored ∧ (Whole uio → fate = .taken) := by
      constructor
      · rintro ⟨c', e, fate, hc, hfail⟩
        rw [(hcall c').mp hc] at hfail
        exact ⟨e, fate, hfail⟩
      · rintro ⟨e, fate, hfail⟩
        exact ⟨c, e, fate, (hcall c).mpr rfl, hfail⟩
    have hstored : StoredAnyway env f uio n ↔ ∃ e, env.device c = .fail e .stored := by
      constructor
      · rintro ⟨c', e, hc, hfail⟩
        rw [(hcall c').mp hc] at hfail
        exact ⟨e, hfail⟩
      · rintro ⟨e, hfail⟩
        exact ⟨c, e, (hcall c).mpr rfl, hfail⟩
    cases hdev : env.device c with
    | ok =>
      simp only [hdev, reduceCtorEq, false_and, exists_false, iff_false] at hlost hstored
      rw [if_neg fun hboth => Bool.noConfusion hboth.2]
      exact .done hstores hlost hstored
    | fail e fate =>
      rw [hdev] at he
      have hne : e ≠ .EINVAL := fun heq => he (congrArg some heq)
      simp only [hdev, Answer.fail.injEq] at hlost hstored
      cases fate with
      | stored =>
        rw [if_neg fun hboth => Bool.noConfusion hboth.2]
        exact .stored hstores (hstored.mpr ⟨e, rfl, rfl⟩) (by rw [hlost]; simp)
      | taken =>
        rw [if_neg fun hboth => Bool.noConfusion hboth.2]
        exact .lost hcounts (hlost.mpr ⟨e, .taken, ⟨rfl, rfl⟩, hne, nofun, fun _ => rfl⟩)
          (by rw [hstored]; simp)
      | refused =>
        by_cases hwhole : Whole uio
        · rw [if_pos ⟨hwhole, rfl⟩]
          exact .refused (.none hkept) (by rw [hlost]; simp [hwhole]) (by rw [hstored]; simp)
        · rw [if_neg fun hboth => hwhole hboth.1]
          exact .lost hcounts
            (hlost.mpr ⟨e, .refused, ⟨rfl, rfl⟩, hne, nofun, fun hw => absurd hw hwhole⟩)
            (by rw [hstored]; simp)

theorem piece_none (h : Sane f) (hfull : uio.Full)
    (hrun : piece env f uio n = .ok ((g, v, none), m)) :
    Wrote f uio g v (pieceLen uio) (pieceLen uio) ∧ ¬ Unstored env f uio n := by
  cases (piece_piece h hfull hrun).effect hfull with
  | done hwrote hstored _ => exact ⟨hwrote, hstored⟩

/-! ## The whole request -/

section Request

theorem pieceLen_inside (hfit : uio.offset % 512 + uio.resid ≤ 512) : pieceLen uio = uio.resid :=
  min_eq_right (Nat.le_sub_of_add_le' hfit)

theorem piece_inside (hfit : uio.offset % 512 + uio.resid ≤ 512) (hlt : uio.resid < 512) :
    piece env f uio = partialio env f uio (uio.offset % 512) uio.resid := by
  unfold piece
  rw [if_neg fun hw => not_le.mpr hlt hw.2, pieceLen_inside hfit]

theorem fails_tail (hal : uio.offset % 512 = 0)
    (hrun : ioTail env f uio n = .ok ((f', uio', some e), n')) : Fails env f uio n f' uio' := by
  unfold ioTail at hrun
  split_ifs at hrun with hlong hpos
  · cases hrun
  · have hlt : uio.resid < 512 := not_le.mp hlong
    have hpiece := @piece_inside env f uio (by omega) hlt
    rw [hal] at hpiece
    rw [← hpiece] at hrun
    exact .here hrun
  · cases hrun

theorem fails_blocks {r : Io} {k : Nat} (h : Sane f) (hfull : uio.Full)
    (hal : uio.offset % 512 = 0) (hk : k = uio.resid / 512)
    (hrun : blocks env k f uio n = .ok (r, m))
    (htail : r.next (ioTail env) m = .ok ((f', uio', some e), n')) :
    Fails env f uio n f' uio' := by
  induction k generalizing f uio n with
  | zero =>
    cases hrun
    exact fails_tail hal htail
  | succ k ih =>
    have hwhole : Whole uio := ⟨hal, by change 512 ≤ uio.resid; omega⟩
    have hlen : pieceLen uio = 512 := by
      unfold pieceLen
      rw [hwhole.1]
      exact min_eq_left hwhole.2
    have hblock : piece env f uio = blockio env f uio := if_pos hwhole
    obtain ⟨⟨g, v, r₁⟩, m₁, hone, hrest⟩ := stateT_bind_eq_ok hrun
    rw [← hblock] at hone
    cases r₁ with
    | some e =>
      cases hrest
      cases htail
      exact .here hone
    | none =>
      obtain ⟨hwrote, -⟩ := piece_none h hfull hone
      obtain rfl := hwrote.counted
      rw [hlen] at hwrote hone hrest
      refine .later (by omega) hone (ih hwrote.sane (hfull.put _) ?_ ?_ hrest)
      · change (uio.offset + 512) % 512 = 0
        omega
      · change k = (uio.resid - 512) / 512
        omega

theorem fails_aligned (h : Sane f) (hfull : uio.Full)
    (hrun : ioAligned env f uio n = .ok ((f', uio', some e), n')) :
    0 < uio.resid ∧ Fails env f uio n f' uio' := by
  unfold ioAligned at hrun
  split_ifs at hrun with hdone hal
  · cases hrun
  · cases hrun
  · obtain ⟨r, m, hblocks, htail⟩ := stateT_bind_eq_ok hrun
    exact ⟨Nat.pos_of_ne_zero hdone, fails_blocks h hfull (Decidable.not_not.mp hal) rfl hblocks htail⟩

theorem fails_body (h : Sane f) (hfull : uio.Full)
    (hrun : ioBody env f uio n = .ok ((f', uio', some e), n')) : Fails env f uio n f' uio' := by
  unfold ioBody at hrun
  split_ifs at hrun with hoff
  · obtain ⟨⟨g, v, r⟩, m, hone, hrest⟩ := stateT_bind_eq_ok hrun
    have hpart : piece env f uio n = .ok ((g, v, r), m) := by
      unfold piece
      rw [if_neg fun hw => hoff hw.1]
      exact hone
    cases r with
    | some e =>
      cases hrest
      exact .here hpart
    | none =>
      obtain ⟨hwrote, -⟩ := piece_none h hfull hpart
      obtain rfl := hwrote.counted
      obtain ⟨hpos, hfails⟩ := fails_aligned hwrote.sane (hfull.put _) hrest
      have hleft : uio.resid - pieceLen uio ≤ uio.resid := Nat.sub_le ..
      exact .later (lt_of_lt_of_le hpos hleft) hpart hfails
  · exact (fails_aligned h hfull hrun).2

end Request

def Differ (f : File) (uio : Uio) (q p : Nat) : Prop :=
  ∃ i, q ≤ i ∧ i < p ∧ f.byteAt (uio.offset + i) ≠ uio.buf.getD i 0

theorem Wrote.trans {len : Nat} (hfull : uio.Full) (h : Wrote f uio g v len len)
    (h' : Wrote g v f' uio' q p) : Wrote f uio f' uio' (len + q) (len + p) := by
  obtain rfl := h.counted
  have htake : (uio.buf.take len).length = len := by
    rw [length_take, hfull.buf]
    exact min_eq_left h.short
  have hshort : p ≤ uio.resid - len := h'.short
  have hlen := h.short
  refine ⟨h.toExtends.trans h'.toExtends, Nat.add_le_add_left h'.le _, by omega,
    h'.size.trans h.size, ?_, ?_, ?_⟩
  · have hbytes : f'.byteAt = splice g.byteAt (uio.offset + len) ((uio.buf.drop len).take q) :=
      h'.bytes
    have happend := @splice_append f.byteAt uio.offset (uio.buf.take len) ((uio.buf.drop len).take q)
    rw [htake] at happend
    rw [hbytes, h.bytes, take_add, happend]
  · rw [h'.counted]
    simp [Uio.put, drop_drop, add_assoc, Nat.sub_sub]
  · obtain rfl | hbound := h'.bound
    · exact h.bound
    · have hbound : uio.offset + len + p ≤ 143 * 512 := hbound
      omega

theorem Wrote.differ {len : Nat} (hfull : uio.Full) (h : Wrote f uio g v len len) :
    Differ f uio (len + q) (len + p) ↔ Differ g v q p := by
  obtain rfl := h.counted
  have htake : (uio.buf.take len).length = len := by
    rw [length_take, hfull.buf]
    exact min_eq_left h.short
  have hbyte : ∀ i, g.byteAt (uio.offset + len + i) = f.byteAt (uio.offset + (len + i)) := by
    intro i
    rw [h.bytes, splice, if_neg (by rw [htake]; omega), add_assoc]
  have hbuf : ∀ i, (uio.buf.drop len).getD i 0 = uio.buf.getD (len + i) 0 := by
    intro i
    rw [getD_eq_getElem?_getD, List.getElem?_drop, ← getD_eq_getElem?_getD]
  constructor
  · rintro ⟨i, hq, hp, hne⟩
    obtain ⟨j, rfl⟩ := Nat.exists_eq_add_of_le (le_trans (Nat.le_add_right ..) hq)
    refine ⟨j, by omega, by omega, ?_⟩
    change g.byteAt (uio.offset + len + j) ≠ (uio.buf.drop len).getD j 0
    rwa [hbyte, hbuf]
  · rintro ⟨j, hq, hp, hne⟩
    have hne : g.byteAt (uio.offset + len + j) ≠ (uio.buf.drop len).getD j 0 := hne
    rw [hbyte, hbuf] at hne
    exact ⟨len + j, by omega, by omega, hne⟩

theorem Fails.wrote (hrun : Fails env f uio n f' uio') (h : Sane f) (hfull : uio.Full) :
    ∃ q p, Wrote f uio f' uio' q p ∧ (Spoils env f uio n ↔ Differ f uio q p) := by
  -- along the pieces, each of which is stored and counted but for the last
  induction hrun with
  | @here f f' uio uio' n m e hpiece =>
    have hlater : Spoils env f uio n → Unstored env f uio n ∧ Differ f uio 0 (pieceLen uio) := by
      intro hspoils
      cases hspoils with
      | here i hun hi hne => exact ⟨hun, i, Nat.zero_le i, hi, hne⟩
      | later _ hok _ =>
        rw [hpiece] at hok
        cases hok
    cases (piece_piece h hfull hpiece).effect hfull with
    | refused hwrote hstored _ =>
      refine ⟨0, 0, hwrote, iff_of_false (fun hs => hstored (hlater hs).1) ?_⟩
      rintro ⟨i, _, hi, _⟩
      exact absurd hi (Nat.not_lt_zero i)
    | stored hwrote _ hstored =>
      refine ⟨_, _, hwrote, iff_of_false (fun hs => hstored (hlater hs).1) ?_⟩
      rintro ⟨i, hle, hlt, _⟩
      exact absurd hlt (not_lt.mpr hle)
    | lost hwrote hun _ =>
      refine ⟨_, _, hwrote, fun hs => (hlater hs).2, ?_⟩
      rintro ⟨i, _, hi, hne⟩
      exact .here i hun hi hne
  | @later f g f' uio v uio' n m hpos hpiece _ ih =>
    obtain ⟨hwrote, hstored⟩ := piece_none h hfull hpiece
    have hfull' : v.Full := by
      rw [hwrote.counted]
      exact hfull.put _
    obtain ⟨q, p, hrest, hiff⟩ := ih hwrote.sane hfull'
    refine ⟨_, _, hwrote.trans hfull hrest, ?_⟩
    rw [hwrote.differ hfull, ← hiff]
    constructor
    · intro hspoils
      cases hspoils with
      | here i hun _ _ => exact absurd hun hstored
      | later _ hok hlater =>
        rw [hpiece] at hok
        cases hok
        exact hlater
    · exact .later hpos hpiece

theorem io_write {offset : Nat} {bytes : List UInt8} (h : Sane f)
    (hrun : io env f ⟨.write, offset, bytes.length, bytes⟩ n = .ok ((f', uio', some e), n')) :
    ∃ q p, q ≤ p ∧ p ≤ bytes.length ∧ (p = 0 ∨ offset + p ≤ 143 * 512) ∧
      f'.byteAt = splice f.byteAt offset (bytes.take q) ∧ uio'.resid = bytes.length - p ∧
      f'.sv.inode.size =
        (if toOff f.sv.inode.size < (offset + p : Nat) then offset + p else f.sv.inode.size) ∧
      (Spoils env f ⟨.write, offset, bytes.length, bytes⟩ n ↔
        Differ f ⟨.write, offset, bytes.length, bytes⟩ q p) := by
  have hfull : Uio.Full ⟨.write, offset, bytes.length, bytes⟩ := ⟨rfl, rfl⟩
  obtain ⟨⟨f₁, uio₁, r⟩, m, hbody, hrest⟩ := stateT_bind_eq_ok hrun
  have hr : r = some e := by
    dsimp only at hrest
    split_ifs at hrest <;> cases hrest <;> rfl
  subst hr
  obtain ⟨q, p, hwrote, hiff⟩ := (fails_body h hfull hbody).wrote h hfull
  obtain rfl := hwrote.counted
  refine ⟨q, p, hwrote.le, hwrote.short, hwrote.bound, ?_, ?_, ?_, hiff⟩
  all_goals
    dsimp only [Uio.put] at hrest
    rw [hwrote.size] at hrest
  · split_ifs at hrest <;> cases hrest <;> exact hwrote.bytes
  · split_ifs at hrest <;> cases hrest <;> rfl
  · split_ifs at hrest with hlong <;> cases hrest
    · rw [if_pos hlong]
      rfl
    · rw [if_neg hlong]
      exact hwrote.size

def thirdFails : Env := ⟨fun n => if n = 2 then .fail Kern.Errno.EIO .refused else .ok, fun _ => true⟩

end Os161.Sfs.Faults
