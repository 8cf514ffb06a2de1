import Mathlib.Algebra.GroupWithZero.Nat
import Os161.Userprog.Arguments

/-! # Where the arguments are -/

open Os161.Lib Function List Option
open Os161.Vm (USERSTACK STACKPAGES PAGE_SIZE)

namespace Os161.Userprog

variable {argv : List CString} {faults : Faults} {mem : Mem} {str : CString} {j k n : Nat}

def room (argv : List CString) (j : Nat) : Nat := ((argv.drop j).map calcAlignLength).sum

def Fits (argv : List CString) : Prop :=
  (argv.map calcAlignLength).sum + 4 * (argv.length + 1) ≤ STACKPAGES * PAGE_SIZE

instance (argv : List CString) : Decidable (Fits argv) := inferInstanceAs (Decidable (_ ≤ _))

def strAddr (argv : List CString) (j : Nat) : Nat := USERSTACK - room argv j

def base (argv : List CString) : Nat := strAddr argv 0 - 4 * (argv.length + 1)

theorem calcAlignLength_mod (str : CString) : calcAlignLength str % 4 = 0 := by
  unfold calcAlignLength
  dsimp only
  omega

theorem length_bytes (str : CString) : str.bytes.length = str.strlen + 1 := by
  simp [CString.bytes, CString.strlen]

theorem strlen_lt_calcAlignLength (str : CString) : str.strlen + 1 < calcAlignLength str := by
  unfold calcAlignLength
  dsimp only
  omega

theorem room_eq (h : argv[j]? = some str) : room argv j = calcAlignLength str + room argv (j + 1) := by
  obtain ⟨hlt, rfl⟩ := List.getElem?_eq_some_iff.mp h
  unfold room
  rw [drop_eq_getElem_cons hlt, map_cons, sum_cons]

theorem room_mod (argv : List CString) (j : Nat) : room argv j % 4 = 0 := by
  unfold room
  induction argv.drop j with
  | nil => rfl
  | cons str rest ih =>
    rw [map_cons, sum_cons, Nat.add_mod, calcAlignLength_mod, ih]

theorem room_le (argv : List CString) (h : j ≤ k) : room argv k ≤ room argv j := by
  unfold room
  rw [← Nat.add_sub_cancel' h, ← drop_drop]
  generalize argv.drop j = rest
  induction k - j generalizing rest with
  | zero => exact le_rfl
  | succ d ih =>
    cases rest with
    | nil => exact le_rfl
    | cons str rest =>
      exact le_trans (ih rest) (Nat.le_add_left ..)

theorem room_length (argv : List CString) : room argv argv.length = 0 := by
  simp [room]

theorem Fits.room_lt (h : Fits argv) (j : Nat) : room argv j + 4 * (argv.length + 1) ≤ 49152 := by
  have hle := room_le argv (Nat.zero_le j)
  exact Nat.le_trans (Nat.add_le_add_right hle _) h

theorem strAddr_eq (argv : List CString) (j : Nat) : strAddr argv j = 0x80000000 - room argv j := rfl

theorem Fits.strAddr_succ (h : Fits argv) (hj : argv[j]? = some str) :
    strAddr argv j + calcAlignLength str = strAddr argv (j + 1) := by
  have hroom := room_eq hj
  have hlt := h.room_lt j
  rw [strAddr_eq, strAddr_eq]
  omega

theorem strAddr_mono (argv : List CString) (h : j ≤ k) : strAddr argv j ≤ strAddr argv k := by
  have := room_le argv h
  unfold strAddr
  omega

def reach (faults : Nat → Bool) (dest : Nat) : Nat → Nat
  | 0 => 0
  | n + 1 => if faults dest then 0 else reach faults (dest + 1) n + 1

theorem reach_le (faults : Nat → Bool) (dest n : Nat) : reach faults dest n ≤ n := by
  induction n generalizing dest with
  | zero => exact Nat.le_refl 0
  | succ n ih =>
    unfold reach
    split
    · exact Nat.zero_le _
    · exact Nat.succ_le_succ (ih (dest + 1))

theorem reach_eq_iff (faults : Nat → Bool) (dest n : Nat) :
    reach faults dest n = n ↔ ∀ x < n, faults (dest + x) = false := by
  induction n generalizing dest with
  | zero => simp [reach]
  | succ n ih =>
    unfold reach
    rw [Nat.forall_lt_succ_left]
    cases faults dest with
    | true => simp
    | false =>
      simp [Bool.false_eq_true, Nat.add_right_cancel_iff, ih (dest + 1), true_and, add_assoc, add_comm 1]

theorem copystr_cons (faults : Nat → Bool) (mem : Mem) (dest : Nat) (ch : UInt8) (src : List UInt8)
    (maxlen stoplen : Nat) :
    copystr faults mem dest (ch :: src) (maxlen + 1) (stoplen + 1) =
      if faults dest then (mem, some .EFAULT)
      else if ch = 0 then (splice mem dest [ch], none)
      else copystr faults (splice mem dest [ch]) (dest + 1) src maxlen stoplen := rfl

theorem copystr_eq {chars : List UInt8} (hne : ∀ ch ∈ chars, ch ≠ 0) (faults : Nat → Bool) (mem : Mem)
    (dest : Nat) :
    (copystr faults mem dest (chars ++ [0]) (chars.length + 1) (chars.length + 1)).1 =
      splice mem dest ((chars ++ [0]).take (reach faults dest (chars.length + 1))) := by
  induction chars generalizing mem dest with
  | nil =>
    rw [nil_append, length_nil, copystr_cons, if_pos rfl]
    unfold reach
    cases faults dest with
    | true => simp
    | false => rfl
  | cons ch chars ih =>
    rw [cons_append, length_cons, copystr_cons, if_neg (hne ch mem_cons_self)]
    unfold reach
    cases faults dest with
    | true => simp
    | false =>
      simp only [Bool.false_eq_true, if_false, take_succ_cons]
      rw [ih fun c hc => hne c (mem_cons_of_mem _ hc)]
      exact @splice_append mem dest [ch] _

theorem copyoutstr_eq (faults : Nat → Bool) (mem : Mem) (str : CString) {dest : Nat}
    (h : dest + (str.strlen + 1) ≤ 0x80000000) :
    (copyoutstr faults mem str dest (str.strlen + 1)).1 =
      splice mem dest (str.bytes.take (reach faults dest str.bytes.length)) := by
  unfold copyoutstr
  rw [copycheck_eq (Nat.succ_pos _) h, length_bytes]
  exact copystr_eq str.nonzero faults mem dest

theorem copyoutWord_eq (faults : Nat → Bool) (mem : Mem) (w : Nat) {dest : Nat}
    (h : dest + 4 ≤ 0x80000000) :
    (copyoutWord faults mem w dest).1 =
      splice mem dest ((wordBytes w).take (if faults dest then 0 else 4)) := by
  have hlen : (wordBytes w).length = 4 := slice_length
  unfold copyoutWord
  rw [copycheck_eq (by decide) h]
  cases faults dest with
  | true => simp
  | false => simp [take_of_length_le (le_of_eq hlen)]

def word (argv : List CString) (j : Nat) : Nat := if j < argv.length then strAddr argv j else 0

def index (argv : List CString) (n : Nat) : Nat :=
  if n < argv.length then argv.length - (n + 1) else argv.length - (n - argv.length)

def place (argv : List CString) (n : Nat) : Nat :=
  if n < argv.length then strAddr argv (index argv n) else base argv + 4 * index argv n

def content (argv : List CString) (n : Nat) : List UInt8 :=
  if n < argv.length then (argv[index argv n]?.map CString.bytes).getD []
  else wordBytes (word argv (index argv n))

def reached (faults : Faults) (argv : List CString) (n : Nat) : Nat :=
  if n < argv.length then reach (faults n) (place argv n) (content argv n).length
  else if faults n (place argv n) then 0 else 4

def written (faults : Faults) (argv : List CString) (n : Nat) : List UInt8 :=
  (content argv n).take (reached faults argv n)

def slotsAfter (argv : List CString) (last : Slot) (i : Nat) : Nat → Slot := fun j =>
  if argv.length - i ≤ j ∧ j < argv.length then .user (strAddr argv j) else slots argv last j

theorem strAddr_le (argv : List CString) (j : Nat) : strAddr argv j ≤ 0x80000000 := Nat.sub_le ..

section

variable (h : Fits argv)
include h

theorem Fits.strAddr_ge (j : Nat) :
    0x80000000 - 49152 + 4 * (argv.length + 1) ≤ strAddr argv j := by
  have hroom := h.room_lt j
  rw [strAddr_eq]
  omega

theorem putString_eq (last : Slot) (mem : Mem) {i : Nat} (hi : i < argv.length) :
    putString faults argv.length ⟨slotsAfter argv last i, strAddr argv (argv.length - i), mem⟩ i =
      some ⟨slotsAfter argv last (i + 1), strAddr argv (argv.length - (i + 1)),
        splice mem (place argv i) (written faults argv i)⟩ := by
  have hlt : argv.length - (i + 1) < argv.length := by omega
  obtain ⟨str, hstr⟩ : ∃ str, argv[argv.length - (i + 1)]? = some str :=
    ⟨_, List.getElem?_eq_getElem hlt⟩
  have hslot : slotsAfter argv last i (argv.length - (i + 1)) = .str str := by
    unfold slotsAfter slots
    rw [if_neg (by omega), hstr]
    rfl
  have hnext := h.strAddr_succ hstr
  rw [show argv.length - (i + 1) + 1 = argv.length - i by omega] at hnext
  have htop := strAddr_le argv (argv.length - i)
  have hlen := strlen_lt_calcAlignLength str
  have hsub : sub32 (strAddr argv (argv.length - i)) (calcAlignLength str) =
      strAddr argv (argv.length - (i + 1)) := by
    rw [sub32_eq (by omega)]
    omega
  unfold putString
  simp only [hslot, hsub]
  rw [copyoutstr_eq (faults i) mem str (by omega)]
  congr 2
  · -- the entry of the string has its address now
    funext x
    unfold slotsAfter
    by_cases hx : x = argv.length - (i + 1)
    · subst hx
      rw [update_self, if_pos (by omega)]
    · rw [update_of_ne hx]
      by_cases hin : argv.length - i ≤ x ∧ x < argv.length
      · rw [if_pos hin, if_pos (by omega)]
      · rw [if_neg hin, if_neg (by omega)]
  · simp only [place, written, content, reached, index, if_pos hi, hstr]
    rfl

theorem putStrings_eq (last : Slot) (mem : Mem) :
    putStrings faults argv.length ⟨slots argv last, USERSTACK, mem⟩ =
      some ⟨slotsAfter argv last argv.length, strAddr argv 0,
        splices (place argv) (written faults argv) argv.length mem⟩ := by
  have hrun := run_range (putString faults argv.length)
    (fun i => ⟨slotsAfter argv last i, strAddr argv (argv.length - i),
      splices (place argv) (written faults argv) i mem⟩) fun i hi => putString_eq h last _ hi
  have hstart : slotsAfter argv last 0 = slots argv last := by
    funext x
    unfold slotsAfter
    rw [if_neg (by omega)]
  have htop : strAddr argv argv.length = USERSTACK := by
    rw [strAddr_eq, room_length]
  simp only [Nat.sub_zero, Nat.sub_self, hstart, htop] at hrun
  exact hrun

theorem putWord_eq {ptrs : Nat → Slot}
    (hptrs : ∀ j ≤ argv.length, ptrs j = .user (word argv j)) (mem : Mem) {i : Nat}
    (hi : i < argv.length + 1) :
    putWord faults argv.length ⟨ptrs, strAddr argv 0 - 4 * i, mem⟩ i =
      some ⟨ptrs, strAddr argv 0 - 4 * (i + 1),
        splice mem (place argv (argv.length + i)) (written faults argv (argv.length + i))⟩ := by
  have hge := h.strAddr_ge 0
  have hle := strAddr_le argv 0
  have hsub : sub32 (strAddr argv 0 - 4 * i) 4 = strAddr argv 0 - 4 * (i + 1) := by
    rw [sub32_eq (by omega)]
    omega
  have hindex : index argv (argv.length + i) = argv.length - i := by
    unfold index
    rw [if_neg (by omega), Nat.add_sub_cancel_left]
  have hplace : place argv (argv.length + i) = strAddr argv 0 - 4 * (i + 1) := by
    unfold place base
    rw [if_neg (by omega), hindex]
    omega
  unfold putWord
  simp only [hptrs _ (Nat.sub_le argv.length i), hsub]
  rw [copyoutWord_eq _ mem _ (by omega)]
  have hword : ¬ argv.length + i < argv.length := by omega
  simp only [written, content, reached, hindex, hplace, if_neg hword]

theorem putWords_eq {ptrs : Nat → Slot}
    (hptrs : ∀ j ≤ argv.length, ptrs j = .user (word argv j)) (mem : Mem) :
    putWords faults argv.length ⟨ptrs, strAddr argv 0,
        splices (place argv) (written faults argv) argv.length mem⟩ =
      some ⟨ptrs, base argv,
        splices (place argv) (written faults argv) (argv.length + (argv.length + 1)) mem⟩ :=
  run_range (putWord faults argv.length)
    (fun i => ⟨ptrs, strAddr argv 0 - 4 * i,
      splices (place argv) (written faults argv) (argv.length + i) mem⟩)
    fun _ hi => putWord_eq h hptrs _ hi

end

def copied (faults : Faults) (argv : List CString) (mem : Mem) : Mem :=
  splices (place argv) (written faults argv) (argv.length + (argv.length + 1)) mem

theorem execv_eq (h : Fits argv) (faults : Faults) (mem : Mem) :
    ∃ ptrs, execv faults argv mem = some ⟨ptrs, base argv, copied faults argv mem⟩ := by
  refine ⟨slotsAfter argv (.user 0) argv.length, ?_⟩
  unfold execv
  rw [putStrings_eq h, bind_some]
  apply putWords_eq h
  intro j hj
  unfold slotsAfter word slots
  by_cases hlt : j < argv.length
  · rw [if_pos (by omega), if_pos hlt]
  · rw [if_neg (by omega), if_neg hlt, List.getElem?_eq_none (not_lt.mp hlt)]
    rfl

theorem runprogram_eq (h : Fits argv) (faults : Faults) (last : Slot) (mem : Mem) :
    ∃ ptrs, runprogram faults argv last mem = some ⟨ptrs, base argv, copied faults argv mem⟩ := by
  refine ⟨update (slotsAfter argv last argv.length) argv.length (.user 0), ?_⟩
  unfold runprogram
  rw [putStrings_eq h, bind_some]
  apply putWords_eq h
  intro j hj
  unfold slotsAfter word
  dsimp only
  by_cases hlt : j < argv.length
  · rw [update_of_ne (by omega), if_pos (by omega), if_pos hlt]
  · obtain rfl : j = argv.length := by omega
    rw [update_self, if_neg hlt]

/-! ## What is in memory -/

def stores (argv : List CString) (n : Nat) : Nat :=
  if n < argv.length then (content argv n).length else 1

def MappedAt (faults : Faults) (argv : List CString) (n : Nat) : Prop :=
  ∀ x < stores argv n, faults n (place argv n + x) = false

def Mapped (faults : Faults) (argv : List CString) : Prop :=
  ∀ n < argv.length + (argv.length + 1), MappedAt faults argv n

theorem length_wordBytes (w : Nat) : (wordBytes w).length = 4 := slice_length

theorem content_string (hn : n < argv.length) (hstr : argv[argv.length - (n + 1)]? = some str) :
    content argv n = str.bytes := by
  unfold content index
  rw [if_pos hn, if_pos hn, hstr]
  rfl

theorem place_below (h : Fits argv) {l : Nat} (hkl : k < l)
    (hl : l < argv.length + (argv.length + 1)) :
    place argv l + (content argv l).length ≤ place argv k := by
  have hge := h.strAddr_ge 0
  by_cases hstr : l < argv.length
  · obtain ⟨str, hs⟩ : ∃ str, argv[argv.length - (l + 1)]? = some str :=
      ⟨_, List.getElem?_eq_getElem (by omega)⟩
    have hnext := h.strAddr_succ hs
    have hlen := strlen_lt_calcAlignLength str
    have hmono := strAddr_mono argv (show argv.length - (l + 1) + 1 ≤ argv.length - (k + 1) by omega)
    rw [content_string hstr hs, length_bytes]
    unfold place index
    rw [if_pos hstr, if_pos hstr, if_pos (by omega), if_pos (by omega)]
    omega
  · have hlen : (content argv l).length = 4 := by
      unfold content
      rw [if_neg hstr, length_wordBytes]
    unfold place index base
    rw [if_neg hstr, if_neg hstr]
    by_cases hk : k < argv.length
    · have hmono := strAddr_mono argv (Nat.zero_le (argv.length - (k + 1)))
      rw [if_pos hk, if_pos hk]
      omega
    · rw [if_neg hk, if_neg hk]
      omega

theorem length_written_le (n : Nat) : (written faults argv n).length ≤ (content argv n).length :=
  length_take_le' ..

theorem copied_at (faults : Faults) (mem : Mem) (h : Fits argv)
    (hn : n < argv.length + (argv.length + 1)) {x : Nat} (hx : x < (content argv n).length) :
    copied faults argv mem (place argv n + x) =
      if x < (written faults argv n).length then (written faults argv n).getD x 0
      else mem (place argv n + x) :=
  splices_at (fun _ _ hkl hl => place_below h hkl hl) (fun k _ => length_written_le k) hn hx

theorem reached_eq_iff : reached faults argv n = (content argv n).length ↔ MappedAt faults argv n := by
  unfold reached MappedAt stores
  by_cases hstr : n < argv.length
  · rw [if_pos hstr, if_pos hstr, reach_eq_iff]
  · have hlen : (content argv n).length = 4 := by
      unfold content
      rw [if_neg hstr, length_wordBytes]
    rw [if_neg hstr, if_neg hstr, hlen]
    cases hfault : faults n (place argv n) with
    | true => simp [hfault]
    | false => simp [hfault]

theorem written_eq_content (hmapped : MappedAt faults argv n) :
    written faults argv n = content argv n := by
  unfold written
  rw [reached_eq_iff.mpr hmapped, take_length]

theorem slice_copied (h : Fits argv) (hn : n < argv.length + (argv.length + 1))
    (hmapped : MappedAt faults argv n) (mem : Mem) :
    slice (copied faults argv mem) (place argv n) (content argv n).length = content argv n := by
  apply ext_getElem?
  intro x
  rw [getElem?_slice]
  by_cases hx : x < (content argv n).length
  · rw [if_pos hx, copied_at faults mem h hn hx, written_eq_content hmapped, if_pos hx,
      getD_eq_getElem?_getD, List.getElem?_eq_getElem hx, getD_some]
  · rw [if_neg hx, List.getElem?_eq_none (not_lt.mp hx)]

def load (mem : Mem) (addr : Nat) : Nat := wordAt mem (addr / 4)

structure LaidOut (argv : List CString) (stackptr : Nat) (mem : Mem) : Prop where
  aligned : stackptr % 4 = 0
  null : load mem (stackptr + 4 * argv.length) = 0
  string : ∀ k str, argv[k]? = some str →
    slice mem (load mem (stackptr + 4 * k)) (str.strlen + 1) = str.bytes
  inside : ∀ k str, argv[k]? = some str →
    stackptr + 4 * (argv.length + 1) ≤ load mem (stackptr + 4 * k) ∧
      load mem (stackptr + 4 * k) + calcAlignLength str ≤ USERSTACK
  disjoint : ∀ k l a b, k ≠ l → argv[k]? = some a → argv[l]? = some b →
    load mem (stackptr + 4 * k) + calcAlignLength a ≤ load mem (stackptr + 4 * l) ∨
      load mem (stackptr + 4 * l) + calcAlignLength b ≤ load mem (stackptr + 4 * k)

theorem Fits.base_mod (h : Fits argv) : base argv % 4 = 0 := by
  have hge := h.strAddr_ge 0
  have hmod := room_mod argv 0
  unfold base
  rw [strAddr_eq] at hge ⊢
  omega

theorem wordAt_of_slice {w : Nat} (hw : w < 2 ^ 32) (h : slice mem (4 * k) 4 = wordBytes w) :
    wordAt mem k = w := by
  have hword : wordAt (ofWords fun _ => w) k = w := wordAt_ofWords hw
  rw [← hword]
  apply wordAt_congr
  intro j hj
  have hbyte := congrArg (·[j]?) h
  simp only [wordBytes, getElem?_slice, if_pos hj, some.injEq, zero_add] at hbyte
  rw [hbyte]
  unfold ofWords
  rw [Nat.mul_add_mod]

theorem word_lt (argv : List CString) (j : Nat) : word argv j < 2 ^ 32 := by
  have hle := strAddr_le argv j
  unfold word
  split
  · omega
  · decide

theorem place_word (hj : j ≤ argv.length) :
    place argv (argv.length + (argv.length - j)) = base argv + 4 * j ∧
      content argv (argv.length + (argv.length - j)) = wordBytes (word argv j) := by
  have hindex : index argv (argv.length + (argv.length - j)) = j := by
    unfold index
    rw [if_neg (by omega)]
    omega
  unfold place content
  rw [if_neg (by omega), if_neg (by omega), hindex]
  exact ⟨rfl, rfl⟩

theorem place_string (hstr : argv[j]? = some str) :
    place argv (argv.length - (j + 1)) = strAddr argv j ∧
      content argv (argv.length - (j + 1)) = str.bytes := by
  obtain ⟨hj, -⟩ := List.getElem?_eq_some_iff.mp hstr
  have hindex : argv.length - (argv.length - (j + 1) + 1) = j := by omega
  have hlt : argv.length - (j + 1) < argv.length := by omega
  refine ⟨?_, content_string hlt (by rw [hindex]; exact hstr)⟩
  unfold place index
  rw [if_pos hlt, if_pos hlt, hindex]

theorem load_copied (h : Fits argv) (hj : j ≤ argv.length)
    (hmapped : MappedAt faults argv (argv.length + (argv.length - j))) :
    load (copied faults argv mem) (base argv + 4 * j) = word argv j := by
  obtain ⟨hplace, hcontent⟩ := place_word hj
  have hslice := slice_copied h (by omega) hmapped mem
  rw [hplace, hcontent, length_wordBytes] at hslice
  have hmod := h.base_mod
  apply wordAt_of_slice (word_lt argv j)
  rw [show 4 * ((base argv + 4 * j) / 4) = base argv + 4 * j by omega]
  exact hslice

theorem laidOut_of_mapped (h : Fits argv) (hmapped : Mapped faults argv) :
    LaidOut argv (base argv) (copied faults argv mem) := by
  have hge := h.strAddr_ge 0
  have hload : ∀ k str, argv[k]? = some str →
      load (copied faults argv mem) (base argv + 4 * k) = strAddr argv k := by
    intro k str hstr
    obtain ⟨hk, -⟩ := List.getElem?_eq_some_iff.mp hstr
    rw [load_copied h (le_of_lt hk) (hmapped _ (by omega))]
    exact if_pos hk
  -- a string ends before the next one begins
  have hbelow : ∀ k l a, k < l → argv[k]? = some a →
      strAddr argv k + calcAlignLength a ≤ strAddr argv l := by
    intro k l a hkl ha
    rw [h.strAddr_succ ha]
    exact strAddr_mono argv hkl
  refine ⟨h.base_mod, ?_, ?_, ?_, ?_⟩
  · rw [load_copied h (le_rfl) (hmapped _ (by omega))]
    exact if_neg (lt_irrefl _)
  · intro k str hstr
    obtain ⟨hplace, hcontent⟩ := place_string hstr
    have hslice := slice_copied h (by omega) (hmapped (argv.length - (k + 1)) (by omega)) mem
    rw [hplace, hcontent, length_bytes] at hslice
    rw [hload k str hstr]
    exact hslice
  · intro k str hstr
    have hmono := strAddr_mono argv (Nat.zero_le k)
    have hle := strAddr_le argv (k + 1)
    rw [hload k str hstr, h.strAddr_succ hstr]
    unfold base
    exact ⟨by omega, hle⟩
  · intro k l a b hne ha hb
    rw [hload k a ha, hload l b hb]
    rcases lt_or_gt_of_ne hne with hkl | hlk
    · exact .inl (hbelow k l a hkl ha)
    · exact .inr (hbelow l k b hlk hb)

theorem load_unwritten (h : Fits argv) (hj : j ≤ argv.length)
    (hfault : ¬ MappedAt faults argv (argv.length + (argv.length - j))) (mem : Mem) :
    load (copied faults argv mem) (base argv + 4 * j) = load mem (base argv + 4 * j) := by
  obtain ⟨hplace, hcontent⟩ := place_word hj
  have hwritten : written faults argv (argv.length + (argv.length - j)) = [] := by
    have hne := mt reached_eq_iff.mp hfault
    unfold reached at hne
    unfold written reached
    rw [if_neg (by omega)] at hne ⊢
    cases hword : faults (argv.length + (argv.length - j))
      (place argv (argv.length + (argv.length - j))) with
    | true => rfl
    | false =>
      rw [hword, hcontent, length_wordBytes] at hne
      exact absurd rfl hne
  have hmod := h.base_mod
  apply wordAt_congr
  intro x hx
  have hat := copied_at faults mem h
    (show argv.length + (argv.length - j) < argv.length + (argv.length + 1) by omega)
    (by rw [hcontent, length_wordBytes]; exact hx)
  rw [hplace, hwritten] at hat
  rw [show 4 * ((base argv + 4 * j) / 4) = base argv + 4 * j by omega]
  exact hat

theorem mappedAt_word (h : Fits argv)
    (hlaid : LaidOut argv (base argv) (copied faults argv fun _ => 0xff)) (hj : j ≤ argv.length) :
    MappedAt faults argv (argv.length + (argv.length - j)) := by
  by_contra hfault
  have hload : load (copied faults argv fun _ => 0xff) (base argv + 4 * j) = 0xffffffff := by
    have hbyte : (0xff : UInt8).toNat = 255 := rfl
    rw [load_unwritten h hj hfault]
    unfold load wordAt
    rw [hbyte]
    omega
  rcases Nat.lt_or_eq_of_le hj with hlt | rfl
  · have hinside := (hlaid.inside j argv[j] (List.getElem?_eq_getElem hlt)).2
    have htop : USERSTACK = 0x80000000 := rfl
    omega
  · rw [hlaid.null] at hload
    omega

def offByOne (argv : List CString) (j : Nat) (str : CString) : Mem := fun addr =>
  str.bytes.getD (addr - strAddr argv j) 0 + 1

theorem mappedAt_string (h : Fits argv) (hstr : argv[j]? = some str)
    (hword : MappedAt faults argv (argv.length + (argv.length - j)))
    (hlaid : LaidOut argv (base argv) (copied faults argv (offByOne argv j str))) :
    MappedAt faults argv (argv.length - (j + 1)) := by
  obtain ⟨hj, -⟩ := List.getElem?_eq_some_iff.mp hstr
  obtain ⟨hplace, hcontent⟩ := place_string hstr
  by_contra hfault
  -- the first byte that is not stored
  have hreached : reached faults argv (argv.length - (j + 1)) < str.bytes.length := by
    have hne := mt reached_eq_iff.mp hfault
    have hle := reach_le (faults (argv.length - (j + 1))) (place argv (argv.length - (j + 1)))
      (content argv (argv.length - (j + 1))).length
    unfold reached at hne ⊢
    rw [if_pos (by omega), hcontent] at *
    omega
  have hat := copied_at faults (offByOne argv j str) h
    (show argv.length - (j + 1) < argv.length + (argv.length + 1) by omega)
    (by rw [hcontent]; exact hreached)
  have hlen : (written faults argv (argv.length - (j + 1))).length =
      reached faults argv (argv.length - (j + 1)) := by
    unfold written
    rw [length_take, hcontent]
    omega
  rw [hplace, hlen, if_neg (lt_irrefl _)] at hat
  have hload : load (copied faults argv (offByOne argv j str)) (base argv + 4 * j) = strAddr argv j := by
    rw [load_copied h (le_of_lt hj) hword]
    exact if_pos hj
  have hslice := hlaid.string j str hstr
  rw [hload] at hslice
  have hbyte := congrArg (·[reached faults argv (argv.length - (j + 1))]?) hslice
  simp only [getElem?_slice, ← length_bytes, if_pos hreached, List.getElem?_eq_getElem hreached,
    some.injEq, hat, offByOne, Nat.add_sub_cancel_left, getD_eq_getElem?_getD,
    getD_some] at hbyte
  exact absurd hbyte (by simp)

/-- No store to the stack faults. -/
theorem arguments_laid_out_iff (argv : List CString) (h : Fits argv) (faults : Faults) :
    (∀ mem, ∃ s, execv faults argv mem = some s ∧ LaidOut argv s.stackptr s.mem ∧
      ∀ last, ∃ s', runprogram faults argv last mem = some s' ∧ s'.stackptr = s.stackptr ∧
        s'.mem = s.mem) ↔ Mapped faults argv := by
  constructor
  · intro hall
    have hlaid : ∀ mem, LaidOut argv (base argv) (copied faults argv mem) := by
      intro mem
      obtain ⟨s, hs, hlaid, -⟩ := hall mem
      obtain ⟨ptrs, hexec⟩ := execv_eq h faults mem
      rw [hexec] at hs
      cases hs
      exact hlaid
    have hwords : ∀ j ≤ argv.length, MappedAt faults argv (argv.length + (argv.length - j)) :=
      fun j hj => mappedAt_word h (hlaid _) hj
    intro n hn
    rcases lt_or_ge n argv.length with hlt | hge
    · have hj : argv.length - (n + 1) < argv.length := by omega
      have hstr := mappedAt_string h (List.getElem?_eq_getElem hj) (hwords _ (le_of_lt hj))
        (hlaid _)
      rwa [show argv.length - (argv.length - (n + 1) + 1) = n by omega] at hstr
    · have hword := hwords (argv.length - (n - argv.length)) (Nat.sub_le ..)
      rwa [show argv.length + (argv.length - (argv.length - (n - argv.length))) = n by omega] at hword
  · intro hmapped mem
    obtain ⟨ptrs, hexec⟩ := execv_eq h faults mem
    refine ⟨_, hexec, laidOut_of_mapped h hmapped, fun last => ?_⟩
    obtain ⟨ptrs', hrun⟩ := runprogram_eq h faults last mem
    exact ⟨_, hrun, rfl, rfl⟩

theorem ls_nonzero : ∀ ch ∈ ([0x6c, 0x73] : List UInt8), ch ≠ 0 := by simp

theorem root_nonzero : ∀ ch ∈ ([0x2f] : List UInt8), ch ≠ 0 := by simp

def lsRoot : List CString := [⟨[0x6c, 0x73], ls_nonzero⟩, ⟨[0x2f], root_nonzero⟩]

/-- The first copy, of the last string, faults and the others do not. -/
theorem argument_lost : ∃ s, execv (fun n _ => n == 0) lsRoot (fun _ => 0xff) = some s ∧
    load s.mem (s.stackptr + 4) = 0x7ffffffc ∧ s.mem 0x7ffffffc = 0xff ∧
      ¬ LaidOut lsRoot s.stackptr s.mem := by
  have hrun : ∃ s ∈ execv (fun n _ => n == 0) lsRoot (fun _ => 0xff),
      load s.mem (s.stackptr + 4) = 0x7ffffffc ∧ s.mem 0x7ffffffc = 0xff := by decide +kernel
  obtain ⟨s, hs, hload, hbyte⟩ := hrun
  refine ⟨s, hs, hload, hbyte, fun hlaid => ?_⟩
  have hstr := hlaid.string 1 _ rfl
  rw [hload] at hstr
  have hfirst := congrArg (·[0]?) hstr
  rw [getElem?_slice, if_pos (Nat.succ_pos _), Nat.add_zero, hbyte] at hfirst
  simp [CString.bytes] at hfirst

theorem arguments_laid_out_two : Fits lsRoot ∧
      ∀ mem, ∃ s, execv (fun _ _ => false) lsRoot mem = some s ∧
        LaidOut lsRoot s.stackptr s.mem := by
  have hfits : Fits lsRoot := by decide +kernel
  refine ⟨hfits, fun mem => ?_⟩
  obtain ⟨s, hs, hlaid, -⟩ :=
    (arguments_laid_out_iff _ hfits fun _ _ => false).mpr (fun _ _ _ _ => rfl) mem
  exact ⟨s, hs, hlaid⟩

end Os161.Userprog
