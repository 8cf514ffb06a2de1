import Mathlib.Data.List.Forall2

/-!
# Words of a string

`lib/libc/strtok_r.c`, and its two nested uses in `menu_execute` and `cmd_dispatch`. Pointers are
positions in a buffer; a read outside of it is `none`.
-/

open List Option

namespace Os161.Libc.Strtok

abbrev Buf := List UInt8

/-- Goes on from position `i`, where `rest` is, while there is no NUL and `p` holds. -/
def scanFrom (p : UInt8 → Bool) : List UInt8 → Nat → Option Nat
  | [], _ => none
  | c :: rest, i => if c ≠ 0 ∧ p c = true then scanFrom p rest (i + 1) else some i

def scan (buf : Buf) (p : UInt8 → Bool) (i : Nat) : Option Nat := scanFrom p (buf.drop i) i

def strtokR (seps : List UInt8) (string : Option Nat) (buf : Buf) (context : Option Nat) :
    Option (Buf × Option Nat × Option Nat) :=
  match string.or context with
  | none => some (buf, none, none)
  | some start =>
    (scan buf (fun c => decide (c ∈ seps)) start).bind fun head =>
      if buf[head]? = some 0 then some (buf, none, none)
      else (scan buf (fun c => decide (c ∉ seps)) head).map fun tail =>
        if buf[tail]? = some 0 then (buf, none, some head)
        else (buf.set tail 0, some (tail + 1), some head)

/-- The first of `n` calls passes `string`, the others NULL. -/
def calls (seps : List UInt8) : Nat → Option Nat → Buf → Option Nat →
    Option (List (Option Nat) × Buf × Option Nat)
  | 0, _, buf, context => some ([], buf, context)
  | n + 1, string, buf, context =>
    (strtokR seps string buf context).bind fun r =>
      (calls seps n none r.1 r.2.1).map fun q => (r.2.2 :: q.1, q.2)

def cstr (buf : Buf) (p : Nat) : List UInt8 := (buf.drop p).takeWhile (· ≠ 0)

def MAXMENUARGS : Nat := 16

def blanks : List UInt8 := [32, 9]

def semicolon : List UInt8 := [59]

/-- `none` is E2BIG. There are no more rounds than bytes. -/
def dispatchArgs : Nat → Option Nat → Buf → Option Nat → List Nat → Option (Buf × Option (List Nat))
  | 0, _, _, _, _ => none
  | fuel + 1, cmd, buf, context, args =>
    (strtokR blanks cmd buf context).bind fun r =>
      match r.2.2 with
      | none => some (r.1, some args)
      | some word =>
        if MAXMENUARGS ≤ args.length then some (r.1, none)
        else dispatchArgs fuel none r.1 r.2.1 (args ++ [word])

/-- With the arguments of each command. The context of `cmd_dispatch` has no value at first. -/
def menuExecute (junk : Option Nat) : Nat → Option Nat → Buf → Option Nat →
    Option (Buf × List (Option (List (List UInt8))))
  | 0, _, _, _ => none
  | fuel + 1, line, buf, context =>
    (strtokR semicolon line buf context).bind fun r =>
      match r.2.2 with
      | none => some (r.1, [])
      | some command =>
        (dispatchArgs (r.1.length + 1) (some command) r.1 junk []).bind fun d =>
          (menuExecute junk fuel none d.1 r.2.1).map fun m =>
            (m.1, d.2.map (fun args => args.map (cstr d.1)) :: m.2)

/-- The stretches between separators that are not empty. -/
def words (seps s : List UInt8) : List (List UInt8) :=
  (s.splitOnP fun c => decide (c ∈ seps)).filter (· ≠ [])

/-- Only separators are overwritten, with NUL. -/
def Cut (seps : List UInt8) : List UInt8 → List UInt8 → Prop :=
  List.Forall₂ fun x y => y = x ∨ x ∈ seps ∧ y = 0

def argsOf (cmd : List UInt8) : Option (List (List UInt8)) :=
  if (words blanks cmd).length ≤ MAXMENUARGS then some (words blanks cmd) else none

variable {seps a w t r A B s z r' x : List UInt8} {c : UInt8} {p : UInt8 → Bool}

theorem words_seps (ha : ∀ x ∈ a, x ∈ seps) (r : List UInt8) : words seps (a ++ r) = words seps r := by
  induction a with
  | nil => rfl
  | cons x a ih =>
    unfold words at ih ⊢
    rw [cons_append, splitOnP_cons_eq_if_modifyHead, if_pos (decide_eq_true (ha x mem_cons_self))]
    simpa using ih fun y hy => ha y (mem_cons_of_mem _ hy)

theorem words_word (hw : ∀ x ∈ w, x ∉ seps) (hne : w ≠ []) : words seps w = [w] := by
  unfold words
  rw [splitOnP_eq_singleton (by simpa using hw)]
  simp [hne]

theorem words_cons (hw : ∀ x ∈ w, x ∉ seps) (hne : w ≠ []) (hc : c ∈ seps) :
    words seps (w ++ c :: t) = w :: words seps t := by
  unfold words
  rw [splitOnP_append_cons_of_forall_mem (by simpa using hw) c (by simpa using hc)]
  simp [hne]

theorem split_word (seps r : List UInt8) : (∀ x ∈ r, x ∈ seps) ∨ ∃ a w t, r = a ++ (w ++ t) ∧
    (∀ x ∈ a, x ∈ seps) ∧ (∀ x ∈ w, x ∉ seps) ∧ w ≠ [] ∧ ∀ c t', t = c :: t' → c ∈ seps := by
  induction r with
  | nil => exact .inl nofun
  | cons x r ih =>
    by_cases hx : x ∈ seps
    · obtain hall | ⟨a, w, t, rfl, ha, hrest⟩ := ih
      · exact .inl (by simp [hx]; exact hall)
      · exact .inr ⟨x :: a, w, t, rfl, by simp [hx]; exact ha, hrest⟩
    · right
      refine ⟨[], (x :: r).takeWhile (· ∉ seps), (x :: r).dropWhile (· ∉ seps), ?_, nofun, ?_, ?_, ?_⟩
      · exact takeWhile_append_dropWhile.symm
      · intro y hy
        simpa using all_eq_true.mp (all_takeWhile ..) y hy
      · simp [hx]
      · intro c t' ht
        have hhead := List.head?_dropWhile_not (fun y => decide (y ∉ seps)) (x :: r)
        rw [ht] at hhead
        simpa using hhead

theorem scan_eq (hr : ∀ x ∈ r, x ≠ 0 ∧ p x = true) (hc : c = 0 ∨ p c = false) :
    scan (A ++ (r ++ c :: B)) p A.length = some (A.length + r.length) := by
  unfold scan
  rw [drop_left]
  generalize A.length = i
  induction r generalizing i with
  | nil =>
    refine if_neg fun h => ?_
    simp_all
  | cons x r ih =>
    rw [cons_append, scanFrom, if_pos (hr x mem_cons_self),
      ih (fun y hy => hr y (mem_cons_of_mem _ hy)), length_cons]
    congr 1
    omega

theorem get_at (X Y : List UInt8) (c : UInt8) : (X ++ c :: Y)[X.length]? = some c := by simp

theorem strtokR_string (seps : List UInt8) (p : Nat) (buf : Buf) (junk : Option Nat) :
    strtokR seps (some p) buf junk = strtokR seps none buf (some p) := rfl

theorem strtokR_none (buf : Buf) : strtokR seps none buf none = some (buf, none, none) := rfl

theorem strtokR_end (h0 : 0 ∉ r) (hr : ∀ x ∈ r, x ∈ seps) :
    strtokR seps none (A ++ (r ++ 0 :: B)) (some A.length) = some (A ++ (r ++ 0 :: B), none, none) := by
  have hscan : scan (A ++ (r ++ 0 :: B)) (fun c => decide (c ∈ seps)) A.length =
      some (A ++ r).length := by
    rw [scan_eq (fun x hx => ⟨fun h => h0 (h ▸ hx), decide_eq_true (hr x hx)⟩) (.inl rfl),
      length_append]
  unfold strtokR
  rw [none_or]
  dsimp only
  rw [hscan, bind_some, ← append_assoc, if_pos (get_at ..)]

/-- The word is followed by `c`, which becomes its NUL if it is none. -/
theorem strtokR_word {Z : List UInt8} (h0 : 0 ∉ a ++ w) (ha : ∀ x ∈ a, x ∈ seps)
    (hw : ∀ x ∈ w, x ∉ seps) (hne : w ≠ []) (hc : c = 0 ∨ c ∈ seps) :
    strtokR seps none (A ++ (a ++ (w ++ c :: Z))) (some A.length) =
      some (if c = 0 then (A ++ (a ++ (w ++ c :: Z)), none, some (A ++ a).length)
        else (A ++ (a ++ (w ++ [0])) ++ Z, some (A ++ (a ++ (w ++ [0]))).length,
          some (A ++ a).length)) := by
  have hnul (x : UInt8) (hx : x ∈ a ++ w) : x ≠ 0 := fun h => h0 (h ▸ hx)
  obtain ⟨x, v, rfl⟩ := exists_cons_of_ne_nil hne
  have hx : x ≠ 0 := hnul x (by simp)
  have hhead : scan (A ++ (a ++ (x :: v ++ c :: Z))) (fun c => decide (c ∈ seps)) A.length =
      some (A ++ a).length := by
    rw [cons_append, scan_eq (fun y hy => ⟨hnul y (by simp [hy]), decide_eq_true (ha y hy)⟩)
      (.inr (decide_eq_false (hw x mem_cons_self))), length_append]
  have htail : scan (A ++ (a ++ (x :: v ++ c :: Z))) (fun c => decide (c ∉ seps)) (A ++ a).length =
      some (A ++ a ++ x :: v).length := by
    rw [← append_assoc, scan_eq
      (fun y hy => ⟨hnul y (mem_append_right _ hy), decide_eq_true (hw y hy)⟩)
      (hc.imp_right fun h => decide_eq_false (not_not_intro h)), ← length_append]
  have hfirst : (A ++ (a ++ (x :: v ++ c :: Z)))[(A ++ a).length]? = some x := by
    rw [← append_assoc]
    exact get_at ..
  have hlast : (A ++ (a ++ (x :: v ++ c :: Z)))[(A ++ a ++ x :: v).length]? = some c := by
    rw [← append_assoc, ← append_assoc]
    exact get_at ..
  unfold strtokR
  simp only [none_or, hhead, bind_some, hfirst, htail, map_some, hlast, some.injEq, if_neg hx]
  split
  · rfl
  · simp [Nat.add_assoc]

/-- What is left is `r` between `A` and `B`; nothing, once `*context` is NULL. -/
def Left (buf : Buf) (context : Option Nat) (A r B : List UInt8) : Prop :=
  buf = A ++ (r ++ 0 :: B) ∧ (context = some A.length ∨ context = none ∧ r = [])

/-- The separator `s` after the word `w` has become `z`, and `r'` is left. -/
structure Next (seps B r a w s z r' : List UInt8) : Prop where
  eq : r = a ++ (w ++ (s ++ r'))
  pos : 0 < w.length
  words : words seps r = w :: words seps r'
  cut : Cut seps s z
  nul : ∀ x : List UInt8, x.length = r'.length → ∃ Y, z ++ (x ++ 0 :: B) = 0 :: Y

theorem strtokR_step (seps : List UInt8) {buf : Buf} {context : Option Nat} (h0 : 0 ∉ r) (h : Left buf context A r B) :
    (words seps r = [] ∧ strtokR seps none buf context = some (buf, none, none)) ∨
    ∃ a w s z r' buf' context', Next seps B r a w s z r' ∧
      strtokR seps none buf context = some (buf', context', some (A ++ a).length) ∧
      Left buf' context' (A ++ (a ++ (w ++ z))) r' B := by
  obtain ⟨rfl, rfl | ⟨rfl, rfl⟩⟩ := h
  swap
  · exact .inl ⟨rfl, rfl⟩
  obtain hr | ⟨a, w, t, rfl, ha, hw, hne, ht⟩ := split_word seps r
  · refine .inl ⟨?_, strtokR_end h0 hr⟩
    have hwords := words_seps hr []
    rwa [append_nil] at hwords
  have haw : 0 ∉ a ++ w := fun h => h0 (by rw [← append_assoc]; exact mem_append_left t h)
  have hpos := length_pos_of_ne_nil hne
  right
  rw [append_assoc, append_assoc]
  cases t with
  | nil =>
    refine ⟨a, w, [], [], [], A ++ (a ++ (w ++ 0 :: B)), none,
      ⟨rfl, hpos, ?_, .nil, fun x hx => ⟨B, ?_⟩⟩, ?_, ?_, .inr ⟨rfl, rfl⟩⟩
    · rw [words_seps ha, append_nil, words_word hw hne]
      rfl
    · rw [length_eq_zero_iff.mp hx]
      rfl
    · rw [nil_append, strtokR_word haw ha hw hne (.inl rfl), if_pos rfl]
    · simp
  | cons c t =>
    have hc := ht c t rfl
    have hc0 : c ≠ 0 := fun h => h0 (by simp [h])
    refine ⟨a, w, [c], [0], t, _, _, ⟨rfl, hpos, ?_, .cons (.inr ⟨hc, rfl⟩) .nil, fun x _ => ⟨_, rfl⟩⟩,
      ?_, rfl, .inl rfl⟩
    · rw [words_seps ha, words_cons hw hne hc]
    · rw [cons_append, strtokR_word haw ha hw hne (.inr hc), if_neg hc0]

theorem cstr_at (X Y : List UInt8) (hw : 0 ∉ w) : cstr (X ++ (w ++ 0 :: Y)) X.length = w := by
  unfold cstr
  rw [drop_left, takeWhile_append_of_pos]
  · simp
  · intro x hx
    have hne : x ≠ 0 := fun h => hw (h ▸ hx)
    simpa using hne

section

variable (h : Next seps B r a w s z r')
include h

theorem Next.cstr (h0 : 0 ∉ r) (A : List UInt8)
    (hx : x.length = r'.length) :
    cstr (A ++ (a ++ (w ++ z) ++ x ++ 0 :: B)) (A ++ a).length = w := by
  obtain ⟨Y, hY⟩ := h.nul x hx
  have hat := cstr_at (A ++ a) Y (fun hmem => h0 (by simp [h.eq, hmem]) : 0 ∉ w)
  rw [← hY] at hat
  simpa using hat

theorem Next.rest (h0 : 0 ∉ r) : 0 ∉ r' := fun hmem => h0 (by simp [h.eq, hmem])

theorem Next.length : r.length = a.length + (w.length + (s.length + r'.length)) := by
  simp [h.eq]

end

theorem cut_refl (seps r : List UInt8) : Cut seps r r := List.forall₂_same.mpr fun _ _ => .inl rfl

theorem Next.cut_append (h : Next seps B r a w s z r') (hx : Cut seps r' x) :
    Cut seps r (a ++ (w ++ z) ++ x) := by
  rw [h.eq, append_assoc, append_assoc]
  exact rel_append (cut_refl ..) (rel_append (cut_refl ..) (rel_append h.cut hx))

theorem Next.buf (x : List UInt8) :
    A ++ (a ++ (w ++ z)) ++ (x ++ 0 :: B) = A ++ (a ++ (w ++ z) ++ x ++ 0 :: B) := by
  simp

theorem Next.length_cut (h : Next seps B r a w s z r') (hx : x.length = r'.length) :
    (a ++ (w ++ z) ++ x).length = r.length := by
  have hz := h.cut.length_eq
  simp only [h.length, length_append]
  omega

/-- `n` results on the string `r` after `A`, once it has become `x`. -/
structure Splits (seps A B r : List UInt8) (n : Nat) (rs : List (Option Nat)) (x : List UInt8) :
    Prop where
  cut : Cut seps r x
  words : rs.map (Option.map (cstr (A ++ (x ++ 0 :: B)))) =
    (List.range n).map fun k => (words seps r)[k]?
  inside : ∀ p, some p ∈ rs → A.length ≤ p ∧ p < A.length + r.length

theorem calls_none (seps : List UInt8) (n : Nat) (buf : Buf) :
    calls seps n none buf none = some (List.replicate n none, buf, none) := by
  induction n with
  | zero => rfl
  | succ n ih =>
    rw [calls, strtokR_none, bind_some, ih]
    rfl

theorem calls_spec {n : Nat} {buf : Buf} {context : Option Nat} (h0 : 0 ∉ r)
    (h : Left buf context A r B) : ∃ rs x context', calls seps n none buf context =
      some (rs, A ++ (x ++ 0 :: B), context') ∧ Splits seps A B r n rs x := by
  induction n generalizing r A buf context with
  | zero => exact ⟨[], r, context, by rw [calls, h.1], cut_refl .., rfl, nofun⟩
  | succ n ih =>
    rw [calls]
    obtain ⟨hwords, hcall⟩ | ⟨a, w, s, z, r', buf', context', hnext, hcall, hleft⟩ :=
      strtokR_step seps h0 h
    · refine ⟨_, r, none, by rw [hcall, bind_some, calls_none, h.1]; rfl, cut_refl .., ?_, ?_⟩
      · simp [hwords, replicate_succ]
      · simp
    · obtain ⟨rs, x, context'', hrun, hcut, hrs, hin⟩ := ih (hnext.rest h0) hleft
      have hlen := hnext.length
      rw [Next.buf] at hrun hrs
      refine ⟨some (A ++ a).length :: rs, a ++ (w ++ z) ++ x, context'', ?_, hnext.cut_append hcut, ?_, ?_⟩
      · rw [hcall, bind_some, hrun]
        rfl
      · rw [hnext.words, range_succ_eq_map, map_cons, map_cons, map_some,
          hnext.cstr h0 A hcut.length_eq.symm, hrs]
        simp
      · have hpos := hnext.pos
        have hz := hnext.cut.length_eq
        intro p hp
        obtain ⟨⟨⟩⟩ | hp := mem_cons.mp hp
        · simp only [length_append]
          omega
        · have hp' := hin p hp
          simp only [length_append] at hp'
          omega

theorem dispatchArgs_spec {fuel : Nat} {buf : Buf} {context : Option Nat} {args : List Nat}
    (h0 : 0 ∉ r) (hfuel : r.length < fuel) (h : Left buf context A r B) (hargs : args.length ≤ MAXMENUARGS) :
    ∃ x ps, dispatchArgs fuel none buf context args = some (A ++ (x ++ 0 :: B),
        if args.length + (words blanks r).length ≤ MAXMENUARGS then some (args ++ ps) else none) ∧
      x.length = r.length ∧ (args.length + (words blanks r).length ≤ MAXMENUARGS →
        ps.map (cstr (A ++ (x ++ 0 :: B))) = words blanks r) := by
  induction fuel generalizing r A buf context args with
  | zero => omega
  | succ fuel ih =>
    rw [dispatchArgs]
    obtain ⟨hwords, hcall⟩ | ⟨a, w, s, z, r', buf', context', hnext, hcall, hleft⟩ :=
      strtokR_step blanks h0 h
    · rw [hcall, hwords, h.1]
      exact ⟨r, [], by simp [hargs], rfl, fun _ => rfl⟩
    · have hcount : (words blanks r).length = (words blanks r').length + 1 := by simp [hnext.words]
      have hpos := hnext.pos
      have hlen := hnext.length
      rw [hcall, bind_some]
      dsimp only
      by_cases hmax : MAXMENUARGS ≤ args.length
      · refine ⟨a ++ (w ++ z) ++ r', [], ?_, hnext.length_cut rfl, by omega⟩
        rw [if_pos hmax, if_neg (by omega), hleft.1, Next.buf]
      · have hmax' : (args ++ [(A ++ a).length]).length ≤ MAXMENUARGS := by
          rw [length_append, length_singleton]
          omega
        obtain ⟨x, ps, hrun, hx, hps⟩ := ih (hnext.rest h0) (by omega) hleft hmax'
        have hargs' : (args ++ [(A ++ a).length]).length + (words blanks r').length =
            args.length + (words blanks r).length := by
          rw [hcount, length_append, length_singleton]
          omega
        rw [hargs', Next.buf] at hrun
        rw [hargs', Next.buf] at hps
        refine ⟨a ++ (w ++ z) ++ x, (A ++ a).length :: ps, ?_, hnext.length_cut hx, fun hle => ?_⟩
        · rw [if_neg hmax, hrun, append_assoc args]
          rfl
        · rw [map_cons, hnext.cstr h0 A hx, hps hle, hnext.words]

theorem menuExecute_spec {fuel : Nat} {buf : Buf} {junk context : Option Nat} (h0 : 0 ∉ r)
    (hfuel : r.length < fuel) (h : Left buf context A r B) :
    ∃ x, menuExecute junk fuel none buf context =
      some (A ++ (x ++ 0 :: B), (words semicolon r).map argsOf) := by
  induction fuel generalizing r A buf context with
  | zero => omega
  | succ fuel ih =>
    rw [menuExecute]
    obtain ⟨hwords, hcall⟩ | ⟨a, w, s, z, r', buf', context', hnext, hcall, hleft⟩ :=
      strtokR_step semicolon h0 h
    · rw [hcall, hwords, h.1]
      exact ⟨r, rfl⟩
    · have hpos := hnext.pos
      have hlen := hnext.length
      obtain ⟨Y, hY⟩ := hnext.nul r' rfl
      have hbuf : buf' = (A ++ a) ++ (w ++ 0 :: Y) := by
        rw [hleft.1, ← hY]
        simp
      have hw0 : 0 ∉ w := fun hmem => h0 (by simp [hnext.eq, hmem])
      have hfuel' : w.length < buf'.length + 1 := by
        simp only [hbuf, length_append]
        omega
      have hargs : ([] : List Nat).length ≤ MAXMENUARGS := Nat.zero_le _
      obtain ⟨x, ps, hrun, hx, hps⟩ := dispatchArgs_spec hw0 hfuel' ⟨hbuf, .inl rfl⟩ hargs
      have hleft' : Left (A ++ a ++ (x ++ 0 :: Y)) context' (A ++ (a ++ (x ++ z))) r' B := by
        refine ⟨by rw [← hY]; simp, hleft.2.imp_left fun hc => ?_⟩
        rw [hc]
        simp [hx]
      obtain ⟨x', hmenu⟩ := ih (hnext.rest h0) (by omega) hleft'
      refine ⟨a ++ (x ++ z) ++ x', ?_⟩
      rw [hcall, bind_some]
      dsimp only
      rw [dispatchArgs, strtokR_string, ← dispatchArgs, hrun, bind_some, hmenu, Next.buf,
        hnext.words]
      simp only [length_nil, Nat.zero_add, nil_append] at hps ⊢
      simp only [argsOf, map_cons, map_some]
      split
      · rw [map_some, hps ‹_›]
      · rfl

theorem strtok_splits {s : List UInt8} (h0 : 0 ∉ s) (seps pre post : List UInt8) (junk : Option Nat) :
    (∀ n, ∃ rs x context, calls seps (n + 1) (some pre.length) (pre ++ (s ++ 0 :: post)) junk =
      some (rs, pre ++ (x ++ 0 :: post), context) ∧ Splits seps pre post s (n + 1) rs x) ∧
    ∃ x, menuExecute junk (s.length + 1) (some pre.length) (pre ++ (s ++ 0 :: post)) junk =
      some (pre ++ (x ++ 0 :: post), (words semicolon s).map argsOf) := by
  have hleft : Left (pre ++ (s ++ 0 :: post)) (some pre.length) pre s post := ⟨rfl, .inl rfl⟩
  refine ⟨fun n => ?_, ?_⟩
  · rw [calls, strtokR_string, ← calls]
    exact calls_spec h0 hleft
  · exact menuExecute_spec h0 (Nat.lt_succ_self _) hleft

theorem strtok_splits_menu : ∃ x, menuExecute none 8 (some 1) [1, 112, 32, 120, 59, 59, 32, 113, 0, 1] none =
    some (1 :: (x ++ [0, 1]), [some [[112], [120]], some [[113]]]) :=
  (strtok_splits (by decide : (0 : UInt8) ∉ [112, 32, 120, 59, 59, 32, 113]) [32] [1] [1] none).2

end Os161.Libc.Strtok
