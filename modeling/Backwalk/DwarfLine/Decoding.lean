import Backwalk.DwarfLine.Scans
import Backwalk.Support.Leb128

/-!
Contract: what the readers return on bytes that are known.

Owns `Ahead`, which says what bytes stand at a cursor, and for each reader the
value that it returns from an encoding at the cursor: fixed-size values, LEB128
numbers, strings, and the attribute forms of a version 5 header. Each leaves the
cursor behind its encoding and nothing else changed, a logged scan apart.
-/

namespace Backwalk.DwarfLine

open Backwalk.Support

/-! ### Bytes at a cursor -/

def Cur.advance (c : Cur) (n : Nat) : Cur := { c with p := c.p + n }

def State.advance (s : State) (n : Nat) : State := { s with cur := s.cur.advance n }

/-- The bytes stand at the cursor, in front of the end of its section. -/
structure Ahead (img : Image) (bytes : List UInt8) (c : Cur) : Prop where
  started : 0 < c.p
  fits : c.p + bytes.length ≤ c.endp
  below : c.endp < 2 ^ img.bits
  mem : ∀ i, (inside : i < bytes.length) → img.mem (c.p + i) = some (bytes.get ⟨i, inside⟩)

@[simp]
theorem Cur.advance_p (c : Cur) (n : Nat) : (c.advance n).p = c.p + n := rfl

@[simp]
theorem Cur.advance_endp (c : Cur) (n : Nat) : (c.advance n).endp = c.endp := rfl

@[simp]
theorem State.advance_cur (s : State) (n : Nat) : (s.advance n).cur = s.cur.advance n := rfl

@[simp]
theorem State.advance_tab (s : State) (n : Nat) : (s.advance n).tab = s.tab := rfl

@[simp]
theorem State.advance_tabs (s : State) (n : Nat) : (s.advance n).tabs = s.tabs := rfl

@[simp]
theorem Cur.advance_advance (c : Cur) (m n : Nat) :
    (c.advance m).advance n = c.advance (m + n) := by
  simp [advance, Nat.add_assoc]

@[simp]
theorem State.advance_advance (s : State) (m n : Nat) :
    (s.advance m).advance n = s.advance (m + n) := by
  simp [advance]

section Ahead

variable {img : Image} {xs ys : List UInt8} {c : Cur} {s : State}

theorem Ahead.inside (ahead : Ahead img xs c) : Inside img c :=
  ⟨(Nat.le_add_right _ _).trans ahead.fits, ahead.below⟩

theorem Ahead.front (ahead : Ahead img (xs ++ ys) c) : Ahead img xs c := by
  have fits := ahead.fits
  rw [List.length_append] at fits
  refine ⟨ahead.started, by omega, ahead.below, ?_⟩
  intro i inside
  have whole := ahead.mem i (by rw [List.length_append]; omega)
  rw [whole]
  simp [List.getElem_append_left inside]

theorem Ahead.rest (ahead : Ahead img (xs ++ ys) c) : Ahead img ys (c.advance xs.length) := by
  have fits := ahead.fits
  rw [List.length_append] at fits
  refine ⟨?_, ?_, ahead.below, ?_⟩
  · have started := ahead.started
    simp only [Cur.advance_p]
    omega
  · simp only [Cur.advance_p, Cur.advance_endp]
    omega
  · intro i inside
    have whole := ahead.mem (xs.length + i) (by rw [List.length_append]; omega)
    rw [Cur.advance_p, Nat.add_assoc, whole]
    simp

theorem Ahead.okay (ahead : Ahead img (xs ++ ys) c) : bwCurOk img c xs.length = true := by
  have fits := ahead.front.fits
  have started := ahead.started
  simp only [bwCurOk, ne_eq, Bool.and_eq_true, decide_eq_true_eq, curRoom_of_inside ahead.inside]
  omega

theorem Ahead.ptrAdd (ahead : Ahead img (xs ++ ys) c) :
    img.ptrAdd c.p xs.length = c.p + xs.length :=
  (ptrAdd_of_inside ahead.inside ahead.okay).1

theorem Ahead.peek (ahead : Ahead img xs c) : peek img c.p xs.length = .ok xs := by
  induction xs generalizing c with
  | nil => rfl
  | cons x xs inductionHypothesis =>
      have first := ahead.mem 0 (by simp)
      have split : Ahead img ([x] ++ xs) c := ahead
      have moved := split.ptrAdd
      have later := inductionHypothesis split.rest
      simp only [List.length_singleton, Cur.advance_p] at later moved
      rw [Nat.add_zero] at first
      rw [List.length_cons, DwarfLine.peek, first, moved, later]
      rfl

/-- An image that is nothing but these bytes. -/
theorem ahead_lineImage {bytes : List UInt8} (tab : Tab) (short : bytes.length ≤ 2 ^ 32) :
    Ahead (lineImage bytes) bytes (startState (lineImage bytes) tab).cur := by
  have length : (lineImage bytes).line.len = bytes.length := Nat.min_eq_left short
  have started : (startState (lineImage bytes) tab).cur =
      ⟨0x10000, 0x10000 + bytes.length, false⟩ := by
    rw [startState, length]
    rfl
  rw [started]
  refine ⟨Nat.succ_pos _, le_refl _, ?_, ?_⟩
  · show 0x10000 + bytes.length < 2 ^ 64
    omega
  · intro i inside
    show memAt 0x10000 bytes (0x10000 + i) = _
    simp [memAt, inside]

/-! ### Fixed-size values -/

/-- A read of bytes that are there. -/
theorem bwUint_ahead {n : Nat} (ahead : Ahead img (xs ++ ys) s.cur) (length : xs.length = n) :
    bwUint img n s = .ok (leNat xs) (s.advance n) := by
  subst length
  rw [bwUint_run, if_pos ahead.okay, ahead.front.peek, ahead.ptrAdd]
  rfl

theorem bwU8_ahead {x : UInt8} (ahead : Ahead img (x :: ys) s.cur) :
    bwU8 img s = .ok x.toNat (s.advance 1) := by
  have split : Ahead img ([x] ++ ys) s.cur := ahead
  exact bwUint_ahead split rfl

theorem bwSkip_ahead {n : Nat} (ahead : Ahead img (xs ++ ys) s.cur) (length : xs.length = n) :
    bwSkip img n s = .ok () (s.advance n) := by
  subst length
  rw [bwSkip_run, if_pos ahead.okay, ahead.ptrAdd]
  rfl

theorem load_ahead {x : UInt8} (ahead : Ahead img (x :: ys) s.cur) :
    load img s.cur.p s = .ok x s := by
  have first := ahead.mem 0 (by simp)
  rw [Nat.add_zero] at first
  rw [load_run, first]
  rfl

/-! ### LEB128 numbers -/

theorem lebGroup_eq (byte : UInt8) (shift : Nat) :
    lebGroup byte.toNat shift = ((byte.toNat % 128) <<< shift) % 2 ^ 64 := by
  rw [lebGroup, and_group]

/-- A group put above the bits that there are. -/
theorem group_lt {r shift : Nat} (x : UInt8) (low : r < 2 ^ shift) :
    r + 2 ^ shift * (x.toNat % 128) < 2 ^ (shift + 7) := by
  have group : x.toNat % 128 < 128 := Nat.mod_lt _ (by decide)
  rw [Nat.pow_add]
  nlinarith [Nat.two_pow_pos shift]

/-- No bit is cut while there is room for the group. -/
theorem group_mod {r shift : Nat} (x : UInt8) (low : r < 2 ^ shift) (fits : shift + 7 ≤ 64) :
    (r + 2 ^ shift * (x.toNat % 128)) % 2 ^ 64 = r + 2 ^ shift * (x.toNat % 128) :=
  Nat.mod_eq_of_lt ((group_lt x low).trans_le (Nat.pow_le_pow_right (by decide) fits))

/-- The unsigned loop adds the number to the bits it has. -/
theorem bwUlebFrom_ahead {fuel r shift : Nat} (ahead : Ahead img (xs ++ ys) s.cur) (leb : IsLeb xs)
    (low : r < 2 ^ shift) (short : shift + 7 * xs.length ≤ 70) (enough : xs.length ≤ fuel) :
    bwUlebFrom img fuel r shift s =
      .ok ((r + 2 ^ shift * unsignedLeb xs) % 2 ^ 64) (s.advance xs.length) := by
  induction xs generalizing fuel r shift s with
  | nil => exact leb.elim
  | cons x xs inductionHypothesis =>
      obtain ⟨fuel, rfl⟩ : ∃ n, fuel = n + 1 := ⟨fuel - 1, by simp at enough; omega⟩
      simp only [List.length_cons] at short enough
      have read := bwU8_ahead (show Ahead img (x :: (xs ++ ys)) s.cur from ahead)
      have sum := or_group (x.toNat % 128) low (show shift ≤ 64 by omega)
      rw [bwUlebFrom, bind_of_ok read, lebGroup_eq, sum]
      cases xs with
      | nil =>
          rw [if_pos ((and_continuation x).mpr leb)]
          simp [unsignedLeb]
          rfl
      | cons y xs =>
          have more : ¬ x.toNat &&& 0x80 = 0 := by
            rw [and_continuation]
            exact Nat.not_lt_of_le leb.1
          simp only [List.length_cons] at short
          have bound := group_lt x low
          have whole := group_mod x low (show shift + 7 ≤ 64 by omega)
          have later : Ahead img ((y :: xs) ++ ys) (s.advance 1).cur :=
            (show Ahead img ([x] ++ ((y :: xs) ++ ys)) s.cur from ahead).rest
          rw [if_neg more, if_neg (by omega), whole,
            inductionHypothesis later leb.2 bound (by simp; omega) (by simpa using enough),
            State.advance_advance]
          congr 1
          · rw [unsignedLeb, unsignedLeb, unsignedLeb, Nat.pow_add]
            ring_nf
          · simp [Nat.add_comm]

theorem bwUleb_ahead (ahead : Ahead img (xs ++ ys) s.cur) (leb : IsLeb xs)
    (short : xs.length ≤ 10) :
    bwUleb img s = .ok (unsignedLeb xs % 2 ^ 64) (s.advance xs.length) := by
  have read := bwUlebFrom_ahead ahead leb (show 0 < 2 ^ 0 by decide) (by omega) short
  rw [bwUleb, read, Nat.pow_zero, Nat.one_mul, Nat.zero_add]

/-- Congruent integers have one representation. -/
theorem ofI64_of_congruent {v : Int} {n : Nat} (c : Int) (same : v = n + 2 ^ 64 * c) :
    ofI64 v = n % 2 ^ 64 := by
  rw [ofI64, same, Int.add_mul_emod_self_left]
  omega

/-- The last round of the signed loop. -/
theorem bwSlebFrom_last {fuel r shift : Nat} {x : UInt8} (ahead : Ahead img ([x] ++ ys) s.cur)
    (leb : x.toNat < 128) (low : r < 2 ^ shift) (short : shift + 7 ≤ 70) :
    bwSlebFrom img (fuel + 1) r shift s =
      .ok (toI64 (ofI64 (r + 2 ^ shift * signedLeb [x]))) (s.advance 1) := by
  have read := bwU8_ahead ahead
  have group : x.toNat % 128 < 128 := Nat.mod_lt _ (by decide)
  have sum := or_group (x.toNat % 128) low (show shift ≤ 64 by omega)
  have done : ¬ x.toNat &&& 0x80 ≠ 0 := not_not_intro ((and_continuation x).mpr leb)
  have answer : ∀ v : Nat, ofI64 (r + 2 ^ shift * signedLeb [x]) = v →
      (pure (toI64 v) : Parser Int) (s.advance 1) =
        .ok (toI64 (ofI64 (r + 2 ^ shift * signedLeb [x]))) (s.advance 1) := by
    rintro v rfl
    rfl
  rw [bwSlebFrom, if_neg (by omega), bind_of_ok read, lebGroup_eq, sum, if_neg done]
  rw [signedLeb_singleton] at answer ⊢
  by_cases negative : 64 ≤ x.toNat % 128
  · have signed : x.toNat &&& 0x40 ≠ 0 := (and_sign x).mpr negative
    rw [if_pos negative] at answer ⊢
    by_cases extends' : shift + 7 < 64
    · have bound := group_lt x low
      have whole := group_mod x low (show shift + 7 ≤ 64 by omega)
      rw [if_pos ⟨extends', signed⟩, whole, or_group _ bound (by omega)]
      apply answer
      apply ofI64_of_congruent (-2 ^ (shift + 7))
      push_cast
      rw [pow_add]
      ring
    · rw [if_neg fun both => extends' both.1]
      apply answer
      apply ofI64_of_congruent (-2 ^ (shift + 7 - 64))
      have split : (2 : Int) ^ 64 * 2 ^ (shift + 7 - 64) = 2 ^ shift * 128 := by
        rw [← pow_add, show 64 + (shift + 7 - 64) = shift + 7 by omega, pow_add]
        norm_num
      rw [mul_neg, split]
      simp only [Nat.cast_add, Nat.cast_mul, Nat.cast_pow, Nat.cast_ofNat, Int.natCast_emod]
      ring
  · rw [if_neg negative] at answer ⊢
    rw [if_neg fun both => negative ((and_sign x).mp both.2)]
    apply answer
    apply ofI64_of_congruent 0
    push_cast
    ring

theorem bwSlebFrom_ahead {fuel r shift : Nat} (ahead : Ahead img (xs ++ ys) s.cur) (leb : IsLeb xs)
    (low : r < 2 ^ shift) (short : shift + 7 * xs.length ≤ 70) (enough : xs.length ≤ fuel) :
    bwSlebFrom img fuel r shift s =
      .ok (toI64 (ofI64 (r + 2 ^ shift * signedLeb xs))) (s.advance xs.length) := by
  induction xs generalizing fuel r shift s with
  | nil => exact leb.elim
  | cons x xs inductionHypothesis =>
      obtain ⟨fuel, rfl⟩ : ∃ n, fuel = n + 1 := ⟨fuel - 1, by simp at enough; omega⟩
      simp only [List.length_cons] at short enough
      cases xs with
      | nil => exact bwSlebFrom_last ahead leb low short
      | cons y xs =>
          simp only [List.length_cons] at short
          have read := bwU8_ahead (show Ahead img (x :: ((y :: xs) ++ ys)) s.cur from ahead)
          have sum := or_group (x.toNat % 128) low (show shift ≤ 64 by omega)
          have more : x.toNat &&& 0x80 ≠ 0 := by
            rw [ne_eq, and_continuation]
            exact Nat.not_lt_of_le leb.1
          have bound := group_lt x low
          have whole := group_mod x low (show shift + 7 ≤ 64 by omega)
          have later : Ahead img ((y :: xs) ++ ys) (s.advance 1).cur :=
            (show Ahead img ([x] ++ ((y :: xs) ++ ys)) s.cur from ahead).rest
          rw [bwSlebFrom, if_neg (by omega), bind_of_ok read, lebGroup_eq, sum, if_pos more, whole,
            inductionHypothesis later leb.2 bound (by simp; omega) (by simpa using enough),
            State.advance_advance]
          congr 1
          · rw [signedLeb_cons]
            push_cast
            rw [pow_add]
            ring_nf
          · simp [Nat.add_comm]

theorem bwSleb_ahead (ahead : Ahead img (xs ++ ys) s.cur) (leb : IsLeb xs)
    (short : xs.length ≤ 10) :
    bwSleb img s = .ok (toI64 (ofI64 (signedLeb xs))) (s.advance xs.length) := by
  have read := bwSlebFrom_ahead ahead leb (show 0 < 2 ^ 0 by decide) (by omega)
    (show xs.length ≤ 11 by omega)
  rw [bwSleb, read, pow_zero, one_mul, Nat.cast_zero, zero_add]

/-! ### Strings -/

/-- A text that a C string can hold. -/
def NoNul (text : List UInt8) : Prop := (0 : UInt8) ∉ text

instance (text : List UInt8) : Decidable (NoNul text) :=
  inferInstanceAs (Decidable ((0 : UInt8) ∉ text))

theorem NoNul.cons {x : UInt8} (noNul : NoNul (x :: xs)) : x ≠ 0 ∧ NoNul xs := by
  rw [NoNul, List.mem_cons, not_or] at noNul
  exact ⟨fun same => noNul.1 same.symm, noNul.2⟩

theorem pathString_ahead {fuel : Nat} {text : List UInt8}
    (ahead : Ahead img (text ++ 0 :: ys) s.cur) (noNul : NoNul text) (enough : text.length < fuel) :
    pathString img fuel s = .ok text (s.advance (text.length + 1)) := by
  induction text generalizing fuel s with
  | nil =>
      obtain ⟨fuel, rfl⟩ : ∃ n, fuel = n + 1 := ⟨fuel - 1, by omega⟩
      rw [pathString_succ, bind_of_ok (bwU8_ahead ahead)]
      rfl
  | cons x text inductionHypothesis =>
      obtain ⟨fuel, rfl⟩ : ∃ n, fuel = n + 1 := ⟨fuel - 1, by omega⟩
      obtain ⟨nonzero, noNul⟩ := noNul.cons
      have later : Ahead img (text ++ 0 :: ys) (s.advance 1).cur :=
        (show Ahead img ([x] ++ (text ++ 0 :: ys)) s.cur from ahead).rest
      have byte : UInt8.ofNat x.toNat = x := by simp
      rw [pathString_succ, bind_of_ok (bwU8_ahead ahead), byte, if_neg nonzero,
        bind_of_ok (inductionHypothesis later noNul (by simpa using enough)), State.advance_advance,
        List.length_cons, Nat.add_comm 1]
      rfl

theorem scanFuel_enough {text : List UInt8} (ahead : Ahead img (text ++ 0 :: ys) s.cur) :
    text.length < scanFuel img := by
  have fits := ahead.fits
  have below := ahead.below
  rw [List.length_append] at fits
  unfold scanFuel
  omega

theorem skipString_ahead {text : List UInt8} (ahead : Ahead img (text ++ 0 :: ys) s.cur)
    (noNul : NoNul text) :
    skipString img (scanFuel img) s = .ok () (s.advance (text.length + 1)) := by
  rw [skipString_eq, bind_of_ok (pathString_ahead ahead noNul (scanFuel_enough ahead))]
  rfl

/-- A text with a NUL behind it is what `strlen` counts. -/
theorem cstrIn_text {mem : Nat → Option UInt8} {fuel addr : Nat} {text : List UInt8}
    (bytes : ∀ i, (inside : i < text.length) → mem (addr + i) = some (text.get ⟨i, inside⟩))
    (nul : mem (addr + text.length) = some 0) (noNul : NoNul text) (enough : text.length < fuel) :
    cstrIn mem fuel addr = .ok text := by
  induction text generalizing fuel addr with
  | nil =>
      obtain ⟨fuel, rfl⟩ : ∃ n, fuel = n + 1 := ⟨fuel - 1, by omega⟩
      rw [List.length_nil, Nat.add_zero] at nul
      rw [cstrIn, nul]
      rfl
  | cons x text inductionHypothesis =>
      obtain ⟨fuel, rfl⟩ : ∃ n, fuel = n + 1 := ⟨fuel - 1, by omega⟩
      obtain ⟨nonzero, noNul⟩ := noNul.cons
      have first : mem (addr + 0) = some x := bytes 0 (by simp)
      have later : cstrIn mem fuel (addr + 1) = .ok text := by
        refine inductionHypothesis ?_ ?_ noNul (by simpa using enough)
        · intro i inside
          have there := bytes (i + 1) (by simpa using inside)
          rw [show addr + 1 + i = addr + (i + 1) by omega, there]
          rfl
        · rw [show addr + 1 + text.length = addr + (text.length + 1) by omega]
          exact nul
      rw [Nat.add_zero] at first
      rw [cstrIn, first, later]
      dsimp only
      rw [if_neg nonzero]
      rfl

/-- The cursor has moved, and of the rest only a scan may have been logged. -/
structure Advanced (s t : State) (n : Nat) : Prop where
  cur : t.cur = s.cur.advance n
  tab : t.tab = s.tab

theorem Advanced.advance (s : State) (n : Nat) : Advanced s (s.advance n) n := ⟨rfl, rfl⟩

/-- A string that is not checked, at the cursor. -/
theorem strlen_ahead {text : List UInt8} (after : Nat → Nat)
    (ahead : Ahead img (text ++ 0 :: ys) s.cur) (noNul : NoNul text) :
    ∃ t, strlen img .line s.cur.p after s = .ok text t ∧ Advanced s t 0 := by
  have fits := ahead.fits
  have below := ahead.below
  have started := ahead.started
  have nul := ahead.rest.mem 0 (by simp)
  rw [List.length_append, List.length_cons] at fits
  rw [Nat.add_zero, Cur.advance_p] at nul
  have found := cstrIn_text ahead.front.mem nul noNul
    (show text.length < 2 ^ img.bits - s.cur.p by omega)
  rw [strlen_run, found]
  exact ⟨_, rfl, rfl, rfl⟩

/-- What a string offset into a section denotes: nothing if it is outside, else
the text there, which ends before the end of the section. -/
structure Referred (img : Image) (sec : SectionId) (off : Nat) (text : List UInt8) : Prop where
  outside : (img.sec sec).ptr = 0 ∨ (img.sec sec).len ≤ off → text = []
  bytes : ¬ ((img.sec sec).ptr = 0 ∨ (img.sec sec).len ≤ off) → ∀ i,
    (inside : i < text.length) →
      img.mem ((img.sec sec).ptr + off + i) = some (text.get ⟨i, inside⟩)
  nul : ¬ ((img.sec sec).ptr = 0 ∨ (img.sec sec).len ≤ off) →
    off + text.length < (img.sec sec).len ∧
      img.mem ((img.sec sec).ptr + off + text.length) = some 0
  noNul : NoNul text

theorem pathStrp_ahead {sec : SectionId} {offsetSize : Nat} {text : List UInt8}
    (ahead : Ahead img (xs ++ ys) s.cur) (length : xs.length = offsetSize)
    (width : offsetSize = 4 ∨ offsetSize = 8) (referred : Referred img sec (leNat xs) text) :
    ∃ t, pathStrp img sec offsetSize s = .ok text t ∧ Advanced s t offsetSize := by
  have read : bwOffset img offsetSize s = .ok (leNat xs) (s.advance offsetSize) := by
    rcases width with rfl | rfl
    · exact bwUint_ahead ahead length
    · exact bwUint_ahead ahead length
  rw [pathStrp, bind_of_ok read]
  by_cases outside : (img.sec sec).ptr = 0 ∨ (img.sec sec).len ≤ leNat xs
  · rw [if_pos outside, referred.outside outside]
    exact ⟨_, rfl, Advanced.advance s offsetSize⟩
  · obtain ⟨inside, nul⟩ := referred.nul outside
    have placed := (img.placed sec fun none => outside (Or.inl none)).1
    have found := cstrIn_text (referred.bytes outside) nul referred.noNul
      (show text.length < 2 ^ img.bits - ((img.sec sec).ptr + leNat xs) by omega)
    rw [if_neg outside, bind_of_ok (show getCur (s.advance offsetSize) = .ok _ _ from rfl),
      strlen_run, found]
    exact ⟨_, rfl, rfl, rfl⟩

/-! ### Forms -/

/-- The values of a form that `bw_form_skip` steps over. -/
def FormValue (offsetSize : Nat) (form : Form) (bytes : List UInt8) : Prop :=
  match form with
  | .flagPresent | .implicitConst => bytes = []
  | .data1 | .flag => bytes.length = 1
  | .data2 => bytes.length = 2
  | .data4 => bytes.length = 4
  | .strp | .lineStrp | .secOffset | .refAddr => bytes.length = offsetSize
  | .data8 | .addr => bytes.length = 8
  | .data16 => bytes.length = 16
  | .udata | .sdata => IsLeb bytes ∧ bytes.length ≤ 10
  | .string => ∃ text, NoNul text ∧ bytes = text ++ [0]
  | .block1 => ∃ size block, size.length = 1 ∧ block.length = leNat size ∧ bytes = size ++ block
  | .block2 => ∃ size block, size.length = 2 ∧ block.length = leNat size ∧ bytes = size ++ block
  | .block4 => ∃ size block, size.length = 4 ∧ block.length = leNat size ∧ bytes = size ++ block
  | .block | .exprloc => ∃ size block, IsLeb size ∧ size.length ≤ 10 ∧
      block.length = unsignedLeb size ∧ bytes = size ++ block
  | .unknown => False

theorem block_ahead {n : Nat} {size block : List UInt8} (length : size.length = n)
    (stated : block.length = leNat size) (ahead : Ahead img (size ++ block ++ ys) s.cur) :
    (bwUint img n >>= fun len => bwSkip img len) s =
      .ok () (s.advance (size ++ block).length) := by
  rw [List.append_assoc] at ahead
  have later : Ahead img (block ++ ys) (s.advance n).cur := length ▸ ahead.rest
  rw [bind_of_ok (bwUint_ahead ahead length), bwSkip_ahead later stated, State.advance_advance,
    List.length_append, length, stated]

theorem lebBlock_ahead {size block : List UInt8} (leb : IsLeb size) (short : size.length ≤ 10)
    (stated : block.length = unsignedLeb size) (ahead : Ahead img (size ++ block ++ ys) s.cur) :
    (bwUleb img >>= fun len => bwSkip img (img.size len)) s =
      .ok () (s.advance (size ++ block).length) := by
  rw [List.append_assoc] at ahead
  have fits := ahead.fits
  have below := ahead.below
  simp only [List.length_append] at fits
  have width : 2 ^ img.bits ≤ 2 ^ 64 := by
    rcases img.width with bits | bits
    · rw [bits]
      decide
    · rw [bits]
  have whole : img.size (unsignedLeb size % 2 ^ 64) = block.length := by
    rw [Image.size, Nat.mod_eq_of_lt (show unsignedLeb size < 2 ^ 64 by omega), ← stated,
      Nat.mod_eq_of_lt (by omega)]
  rw [bind_of_ok (bwUleb_ahead ahead leb short), whole, bwSkip_ahead ahead.rest rfl,
    State.advance_advance, List.length_append]

/-- `bw_form_skip` steps over the values of each form it supports. -/
theorem bwFormSkip_ahead {code offsetSize : Nat} (ahead : Ahead img (xs ++ ys) s.cur)
    (value : FormValue offsetSize (Form.ofCode code) xs) :
    bwFormSkip img code offsetSize s = .ok () (s.advance xs.length) := by
  have fixed : ∀ n, xs.length = n → bwSkip img n s = .ok () (s.advance xs.length) := by
    rintro n rfl
    exact bwSkip_ahead ahead rfl
  unfold bwFormSkip
  cases form : Form.ofCode code <;> rw [form] at value
  case flagPresent => rw [show xs = [] from value]; rfl
  case implicitConst => rw [show xs = [] from value]; rfl
  case data1 => exact fixed 1 value
  case flag => exact fixed 1 value
  case data2 => exact fixed 2 value
  case data4 => exact fixed 4 value
  case strp => exact fixed offsetSize value
  case lineStrp => exact fixed offsetSize value
  case secOffset => exact fixed offsetSize value
  case refAddr => exact fixed offsetSize value
  case data8 => exact fixed 8 value
  case addr => exact fixed 8 value
  case data16 => exact fixed 16 value
  case udata =>
    show (bwUleb img >>= fun _ => pure ()) s = _
    rw [bind_of_ok (bwUleb_ahead ahead value.1 value.2)]
    rfl
  case sdata =>
    show (bwSleb img >>= fun _ => pure ()) s = _
    rw [bind_of_ok (bwSleb_ahead ahead value.1 value.2)]
    rfl
  case string =>
    obtain ⟨text, noNul, rfl⟩ := value
    rw [List.append_assoc] at ahead
    rw [List.length_append]
    exact skipString_ahead ahead noNul
  case block1 =>
    obtain ⟨size, block, length, stated, rfl⟩ := value
    exact block_ahead length stated ahead
  case block2 =>
    obtain ⟨size, block, length, stated, rfl⟩ := value
    exact block_ahead length stated ahead
  case block4 =>
    obtain ⟨size, block, length, stated, rfl⟩ := value
    exact block_ahead length stated ahead
  case block =>
    obtain ⟨size, block, leb, short, stated, rfl⟩ := value
    exact lebBlock_ahead leb short stated ahead
  case exprloc =>
    obtain ⟨size, block, leb, short, stated, rfl⟩ := value
    exact lebBlock_ahead leb short stated ahead
  case unknown => exact value.elim

/-- The encodings of a path. -/
def PathValue (img : Image) (offsetSize : Nat) (form : Form) (text bytes : List UInt8) : Prop :=
  match form with
  | .string => NoNul text ∧ bytes = text ++ [0]
  | .lineStrp => bytes.length = offsetSize ∧ Referred img .lineStr (leNat bytes) text
  | .strp => bytes.length = offsetSize ∧ Referred img .debugStr (leNat bytes) text
  | _ => False

theorem bwFormPath_ahead {code offsetSize : Nat} {text : List UInt8}
    (ahead : Ahead img (xs ++ ys) s.cur) (width : offsetSize = 4 ∨ offsetSize = 8)
    (value : PathValue img offsetSize (Form.ofCode code) text xs) :
    ∃ t, bwFormPath img code offsetSize s = .ok text t ∧ Advanced s t xs.length := by
  unfold bwFormPath
  cases form : Form.ofCode code <;> rw [form] at value
  case string =>
    obtain ⟨noNul, rfl⟩ := value
    rw [List.append_assoc] at ahead
    rw [List.length_append]
    exact ⟨_, pathString_ahead ahead noNul (scanFuel_enough ahead), Advanced.advance s _⟩
  case lineStrp =>
    rw [value.1]
    exact pathStrp_ahead ahead value.1 width value.2
  case strp =>
    rw [value.1]
    exact pathStrp_ahead ahead value.1 width value.2
  all_goals exact value.elim

/-- The encodings of a directory index. -/
def IndexValue (form : Form) (n : Nat) (bytes : List UInt8) : Prop :=
  match form with
  | .udata => IsLeb bytes ∧ bytes.length ≤ 10 ∧ unsignedLeb bytes = n ∧ n < 2 ^ 64
  | .data1 => bytes.length = 1 ∧ leNat bytes = n
  | .data2 => bytes.length = 2 ∧ leNat bytes = n
  | .data4 => bytes.length = 4 ∧ leNat bytes = n
  | _ => False

/-- A number that fits in one byte of LEB128. -/
theorem indexValue_small {x : UInt8} (small : x.toNat < 128) :
    IndexValue .udata x.toNat [x] := by
  refine ⟨small, Nat.le_of_ble_eq_true rfl, ?_, by omega⟩
  rw [unsignedLeb, unsignedLeb, Nat.mod_eq_of_lt small, Nat.mul_zero, Nat.add_zero]

theorem bwFormUdata_ahead {code n : Nat} (ahead : Ahead img (xs ++ ys) s.cur)
    (value : IndexValue (Form.ofCode code) n xs) :
    bwFormUdata img code s = .ok n (s.advance xs.length) := by
  unfold bwFormUdata
  cases form : Form.ofCode code <;> rw [form] at value
  case udata =>
    obtain ⟨leb, short, rfl, small⟩ := value
    rw [← Nat.mod_eq_of_lt small]
    exact bwUleb_ahead ahead leb short
  case data1 =>
    obtain ⟨length, rfl⟩ := value
    exact length ▸ bwUint_ahead ahead length
  case data2 =>
    obtain ⟨length, rfl⟩ := value
    exact length ▸ bwUint_ahead ahead length
  case data4 =>
    obtain ⟨length, rfl⟩ := value
    exact length ▸ bwUint_ahead ahead length
  all_goals exact value.elim

end Ahead

end Backwalk.DwarfLine
