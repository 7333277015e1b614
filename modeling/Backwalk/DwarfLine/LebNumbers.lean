import Backwalk.DwarfLine.Decoding
import Backwalk.DwarfLine.Program

/-!
Contract: `bw_uleb` and `bw_sleb` on whatever bytes are left in a section.

Both accept exactly the numbers of at most ten bytes, and take them modulo `2^64`;
where no such number begins they return 0. The first tests its shift after it has
taken a byte and the second before, which is why their budgets of rounds differ by
one in the induction.
-/

namespace Backwalk.DwarfLine

open Backwalk.Support

/-- The run returns 0: it ends without an answer and without a fault. -/
def GivesUp {α : Type} (m : Parser α) (s : State) : Prop :=
  ∃ reason t, m s = .error reason t ∧ ∀ fault, reason ≠ .fault fault

/-- The bytes are all that is left in front of the end of the section. -/
structure Remaining (img : Image) (bytes : List UInt8) (c : Cur) : Prop where
  ahead : Ahead img bytes c
  whole : c.p + bytes.length = c.endp

section LebNumbers

variable {img : Image} {bytes : List UInt8} {s : State}

theorem Remaining.tail {x : UInt8} (remaining : Remaining img (x :: bytes) s.cur) :
    Remaining img bytes (s.advance 1).cur := by
  have split : Ahead img ([x] ++ bytes) s.cur := remaining.ahead
  refine ⟨split.rest, ?_⟩
  have whole := remaining.whole
  simp only [List.length_cons] at whole
  simp only [State.advance_cur, Cur.advance_p, Cur.advance_endp]
  omega

/-! ### No end in reach -/

theorem givesUp_short {α : Type} {m : Parser α} {t : State} (ended : m s = .error .short t) :
    GivesUp m s := by
  refine ⟨.short, t, ended, ?_⟩
  intro fault
  exact Stop.noConfusion

theorem givesUp_malformed {α : Type} {m : Parser α} {t : State}
    (ended : m s = .error .malformed t) : GivesUp m s := by
  refine ⟨.malformed, t, ended, ?_⟩
  intro fault
  exact Stop.noConfusion

theorem GivesUp.not_ok {α : Type} {m : Parser α} (givesUp : GivesUp m s) {a : α} {t : State} :
    m s ≠ .ok a t := by
  obtain ⟨reason, t', ended, -⟩ := givesUp
  intro answered
  cases ended.symm.trans answered

/-- A sequence gives up where what is left of it does. -/
theorem GivesUp.after {α β : Type} {m : Parser α} {f : α → Parser β} {a : α} {t : State}
    (first : m s = .ok a t) (rest : GivesUp (f a) t) : GivesUp (m >>= f) s := by
  obtain ⟨reason, t', ended, held⟩ := rest
  exact ⟨reason, t', (bind_of_ok first).trans ended, held⟩

theorem bwU8_end (remaining : Remaining img [] s.cur) : bwU8 img s = .error .short s := by
  have atEnd : s.cur.p = s.cur.endp := remaining.whole
  have noRoom : ¬ bwCurOk img s.cur 1 = true := by
    simp only [bwCurOk, ne_eq, Bool.and_eq_true, decide_eq_true_eq,
      curRoom_of_inside remaining.ahead.inside]
    omega
  rw [bwU8, bwUint_run, if_neg noRoom]

/-- The unsigned loop gives up if all bytes that it may take are continued. -/
theorem bwUlebFrom_unended {fuel r shift : Nat} (remaining : Remaining img bytes s.cur)
    (budget : shift + 7 * fuel = 70) (positive : 0 < fuel)
    (unended : ∀ byte ∈ bytes.take fuel, 128 ≤ byte.toNat) :
    GivesUp (bwUlebFrom img fuel r shift) s := by
  induction fuel generalizing bytes r shift s with
  | zero => exact absurd positive (Nat.lt_irrefl 0)
  | succ fuel inductionHypothesis =>
      cases bytes with
      | nil =>
          exact givesUp_short (bind_of_error (bwU8_end remaining))
      | cons x bytes =>
          rw [List.take_succ_cons] at unended
          have more : ¬ x.toNat &&& 0x80 = 0 := by
            rw [and_continuation]
            exact Nat.not_lt_of_le (unended x List.mem_cons_self)
          apply GivesUp.after (bwU8_ahead remaining.ahead)
          rw [if_neg more]
          by_cases last : 64 ≤ shift + 7
          · rw [if_pos last]
            exact givesUp_malformed rfl
          · rw [if_neg last]
            apply inductionHypothesis remaining.tail
            · omega
            · omega
            · intro byte member
              exact unended byte (List.mem_cons_of_mem x member)

/-- The signed loop does so too. -/
theorem bwSlebFrom_unended {n r shift : Nat} (remaining : Remaining img bytes s.cur)
    (budget : shift + 7 * n = 70) (unended : ∀ byte ∈ bytes.take n, 128 ≤ byte.toNat) :
    GivesUp (bwSlebFrom img (n + 1) r shift) s := by
  induction n generalizing bytes r shift s with
  | zero =>
      rw [bwSlebFrom, if_pos (by omega)]
      exact givesUp_malformed rfl
  | succ n inductionHypothesis =>
      rw [bwSlebFrom, if_neg (by omega)]
      cases bytes with
      | nil =>
          exact givesUp_short (bind_of_error (bwU8_end remaining))
      | cons x bytes =>
          rw [List.take_succ_cons] at unended
          have more : x.toNat &&& 0x80 ≠ 0 := by
            rw [ne_eq, and_continuation]
            exact Nat.not_lt_of_le (unended x List.mem_cons_self)
          apply GivesUp.after (bwU8_ahead remaining.ahead)
          rw [if_pos more]
          apply inductionHypothesis remaining.tail
          · omega
          · intro byte member
            exact unended byte (List.mem_cons_of_mem x member)

/-! ### Any bytes -/

/-- An end within ten bytes. -/
def EndsInTen (bytes : List UInt8) : Prop := ∃ byte ∈ bytes.take 10, byte.toNat < 128

theorem unended_of_not {bytes : List UInt8} (unended : ¬ EndsInTen bytes) :
    ∀ byte ∈ bytes.take 10, 128 ≤ byte.toNat := by
  intro byte member
  by_contra small
  exact unended ⟨byte, member, Nat.lt_of_not_le small⟩

theorem bwUleb_unended (remaining : Remaining img bytes s.cur) (unended : ¬ EndsInTen bytes) :
    GivesUp (bwUleb img) s :=
  bwUlebFrom_unended remaining (by decide) (by decide) (unended_of_not unended)

theorem bwSleb_unended (remaining : Remaining img bytes s.cur) (unended : ¬ EndsInTen bytes) :
    GivesUp (bwSleb img) s :=
  bwSlebFrom_unended remaining (by decide) (unended_of_not unended)

/-- A reader accepts exactly the numbers of at most ten bytes if it reads each of
them and gives up where there is none. -/
theorem accepts_iff_endsInTen {α : Type} {m : Parser α} {value : List UInt8 → α}
    (reads : ∀ code rest, bytes = code ++ rest → IsLeb code → code.length ≤ 10 →
      m s = .ok (value code) (s.advance code.length))
    (otherwise : ¬ EndsInTen bytes → GivesUp m s) :
    ((∃ v t, m s = .ok v t) ↔ EndsInTen bytes) ∧
      ∀ v t, m s = .ok v t → ∃ code rest, bytes = code ++ rest ∧ IsLeb code ∧
        t = s.advance code.length ∧ v = value code := by
  by_cases ends : EndsInTen bytes
  · obtain ⟨code, rest, split, leb, short⟩ := exists_leb_iff.mp ends
    have read := reads code rest split leb short
    refine ⟨iff_of_true ⟨_, _, read⟩ ends, ?_⟩
    intro v t answered
    cases read.symm.trans answered
    exact ⟨code, rest, split, leb, rfl, rfl⟩
  · have givesUp := otherwise ends
    refine ⟨iff_of_false ?_ ends, fun v t answered => absurd answered givesUp.not_ok⟩
    rintro ⟨v, t, answered⟩
    exact givesUp.not_ok answered

/-- Encodings of 64-bit values are read back, whatever follows them; and whatever the
bytes are, a number is read exactly if one of the first ten ends it, and it is the
number that stands there modulo `2^64`. -/
theorem bwLeb_decodes (img : Image) (s : State) :
    (∀ (code rest : List UInt8) (v : Nat), v < 2 ^ 64 → IsLeb code → code.length ≤ 10 →
      unsignedLeb code = v → Ahead img (code ++ rest) s.cur →
      bwUleb img s = .ok v (s.advance code.length)) ∧
    (∀ (code rest : List UInt8) (v : Int), InI64 v → IsLeb code → code.length ≤ 10 →
      signedLeb code = v → Ahead img (code ++ rest) s.cur →
      bwSleb img s = .ok v (s.advance code.length)) ∧
    ∀ bytes, Remaining img bytes s.cur →
      (((∃ v t, bwUleb img s = .ok v t) ↔ ∃ byte ∈ bytes.take 10, byte.toNat < 128) ∧
        ∀ v t, bwUleb img s = .ok v t → ∃ code rest, bytes = code ++ rest ∧ IsLeb code ∧
          t = s.advance code.length ∧ v = unsignedLeb code % 2 ^ 64) ∧
      (((∃ v t, bwSleb img s = .ok v t) ↔ ∃ byte ∈ bytes.take 10, byte.toNat < 128) ∧
        ∀ v t, bwSleb img s = .ok v t → ∃ code rest, bytes = code ++ rest ∧ IsLeb code ∧
          t = s.advance code.length ∧ v = toI64 (ofI64 (signedLeb code))) ∧
      ((¬ ∃ byte ∈ bytes.take 10, byte.toNat < 128) →
        GivesUp (bwUleb img) s ∧ GivesUp (bwSleb img) s) := by
  refine ⟨?_, ?_, ?_⟩
  · intro code rest v fits leb short value ahead
    rw [bwUleb_ahead ahead leb short, value, Nat.mod_eq_of_lt fits]
  · intro code rest v fits leb short value ahead
    rw [bwSleb_ahead ahead leb short, value, toI64_ofI64 fits]
  · intro bytes remaining
    refine ⟨?_, ?_, ?_⟩
    · apply accepts_iff_endsInTen
      · intro code rest split leb short
        exact bwUleb_ahead (split ▸ remaining.ahead) leb short
      · exact bwUleb_unended remaining
    · apply accepts_iff_endsInTen
      · intro code rest split leb short
        exact bwSleb_ahead (split ▸ remaining.ahead) leb short
      · exact bwSleb_unended remaining
    · intro unended
      exact ⟨bwUleb_unended remaining unended, bwSleb_unended remaining unended⟩

end LebNumbers

/-- In a section of its own, any list of bytes is what remains. -/
theorem remaining_lineImage {bytes : List UInt8} (tab : Tab) (short : bytes.length ≤ 2 ^ 32) :
    Remaining (lineImage bytes) bytes (startState (lineImage bytes) tab).cur := by
  refine ⟨ahead_lineImage tab short, ?_⟩
  have length : (lineImage bytes).line.len = bytes.length := Nat.min_eq_left short
  rw [startState, length]

/-- 624485 and -123456 in three bytes each; two bytes that both go on are no number. -/
theorem three_bytes :
    bwUleb (lineImage [0xe5, 0x8e, 0x26, 1])
      (startState (lineImage [0xe5, 0x8e, 0x26, 1]) Tab.zeroed) =
      .ok 624485 ((startState (lineImage [0xe5, 0x8e, 0x26, 1]) Tab.zeroed).advance 3) ∧
    bwSleb (lineImage [0xc0, 0xbb, 0x78, 1])
      (startState (lineImage [0xc0, 0xbb, 0x78, 1]) Tab.zeroed) =
      .ok (-123456) ((startState (lineImage [0xc0, 0xbb, 0x78, 1]) Tab.zeroed).advance 3) ∧
    GivesUp (bwUleb (lineImage [0x80, 0x80])) (startState (lineImage [0x80, 0x80]) Tab.zeroed) := by
  refine ⟨?_, ?_, ?_⟩
  · exact (bwLeb_decodes _ _).1 [0xe5, 0x8e, 0x26] [1] 624485 (by decide) (by decide) (by decide)
      (by decide) (ahead_lineImage Tab.zeroed (by decide))
  · exact (bwLeb_decodes _ _).2.1 [0xc0, 0xbb, 0x78] [1] (-123456) (by decide) (by decide)
      (by decide) (by decide) (ahead_lineImage Tab.zeroed (by decide))
  · obtain ⟨-, -, unended⟩ := (bwLeb_decodes _ _).2.2 [0x80, 0x80]
      (remaining_lineImage Tab.zeroed (by decide))
    exact (unended (by decide)).1

end Backwalk.DwarfLine
