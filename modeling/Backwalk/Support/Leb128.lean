import Mathlib.Data.Nat.Bitwise
import Mathlib.Tactic.Ring

/-!
Owns LEB128 numbers as lists of bytes: which lists are one, and what they
denote as an unsigned and as a signed number. Padded forms are numbers too.
-/

namespace Backwalk.Support

/-- All bytes but the last have the continuation bit. -/
def IsLeb : List UInt8 → Prop
  | [] => False
  | [last] => last.toNat < 128
  | byte :: next :: rest => 128 ≤ byte.toNat ∧ IsLeb (next :: rest)

/-- The unsigned value, seven bits a byte, the lowest first. -/
def unsignedLeb : List UInt8 → Nat
  | [] => 0
  | byte :: rest => byte.toNat % 128 + 128 * unsignedLeb rest

/-- The signed value: bit 6 of the last byte is the sign. -/
def signedLeb (bytes : List UInt8) : Int :=
  if 64 ≤ ((bytes.getLast?).getD 0).toNat % 128 then
    (unsignedLeb bytes : Int) - 2 ^ (7 * bytes.length)
  else unsignedLeb bytes

instance : (bytes : List UInt8) → Decidable (IsLeb bytes)
  | [] => inferInstanceAs (Decidable False)
  | [last] => inferInstanceAs (Decidable (last.toNat < 128))
  | byte :: next :: rest =>
      have : Decidable (IsLeb (next :: rest)) := instDecidableIsLeb (next :: rest)
      inferInstanceAs (Decidable (128 ≤ byte.toNat ∧ IsLeb (next :: rest)))

theorem signedLeb_singleton (byte : UInt8) : signedLeb [byte] =
    if 64 ≤ byte.toNat % 128 then (byte.toNat % 128 : Int) - 128 else byte.toNat % 128 := by
  simp [signedLeb, unsignedLeb]

theorem signedLeb_cons (byte next : UInt8) (rest : List UInt8) :
    signedLeb (byte :: next :: rest) = byte.toNat % 128 + 128 * signedLeb (next :: rest) := by
  have last : (byte :: next :: rest).getLast? = (next :: rest).getLast? := rfl
  have value : unsignedLeb (byte :: next :: rest) =
      byte.toNat % 128 + 128 * unsignedLeb (next :: rest) := rfl
  have length : (2 : Int) ^ (7 * (byte :: next :: rest).length) =
      128 * 2 ^ (7 * (next :: rest).length) := by
    rw [List.length_cons, Nat.mul_add, Nat.mul_one, pow_add]
    ring
  unfold signedLeb
  rw [last, value, length]
  split_ifs
  · push_cast
    ring
  · push_cast
    ring

/-! ### The number in front -/

theorem isLeb_cons {byte : UInt8} {code : List UInt8} (more : 128 ≤ byte.toNat) (leb : IsLeb code) :
    IsLeb (byte :: code) := by
  cases code with
  | nil => exact leb.elim
  | cons next rest => exact ⟨more, leb⟩

theorem IsLeb.exists_last {code : List UInt8} (leb : IsLeb code) :
    ∃ byte ∈ code, byte.toNat < 128 := by
  induction code with
  | nil => exact leb.elim
  | cons byte code inductionHypothesis =>
      cases code with
      | nil => exact ⟨byte, List.mem_cons_self, leb⟩
      | cons next rest =>
          obtain ⟨last, member, small⟩ := inductionHypothesis leb.2
          exact ⟨last, List.mem_cons_of_mem byte member, small⟩

/-- Bytes begin with a number of at most `n` bytes exactly if one of the first `n`
is without the continuation bit. -/
theorem exists_leb_iff {bytes : List UInt8} {n : Nat} :
    (∃ byte ∈ bytes.take n, byte.toNat < 128) ↔
      ∃ code rest, bytes = code ++ rest ∧ IsLeb code ∧ code.length ≤ n := by
  constructor
  · rintro ⟨last, member, small⟩
    induction bytes generalizing n with
    | nil => simp at member
    | cons byte bytes inductionHypothesis =>
        cases n with
        | zero => simp at member
        | succ n =>
            by_cases ends : byte.toNat < 128
            · exact ⟨[byte], bytes, rfl, ends, Nat.succ_le_succ (Nat.zero_le n)⟩
            · rw [List.take_succ_cons] at member
              have later : last ∈ bytes.take n := by
                rcases List.mem_cons.mp member with rfl | later
                · exact absurd small ends
                · exact later
              obtain ⟨code, rest, rfl, leb, short⟩ := inductionHypothesis later
              exact ⟨byte :: code, rest, rfl, isLeb_cons (Nat.le_of_not_lt ends) leb,
                Nat.succ_le_succ short⟩
  · rintro ⟨code, rest, rfl, leb, short⟩
    obtain ⟨last, member, small⟩ := leb.exists_last
    refine ⟨last, ?_, small⟩
    rw [List.take_append, List.take_of_length_le short]
    exact List.mem_append_left _ member

/-! ### Groups of seven bits -/

theorem and_continuation (byte : UInt8) : byte.toNat &&& 0x80 = 0 ↔ byte.toNat < 128 := by
  have all : ∀ b : Fin 256, b.val &&& 0x80 = 0 ↔ b.val < 128 := by decide +kernel
  exact all ⟨byte.toNat, byte.toNat_lt⟩

theorem and_sign (byte : UInt8) : byte.toNat &&& 0x40 ≠ 0 ↔ 64 ≤ byte.toNat % 128 := by
  have all : ∀ b : Fin 256, b.val &&& 0x40 ≠ 0 ↔ 64 ≤ b.val % 128 := by decide +kernel
  exact all ⟨byte.toNat, byte.toNat_lt⟩

theorem and_group (n : Nat) : n &&& 0x7f = n % 128 :=
  Nat.and_two_pow_sub_one_eq_mod n 7

/-- A group is added to the bits below it, and cut at the width. -/
theorem or_group {r shift width : Nat} (group : Nat) (low : r < 2 ^ shift) (fits : shift ≤ width) :
    r ||| (group <<< shift) % 2 ^ width = (r + 2 ^ shift * group) % 2 ^ width := by
  obtain ⟨high, rfl⟩ := Nat.exists_eq_add_of_le fits
  have cut : (group <<< shift) % 2 ^ (shift + high) = (group % 2 ^ high) <<< shift := by
    rw [Nat.shiftLeft_eq, Nat.shiftLeft_eq, Nat.pow_add, Nat.mul_comm group,
      Nat.mul_mod_mul_left, Nat.mul_comm]
  have sum : (r + 2 ^ shift * group) % 2 ^ (shift + high) =
      r + 2 ^ shift * (group % 2 ^ high) := by
    rw [Nat.pow_add, Nat.mod_mul, Nat.add_mul_mod_self_left, Nat.mod_eq_of_lt low,
      Nat.add_mul_div_left _ _ (Nat.two_pow_pos shift), Nat.div_eq_of_lt low, Nat.zero_add]
  rw [cut, sum, Nat.or_comm, ← Nat.shiftLeft_add_eq_or_of_lt low, Nat.shiftLeft_eq]
  ring

end Backwalk.Support
