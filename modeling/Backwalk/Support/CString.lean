/-!
Owns C strings in a buffer: the characters up to the first NUL, or all of them if
there is none.
-/

namespace Backwalk.Support

/-- The characters of a string up to its NUL. -/
def upToNul (bytes : List UInt8) : List UInt8 := bytes.takeWhile fun c => c ≠ 0

@[simp]
theorem upToNul_nil : upToNul [] = [] := rfl

theorem upToNul_cons_ne {c : UInt8} (rest : List UInt8) (nonzero : c ≠ 0) :
    upToNul (c :: rest) = c :: upToNul rest :=
  List.takeWhile_cons_of_pos (by simpa using nonzero)

theorem upToNul_cons_nul (rest : List UInt8) : upToNul (0 :: rest) = [] :=
  List.takeWhile_cons_of_neg (by simp)

theorem upToNul_take (n : Nat) (bytes : List UInt8) :
    upToNul (bytes.take n) = (upToNul bytes).take n := by
  induction bytes generalizing n with
  | nil => rw [List.take_nil, upToNul_nil, List.take_nil]
  | cons c rest inductionHypothesis =>
      cases n with
      | zero => rfl
      | succ n =>
          by_cases nul : c = 0
          · subst nul
            rw [List.take_succ_cons, upToNul_cons_nul, upToNul_cons_nul, List.take_nil]
          · rw [List.take_succ_cons, upToNul_cons_ne _ nul, upToNul_cons_ne _ nul,
              List.take_succ_cons, inductionHypothesis]

theorem nul_notMem_upToNul (bytes : List UInt8) : 0 ∉ upToNul bytes := by
  induction bytes with
  | nil => simp
  | cons c rest inductionHypothesis =>
      by_cases nul : c = 0
      · rw [nul, upToNul_cons_nul]
        simp
      · rw [upToNul_cons_ne rest nul]
        simp [Ne.symm nul, inductionHypothesis]

theorem length_upToNul_le (bytes : List UInt8) : (upToNul bytes).length ≤ bytes.length :=
  (List.takeWhile_prefix _).length_le

/-- What follows the NUL does not matter. -/
theorem upToNul_append_nul {text : List UInt8} (noNul : 0 ∉ text) (rest : List UInt8) :
    upToNul (text ++ 0 :: rest) = text := by
  have nonzero : ∀ ch ∈ text, decide (ch ≠ 0) = true := by
    intro ch member
    simp only [ne_eq, decide_eq_true_eq]
    rintro rfl
    exact noNul member
  rw [upToNul, List.takeWhile_append_of_pos nonzero, List.takeWhile_cons_of_neg (by simp),
    List.append_nil]

/-- A string is what its buffer begins with. -/
theorem upToNul_eq_take (bytes : List UInt8) :
    bytes.take (upToNul bytes).length = upToNul bytes :=
  (List.prefix_iff_eq_take.mp (List.takeWhile_prefix _)).symm

end Backwalk.Support
