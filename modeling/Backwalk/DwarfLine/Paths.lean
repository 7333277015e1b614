import Backwalk.DwarfLine.FileTables

/-!
Contract: `bw_join_path` in its buffer, and what interning makes of its result.

Owns the buffer, with the indices that are written to it, the function as it fills
the buffer, and the path that its result stands for. Two cuts follow one another,
each with room for a NUL: the buffer cuts the path, and the pool cuts what is in
the buffer.
-/

namespace Backwalk.DwarfLine

open Backwalk.Support

/-! ### The full path -/

/-- `A` to `Z` and `a` to `z`. -/
def IsLetter (c : UInt8) : Prop := (0x41 ≤ c ∧ c ≤ 0x5a) ∨ (0x61 ≤ c ∧ c ≤ 0x7a)

/-- A path that begins with a separator, or with a drive letter and a colon. -/
def AbsolutePath (file : List UInt8) : Prop :=
  file.head? = some 0x2f ∨ file.head? = some 0x5c ∨
    ∃ letter rest, file = letter :: 0x3a :: rest ∧ IsLetter letter

theorem isAbsolute_iff (file : List UInt8) : isAbsolute file = true ↔ AbsolutePath file := by
  cases file with
  | nil => simp [isAbsolute, AbsolutePath]
  | cons c rest =>
      have drive : (∃ letter rest', c :: rest = letter :: 0x3a :: rest' ∧ IsLetter letter) ↔
          IsLetter c ∧ rest.head? = some 0x3a := by
        constructor
        · rintro ⟨letter, rest', same, isLetter⟩
          cases same
          exact ⟨isLetter, rfl⟩
        · rintro ⟨isLetter, colon⟩
          obtain ⟨rest', rfl⟩ := List.head?_eq_some_iff.mp colon
          exact ⟨c, rest', rfl, isLetter⟩
      rw [AbsolutePath, drive]
      simp only [isAbsolute, isSeparator, IsLetter, List.head?_cons, Option.some_inj,
        Bool.or_eq_true, Bool.and_eq_true, beq_iff_eq, decide_eq_true_eq, or_assoc]

instance (file : List UInt8) : Decidable (AbsolutePath file) :=
  decidable_of_iff (isAbsolute file = true) (isAbsolute_iff file)

/-- The last character is a separator. -/
def EndsApart (dir : List UInt8) : Prop := dir.getLast? = some 0x2f ∨ dir.getLast? = some 0x5c

instance (dir : List UInt8) : Decidable (EndsApart dir) := inferInstanceAs (Decidable (_ ∨ _))

theorem isSeparator_iff {dir : List UInt8} {last : UInt8} (isLast : dir.getLast? = some last) :
    isSeparator last = true ↔ EndsApart dir := by
  simp [isSeparator, EndsApart, isLast]

/-- The path of a file in a directory. -/
def fullPath (dir file : List UInt8) : List UInt8 :=
  if AbsolutePath file ∨ dir = [] then file
  else if EndsApart dir then dir ++ file
  else dir ++ 0x2f :: file

/-! ### What is left of it -/

/-- The copy loop appends what fits. -/
theorem joinCopy_eq_take {dstLen : Nat} {dst : List UInt8} (src : List UInt8)
    (fits : dst.length < dstLen) : joinCopy dstLen dst src = (dst ++ src).take (dstLen - 1) := by
  induction src generalizing dst with
  | nil => rw [joinCopy, List.append_nil, List.take_of_length_le (by omega)]
  | cons c rest inductionHypothesis =>
      rw [joinCopy]
      split_ifs with room
      · rw [inductionHypothesis (by simpa using room), List.append_assoc]
        rfl
      · rw [List.take_append_of_le_length (by omega), List.take_of_length_le (by omega)]

/-- Whatever the length of the buffer, the cut of the path is what is left in it. -/
theorem bwJoinPath_eq_take {dstLen : Nat} (dir file : List UInt8) (room : 1 ≤ dstLen) :
    bwJoinPath dstLen dir file = (fullPath dir file).take (dstLen - 1) := by
  unfold bwJoinPath fullPath
  by_cases alone : AbsolutePath file ∨ dir = []
  · have noFront : (!isAbsolute file && !dir.isEmpty) = false := by
      rcases alone with absolute | empty
      · simp [(isAbsolute_iff file).mpr absolute]
      · simp [empty]
    rw [if_pos alone, noFront]
    exact joinCopy_eq_take file room
  · have front : (!isAbsolute file && !dir.isEmpty) = true := by
      rw [not_or] at alone
      simp [mt (isAbsolute_iff file).mp alone.1, alone.2]
    have nonempty : dir ≠ [] := fun empty => alone (Or.inr empty)
    rw [if_neg alone, front, if_pos rfl, joinCopy_eq_take dir room, List.nil_append]
    dsimp only
    rcases Nat.lt_or_ge (dir.length + 1) dstLen with short | long
    · -- The whole directory is copied, with room for a separator.
      have isLast := List.getLast?_eq_some_getLast nonempty
      rw [List.take_of_length_le (show dir.length ≤ dstLen - 1 by omega), isLast]
      dsimp only
      by_cases apart : EndsApart dir
      · have notAdded : ¬ (!isSeparator (dir.getLast nonempty) &&
            decide (dir.length + 1 < dstLen)) = true := by
          simp [(isSeparator_iff isLast).mpr apart]
        rw [if_pos apart, if_neg notAdded]
        exact joinCopy_eq_take file (by omega)
      · have added :
            (!isSeparator (dir.getLast nonempty) && decide (dir.length + 1 < dstLen)) = true := by
          simp [mt (isSeparator_iff isLast).mp apart, short]
        rw [if_neg apart, if_pos added, joinCopy_eq_take file (by simpa using short),
          List.append_assoc]
        rfl
    · -- The directory fills the buffer.
      have full : (dir.take (dstLen - 1)).length = dstLen - 1 := List.length_take_of_le (by omega)
      have keeps : ∀ rest, (dir ++ rest).take (dstLen - 1) = dir.take (dstLen - 1) :=
        fun rest => List.take_append_of_le_length (by omega)
      have copied : ∀ front, front = dir.take (dstLen - 1) →
          joinCopy dstLen front file = dir.take (dstLen - 1) := by
        rintro front rfl
        rw [joinCopy_eq_take file (by omega), List.take_append_of_le_length (by omega),
          List.take_of_length_le (by omega)]
      have cut : (if EndsApart dir then dir ++ file else dir ++ 0x2f :: file).take (dstLen - 1) =
          dir.take (dstLen - 1) := by
        split_ifs
        · exact keeps file
        · exact keeps _
      rw [cut]
      apply copied
      split
      · rw [if_neg (by simp only [full, Bool.and_eq_true, decide_eq_true_eq]; omega)]
      · rfl

/-! ### The buffer -/

/-- A buffer, and the indices that were written. -/
structure Dst where
  cells : Nat → UInt8
  written : List Nat

/-- `dst[i] = c`. -/
def Dst.store (dst : Dst) (i : Nat) (c : UInt8) : Dst :=
  ⟨fun other => if other = i then c else dst.cells other, dst.written ++ [i]⟩

/-- The loop over the characters of `src`, with the index at which it ends. -/
def copyInto (dstLen : Nat) : Nat → List UInt8 → Dst → Nat × Dst
  | i, [], dst => (i, dst)
  | i, c :: rest, dst =>
      if i + 1 < dstLen then copyInto dstLen (i + 1) rest (dst.store i c) else (i, dst)

/-- The directory and the separator behind it, with the index at which they end. -/
def joinDirInto (dstLen : Nat) (dir file : List UInt8) (dst : Dst) : Nat × Dst :=
  if !isAbsolute file && !dir.isEmpty then
    let copied := copyInto dstLen 0 dir dst
    if 0 < copied.1 && !isSeparator (copied.2.cells (copied.1 - 1)) && copied.1 + 1 < dstLen then
      (copied.1 + 1, copied.2.store copied.1 0x2f)
    else copied
  else (0, dst)

/-- `bw_join_path` with the buffer `dst`. -/
def bwJoinPathInto (dstLen : Nat) (dir file : List UInt8) (dst : Dst) : Bool × Dst :=
  if dstLen = 0 then (false, dst)
  else
    let front := joinDirInto dstLen dir file dst
    let joined := copyInto dstLen front.1 file front.2
    (decide (0 < joined.1), joined.2.store joined.1 0)

/-- The first cells hold the text, and no others were written. -/
structure Dst.Holds (dst : Dst) (text : List UInt8) : Prop where
  cells : ∀ i, (inside : i < text.length) → dst.cells i = text.get ⟨i, inside⟩
  written : ∀ i ∈ dst.written, i < text.length

theorem Dst.Holds.store {dst : Dst} {text : List UInt8} (holds : dst.Holds text) (c : UInt8) :
    (dst.store text.length c).Holds (text ++ [c]) := by
  refine ⟨?_, ?_⟩
  · intro i inside
    rw [List.length_append, List.length_singleton] at inside
    rcases Nat.lt_succ_iff_lt_or_eq.mp inside with before | rfl
    · have kept : (dst.store text.length c).cells i = dst.cells i := if_neg (by omega)
      rw [kept, holds.cells i before]
      simp [List.getElem_append_left before]
    · have stored : (dst.store text.length c).cells text.length = c := if_pos rfl
      rw [stored]
      simp
  · intro i member
    rw [List.length_append, List.length_singleton]
    rcases List.mem_append.mp member with earlier | isLast
    · exact Nat.lt_succ_of_lt (holds.written i earlier)
    · rw [List.mem_singleton.mp isLast]
      exact Nat.lt_succ_self _

/-- The loop leaves what `joinCopy` says, and ends behind it. -/
theorem copyInto_holds (dstLen : Nat) {dst : Dst} {text : List UInt8} (src : List UInt8)
    (holds : dst.Holds text) :
    (copyInto dstLen text.length src dst).1 = (joinCopy dstLen text src).length ∧
      (copyInto dstLen text.length src dst).2.Holds (joinCopy dstLen text src) := by
  induction src generalizing dst text with
  | nil => exact ⟨rfl, holds⟩
  | cons c rest inductionHypothesis =>
      rw [copyInto, joinCopy]
      split_ifs
      · have next := inductionHypothesis (holds.store c)
        rwa [List.length_append, List.length_singleton] at next
      · exact ⟨rfl, holds⟩

theorem Dst.Holds.last {dst : Dst} {text : List UInt8} {last : UInt8} (holds : dst.Holds text)
    (isLast : text.getLast? = some last) : dst.cells (text.length - 1) = last := by
  have nonempty : text ≠ [] := by
    rintro rfl
    cases isLast
  have positive := List.length_pos_of_ne_nil nonempty
  rw [holds.cells (text.length - 1) (by omega)]
  rw [List.getLast?_eq_getElem?, List.getElem?_eq_getElem (by omega)] at isLast
  exact Option.some_inj.mp isLast

theorem holds_fresh (cells : Nat → UInt8) : Dst.Holds ⟨cells, []⟩ [] := by
  refine ⟨?_, ?_⟩
  · intro i inside
    exact absurd inside (Nat.not_lt_zero i)
  · intro i member
    exact absurd member List.not_mem_nil

/-- The directory stands in the buffer as `bwJoinPath` has it. -/
theorem joinDirInto_holds (dstLen : Nat) (dir file : List UInt8) (cells : Nat → UInt8) :
    ∃ front, (joinDirInto dstLen dir file ⟨cells, []⟩).1 = front.length ∧
      (joinDirInto dstLen dir file ⟨cells, []⟩).2.Holds front ∧
      bwJoinPath dstLen dir file = joinCopy dstLen front file := by
  unfold joinDirInto bwJoinPath
  by_cases joins : (!isAbsolute file && !dir.isEmpty) = true
  · obtain ⟨ended, holds⟩ := copyInto_holds dstLen dir (holds_fresh cells)
    rw [if_pos joins, if_pos joins]
    rw [List.length_nil] at ended holds
    dsimp only
    cases isLast : (joinCopy dstLen [] dir).getLast? with
    | none =>
        have empty : (joinCopy dstLen [] dir).length = 0 := by
          rw [List.getLast?_eq_none_iff.mp isLast, List.length_nil]
        rw [ended]
        simp only [empty, Nat.lt_irrefl, decide_false, Bool.false_and, Bool.false_eq_true, if_false]
        exact ⟨_, ended, holds, rfl⟩
    | some last =>
        have positive : 0 < (joinCopy dstLen [] dir).length := by
          apply List.length_pos_of_ne_nil
          rintro empty
          rw [empty] at isLast
          cases isLast
        rw [ended, holds.last isLast]
        simp only [positive, decide_true, Bool.true_and]
        split_ifs
        · refine ⟨joinCopy dstLen [] dir ++ [0x2f], ?_, holds.store 0x2f, rfl⟩
          rw [List.length_append, List.length_singleton]
        · exact ⟨_, ended, holds, rfl⟩
  · rw [if_neg joins, if_neg joins]
    exact ⟨[], rfl, holds_fresh cells, rfl⟩

/-- The buffer afterwards: the joined path with its NUL, and nothing else written. -/
theorem bwJoinPathInto_holds {dstLen : Nat} (room : 1 ≤ dstLen) (dir file : List UInt8)
    (cells : Nat → UInt8) :
    (bwJoinPathInto dstLen dir file ⟨cells, []⟩).1 = !(bwJoinPath dstLen dir file).isEmpty ∧
      (bwJoinPathInto dstLen dir file ⟨cells, []⟩).2.Holds (bwJoinPath dstLen dir file ++ [0]) := by
  obtain ⟨front, ended, holds, isFront⟩ := joinDirInto_holds dstLen dir file cells
  obtain ⟨length, joined⟩ := copyInto_holds dstLen file holds
  rw [bwJoinPathInto, if_neg (show dstLen ≠ 0 by omega), isFront]
  dsimp only
  rw [ended, length]
  refine ⟨?_, joined.store 0⟩
  cases joinCopy dstLen front file <;> simp

/-! ### Interning -/

/-- A text with its NUL in the buffer is the string there. -/
theorem Dst.Holds.cstr {dst : Dst} {text : List UInt8} {dstLen : Nat}
    (holds : dst.Holds (text ++ [0])) (noNul : NoNul text) (short : text.length < dstLen) :
    cstrFrom dst.cells dstLen 0 = some text := by
  apply cstrFrom_text _ _ noNul short
  · intro i inside
    rw [Nat.zero_add, holds.cells i (by rw [List.length_append]; omega)]
    simp [List.getElem_append_left inside]
  · have last : (text ++ [0]).getLast? = some 0 := List.getLast?_concat
    have nul := holds.last last
    rw [List.length_append, List.length_singleton, Nat.add_sub_cancel] at nul
    rw [Nat.zero_add, nul]

/-- The buffer is written below its length, and holds the full path cut to it; the
pool takes the cut path, cut once more, unless it is full. -/
theorem bwJoinPath_interned {dstLen : Nat} {dir file : List UInt8} (room : 1 ≤ dstLen)
    (noNulDir : NoNul dir) (noNul : NoNul file) (cells : Nat → UInt8) {s : State}
    (limit : s.tab.nstr ≤ bwDwarfStrMax) :
    ∃ path joined dst, path = (fullPath dir file).take (dstLen - 1) ∧
      bwJoinPathInto dstLen dir file ⟨cells, []⟩ = (joined, dst) ∧ joined = !path.isEmpty ∧
      (∀ i ∈ dst.written, i < dstLen) ∧ cstrFrom dst.cells dstLen 0 = some path ∧
      ((s.tab.nstr = bwDwarfStrMax ∧ bwAddStr path s = .ok (-1) s) ∨
        (s.tab.nstr < bwDwarfStrMax ∧ ∃ t kept, bwAddStr path s = .ok s.tab.nstr t ∧
          t.tab.cstr s.tab.nstr = some kept ∧ kept <+: path ∧
          (path.length < bwDwarfStrMax - s.tab.nstr → kept = path) ∧
          ∀ index < s.tab.nstr, t.tab.strs index = s.tab.strs index)) := by
  have noNulPath : NoNul (bwJoinPath dstLen dir file) := bwJoinPath_noNul noNulDir noNul
  have short : (bwJoinPath dstLen dir file).length < dstLen := bwJoinPath_length dir file room
  obtain ⟨returned, holds⟩ := bwJoinPathInto_holds room dir file cells
  cases ran : bwJoinPathInto dstLen dir file ⟨cells, []⟩ with
  | mk joined dst =>
      rw [ran] at returned holds
      refine ⟨bwJoinPath dstLen dir file, joined, dst, bwJoinPath_eq_take dir file room,
        rfl, returned, ?_, holds.cstr noNulPath short, ?_⟩
      · intro i member
        have written := holds.written i member
        rw [List.length_append, List.length_singleton] at written
        omega
      · rcases Nat.lt_or_eq_of_le limit with below | full
        · obtain ⟨t, added, grew, -, found⟩ := bwAddStr_kept noNulPath below
          refine Or.inr ⟨below, t, _, added, found, List.take_prefix _ _, ?_, grew.tab.strs⟩
          intro fits
          exact List.take_of_length_le (by omega)
        · refine Or.inl ⟨full, ?_⟩
          rw [bwAddStr_run, if_pos (by omega)]

/-- A directory and a file that fill a buffer of four bytes. -/
theorem joined_interned : ∃ t,
    bwAddStr [0x61, 0x2f, 0x62] (startState (lineImage []) Tab.zeroed) = .ok 0 t ∧
      t.tab.cstr 0 = some [0x61, 0x2f, 0x62] := by
  obtain ⟨path, joined, dst, rfl, -, -, -, -, full | ⟨-, t, kept, added, found, -, whole, -⟩⟩ :=
    @bwJoinPath_interned 4 [0x61] [0x62, 0x63] (by decide) (by decide) (by decide) (fun _ => 0)
      (startState (lineImage []) Tab.zeroed) (by decide)
  · exact absurd full.1 (by decide)
  · rw [whole (by decide)] at found
    exact ⟨t, added, found⟩

end Backwalk.DwarfLine
