import Backwalk.Walk.Chain
import Backwalk.Walk.Windows

/-!
Contract: what a collection writes, against what its context was given.

Owns the writes of the collecting loop and the bound on their indices. The loop
stops at `ip_max_cnt`, the depth that `mkbw_context` was asked for; what it
writes into is `sizeof(uintptr_t) * depth` bytes, a product of `size_t`. The two
agree as long as the product does not wrap around, and once it does there is a
walk that runs over the end of the block.
-/

namespace Backwalk.Walk

open Backwalk.Support

variable {arch : Arch}

/-- The writes of the loop of `bw_backtrace_collect` into `ip`: where and what. -/
def collectWrites (machine : Machine arch) (ctx : Context arch) (cnt max : Nat) :
    List (Nat × Word arch) :=
  match contextStep machine ctx with
  | none => []
  | some next =>
      if max ≤ cnt then []
      else (cnt, contextGetIp next) :: collectWrites machine next (cnt + 1) max
termination_by max - cnt

/-- The writes are all that the loop does to the buffer. -/
theorem collectFrom_writes (machine : Machine arch) (ctx : Context arch) (cnt : Nat)
    (bw : BwContext arch) :
    (collectFrom machine ctx cnt bw).2.ip =
      (collectWrites machine ctx cnt bw.ipMaxCnt).foldl
        (fun ip write => Function.update ip write.1 write.2) bw.ip := by
  fun_induction collectFrom machine ctx cnt bw with
  | case1 ctx cnt bw stopped => rw [collectWrites, stopped]; rfl
  | case2 ctx cnt bw next stepped full =>
      rw [collectWrites, stepped]
      simp [full]
  | case3 ctx cnt bw next stepped room inductionHypothesis =>
      rw [collectWrites, stepped, inductionHypothesis]
      simp [room]

/-- They go to consecutive indices. -/
theorem collectWrites_indices (machine : Machine arch) (ctx : Context arch) (cnt max : Nat) :
    (collectWrites machine ctx cnt max).map Prod.fst =
      List.range' cnt (walkTake machine ctx (max - cnt)).length := by
  obtain ⟨left, leftEq⟩ : ∃ left, max - cnt = left := ⟨_, rfl⟩
  rw [leftEq]
  induction left generalizing ctx cnt with
  | zero =>
      have full : max ≤ cnt := by omega
      rw [collectWrites]
      cases contextStep machine ctx <;> simp [full, walkTake]
  | succ left inductionHypothesis =>
      have room : ¬ max ≤ cnt := by omega
      rw [collectWrites]
      cases stepped : contextStep machine ctx with
      | none => simp [walkTake, stepped]
      | some next =>
          simp only [room, if_false, List.map_cons, walkTake, stepped, List.length_cons,
            List.range'_succ]
          rw [inductionHypothesis next (cnt + 1) (by omega)]

theorem mem_collectWrites {machine : Machine arch} {start : Context arch} {max : Nat}
    {write : Nat × Word arch} (written : write ∈ collectWrites machine start 0 max) :
    write.1 < (walkTake machine start max).length := by
  have index : write.1 ∈ (collectWrites machine start 0 max).map Prod.fst :=
    List.mem_map_of_mem written
  rw [collectWrites_indices, Nat.sub_zero] at index
  have := (List.mem_range'_1.mp index).2
  omega

/-! ### Contexts through collections -/

@[simp]
theorem collectFrom_ipBytes (machine : Machine arch) (ctx : Context arch) (cnt : Nat)
    (bw : BwContext arch) : (collectFrom machine ctx cnt bw).2.ipBytes = bw.ipBytes := by
  fun_induction collectFrom machine ctx cnt bw with
  | case1 => rfl
  | case2 => rfl
  | case3 _ _ _ _ _ _ inductionHypothesis => exact inductionHypothesis

@[simp]
theorem collectHistory_ipBytes (bw : BwContext arch)
    (calls : List (Machine arch × Context arch)) :
    (collectHistory bw calls).ipBytes = bw.ipBytes := by
  induction calls generalizing bw with
  | nil => rfl
  | cons call rest inductionHypothesis =>
      rw [collectHistory, List.foldl_cons, ← collectHistory, inductionHypothesis,
        bwBacktraceCollect, collectFrom_ipBytes]

theorem mkbwContext_ipBytes {malloc : Nat → Option (Nat → Word arch)} {depth : Nat}
    {bw : BwContext arch} (made : mkbwContext malloc depth = some bw) :
    bw.ipBytes = arch.wordSize * depth % 2 ^ arch.bits := by
  obtain ⟨ip, rfl⟩ := mkbwContext_made made
  rfl

/-- The number of words that were asked of `malloc`. -/
def BwContext.words (bw : BwContext arch) : Nat := bw.ipBytes / arch.wordSize

theorem wordSize_pos : 0 < arch.wordSize := by cases arch <;> decide

theorem words_of_fits {malloc : Nat → Option (Nat → Word arch)} {depth : Nat} {bw : BwContext arch}
    (made : mkbwContext malloc depth = some bw) (fits : arch.wordSize * depth < 2 ^ arch.bits) :
    bw.words = depth := by
  rw [BwContext.words, mkbwContext_ipBytes made, Nat.mod_eq_of_lt fits,
    Nat.mul_div_cancel_left _ wordSize_pos]

/-- A product that wraps around is a block that is too small. -/
theorem words_of_wraps {malloc : Nat → Option (Nat → Word arch)} {depth : Nat} {bw : BwContext arch}
    (made : mkbwContext malloc depth = some bw) (wraps : 2 ^ arch.bits ≤ arch.wordSize * depth) :
    bw.words < depth := by
  rw [BwContext.words, mkbwContext_ipBytes made, Nat.div_lt_iff_lt_mul wordSize_pos,
    Nat.mul_comm depth]
  exact (Nat.mod_lt _ (Nat.two_pow_pos _)).trans_le wraps

/-! ### A walk as long as one likes -/

/-- Two frames that are saved over each other and return to `0x20000`. -/
def endlessMachine (arch : Arch) : Machine arch where
  mem := fun addr =>
    if addr = savedSlot 0x10000 then 0x10010
    else if addr = savedSlot 0x10010 then 0x10000
    else 0x20000
  stripPac := id

theorem endlessMachine_step (arch : Arch) (ip : Word arch) :
    contextStep (endlessMachine arch) ⟨0x10000, ip⟩ = some ⟨0x10010, 0x20000⟩ ∧
      contextStep (endlessMachine arch) ⟨0x10010, ip⟩ = some ⟨0x10000, 0x20000⟩ := by
  rw [contextStep_fp _ (show (⟨0x10000, ip⟩ : Context arch).fp =
      (⟨0x10000, 0⟩ : Context arch).fp from rfl),
    contextStep_fp _ (show (⟨0x10010, ip⟩ : Context arch).fp =
      (⟨0x10010, 0⟩ : Context arch).fp from rfl)]
  cases arch <;> decide

theorem endlessMachine_walk (arch : Arch) (n : Nat) (ip : Word arch) :
    (walkTake (endlessMachine arch) ⟨0x10000, ip⟩ n).length = n ∧
      (walkTake (endlessMachine arch) ⟨0x10010, ip⟩ n).length = n := by
  induction n generalizing ip with
  | zero => exact ⟨rfl, rfl⟩
  | succ n inductionHypothesis =>
      obtain ⟨first, second⟩ := endlessMachine_step arch ip
      rw [walkTake, walkTake, first, second]
      dsimp only
      rw [List.length_cons, List.length_cons, (inductionHypothesis 0x20000).1,
        (inductionHypothesis 0x20000).2]
      exact ⟨rfl, rfl⟩

/-! ### Collections on Windows -/

/-- The context after a history of `bw_backtrace_collect` calls on Windows. -/
def collectHistoryWin (bw : BwContext arch) (calls : List (StackCapture arch)) : BwContext arch :=
  calls.foldl (fun bw capture => (bwBacktraceCollectWin capture bw).2) bw

theorem bwBacktraceCollectWin_keeps (captureStackBackTrace : StackCapture arch)
    (bw : BwContext arch) :
    (bwBacktraceCollectWin captureStackBackTrace bw).2.ipMaxCnt = bw.ipMaxCnt ∧
      (bwBacktraceCollectWin captureStackBackTrace bw).2.ipBytes = bw.ipBytes := by
  unfold bwBacktraceCollectWin
  split_ifs
  · exact ⟨rfl, rfl⟩
  · exact ⟨rfl, rfl⟩

theorem collectHistoryWin_keeps (bw : BwContext arch) (calls : List (StackCapture arch)) :
    (collectHistoryWin bw calls).ipMaxCnt = bw.ipMaxCnt ∧
      (collectHistoryWin bw calls).ipBytes = bw.ipBytes := by
  induction calls generalizing bw with
  | nil => exact ⟨rfl, rfl⟩
  | cons capture calls inductionHypothesis =>
      obtain ⟨max, bytes⟩ := inductionHypothesis (bwBacktraceCollectWin capture bw).2
      obtain ⟨max', bytes'⟩ := bwBacktraceCollectWin_keeps capture bw
      exact ⟨max.trans max', bytes.trans bytes'⟩

/-- What the depth leaves in a `USHORT` is no more than the words that were asked
for, whether the product wraps around or not. -/
theorem ushort_le_words {malloc : Nat → Option (Nat → Word arch)} {depth : Nat}
    {bw : BwContext arch}
    (made : mkbwContext malloc depth = some bw) : depth % 2 ^ 16 ≤ bw.words := by
  obtain ⟨k, whole⟩ : ∃ k, 2 ^ arch.bits = arch.wordSize * (2 ^ 16 * k) := by
    cases arch with
    | x86_64 => exact ⟨2 ^ 45, by decide⟩
    | aarch64 => exact ⟨2 ^ 45, by decide⟩
    | arm => exact ⟨2 ^ 14, by decide⟩
  have words : bw.words = depth % (2 ^ 16 * k) := by
    rw [BwContext.words, mkbwContext_ipBytes made, whole, Nat.mul_mod_mul_left,
      Nat.mul_div_cancel_left _ wordSize_pos]
  rw [words, ← Nat.mod_mul_right_mod depth (2 ^ 16) k]
  exact Nat.mod_le _ _

/-- On Unix, after any collections, every write of a further one goes into the
words that the context was given, exactly when the size that was asked of
`malloc` did not wrap around. On Windows every write does, because the capture
reduces the depth to 16 bits. -/
theorem collectWrites_inside_iff (malloc : Nat → Option (Nat → Word arch)) (depth : Nat)
    (bw : BwContext arch) (made : mkbwContext malloc depth = some bw) :
    ((∀ (calls : List (Machine arch × Context arch)) (machine : Machine arch)
          (start : Context arch),
        ∀ write ∈ collectWrites machine start 0 (collectHistory bw calls).ipMaxCnt,
          write.1 < (collectHistory bw calls).words) ↔
      arch.wordSize * depth < 2 ^ arch.bits) ∧
    ∀ (calls : List (StackCapture arch)) (capture : StackCapture arch) (stack : List (Word arch)),
      Captures capture stack → ∀ index,
        index < (bwWinCapture capture (collectHistoryWin bw calls).ip
          (collectHistoryWin bw calls).ipMaxCnt).2 →
          index < (collectHistoryWin bw calls).words := by
  obtain ⟨-, maxEq⟩ := mkbwContext_eq_some made
  have words : ∀ calls : List (Machine arch × Context arch),
      (collectHistory bw calls).words = bw.words := by
    intro calls
    rw [BwContext.words, collectHistory_ipBytes, BwContext.words]
  refine ⟨⟨?_, ?_⟩, ?_⟩
  · intro inside
    by_contra wraps
    have small := words_of_wraps made (Nat.le_of_not_lt wraps)
    have index : bw.words ∈ (collectWrites (endlessMachine arch) ⟨0x10000, 0⟩ 0 depth).map
        Prod.fst := by
      rw [collectWrites_indices, Nat.sub_zero, (endlessMachine_walk arch depth 0).1]
      exact List.mem_range'_1.mpr ⟨Nat.zero_le _, by omega⟩
    obtain ⟨write, written, at_⟩ := List.mem_map.mp index
    have below := inside [] (endlessMachine arch) ⟨0x10000, 0⟩ write (by rwa [← maxEq] at written)
    rw [words, at_] at below
    exact lt_irrefl _ below
  · intro fits calls machine start write written
    rw [collectHistory_ipMaxCnt, maxEq] at written
    rw [words, words_of_fits made fits]
    exact (mem_collectWrites written).trans_le (walkTake_length_le machine start depth)
  · intro calls capture stack captures index below
    obtain ⟨maxKept, bytesKept⟩ := collectHistoryWin_keeps bw calls
    have enough := ushort_le_words made
    rw [maxKept, maxEq] at below
    rw [BwContext.words, bytesKept, ← BwContext.words]
    by_cases none : depth = 0
    · rw [bwWinCapture, if_pos none] at below
      exact absurd below (Nat.not_lt_zero _)
    · rw [bwWinCapture_eq captures _ (by omega), winCaptureCount_eq_min, List.length_take] at below
      omega

/-- A context for one frame was given one word. -/
theorem oneDeep_capacity : ¬ ∃ write ∈ collectWrites oneFrame ⟨0x10000, 0⟩ 0 1, 1 ≤ write.1 := by
  rintro ⟨write, written, outside⟩
  exact Nat.not_le.mpr ((collectWrites_inside_iff (fun _ => some fun _ => 0) 1 oneDeep rfl).1.mpr
    (by decide) [] oneFrame ⟨0x10000, 0⟩ write written) outside

/-- A depth of `2^61` asks `malloc` for no bytes, and its first frame is written
behind them. -/
theorem collectWrites_wraps : ∃ bw : BwContext .x86_64,
    mkbwContext (fun _ => some fun _ => 0) (2 ^ 61) = some bw ∧
      ¬ ∀ write ∈ collectWrites oneFrame ⟨0x10000, 0⟩ 0 bw.ipMaxCnt, write.1 < bw.words := by
  refine ⟨⟨fun _ => 0, 0, 2 ^ 61, 0⟩, rfl, ?_⟩
  intro inside
  have first : ((0 : Nat), (0x20000 : Word .x86_64)) ∈
      collectWrites oneFrame ⟨0x10000, 0⟩ 0 (2 ^ 61) := by
    rw [collectWrites, show contextStep oneFrame ⟨0x10000, 0⟩ = some ⟨0x10100, 0x20000⟩ by decide]
    simp [contextGetIp]
  exact absurd (inside _ first) (by decide)

end Backwalk.Walk
