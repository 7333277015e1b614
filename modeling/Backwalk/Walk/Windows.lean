import Backwalk.Walk.Capture

/-!
Contract: the Windows half of a collection, `bw_win_capture` and the
`bw_backtrace_collect` over it, and what each platform reports about a stack
that does not fit.

Does not own `CaptureStackBackTrace`, which is a parameter: asked to skip some
frames and to write a number of them, it answers with those it has written.

On Unix a collection looks for a further frame once the context is full. On
Windows it compares the number of stored frames with the room of the context, so
a full context counts as truncated and the limit of the capture goes unnoticed.
-/

namespace Backwalk.Walk

variable {arch : Arch}

def bwWinMaxFrames : Nat := 64

/-- `bw_win_capture` and its caller. -/
def bwWinSkip : Nat := 2

/-- `CaptureStackBackTrace(skip, n, frames, NULL)`. -/
abbrev StackCapture (arch : Arch) := (skip n : Nat) → List (Word arch)

/-- The `capture` of `bw_win_capture`, a `USHORT`. -/
def winCaptureCount (max : Nat) : Nat :=
  let capture := max % 2 ^ 16
  if bwWinMaxFrames < capture then bwWinMaxFrames else capture

/-- `bw_win_capture` into `ips`, with its result. -/
def bwWinCapture (captureStackBackTrace : StackCapture arch) (ips : Nat → Word arch) (max : Nat) :
    (Nat → Word arch) × Nat :=
  if max = 0 then (ips, 0)
  else
    let frames := captureStackBackTrace bwWinSkip (winCaptureCount max)
    (storeFrom ips 0 frames, frames.length)

/-- `bw_backtrace_collect` on Windows. -/
def bwBacktraceCollectWin (captureStackBackTrace : StackCapture arch) (bw : BwContext arch) :
    Bool × BwContext arch :=
  if bw.ipMaxCnt = 0 then (false, bw)
  else
    let (ip, n) := bwWinCapture captureStackBackTrace bw.ip bw.ipMaxCnt
    (n < bw.ipMaxCnt, { bw with ip := ip, ipCnt := n })

/-- The capture answers with the first frames of `stack`, as many as it is asked
for. -/
def Captures (captureStackBackTrace : StackCapture arch) (stack : List (Word arch)) : Prop :=
  ∀ n, captureStackBackTrace bwWinSkip n = stack.take n

section Collection

variable {captureStackBackTrace : StackCapture arch} {stack : List (Word arch)}
  {bw : BwContext arch}

theorem winCaptureCount_eq_min (max : Nat) :
    winCaptureCount max = min (max % 2 ^ 16) bwWinMaxFrames := by
  unfold winCaptureCount
  dsimp only
  split_ifs with capped
  · omega
  · omega

/-- What a collection stores, and what it compares. -/
theorem bwBacktraceCollectWin_eq (captures : Captures captureStackBackTrace stack)
    (deep : 1 ≤ bw.ipMaxCnt) :
    bwBacktraceCollectWin captureStackBackTrace bw =
      (decide (min (winCaptureCount bw.ipMaxCnt) stack.length < bw.ipMaxCnt),
        { bw with
          ip := storeFrom bw.ip 0 (stack.take (winCaptureCount bw.ipMaxCnt))
          ipCnt := min (winCaptureCount bw.ipMaxCnt) stack.length }) := by
  have room : bw.ipMaxCnt ≠ 0 := by omega
  rw [bwBacktraceCollectWin, if_neg room, bwWinCapture, if_neg room, captures]
  dsimp only
  rw [List.length_take]

theorem frames_bwBacktraceCollectWin (captures : Captures captureStackBackTrace stack)
    (deep : 1 ≤ bw.ipMaxCnt) :
    (bwBacktraceCollectWin captureStackBackTrace bw).2.frames =
      stack.take (winCaptureCount bw.ipMaxCnt) := by
  rw [bwBacktraceCollectWin_eq captures deep, BwContext.frames, ← List.length_take]
  exact range_map_storeFrom _ _

end Collection

/-- On Unix, a collection into a context without frames returns true exactly
when it has stored the whole stack. -/
theorem bwBacktraceCollect_true_iff (machine : Machine arch) (start : Context arch)
    (stack : List (Word arch)) (bw : BwContext arch)
    (walks : ∀ n, walkIp machine start n = stack[n]?) (fresh : bw.ipCnt = 0) :
    (bwBacktraceCollect machine start bw).1 = true ↔
      (bwBacktraceCollect machine start bw).2.frames = stack := by
  have taken : walkTake machine start bw.ipMaxCnt = stack.take bw.ipMaxCnt := by
    apply List.ext_getElem?
    intro n
    rw [walkTake_getElem?, List.getElem?_take, walks]
  have empty : bw.frames = [] := by simp [BwContext.frames, fresh]
  have stored : (bwBacktraceCollect machine start bw).2.frames = stack.take bw.ipMaxCnt := by
    rw [frames_bwBacktraceCollect, taken, empty]
    split_ifs with none
    · exact none.symm
    · rfl
  rw [stored, bwBacktraceCollect_eq, decide_eq_true_iff, walks, List.getElem?_eq_none_iff,
    List.take_eq_self_iff]

/-- On Windows, a collection returns true exactly when it has stored the whole
stack, if and only if the context has room for at most 64 frames and the stack
does not just fill it, or it has room for more and the stack fits into what the
capture was asked for. -/
theorem bwBacktraceCollectWin_true_iff (captureStackBackTrace : StackCapture arch)
    (stack : List (Word arch)) (bw : BwContext arch)
    (captures : Captures captureStackBackTrace stack) (deep : 1 ≤ bw.ipMaxCnt) :
    ((bwBacktraceCollectWin captureStackBackTrace bw).1 = true ↔
        (bwBacktraceCollectWin captureStackBackTrace bw).2.frames = stack) ↔
      (bw.ipMaxCnt ≤ 64 ∧ stack.length ≠ bw.ipMaxCnt) ∨
        (64 < bw.ipMaxCnt ∧ stack.length ≤ min (bw.ipMaxCnt % 65536) 64) := by
  rw [frames_bwBacktraceCollectWin captures deep, bwBacktraceCollectWin_eq captures deep,
    decide_eq_true_iff, List.take_eq_self_iff, winCaptureCount_eq_min]
  rw [show bwWinMaxFrames = 64 from rfl]
  rcases Nat.lt_or_ge 64 bw.ipMaxCnt with large | small
  · omega
  · rw [show bw.ipMaxCnt % 2 ^ 16 = bw.ipMaxCnt from Nat.mod_eq_of_lt (by omega)]
    omega

/-- A context with room for two frames. -/
def twoDeep : BwContext .x86_64 := ⟨fun _ => 0, 0, 2, 16⟩

/-- A stack of one frame is reported complete. -/
theorem twoDeep_complete :
    (bwBacktraceCollectWin (fun _ n => [0x401000].take n) twoDeep).1 = true ↔
      (bwBacktraceCollectWin (fun _ n => [0x401000].take n) twoDeep).2.frames = [0x401000] :=
  (bwBacktraceCollectWin_true_iff (fun _ n => [0x401000].take n) [0x401000] twoDeep
    (fun _ => rfl) (by decide)).mpr (Or.inl ⟨by decide, by decide⟩)

/-- A stack of two frames is stored whole and reported incomplete. -/
theorem twoDeep_full_reported_incomplete :
    ¬ ((bwBacktraceCollectWin (fun _ n => [0x401000, 0x402000].take n) twoDeep).1 = true ↔
      (bwBacktraceCollectWin (fun _ n => [0x401000, 0x402000].take n) twoDeep).2.frames =
        [0x401000, 0x402000]) := by
  decide

/-! ### How many frames are captured -/

/-- A store leaves what lies behind it alone. -/
theorem storeFrom_behind (buffer : Nat → Word arch) (cnt : Nat) (ips : List (Word arch))
    {index : Nat} (behind : cnt + ips.length ≤ index) :
    storeFrom buffer cnt ips index = buffer index := by
  induction ips generalizing buffer cnt with
  | nil => rfl
  | cons ip rest inductionHypothesis =>
      rw [List.length_cons] at behind
      rw [storeFrom, inductionHypothesis _ _ (by omega), Function.update_of_ne (by omega)]

theorem bwWinCapture_eq {captureStackBackTrace : StackCapture arch} {stack : List (Word arch)}
    (captures : Captures captureStackBackTrace stack) (ips : Nat → Word arch) {max : Nat}
    (positive : 1 ≤ max) :
    bwWinCapture captureStackBackTrace ips max =
      (storeFrom ips 0 (stack.take (winCaptureCount max)),
        (stack.take (winCaptureCount max)).length) := by
  rw [bwWinCapture, if_neg (by omega), captures]

/-- `captured` is what a capture into `before` is to leave and to return: the
first `n` frames of the stack, or all if there are fewer. -/
structure FirstFrames (stack : List (Word arch)) (n : Nat) (before : Nat → Word arch)
    (captured : (Nat → Word arch) × Nat) : Prop where
  count : captured.2 = min n stack.length
  stored : (List.range captured.2).map captured.1 = stack.take n
  behind : ∀ index, captured.2 ≤ index → captured.1 index = before index

theorem firstFrames_storeFrom (stack : List (Word arch)) (n : Nat) (before : Nat → Word arch) :
    FirstFrames stack n before (storeFrom before 0 (stack.take n), (stack.take n).length) where
  count := List.length_take
  stored := range_map_storeFrom _ _
  behind := fun _ below => storeFrom_behind _ _ _ (by rwa [Nat.zero_add])

/-- A capture stores the first `min max 64` frames of the stack, and a context is
left with that count, exactly when `max` keeps its value as a `USHORT`, or what
is left of it still is room for all frames that there are to store. -/
theorem bwWinCapture_first_iff (captureStackBackTrace : StackCapture arch)
    (stack : List (Word arch)) (ips : Nat → Word arch) (max : Nat)
    (captures : Captures captureStackBackTrace stack) (positive : 1 ≤ max) :
    (FirstFrames stack (min max 64) ips (bwWinCapture captureStackBackTrace ips max) ∧
        ∀ bw : BwContext arch, bw.ipMaxCnt = max →
          (bwBacktraceCollectWin captureStackBackTrace bw).2.ipCnt =
            min (min max 64) stack.length) ↔
      max < 65536 ∨ min 64 stack.length ≤ max % 65536 := by
  have asked : winCaptureCount max = min (max % 65536) 64 := winCaptureCount_eq_min max
  rw [bwWinCapture_eq captures ips positive, asked]
  constructor
  · rintro ⟨first, -⟩
    have count := first.count
    rw [List.length_take] at count
    omega
  · intro room
    have same : stack.take (min (max % 65536) 64) = stack.take (min max 64) := by
      rw [List.take_eq_take_iff]
      omega
    rw [same]
    refine ⟨firstFrames_storeFrom stack (min max 64) ips, ?_⟩
    rintro bw rfl
    rw [bwBacktraceCollectWin_eq captures positive, asked]
    show min (min (bw.ipMaxCnt % 65536) 64) stack.length = min (min bw.ipMaxCnt 64) stack.length
    omega

theorem bwWinCapture_two : FirstFrames [0x401000] (min 2 64) (fun _ => (0 : Word .x86_64))
    (bwWinCapture (fun _ n => [0x401000].take n) (fun _ => 0) 2) :=
  ((bwWinCapture_first_iff (fun _ n => [0x401000].take n) [0x401000] (fun _ => 0) 2
    (fun _ => rfl) (by decide)).mpr (Or.inl (by decide))).1

/-- A capture of up to 65536 frames stores none. -/
theorem bwWinCapture_wraps : ¬ FirstFrames [0x401000] (min 65536 64) (fun _ => (0 : Word .x86_64))
    (bwWinCapture (fun _ n => [0x401000].take n) (fun _ => 0) 65536) := by
  intro first
  have count := first.count
  revert count
  decide

end Backwalk.Walk
