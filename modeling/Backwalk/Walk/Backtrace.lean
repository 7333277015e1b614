import Backwalk.Walk.Context
import Mathlib.Logic.Function.Iterate

/-!
Contract: the Unix half of `src/backwalk.c`.

Owns `bwFrameProcess`, the loop of `bwBacktrace` one evaluation of its head at
a time, the context object (`mkbwContext`), `bwBacktraceCollect` and
`bwBacktraceProcess`, and the sequence of instruction pointers a walk yields.

Does not own the dynamic loader: `dladdr` and the ELF reader are parameters of
a `Symbols` value, as functions of the address they are asked about. Nor does
it own `context_init_arch`: the starting context is an argument of each walk.
-/

namespace Backwalk.Walk

open Backwalk.Support

variable {arch : Arch} {σ : Type}

/-! ### Frames and callbacks -/

/-- The arguments of one callback call, `arg` apart. -/
structure Frame (arch : Arch) where
  addr : Word arch
  fname : String
  sname : String
  src : String
  line : Nat
deriving DecidableEq, Repr

/-- What the loader answers about an address; `bias` is `l_addr` of the link
map where there is one. -/
structure DlInfo (arch : Arch) where
  fbase : Word arch
  fname : Option String
  sname : Option String
  bias : Option (Word arch)

/-- The symbol sources of a Unix process. -/
structure Symbols (arch : Arch) where
  /-- Compiled with `__linux__`. -/
  linux : Bool
  /-- `dladdr1`, or `dladdr` elsewhere. -/
  dladdr : Word arch → Option (DlInfo arch)
  /-- `bw_elf_sname`. -/
  elfSname : Option String → Word arch → Word arch → Option String

/-- The frame that `bw_frame_process` builds for `ip` before it calls back. -/
def bwFrameResolve (symbols : Symbols arch) (ip : Word arch) : Frame arch :=
  match symbols.dladdr (ip - 1) with
  | none => ⟨0, "?", "?", "?", 0⟩
  | some info =>
      let sname :=
        match info.sname with
        | some name => name
        | none =>
            if symbols.linux then
              (symbols.elfSname info.fname (info.bias.getD info.fbase) (ip - 1)).getD "?"
            else "?"
      ⟨ip - info.fbase, info.fname.getD "?", sname, "?", 0⟩

/-- A `bw_backtrace_cb` whose `arg` points to a `σ`. -/
abbrev Callback (arch : Arch) (σ : Type) := Frame arch → σ → Bool × σ

/-- The callback's side of a run: its state, and the calls made so far. -/
structure Caller (arch : Arch) (σ : Type) where
  state : σ
  calls : List (Frame arch)

/-- `bw_frame_process`. -/
def bwFrameProcess (symbols : Symbols arch) (cb : Option (Callback arch σ)) (ip : Word arch)
    (caller : Caller arch σ) : Bool × Caller arch σ :=
  match cb with
  | none => (true, caller)
  | some call =>
      let frame := bwFrameResolve symbols ip
      let answer := call frame caller.state
      (answer.1, ⟨answer.2, caller.calls ++ [frame]⟩)

/-! ### The direct walk -/

/-- `bw_backtrace` between two evaluations of its loop head; `result` is set
once the function has returned. -/
structure Backtrace (arch : Arch) (σ : Type) where
  ctx : Context arch
  caller : Caller arch σ
  result : Option Bool

/-- One evaluation of the loop head, with the loop body when it is entered. -/
def Backtrace.advance (machine : Machine arch) (symbols : Symbols arch)
    (cb : Option (Callback arch σ)) (walk : Backtrace arch σ) : Backtrace arch σ :=
  match walk.result with
  | some _ => walk
  | none =>
      match contextStep machine walk.ctx with
      | none => { walk with result := some true }
      | some ctx =>
          match bwFrameProcess symbols cb (contextGetIp ctx) walk.caller with
          | (true, caller) => ⟨ctx, caller, none⟩
          | (false, caller) => ⟨ctx, caller, some false⟩

/-- `bw_backtrace` from a starting context, after at most `n` evaluations of
its loop head. -/
def bwBacktrace (machine : Machine arch) (symbols : Symbols arch)
    (cb : Option (Callback arch σ)) (start : Context arch) (state : σ) (n : Nat) :
    Backtrace arch σ :=
  (Backtrace.advance machine symbols cb)^[n] ⟨start, ⟨state, []⟩, none⟩

/-! ### Contexts -/

/-- `struct bw_context`, with the size that was asked of `malloc` for `ip`. -/
structure BwContext (arch : Arch) where
  ip : Nat → Word arch
  ipCnt : Nat
  ipMaxCnt : Nat
  ipBytes : Nat

/-- `mkbw_context`. The heap answers a request for a number of bytes with the
words found in the fresh block, or with `NULL`. -/
def mkbwContext (malloc : Nat → Option (Nat → Word arch)) (depth : Nat) :
    Option (BwContext arch) :=
  let bytes := arch.wordSize * depth % 2 ^ arch.bits
  match malloc (3 * arch.wordSize) with
  | none => none
  | some _ =>
      match malloc bytes with
      | none => none
      | some ip => some ⟨ip, 0, depth, bytes⟩

/-- The instruction pointers `ip[0, ip_cnt)`. -/
def BwContext.frames (bw : BwContext arch) : List (Word arch) :=
  (List.range bw.ipCnt).map bw.ip

/-- The loop of `bw_backtrace_collect`; `cnt` is the local `ip_cnt`. -/
def collectFrom (machine : Machine arch) (ctx : Context arch) (cnt : Nat)
    (bw : BwContext arch) : Bool × BwContext arch :=
  match contextStep machine ctx with
  | none => (true, bw)
  | some next =>
      if bw.ipMaxCnt ≤ cnt then (false, bw)
      else
        collectFrom machine next (cnt + 1)
          { bw with ip := Function.update bw.ip cnt (contextGetIp next), ipCnt := cnt + 1 }
termination_by bw.ipMaxCnt - cnt

/-- `bw_backtrace_collect` on Unix. -/
def bwBacktraceCollect (machine : Machine arch) (start : Context arch) (bw : BwContext arch) :
    Bool × BwContext arch :=
  collectFrom machine start 0 bw

/-- The loop of `bw_backtrace_process` over the stored instruction pointers. -/
def processIps (symbols : Symbols arch) (cb : Option (Callback arch σ)) :
    List (Word arch) → Caller arch σ → Bool × Caller arch σ
  | [], caller => (true, caller)
  | ip :: rest, caller =>
      match bwFrameProcess symbols cb ip caller with
      | (true, caller) => processIps symbols cb rest caller
      | (false, caller) => (false, caller)

/-- `bw_backtrace_process`. -/
def bwBacktraceProcess (symbols : Symbols arch) (cb : Option (Callback arch σ))
    (bw : BwContext arch) (state : σ) : Bool × Caller arch σ :=
  processIps symbols cb bw.frames ⟨state, []⟩

/-! ### The instruction pointers of a walk -/

/-- Instruction pointer number `n` of the walk from `start`, if it gets there. -/
def walkIp (machine : Machine arch) (start : Context arch) (n : Nat) : Option (Word arch) :=
  (orbit (contextStep machine) start (n + 1)).map contextGetIp

/-- The first instruction pointers of the walk from `start`, at most `depth`. -/
def walkTake (machine : Machine arch) : Context arch → Nat → List (Word arch)
  | _, 0 => []
  | start, depth + 1 =>
      match contextStep machine start with
      | none => []
      | some next => contextGetIp next :: walkTake machine next depth

theorem walkTake_length_le (machine : Machine arch) (start : Context arch) (depth : Nat) :
    (walkTake machine start depth).length ≤ depth := by
  induction depth generalizing start with
  | zero => rfl
  | succ depth inductionHypothesis =>
      cases stepped : contextStep machine start with
      | none => simp [walkTake, stepped]
      | some next =>
          have rest := inductionHypothesis next
          simp only [walkTake, stepped, List.length_cons]
          omega

theorem walkIp_succ {machine : Machine arch} {start next : Context arch}
    (stepped : contextStep machine start = some next) (n : Nat) :
    walkIp machine start (n + 1) = walkIp machine next n := by
  rw [walkIp, orbit_succ_front, stepped]
  rfl

/-- The taken instruction pointers are those of the walk, in order. -/
theorem walkTake_getElem? (machine : Machine arch) (start : Context arch) (depth n : Nat) :
    (walkTake machine start depth)[n]? = if n < depth then walkIp machine start n else none := by
  induction depth generalizing start n with
  | zero => simp [walkTake]
  | succ depth inductionHypothesis =>
      cases stepped : contextStep machine start with
      | none => simp [walkTake, stepped, walkIp, orbit_succ_front]
      | some next =>
          cases n with
          | zero => simp [walkTake, stepped, walkIp, orbit_succ_front]
          | succ n =>
              have rest := inductionHypothesis next n
              simp only [walkTake, stepped, List.getElem?_cons_succ, rest, walkIp_succ stepped,
                Nat.add_lt_add_iff_right]

theorem walkTake_eq_nil_iff (machine : Machine arch) (start : Context arch) (depth : Nat) :
    walkTake machine start depth = [] ↔ depth = 0 ∨ contextStep machine start = none := by
  cases depth with
  | zero => simp [walkTake]
  | succ depth => cases stepped : contextStep machine start <;> simp [walkTake, stepped]

end Backwalk.Walk
