import Backwalk.Support.LinkedStack
import Backwalk.Support.Schedules
import Backwalk.Walk.Capacity

/-!
Contract: what a walk over the stack of a program with frame pointers reports.

Owns such a program as far as the walk can tell: it enters functions that save the
frame pointer beside their return address, leaves them, moves its stack pointer,
and writes anywhere but over what is saved. Memory then holds a stack of records
that stands for the calls that are active, and the walk reports these.

Does not own functions without a frame. Their calls are moves of the stack
pointer and writes, and the walk does not see them.
-/

namespace Backwalk.Walk

open Backwalk.Support

variable {arch : Arch} {σ : Type}

/-! ### Records of calls -/

/-- The cells of a frame record, by its frame pointer. -/
def frameCells : RecordLayout (Word arch) := ⟨savedSlot, returnSlot⟩

/-- The frame pointer of a record at `base`. -/
def framePointer (base : Word arch) : Word arch :=
  match arch with
  | .x86_64 | .aarch64 => base
  | .arm => base + 4

@[simp]
theorem savedSlot_framePointer (base : Word arch) : savedSlot (framePointer base) = base := by
  cases arch with
  | x86_64 => rfl
  | aarch64 => rfl
  | arm => exact BitVec.add_sub_cancel base 4

/-- The cells of a record lie beside each other. -/
theorem toNat_returnSlot {fp : Word arch}
    (room : (savedSlot fp).toNat + 2 * arch.wordSize ≤ 2 ^ arch.bits) :
    (returnSlot fp).toNat = (savedSlot fp).toNat + arch.wordSize := by
  have positive := @wordSize_pos arch
  have size : arch.wordSize % 2 ^ arch.bits = arch.wordSize := Nat.mod_eq_of_lt (by omega)
  rw [← frameBase_next, frameBase_eq_savedSlot, BitVec.toNat_add_of_lt]
  · rw [BitVec.toNat_ofNat, size]
  · rw [BitVec.toNat_ofNat, size]
    omega

/-- The frame pointer points to one of them. -/
theorem toNat_fp {fp : Word arch}
    (room : (savedSlot fp).toNat + 2 * arch.wordSize ≤ 2 ^ arch.bits) :
    fp.toNat = (savedSlot fp).toNat ∨ fp.toNat = (savedSlot fp).toNat + arch.wordSize := by
  cases arch with
  | x86_64 => exact Or.inl rfl
  | aarch64 => exact Or.inl rfl
  | arm => exact Or.inr (toNat_returnSlot room)

theorem and_low_eq_zero {w k : Nat} (word : BitVec w) (below : k < w) :
    word &&& BitVec.ofNat w (2 ^ k - 1) = 0 ↔ 2 ^ k ∣ word.toNat := by
  have small : 2 ^ k - 1 < 2 ^ w :=
    Nat.lt_of_le_of_lt (Nat.sub_le _ _) (Nat.pow_lt_pow_right (by omega) below)
  rw [show (0 : BitVec w) = 0#w from rfl, ← BitVec.toNat_inj, BitVec.toNat_and, BitVec.toNat_ofNat,
    Nat.mod_eq_of_lt small, Nat.and_two_pow_sub_one_eq_mod, BitVec.toNat_zero,
    Nat.dvd_iff_mod_eq_zero]

/-- The alignment check asks for a multiple of the word size. -/
theorem aligned_iff (word : Word arch) :
    word &&& BitVec.ofNat _ (arch.wordSize - 1) = 0 ↔ arch.wordSize ∣ word.toNat := by
  cases arch with
  | x86_64 => exact @and_low_eq_zero 64 3 word (by decide)
  | aarch64 => exact @and_low_eq_zero 64 3 word (by decide)
  | arm => exact @and_low_eq_zero 32 2 word (by decide)

/-! ### The program -/

/-- Where a stack may lie. -/
structure StackArea (arch : Arch) where
  low : Word arch
  high : Word arch
  lowUser : bwMinMmapAddr arch ≤ low
  highUser : ∀ limit, bwMaxUserAddr arch = some limit → high ≤ limit
  ordered : low ≤ high
  highAligned : arch.wordSize ∣ high.toNat

/-- The registers and the memory that matter to a walk, and the calls that are
active: the frame pointer of each and the address it returns to, the innermost
call first. -/
structure Process (arch : Arch) where
  sp : Word arch
  fp : Word arch
  mem : Word arch → Word arch
  active : List (Word arch × Word arch)

/-- A thread that begins with frame pointer `entry`. -/
def Process.start (area : StackArea arch) (entry : Word arch) (mem : Word arch → Word arch) :
    Process arch := ⟨area.high, entry, mem, []⟩

/-- The stack pointer stays below the innermost record. -/
def Process.top (area : StackArea arch) (p : Process arch) : Word arch :=
  match p.active with
  | [] => area.high
  | call :: _ => savedSlot call.1

/-- The cells that nothing but leaving a function may reuse. -/
def Process.saved (p : Process arch) : List (Word arch) := frameCells.cells p.active

inductive StackAct (arch : Arch) where
  /-- A call of a function with a frame, and what the frame is set up with. -/
  | enter (ret stored : Word arch)
  | leave
  | moveSp (sp : Word arch)
  /-- A write by this thread or another. -/
  | store (addr value : Word arch)

/-- What a saved return address stands for; on AArch64 it may be signed. -/
def Restores (stripPac : Word arch → Word arch) (stored ret : Word arch) : Prop :=
  (if arch = .aarch64 then stripPac stored else stored) = ret

instance (stripPac : Word arch → Word arch) (stored ret : Word arch) :
    Decidable (Restores stripPac stored ret) :=
  inferInstanceAs (Decidable ((if arch = .aarch64 then stripPac stored else stored) = ret))

section Program

variable (area : StackArea arch) (stripPac : Word arch → Word arch)

/-- One step of a program with frame pointers, as far as its stack has room. -/
def stackStep : StackAct arch → Process arch → Option (Process arch)
  | .enter ret stored, p =>
      if area.low.toNat + 2 * arch.wordSize ≤ p.sp.toNat ∧ UserAddr ret ∧
          Restores stripPac stored ret then
        let base := p.sp - BitVec.ofNat _ (2 * arch.wordSize)
        let fp := framePointer base
        some ⟨base, fp,
          Function.update (Function.update p.mem (savedSlot fp) p.fp) (returnSlot fp) stored,
          (fp, ret) :: p.active⟩
      else none
  | .leave, p =>
      match p.active with
      | [] => none
      | _ :: active =>
          some ⟨savedSlot p.fp + BitVec.ofNat _ (2 * arch.wordSize), p.mem (savedSlot p.fp), p.mem,
            active⟩
  | .moveSp sp, p =>
      if arch.wordSize ∣ sp.toNat ∧ area.low ≤ sp ∧ sp ≤ p.top area then
        some { p with sp := sp }
      else none
  | .store addr value, p =>
      if addr ∉ p.saved then some { p with mem := Function.update p.mem addr value } else none

/-- A state that a thread gets to which was begun with a frame pointer that ends a
walk. -/
def StackReachable (p : Process arch) : Prop :=
  ∃ entry mem acts, entry < bwMinMmapAddr arch ∧
    runSchedule (stackStep area stripPac) acts (.start area entry mem) = some p

end Program

/-! ### The stack in memory -/

section Invariant

variable {area : StackArea arch} {stripPac : Word arch → Word arch} {p q : Process arch}
  {active : List (Word arch × Word arch)} {call : Word arch × Word arch} {floor : Nat}

/-- Records lie above `floor`, one above the other in the stack. -/
def Placed (area : StackArea arch) : Nat → List (Word arch × Word arch) → Prop
  | floor, [] => floor ≤ area.high.toNat
  | floor, call :: active =>
      floor ≤ (savedSlot call.1).toNat ∧ arch.wordSize ∣ (savedSlot call.1).toNat ∧
        UserAddr call.2 ∧ Placed area ((savedSlot call.1).toNat + 2 * arch.wordSize) active

theorem Placed.mono {lower : Nat} (placed : Placed area floor active) (below : lower ≤ floor) :
    Placed area lower active := by
  cases active with
  | nil => exact Nat.le_trans below placed
  | cons call active => exact ⟨Nat.le_trans below placed.1, placed.2⟩

theorem Placed.floor_le (placed : Placed area floor active) : floor ≤ area.high.toNat := by
  induction active generalizing floor with
  | nil => exact placed
  | cons call active inductionHypothesis =>
      have above := inductionHypothesis placed.2.2.2
      have below := placed.1
      omega

theorem Placed.room (placed : Placed area floor (call :: active)) :
    (savedSlot call.1).toNat + 2 * arch.wordSize ≤ area.high.toNat :=
  Placed.floor_le placed.2.2.2

theorem Placed.wraps (placed : Placed area floor (call :: active)) :
    (savedSlot call.1).toNat + 2 * arch.wordSize ≤ 2 ^ arch.bits :=
  Nat.le_trans placed.room (Nat.le_of_lt area.high.isLt)

/-- All cells of records lie above the floor, in the stack. -/
theorem Placed.cells {addr : Word arch} (placed : Placed area floor active)
    (member : addr ∈ frameCells.cells active) :
    floor ≤ addr.toNat ∧ addr.toNat < area.high.toNat := by
  induction active generalizing floor with
  | nil => cases member
  | cons call active inductionHypothesis =>
      have positive := @wordSize_pos arch
      have returns : (returnSlot call.1).toNat = _ := toNat_returnSlot placed.wraps
      have room := placed.room
      have below := placed.1
      rw [RecordLayout.cells_cons, List.mem_cons, List.mem_cons] at member
      rcases member with rfl | rfl | above
      · change floor ≤ (savedSlot call.1).toNat ∧ (savedSlot call.1).toNat < _
        omega
      · change floor ≤ (returnSlot call.1).toNat ∧ (returnSlot call.1).toNat < _
        omega
      · have later := inductionHypothesis placed.2.2.2 above
        omega

/-- The stack of a program: memory holds a record of each active call, and the
stack pointer is below them. -/
structure Standing (area : StackArea arch) (stripPac : Word arch → Word arch) (p : Process arch) :
    Prop where
  aligned : arch.wordSize ∣ p.sp.toNat
  low : area.low.toNat ≤ p.sp.toNat
  placed : Placed area p.sp.toNat p.active
  holds : frameCells.Holds (· < bwMinMmapAddr arch) (Restores stripPac) p.mem p.fp p.active

theorem standing_start {entry : Word arch} {mem : Word arch → Word arch}
    (isEnd : entry < bwMinMmapAddr arch) : Standing area stripPac (.start area entry mem) :=
  ⟨area.highAligned, area.ordered, Nat.le_refl _, isEnd⟩

/-- The record of a call is set up right below the stack pointer. -/
theorem Standing.enter {ret stored : Word arch} (standing : Standing area stripPac p)
    (room : area.low.toNat + 2 * arch.wordSize ≤ p.sp.toNat) (user : UserAddr ret)
    (restores : Restores stripPac stored ret) {base : Word arch}
    (isBase : base = p.sp - BitVec.ofNat _ (2 * arch.wordSize)) :
    Standing area stripPac ⟨base, framePointer base,
      Function.update (Function.update p.mem (savedSlot (framePointer base)) p.fp)
        (returnSlot (framePointer base)) stored, (framePointer base, ret) :: p.active⟩ := by
  have positive := @wordSize_pos arch
  have size : 2 * arch.wordSize % 2 ^ arch.bits = 2 * arch.wordSize :=
    Nat.mod_eq_of_lt (by cases arch <;> decide)
  have below : BitVec.ofNat _ (2 * arch.wordSize) ≤ p.sp := by
    rw [BitVec.le_def, BitVec.toNat_ofNat, size]
    omega
  have place : base.toNat + 2 * arch.wordSize = p.sp.toNat := by
    rw [isBase, BitVec.toNat_sub_of_le below, BitVec.toNat_ofNat, size]
    omega
  have aligned : arch.wordSize ∣ base.toNat :=
    (Nat.dvd_add_left (Dvd.intro_left 2 rfl)).mp (place ▸ standing.aligned)
  have placed : Placed area base.toNat ((framePointer base, ret) :: p.active) := by
    rw [Placed, savedSlot_framePointer, place]
    exact ⟨Nat.le_refl _, aligned, user, standing.placed⟩
  have returns : (returnSlot (framePointer base)).toNat = base.toNat + arch.wordSize := by
    have beside := toNat_returnSlot placed.wraps
    rwa [savedSlot_framePointer] at beside
  have fresh : ∀ addr : Word arch, addr.toNat < p.sp.toNat → addr ∉ frameCells.cells p.active := by
    intro addr low member
    have above := (standing.placed.cells member).1
    omega
  refine ⟨aligned, by dsimp only; omega, placed, ?_⟩
  apply standing.holds.push restores
  · intro same
    have sameNat := congrArg BitVec.toNat same
    change (savedSlot (framePointer base)).toNat = (returnSlot (framePointer base)).toNat at sameNat
    rw [savedSlot_framePointer] at sameNat
    omega
  · apply fresh
    change (savedSlot (framePointer base)).toNat < _
    rw [savedSlot_framePointer]
    omega
  · apply fresh
    change (returnSlot (framePointer base)).toNat < _
    omega

/-- Leaving goes back to the caller's frame. -/
theorem Standing.leave (standing : Standing area stripPac p) (calls : p.active = call :: active) :
    Standing area stripPac ⟨savedSlot p.fp + BitVec.ofNat _ (2 * arch.wordSize),
      p.mem (savedSlot p.fp), p.mem, active⟩ := by
  have placed := standing.placed
  have holds := standing.holds
  rw [calls] at placed holds
  have isTop : call.1 = p.fp := holds.1
  have room := placed.room
  have low := standing.low
  have size : 2 * arch.wordSize % 2 ^ arch.bits = 2 * arch.wordSize :=
    Nat.mod_eq_of_lt (by cases arch <;> decide)
  have bounded := area.high.isLt
  have place : (savedSlot p.fp + BitVec.ofNat _ (2 * arch.wordSize)).toNat =
      (savedSlot p.fp).toNat + 2 * arch.wordSize := by
    rw [isTop] at room
    rw [BitVec.toNat_add_of_lt, BitVec.toNat_ofNat, size]
    rw [BitVec.toNat_ofNat, size]
    omega
  obtain ⟨above, aligned, -, rest⟩ := placed
  rw [isTop] at above aligned rest
  refine ⟨?_, ?_, ?_, holds.pop⟩
  · dsimp only
    rw [place]
    exact Nat.dvd_add aligned (Dvd.intro_left 2 rfl)
  · dsimp only
    omega
  · dsimp only
    rw [place]
    exact rest

/-- Below the innermost record the stack pointer may be moved. -/
theorem Standing.moveSp {sp : Word arch} (standing : Standing area stripPac p)
    (aligned : arch.wordSize ∣ sp.toNat) (low : area.low ≤ sp) (below : sp ≤ p.top area) :
    Standing area stripPac { p with sp := sp } := by
  refine ⟨aligned, low, ?_, standing.holds⟩
  have placed := standing.placed
  unfold Process.top at below
  dsimp only
  cases calls : p.active with
  | nil =>
      rw [calls] at below
      exact below
  | cons call active =>
      rw [calls] at below placed
      exact ⟨below, placed.2⟩

/-- Every step keeps the stack standing. -/
theorem Standing.step {act : StackAct arch} (standing : Standing area stripPac p)
    (taken : stackStep area stripPac act p = some q) : Standing area stripPac q := by
  cases act with
  | enter ret stored =>
      rw [stackStep, Option.ite_none_right_eq_some] at taken
      obtain ⟨⟨room, user, restores⟩, taken⟩ := taken
      cases taken
      exact standing.enter room user restores rfl
  | leave =>
      rw [stackStep] at taken
      cases calls : p.active with
      | nil =>
          rw [calls] at taken
          cases taken
      | cons call active =>
          rw [calls] at taken
          cases taken
          exact standing.leave calls
  | moveSp sp =>
      rw [stackStep, Option.ite_none_right_eq_some] at taken
      obtain ⟨⟨aligned, low, below⟩, taken⟩ := taken
      cases taken
      exact standing.moveSp aligned low below
  | store addr value =>
      rw [stackStep, Option.ite_none_right_eq_some] at taken
      obtain ⟨foreign, taken⟩ := taken
      cases taken
      exact ⟨standing.aligned, standing.low, standing.placed, standing.holds.write foreign⟩

theorem StackReachable.standing (reachable : StackReachable area stripPac p) :
    Standing area stripPac p := by
  obtain ⟨entry, mem, acts, isEnd, ran⟩ := reachable
  exact run_invariant (fun _ _ _ standing taken => standing.step taken) (standing_start isEnd) ran

end Invariant

/-! ### Two calls under the outermost -/

def smallStack : StackArea .x86_64 where
  low := 0x10000
  high := 0x20000
  lowUser := by decide
  highUser := by
    intro limit isLimit
    cases isLimit
    decide
  ordered := by decide
  highAligned := by decide

/-- Three functions are entered, with a local variable of the first. -/
def threeCalls : List (StackAct .x86_64) :=
  [.enter 0x401000 0x401000, .moveSp 0x1ffe0, .store 0x1ffe8 7, .enter 0x402000 0x402000,
    .enter 0x403000 0x403000]

/-- A callback enters a function that writes below the stack, and leaves it. -/
def callbackCall : List (StackAct .x86_64) :=
  [.enter 0x404000 0x404000, .store 0x1ffa8 7, .leave]

/-- What is active then. -/
def threeActive : List (Word .x86_64 × Word .x86_64) :=
  [(0x1ffc0, 0x403000), (0x1ffd0, 0x402000), (0x1fff0, 0x401000)]

theorem stackReachable_of_run {arch : Arch} {area : StackArea arch}
    {stripPac : Word arch → Word arch} {acts : List (StackAct arch)}
    {active : List (Word arch × Word arch)}
    (ends :
      (runSchedule (stackStep area stripPac) acts (.start area 0 fun _ => 0)).map Process.active =
        some active) :
    ∃ p, StackReachable area stripPac p ∧ p.active = active := by
  obtain ⟨p, ran, isActive⟩ := Option.map_eq_some_iff.mp ends
  have isEnd : (0 : Word arch) < bwMinMmapAddr arch := by cases arch <;> decide
  exact ⟨p, ⟨0, fun _ => 0, acts, isEnd, ran⟩, isActive⟩

theorem threeCalls_reached : ∃ p, StackReachable smallStack id p ∧ p.active = threeActive :=
  @stackReachable_of_run _ _ _ threeCalls _ (by decide +kernel)

theorem callbackCall_reached : ∃ p, StackReachable smallStack id p ∧ p.active = threeActive :=
  @stackReachable_of_run _ _ _ (threeCalls ++ callbackCall) _ (by decide +kernel)

/-- One module at `0x400000`, without names. -/
def bareSymbols : Symbols .x86_64 :=
  ⟨true, fun _ => some ⟨0x400000, none, none, none⟩, fun _ _ _ => none⟩

/-! ### The walk over it -/

section Walk

variable {area : StackArea arch} {stripPac mem : Word arch → Word arch}
  {active : List (Word arch × Word arch)} {call caller : Word arch × Word arch}
  {floor : Nat} {fp ip : Word arch}

/-- Memory holds these records from `fp` on, all in the stack. -/
structure OnStack (area : StackArea arch) (stripPac mem : Word arch → Word arch) (fp : Word arch)
    (active : List (Word arch × Word arch)) : Prop where
  placed : Placed area area.low.toNat active
  holds : frameCells.Holds (· < bwMinMmapAddr arch) (Restores stripPac) mem fp active

theorem Standing.onStack {p : Process arch} (standing : Standing area stripPac p) :
    OnStack area stripPac p.mem p.fp p.active :=
  ⟨standing.placed.mono standing.low, standing.holds⟩

theorem OnStack.below (stack : OnStack area stripPac mem fp (call :: active)) :
    OnStack area stripPac mem (mem (savedSlot fp)) active := by
  have low := stack.placed.1
  exact ⟨stack.placed.2.2.2.mono (by omega), stack.holds.pop⟩

/-- A record's frame pointer passes the checks. -/
theorem OnStack.user (stack : OnStack area stripPac mem fp (call :: active)) :
    UserAddr fp ∧ fp &&& BitVec.ofNat _ (arch.wordSize - 1) = 0 := by
  have isTop : call.1 = fp := stack.holds.1
  obtain ⟨low, aligned, -, -⟩ := stack.placed
  have room := stack.placed.room
  have wraps := stack.placed.wraps
  have positive := @wordSize_pos arch
  have lowUser := area.lowUser
  rw [isTop] at low aligned room wraps
  rw [BitVec.le_def] at lowUser
  refine ⟨⟨?_, ?_⟩, ?_⟩
  · rw [BitVec.le_def]
    rcases toNat_fp wraps with place | place <;> omega
  · intro limit isLimit
    have highUser := area.highUser limit isLimit
    rw [BitVec.le_def] at highUser ⊢
    rcases toNat_fp wraps with place | place <;> omega
  · rw [aligned_iff]
    rcases toNat_fp wraps with place | place
    · rwa [place]
    · rw [place]
      exact Nat.dvd_add aligned (Nat.dvd_refl _)

theorem OnStack.returnAddress (stack : OnStack area stripPac mem fp (call :: active)) :
    returnAddress ⟨mem, stripPac⟩ fp = call.2 := by
  rw [Walk.returnAddress, frameBase_next]
  exact stack.holds.2.1

/-- From an inner call the walk goes to its caller, and has the return address then. -/
theorem OnStack.step (stack : OnStack area stripPac mem fp (call :: caller :: active)) :
    contextStep ⟨mem, stripPac⟩ ⟨fp, ip⟩ = some ⟨caller.1, call.2⟩ := by
  have isTop : call.1 = fp := stack.holds.1
  have isNext : caller.1 = mem (savedSlot fp) := stack.below.holds.1
  have below := stack.below
  rw [← isNext] at below
  obtain ⟨user, aligned⟩ := stack.user
  have room := stack.placed.wraps
  obtain ⟨-, -, retUser, placed⟩ := stack.placed
  have above := placed.1
  have positive := @wordSize_pos arch
  apply (contextStep_eq_some_iff _ _ _).mpr
  refine ⟨⟨user, aligned, ?_, ?_, below.user.1, ?_⟩, stack.returnAddress.symm⟩
  · rw [frameBase_eq_savedSlot]
    exact isNext.symm
  · -- The caller's record lies above this one.
    intro same
    dsimp only at same
    rw [isTop, same] at above
    omega
  · rw [stack.returnAddress]
    exact retUser

/-- At the outermost call the walk ends. -/
theorem OnStack.stop (stack : OnStack area stripPac mem fp [call]) :
    contextStep ⟨mem, stripPac⟩ ⟨fp, ip⟩ = none := by
  have isEnd : mem (savedSlot fp) < bwMinMmapAddr arch := stack.holds.2.2
  cases stepped : contextStep ⟨mem, stripPac⟩ ⟨fp, ip⟩ with
  | none => rfl
  | some next =>
      obtain ⟨link, -⟩ := (contextStep_eq_some_iff _ _ _).mp stepped
      have saved := link.saved
      rw [frameBase_eq_savedSlot] at saved
      have user := link.nextUser.1
      rw [← saved] at user
      exact absurd isEnd (BitVec.not_lt.mpr user)

/-- The return addresses that a walk reports: those of all calls but the outermost. -/
def returnAddresses (active : List (Word arch × Word arch)) : List (Word arch) :=
  active.dropLast.map Prod.snd

/-! ### Backtraces -/

/-- `context_init_arch`: the frame pointer register is stored in `data[0]`. -/
def contextInitArch (fp : Word arch) (ctx : Context arch) : Context arch := { ctx with fp := fp }

/-- `bw_backtrace` where the memory may be another one at each evaluation of the
loop head, because the callback has run in between. -/
def bwBacktraceOver (machines : List (Machine arch)) (symbols : Symbols arch)
    (cb : Option (Callback arch σ)) (walk : Backtrace arch σ) : Backtrace arch σ :=
  machines.foldl (fun walk machine => walk.advance machine symbols cb) walk

/-- In a memory that does not change this is `bw_backtrace`. -/
theorem bwBacktraceOver_replicate (machine : Machine arch) (symbols : Symbols arch)
    (cb : Option (Callback arch σ)) (start : Context arch) (state : σ) (n : Nat) :
    bwBacktraceOver (List.replicate n machine) symbols cb ⟨start, ⟨state, []⟩, none⟩ =
      bwBacktrace machine symbols cb start state n := by
  unfold bwBacktrace bwBacktraceOver
  generalize (⟨start, ⟨state, []⟩, none⟩ : Backtrace arch σ) = walk
  induction n generalizing walk with
  | zero => rfl
  | succ n inductionHypothesis =>
      rw [List.replicate_succ, List.foldl_cons, inductionHypothesis, Function.iterate_succ_apply]

theorem bwBacktraceOver_returned (machines : List (Machine arch)) (symbols : Symbols arch)
    (cb : Option (Callback arch σ)) (ctx : Context arch) (caller : Caller arch σ) (answer : Bool) :
    bwBacktraceOver machines symbols cb ⟨ctx, caller, some answer⟩ =
      ⟨ctx, caller, some answer⟩ := by
  induction machines with
  | nil => rfl
  | cons machine machines inductionHypothesis => exact inductionHypothesis

/-- A loop over the records of these calls processes their return addresses, and
ends. -/
theorem bwBacktraceOver_calls {machines : List (Machine arch)} (symbols : Symbols arch)
    (cb : Option (Callback arch σ)) (before : Caller arch σ)
    (stack : ∀ machine ∈ machines, OnStack area machine.stripPac machine.mem fp (call :: active))
    (enough : active.length < machines.length) :
    (bwBacktraceOver machines symbols cb ⟨⟨fp, ip⟩, before, none⟩).result =
        some (processIps symbols cb (returnAddresses (call :: active)) before).1 ∧
      (bwBacktraceOver machines symbols cb ⟨⟨fp, ip⟩, before, none⟩).caller =
        (processIps symbols cb (returnAddresses (call :: active)) before).2 := by
  induction active generalizing machines call fp ip before with
  | nil =>
      cases machines with
      | nil => cases enough
      | cons machine machines =>
          have stop : contextStep machine ⟨fp, ip⟩ = none := (stack machine (by simp)).stop
          rw [bwBacktraceOver, List.foldl_cons, Backtrace.advance]
          simp only [stop]
          rw [← bwBacktraceOver, bwBacktraceOver_returned]
          exact ⟨rfl, rfl⟩
  | cons caller active inductionHypothesis =>
      cases machines with
      | nil => cases enough
      | cons machine machines =>
          have step : contextStep machine ⟨fp, ip⟩ = some ⟨caller.1, call.2⟩ :=
            (stack machine (by simp)).step
          have rest : returnAddresses (call :: caller :: active) =
              call.2 :: returnAddresses (caller :: active) := rfl
          have below : ∀ machine ∈ machines,
              OnStack area machine.stripPac machine.mem caller.1 (caller :: active) := by
            intro machine member
            have here := stack machine (by simp [member])
            have isNext : caller.1 = machine.mem (savedSlot fp) := here.below.holds.1
            rw [isNext]
            exact here.below
          rw [bwBacktraceOver, List.foldl_cons, Backtrace.advance, rest, processIps]
          simp only [step, contextGetIp]
          rw [← bwBacktraceOver]
          cases processed : bwFrameProcess symbols cb call.2 before with
          | mk go after =>
              cases go with
              | true =>
                  simp only
                  exact inductionHypothesis after below (Nat.lt_of_succ_lt_succ enough)
              | false =>
                  simp only
                  rw [bwBacktraceOver_returned]
                  exact ⟨rfl, rfl⟩

/-- The loop heads of a call of `bw_backtrace`: states of the program in which the
calls are active that were active at the first. -/
structure Heads (area : StackArea arch) (stripPac : Word arch → Word arch)
    (calls : List (Word arch × Word arch)) (heads : List (Process arch)) : Prop where
  reachable : ∀ p ∈ heads, StackReachable area stripPac p
  active : ∀ p ∈ heads, p.active = calls
  enough : calls.length ≤ heads.length

/-- The return addresses are processed, whatever the memory is besides the records. -/
theorem Heads.processed (symbols : Symbols arch) (cb : Option (Callback arch σ)) (state : σ)
    (ctx : Context arch) {calls : List (Word arch × Word arch)} {p : Process arch}
    {later : List (Process arch)} (heads : Heads area stripPac calls (p :: later))
    (inside : calls ≠ []) :
    let walk := bwBacktraceOver ((p :: later).map fun q => ⟨q.mem, stripPac⟩) symbols cb
      ⟨contextInitArch p.fp ctx, ⟨state, []⟩, none⟩
    walk.result = some (processIps symbols cb (returnAddresses calls) ⟨state, []⟩).1 ∧
      walk.caller = (processIps symbols cb (returnAddresses calls) ⟨state, []⟩).2 := by
  obtain ⟨call, active, rfl⟩ := List.exists_cons_of_ne_nil inside
  have stands : ∀ q ∈ p :: later, OnStack area stripPac q.mem q.fp (call :: active) := by
    intro q member
    rw [← heads.active q member]
    exact (heads.reachable q member).standing.onStack
  have isTop : call.1 = p.fp := (stands p (by simp)).holds.1
  have stack : ∀ machine ∈ (p :: later).map fun q => (⟨q.mem, stripPac⟩ : Machine arch),
      OnStack area machine.stripPac machine.mem p.fp (call :: active) := by
    intro machine member
    obtain ⟨q, isHead, rfl⟩ := List.mem_map.mp member
    have same : call.1 = q.fp := (stands q isHead).holds.1
    rw [← isTop, same]
    exact stands q isHead
  have enough :
      active.length < ((p :: later).map fun q => (⟨q.mem, stripPac⟩ : Machine arch)).length := by
    rw [List.length_map]
    exact heads.enough
  exact bwBacktraceOver_calls symbols cb ⟨state, []⟩ stack enough

/-- Called from anywhere in a program with frame pointers, `bw_backtrace` returns,
whatever the callback calls and writes meanwhile. It reports the return addresses of
the calls that are active, the innermost first and the outermost left out, up to the
first that the callback refuses. -/
theorem bwBacktrace_active (symbols : Symbols arch) (cb : Callback arch σ) (state : σ)
    (ctx : Context arch) {calls : List (Word arch × Word arch)} {p : Process arch}
    {later : List (Process arch)} (heads : Heads area stripPac calls (p :: later))
    (inside : calls ≠ []) :
    let frames := (returnAddresses calls).map (bwFrameResolve symbols)
    let walk := bwBacktraceOver ((p :: later).map fun q => ⟨q.mem, stripPac⟩) symbols (some cb)
      ⟨contextInitArch p.fp ctx, ⟨state, []⟩, none⟩
    walk.result = some ((answersOf cb frames state).all id) ∧
      walk.caller.calls = reported cb frames state := by
  obtain ⟨result, caller⟩ := heads.processed symbols (some cb) state ctx inside
  rw [processIps_reported] at result caller
  dsimp only
  rw [result, caller]
  exact ⟨rfl, List.nil_append _⟩

/-- From the innermost call, with a callback that calls a function itself. -/
theorem threeCalls_backtrace : ∃ p q : Process .x86_64, p.active = threeActive ∧
    q.active = threeActive ∧
      let walk := bwBacktraceOver ([p, q, q].map fun r => ⟨r.mem, id⟩) bareSymbols
        (some fun _ (count : Nat) => (true, count + 1)) ⟨contextInitArch p.fp ⟨0, 0⟩, ⟨0, []⟩, none⟩
      walk.result = some true ∧
        walk.caller.calls = [⟨0x3000, "?", "?", "?", 0⟩, ⟨0x2000, "?", "?", "?", 0⟩] := by
  obtain ⟨p, reachable, active⟩ := threeCalls_reached
  obtain ⟨q, reachableLater, activeLater⟩ := callbackCall_reached
  have heads : Heads smallStack id threeActive [p, q, q] := by
    constructor
    · simp [reachable, reachableLater]
    · simp [active, activeLater]
    · exact Nat.le_refl 3
  have frames : (returnAddresses threeActive).map (bwFrameResolve bareSymbols) =
      [⟨0x3000, "?", "?", "?", 0⟩, ⟨0x2000, "?", "?", "?", 0⟩] := by
    decide +kernel
  have reports := bwBacktrace_active bareSymbols (fun _ (count : Nat) => (true, count + 1)) 0 ⟨0, 0⟩
    heads (by decide)
  rw [frames] at reports
  exact ⟨p, q, active, activeLater, reports⟩

/-! ### Collections -/

/-- The instruction pointers of a walk are the return addresses. -/
theorem OnStack.walkIp (stack : OnStack area stripPac mem fp (call :: active)) (n : Nat) :
    walkIp ⟨mem, stripPac⟩ ⟨fp, ip⟩ n = (returnAddresses (call :: active))[n]? := by
  induction active generalizing call fp ip n with
  | nil =>
      rw [Walk.walkIp, orbit_succ_front, stack.stop]
      rfl
  | cons caller active inductionHypothesis =>
      have isNext : caller.1 = mem (savedSlot fp) := stack.below.holds.1
      have below := stack.below
      rw [← isNext] at below
      have rest : returnAddresses (call :: caller :: active) =
          call.2 :: returnAddresses (caller :: active) := rfl
      cases n with
      | zero =>
          rw [Walk.walkIp, orbit_succ_front, stack.step]
          rfl
      | succ n =>
          rw [walkIp_succ stack.step, rest, List.getElem?_cons_succ]
          exact inductionHypothesis below n

theorem OnStack.walkTake (stack : OnStack area stripPac mem fp (call :: active)) (n : Nat) :
    walkTake ⟨mem, stripPac⟩ ⟨fp, ip⟩ n = (returnAddresses (call :: active)).take n := by
  apply List.ext_getElem?
  intro i
  rw [walkTake_getElem?, List.getElem?_take, stack.walkIp]

/-- Called from anywhere in such a program with a fresh context,
`bw_backtrace_collect` stores as many of these return addresses as there is room
for, and tells whether these are all. -/
theorem bwBacktraceCollect_active {p : Process arch} (reachable : StackReachable area stripPac p)
    (inside : p.active ≠ []) (ctx : Context arch) {bw : BwContext arch} (fresh : bw.ipCnt = 0) :
    let run := bwBacktraceCollect ⟨p.mem, stripPac⟩ (contextInitArch p.fp ctx) bw
    run.2.frames = (returnAddresses p.active).take bw.ipMaxCnt ∧
      (run.1 = true ↔ (returnAddresses p.active).length ≤ bw.ipMaxCnt) := by
  have stack := reachable.standing.onStack
  obtain ⟨call, active, calls⟩ := List.exists_cons_of_ne_nil inside
  rw [calls] at stack ⊢
  have taken : Walk.walkTake ⟨p.mem, stripPac⟩ (contextInitArch p.fp ctx) bw.ipMaxCnt = _ :=
    stack.walkTake bw.ipMaxCnt
  have next : Walk.walkIp ⟨p.mem, stripPac⟩ (contextInitArch p.fp ctx) bw.ipMaxCnt = _ :=
    stack.walkIp bw.ipMaxCnt
  dsimp only
  constructor
  · rw [frames_bwBacktraceCollect, taken]
    split_ifs with none
    · rw [none, BwContext.frames, fresh]
      rfl
    · rfl
  · rw [bwBacktraceCollect_eq, next, decide_eq_true_iff, List.getElem?_eq_none_iff]

/-- With room for one of the two. -/
theorem threeCalls_collected : ∃ p : Process .x86_64, p.active = threeActive ∧
    let run := bwBacktraceCollect ⟨p.mem, id⟩ (contextInitArch p.fp ⟨0, 0⟩) ⟨fun _ => 0, 0, 1, 8⟩
    run.2.frames = [0x403000] ∧ (run.1 = true ↔ 2 ≤ 1) := by
  obtain ⟨p, reachable, active⟩ := threeCalls_reached
  have collects := @bwBacktraceCollect_active _ _ _ p reachable (by rw [active]; decide) ⟨0, 0⟩
    ⟨fun _ => 0, 0, 1, 8⟩ rfl
  rw [active] at collects
  exact ⟨p, active, collects⟩

/-! ### Reads -/

/-- The words that `context_step` reads. -/
def contextReads (machine : Machine arch) (ctx : Context arch) : List (Word arch) :=
  if ctx.fp < bwMinMmapAddr arch ∨ aboveUserAddr ctx.fp = true ∨
      ctx.fp &&& BitVec.ofNat _ (arch.wordSize - 1) ≠ 0 then []
  else
    let base := frameBase ctx.fp
    let nextFp := machine.mem base
    if nextFp = ctx.fp ∨ nextFp < bwMinMmapAddr arch ∨ aboveUserAddr nextFp = true then [base]
    else [base, base + BitVec.ofNat _ arch.wordSize]

theorem contextReads_record {machine : Machine arch} {addr : Word arch} {ctx : Context arch}
    (read : addr ∈ contextReads machine ctx) :
    addr = savedSlot ctx.fp ∨ addr = returnSlot ctx.fp := by
  rw [← frameBase_next, ← frameBase_eq_savedSlot]
  unfold contextReads at read
  dsimp only at read
  split_ifs at read
  · cases read
  · exact Or.inl (List.mem_singleton.mp read)
  · simpa using read

/-- A step depends on the memory at these words only. -/
theorem contextStep_congr {one two : Machine arch} {ctx : Context arch}
    (strips : two.stripPac = one.stripPac)
    (same : ∀ addr ∈ contextReads one ctx, two.mem addr = one.mem addr) :
    contextStep two ctx = contextStep one ctx := by
  unfold contextReads at same
  dsimp only at same
  by_cases refused : ctx.fp < bwMinMmapAddr arch ∨ aboveUserAddr ctx.fp = true ∨
      ctx.fp &&& BitVec.ofNat _ (arch.wordSize - 1) ≠ 0
  · have none : ∀ machine : Machine arch, contextStep machine ctx = none := by
      intro machine
      rw [contextStep]
      rcases refused with low | high | misaligned
      · rw [if_pos low]
      · rw [if_pos high, ite_self]
      · rw [if_pos misaligned, ite_self, ite_self]
    rw [none, none]
  · rw [if_neg refused] at same
    have base : two.mem (frameBase ctx.fp) = one.mem (frameBase ctx.fp) := by
      apply same
      split_ifs <;> simp
    rw [contextStep, contextStep, base]
    by_cases ends : one.mem (frameBase ctx.fp) = ctx.fp ∨
        one.mem (frameBase ctx.fp) < bwMinMmapAddr arch ∨
          aboveUserAddr (one.mem (frameBase ctx.fp)) = true
    · rcases ends with own | low | high
      · simp [own]
      · simp [low]
      · simp [high]
    · rw [if_neg ends] at same
      have address : returnAddress two ctx.fp = returnAddress one ctx.fp := by
        rw [returnAddress, returnAddress, strips,
          same (frameBase ctx.fp + BitVec.ofNat _ arch.wordSize) (by simp)]
      rw [address]

/-- Every context of a walk is at a record. -/
theorem OnStack.orbit {n : Nat} {ctx : Context arch}
    (stack : OnStack area stripPac mem fp (call :: active))
    (reached : orbit (contextStep ⟨mem, stripPac⟩) ⟨fp, ip⟩ n = some ctx) :
    ∃ at_ ∈ call :: active, at_.1 = ctx.fp := by
  induction n generalizing call active fp ip with
  | zero =>
      cases reached
      exact ⟨call, by simp, stack.holds.1⟩
  | succ n inductionHypothesis =>
      rw [orbit_succ_front] at reached
      cases active with
      | nil =>
          rw [stack.stop] at reached
          cases reached
      | cons caller active =>
          have isNext : caller.1 = mem (savedSlot fp) := stack.below.holds.1
          have below := stack.below
          rw [← isNext] at below
          rw [stack.step] at reached
          obtain ⟨at_, member, there⟩ := inductionHypothesis below reached
          exact ⟨at_, List.mem_cons_of_mem _ member, there⟩

theorem OnStack.reads {n : Nat} {ctx : Context arch} {addr : Word arch}
    (stack : OnStack area stripPac mem fp (call :: active))
    (reached : Support.orbit (contextStep ⟨mem, stripPac⟩) ⟨fp, ip⟩ n = some ctx)
    (read : addr ∈ contextReads ⟨mem, stripPac⟩ ctx) :
    addr ∈ frameCells.cells (call :: active) := by
  obtain ⟨record, member, there⟩ := stack.orbit reached
  apply RecordLayout.mem_cells.mpr
  have cell := contextReads_record read
  rw [← there] at cell
  exact ⟨record, member, cell⟩

/-- In such a program a walk reads nothing but what the active calls have saved, all
of it in the stack, and so depends on nothing else. -/
theorem contextReads_saved {p : Process arch} (reachable : StackReachable area stripPac p)
    (inside : p.active ≠ []) (start : Context arch) (n : Nat) :
    (∀ ctx, orbit (contextStep ⟨p.mem, stripPac⟩) (contextInitArch p.fp start) n = some ctx →
      ∀ addr ∈ contextReads ⟨p.mem, stripPac⟩ ctx,
        addr ∈ p.saved ∧ area.low ≤ addr ∧ addr < area.high) ∧
      ∀ mem : Word arch → Word arch, (∀ addr ∈ p.saved, mem addr = p.mem addr) →
        orbit (contextStep ⟨mem, stripPac⟩) (contextInitArch p.fp start) n =
          orbit (contextStep ⟨p.mem, stripPac⟩) (contextInitArch p.fp start) n := by
  have stack := reachable.standing.onStack
  obtain ⟨call, active, calls⟩ := List.exists_cons_of_ne_nil inside
  have reads : ∀ n ctx,
      orbit (contextStep ⟨p.mem, stripPac⟩) (contextInitArch p.fp start) n = some ctx →
      ∀ addr ∈ contextReads ⟨p.mem, stripPac⟩ ctx, addr ∈ p.saved := by
    intro n ctx reached addr read
    rw [Process.saved, calls]
    rw [calls] at stack
    exact stack.reads reached read
  constructor
  · intro ctx reached addr read
    have saved := reads n ctx reached addr read
    exact ⟨saved, stack.placed.cells saved⟩
  · intro mem same
    induction n with
    | zero => rfl
    | succ n inductionHypothesis =>
        rw [orbit_succ, orbit_succ, inductionHypothesis]
        cases reached : orbit (contextStep ⟨p.mem, stripPac⟩) (contextInitArch p.fp start) n with
        | none => rfl
        | some ctx =>
            rw [Option.bind_some, Option.bind_some]
            refine @contextStep_congr _ ⟨p.mem, stripPac⟩ ⟨mem, stripPac⟩ ctx rfl ?_
            intro addr read
            exact same addr (reads n ctx reached addr read)

/-- The last context of the walk is at the outermost record. -/
theorem threeCalls_reads : ∃ p : Process .x86_64, p.active = threeActive ∧
    (∀ ctx, orbit (contextStep ⟨p.mem, id⟩) (contextInitArch p.fp ⟨0, 0⟩) 2 = some ctx →
      ∀ addr ∈ contextReads ⟨p.mem, id⟩ ctx,
        addr ∈ p.saved ∧ smallStack.low ≤ addr ∧ addr < smallStack.high) ∧
      ∀ mem : Word .x86_64 → Word .x86_64, (∀ addr ∈ p.saved, mem addr = p.mem addr) →
        orbit (contextStep ⟨mem, id⟩) (contextInitArch p.fp ⟨0, 0⟩) 2 =
          orbit (contextStep ⟨p.mem, id⟩) (contextInitArch p.fp ⟨0, 0⟩) 2 := by
  obtain ⟨p, reachable, active⟩ := threeCalls_reached
  exact ⟨p, active, contextReads_saved reachable (by rw [active]; decide) ⟨0, 0⟩ 2⟩

end Walk

end Backwalk.Walk
