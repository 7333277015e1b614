import Backwalk.Support.Orbit

/-!
Contract: the frame-pointer step of `src/context.c` on the three Unix
architectures it is written for.

Owns the words and constants of an architecture, `contextStep` with its seven
exits in source order, and the memory links that the step follows. The step is
stated once as a function and once as a relation on memory (`FrameLink`);
`contextStep_eq_some_iff` says that the two are the same.

Does not own: how a walk is driven, or what is done with a frame.

The memory is any function from word addresses to words. Pointer
authentication is a machine parameter, because the `hint 7` instruction is
executed by the processor and not by this code.
-/

namespace Backwalk.Walk

open Backwalk.Support

/-- The architectures `context.c` compiles for. -/
inductive Arch where
  | x86_64
  | aarch64
  | arm
deriving DecidableEq, Repr

/-- Width of `uintptr_t`. -/
def Arch.bits : Arch → Nat
  | .x86_64 => 64
  | .aarch64 => 64
  | .arm => 32

/-- A `uintptr_t`. -/
abbrev Word (arch : Arch) := BitVec arch.bits

/-- `sizeof(uintptr_t)`. -/
def Arch.wordSize (arch : Arch) : Nat := arch.bits / 8

/-- `BW_MIN_MMAP_ADDR`. -/
def bwMinMmapAddr (arch : Arch) : Word arch := BitVec.ofNat _ (64 <<< 10)

/-- `BW_MAX_USER_ADDR`; ARM has no such constant. -/
def bwMaxUserAddr : (arch : Arch) → Option (Word arch)
  | .x86_64 => some (BitVec.ofNat _ 0x00007FFFFFFFFFFF)
  | .aarch64 => some (BitVec.ofNat _ 0x000FFFFFFFFFFFFF)
  | .arm => none

/-- What the processor contributes to a step. -/
structure Machine (arch : Arch) where
  /-- The word stored at a word address. -/
  mem : Word arch → Word arch
  /-- `bw_strip_pac`. -/
  stripPac : Word arch → Word arch

/-- `context_t`: `fp` is `data[0]` and `ip` is `data[1]`, the two words that are
read. -/
structure Context (arch : Arch) where
  fp : Word arch
  ip : Word arch
deriving DecidableEq, Repr

/-- `context_get_ip`. -/
def contextGetIp {arch : Arch} (ctx : Context arch) : Word arch := ctx.ip

variable {arch : Arch}

/-- The guard `word > BW_MAX_USER_ADDR`, absent on ARM. -/
def aboveUserAddr (word : Word arch) : Bool :=
  match bwMaxUserAddr arch with
  | some limit => limit < word
  | none => false

/-- `(uintptr_t*)fp + FP_OFFSET`: the slot of the saved frame pointer. -/
def frameBase (fp : Word arch) : Word arch :=
  if arch = .arm then fp - BitVec.ofNat _ arch.wordSize else fp

/-- The word after the saved frame pointer, stripped on AArch64 only. -/
def returnAddress (machine : Machine arch) (fp : Word arch) : Word arch :=
  let raw := machine.mem (frameBase fp + BitVec.ofNat _ arch.wordSize)
  if arch = .aarch64 then machine.stripPac raw else raw

/-- `context_step`; `none` is `return false`, which leaves the context alone. -/
def contextStep (machine : Machine arch) (ctx : Context arch) : Option (Context arch) :=
  if ctx.fp < bwMinMmapAddr arch then none
  else if aboveUserAddr ctx.fp then none
  else if ctx.fp &&& BitVec.ofNat _ (arch.wordSize - 1) ≠ 0 then none
  else
    let nextFp := machine.mem (frameBase ctx.fp)
    if nextFp = ctx.fp then none
    else if nextFp < bwMinMmapAddr arch then none
    else if aboveUserAddr nextFp then none
    else
      let nextIp := returnAddress machine ctx.fp
      if nextIp < bwMinMmapAddr arch then none
      else if aboveUserAddr nextIp then none
      else some ⟨nextFp, nextIp⟩

/-! ### Links in memory -/

/-- An address that the range checks let through. -/
def UserAddr (word : Word arch) : Prop :=
  bwMinMmapAddr arch ≤ word ∧ ∀ limit, bwMaxUserAddr arch = some limit → word ≤ limit

instance (word : Word arch) : Decidable (UserAddr word) :=
  decidable_of_iff (bwMinMmapAddr arch ≤ word ∧
      ((bwMaxUserAddr arch).all fun limit => decide (word ≤ limit)) = true) <| by
    unfold UserAddr
    cases bwMaxUserAddr arch <;> simp

/-- Memory holds at `fp` a frame that is saved over `next`: both are user
addresses, `fp` is word aligned, `next` is in the saved slot of `fp` and is not
`fp` itself, and the return address beside it is a user address. -/
structure FrameLink (machine : Machine arch) (fp next : Word arch) : Prop where
  user : UserAddr fp
  aligned : fp &&& BitVec.ofNat _ (arch.wordSize - 1) = 0
  saved : machine.mem (frameBase fp) = next
  moves : next ≠ fp
  nextUser : UserAddr next
  returnUser : UserAddr (returnAddress machine fp)

private theorem aboveUserAddr_eq_false (word : Word arch) :
    aboveUserAddr word = false ↔ ∀ limit, bwMaxUserAddr arch = some limit → word ≤ limit := by
  unfold aboveUserAddr
  cases bwMaxUserAddr arch <;> simp

private theorem userAddr_iff (word : Word arch) :
    UserAddr word ↔ ¬ word < bwMinMmapAddr arch ∧ ¬ aboveUserAddr word = true := by
  unfold UserAddr
  rw [BitVec.not_lt, Bool.not_eq_true, aboveUserAddr_eq_false]

/-- The step is taken exactly along a link, and it lands on the linked frame
with the return address of the frame it left. -/
theorem contextStep_eq_some_iff (machine : Machine arch) (ctx next : Context arch) :
    contextStep machine ctx = some next ↔
      FrameLink machine ctx.fp next.fp ∧ next.ip = returnAddress machine ctx.fp := by
  constructor
  · intro stepped
    simp only [contextStep, Option.ite_none_left_eq_some, Option.some.injEq] at stepped
    obtain ⟨low, high, aligned, moves, nextLow, nextHigh, ipLow, ipHigh, rfl⟩ := stepped
    exact ⟨⟨(userAddr_iff _).mpr ⟨low, high⟩, not_not.mp aligned, rfl, moves,
      (userAddr_iff _).mpr ⟨nextLow, nextHigh⟩, (userAddr_iff _).mpr ⟨ipLow, ipHigh⟩⟩, rfl⟩
  · rintro ⟨link, ipEq⟩
    have user := (userAddr_iff _).mp link.user
    have nextUser := (userAddr_iff _).mp link.nextUser
    have returnUser := (userAddr_iff _).mp link.returnUser
    have saved := link.saved
    simp only [contextStep, Option.ite_none_left_eq_some, Option.some.injEq, saved]
    refine ⟨user.1, user.2, not_not.mpr link.aligned, link.moves, nextUser.1, nextUser.2,
      returnUser.1, returnUser.2, ?_⟩
    rw [← ipEq]

/-- The step ignores the instruction pointer it is given. -/
theorem contextStep_fp (machine : Machine arch) {first second : Context arch}
    (same : first.fp = second.fp) : contextStep machine first = contextStep machine second := by
  simp only [contextStep, same]

/-! ### The chain of frame pointers -/

/-- The frame pointer that a step from `fp` lands on. -/
def fpStep (machine : Machine arch) (fp : Word arch) : Option (Word arch) :=
  (contextStep machine ⟨fp, 0⟩).map Context.fp

theorem fpStep_eq_some_iff (machine : Machine arch) (fp next : Word arch) :
    fpStep machine fp = some next ↔ FrameLink machine fp next := by
  simp only [fpStep, Option.map_eq_some_iff, contextStep_eq_some_iff]
  constructor
  · rintro ⟨context, ⟨link, -⟩, rfl⟩
    exact link
  · intro link
    exact ⟨⟨next, returnAddress machine fp⟩, ⟨link, rfl⟩, rfl⟩

/-- The frame pointers of a walk are the orbit of its first frame pointer. -/
theorem orbit_contextStep_fp (machine : Machine arch) (ctx : Context arch) (n : Nat) :
    (orbit (contextStep machine) ctx n).map Context.fp = orbit (fpStep machine) ctx.fp n := by
  induction n with
  | zero => rfl
  | succ n inductionHypothesis =>
      rw [orbit_succ, orbit_succ, ← inductionHypothesis]
      cases orbit (contextStep machine) ctx n with
      | none => rfl
      | some reached => exact congrArg (Option.map Context.fp) (contextStep_fp machine rfl)

end Backwalk.Walk
