import Backwalk.Support.Heap
import Backwalk.Support.Schedules
import Backwalk.Walk.Capacity
import Mathlib.Data.BitVec

/-!
Contract: the functions of `src/backwalk.c` on contexts, with each `malloc`, each
`free` and each access to a `bw_context_t` or its array.

Owns any history of these calls by a client who uses a context only between
`mkbw_context` and `bw_context_fini`: the heap that it leaves, and the answers,
which are those of a context that is a depth and a list of instruction pointers.

Does not own the allocator, which may fail at any point, and does not own what a
callback does to the heap.
-/

namespace Backwalk.Walk.OnHeap

open Backwalk.Support

variable {arch : Arch} {σ : Type}

/-- Addresses and cells are words. -/
abbrev WordHeap (arch : Arch) := Heap (Word arch) (Word arch)

abbrev WordAction (arch : Arch) (α : Type) := HeapAction (Word arch) (Word arch) α

abbrev WordAllocator (arch : Arch) := Allocator (Word arch) (Word arch)

/-! ### The functions -/

/-- `sizeof(bw_context_t)` in words, and which of them the fields are. -/
def contextWords : Nat := 3

def ipField : Nat := 0
def ipCntField : Nat := 1
def ipMaxCntField : Nat := 2

/-- `sizeof(uintptr_t) * depth`. -/
def ipBytes (depth : Word arch) : Nat := arch.wordSize * depth.toNat % 2 ^ arch.bits

/-- `mkbw_context`. -/
def mkbwContext (alloc : WordAllocator arch) (depth : Word arch) : WordAction arch (Word arch) := do
  let bwCtx ← malloc alloc contextWords
  if bwCtx = 0 then pure 0
  else
    let ip ← malloc alloc (ipBytes depth / arch.wordSize)
    if ip = 0 then
      free bwCtx
      pure 0
    else
      store bwCtx ipField ip
      store bwCtx ipCntField 0
      store bwCtx ipMaxCntField depth
      pure bwCtx

/-- `bw_context_fini`. -/
def bwContextFini (bwCtx : Word arch) : WordAction arch Unit :=
  if bwCtx = 0 then pure ()
  else do
    let ip ← load bwCtx ipField
    if ip ≠ 0 then free ip else pure ()
    free bwCtx

/-- The loop of `bw_backtrace_collect`. -/
def collectFrom (machine : Machine arch) (bwCtx : Word arch) (ctx : Context arch) (cnt : Nat) :
    WordAction arch Bool :=
  match contextStep machine ctx with
  | none => pure true
  | some next => do
      let max ← load bwCtx ipMaxCntField
      if full : max.toNat ≤ cnt then pure false
      else
        let ip ← load bwCtx ipField
        store ip cnt (contextGetIp next)
        store bwCtx ipCntField (BitVec.ofNat _ (cnt + 1))
        collectFrom machine bwCtx next (cnt + 1)
termination_by 2 ^ arch.bits - cnt
decreasing_by
  have := max.isLt
  omega

/-- `bw_backtrace_collect` on Unix. -/
def bwBacktraceCollect (machine : Machine arch) (start : Context arch) (bwCtx : Word arch) :
    WordAction arch Bool :=
  collectFrom machine bwCtx start 0

/-- The loop of `bw_backtrace_process`. -/
def processFrom (symbols : Symbols arch) (cb : Option (Callback arch σ)) (bwCtx : Word arch)
    (i : Nat) (caller : Caller arch σ) : WordAction arch (Bool × Caller arch σ) := do
  let cnt ← load bwCtx ipCntField
  if _more : i < cnt.toNat then
    let ips ← load bwCtx ipField
    let ip ← load ips i
    match bwFrameProcess symbols cb ip caller with
    | (true, caller) => processFrom symbols cb bwCtx (i + 1) caller
    | (false, caller) => pure (false, caller)
  else pure (true, caller)
termination_by 2 ^ arch.bits - i
decreasing_by
  have := cnt.isLt
  omega

/-- `bw_backtrace_process`. -/
def bwBacktraceProcess (symbols : Symbols arch) (cb : Option (Callback arch σ)) (bwCtx : Word arch)
    (state : σ) : WordAction arch (Bool × Caller arch σ) :=
  processFrom symbols cb bwCtx 0 ⟨state, []⟩

/-! ### A context in the heap -/

/-- The context and its array are two blocks of the heap, and there is a word for
each frame that the context may store. -/
structure IsContext (heap : WordHeap arch) (bwCtx ip : Word arch) (bw : BwContext arch) : Prop where
  nonnull : bwCtx ≠ 0
  nonnullIp : ip ≠ 0
  apart : bwCtx ≠ ip
  fields : ∃ cells, heap bwCtx = some ⟨contextWords, cells⟩ ∧ cells ipField = ip ∧
    cells ipCntField = BitVec.ofNat _ bw.ipCnt ∧ cells ipMaxCntField = BitVec.ofNat _ bw.ipMaxCnt
  array : heap ip = some ⟨bw.words, bw.ip⟩
  counted : bw.ipCnt ≤ bw.ipMaxCnt
  room : bw.ipMaxCnt ≤ bw.words
  small : bw.ipMaxCnt < 2 ^ arch.bits

namespace IsContext

variable {heap heap' : WordHeap arch} {bwCtx ip : Word arch} {bw : BwContext arch}

theorem load_ip (isContext : IsContext heap bwCtx ip bw) :
    load bwCtx ipField heap = .ok ip heap := by
  obtain ⟨cells, there, isIp, -, -⟩ := isContext.fields
  have loaded := load_ok there (show ipField < contextWords by decide)
  simpa only [isIp] using loaded

theorem load_ipCnt (isContext : IsContext heap bwCtx ip bw) :
    load bwCtx ipCntField heap = .ok (BitVec.ofNat _ bw.ipCnt) heap := by
  obtain ⟨cells, there, -, isCnt, -⟩ := isContext.fields
  have loaded := load_ok there (show ipCntField < contextWords by decide)
  simpa only [isCnt] using loaded

theorem load_ipMaxCnt (isContext : IsContext heap bwCtx ip bw) :
    load bwCtx ipMaxCntField heap = .ok (BitVec.ofNat _ bw.ipMaxCnt) heap := by
  obtain ⟨cells, there, -, -, isMax⟩ := isContext.fields
  have loaded := load_ok there (show ipMaxCntField < contextWords by decide)
  simpa only [isMax] using loaded

/-- A frame is stored into the array. -/
theorem store_frame (isContext : IsContext heap bwCtx ip bw) {index : Nat}
    (below : index < bw.ipMaxCnt) (word : Word arch) :
    ∃ heap', store ip index word heap = .ok () heap' ∧
      IsContext heap' bwCtx ip { bw with ip := Function.update bw.ip index word } ∧
      ChangesOnly {bwCtx, ip} heap heap' := by
  refine ⟨_, store_ok word isContext.array (below.trans_le isContext.room), ?_,
    changesOnly_update (by simp)⟩
  obtain ⟨cells, there, fields⟩ := isContext.fields
  exact {
    nonnull := isContext.nonnull
    nonnullIp := isContext.nonnullIp
    apart := isContext.apart
    fields := ⟨cells, by rwa [Function.update_of_ne isContext.apart], fields⟩
    array := Function.update_self _ _ _
    counted := isContext.counted
    room := isContext.room
    small := isContext.small }

/-- The count is stored into the context. -/
theorem store_ipCnt (isContext : IsContext heap bwCtx ip bw) {cnt : Nat} (le : cnt ≤ bw.ipMaxCnt) :
    ∃ heap', store bwCtx ipCntField (BitVec.ofNat _ cnt) heap = .ok () heap' ∧
      IsContext heap' bwCtx ip { bw with ipCnt := cnt } ∧ ChangesOnly {bwCtx, ip} heap heap' := by
  obtain ⟨cells, there, isIp, -, isMax⟩ := isContext.fields
  refine ⟨_, store_ok _ there (show ipCntField < contextWords by decide), ?_,
    changesOnly_update (by simp)⟩
  exact {
    nonnull := isContext.nonnull
    nonnullIp := isContext.nonnullIp
    apart := isContext.apart
    fields := ⟨_, Function.update_self _ _ _, by simpa [ipField, ipCntField] using isIp,
      Function.update_self _ _ _, by simpa [ipMaxCntField, ipCntField] using isMax⟩
    array := by rw [Function.update_of_ne isContext.apart.symm]; exact isContext.array
    counted := le
    room := isContext.room
    small := isContext.small }

/-- What happens elsewhere does not matter. -/
theorem frame (isContext : IsContext heap bwCtx ip bw) (same : heap' bwCtx = heap bwCtx)
    (sameIp : heap' ip = heap ip) : IsContext heap' bwCtx ip bw where
  nonnull := isContext.nonnull
  nonnullIp := isContext.nonnullIp
  apart := isContext.apart
  fields := by rw [same]; exact isContext.fields
  array := by rw [sameIp]; exact isContext.array
  counted := isContext.counted
  room := isContext.room
  small := isContext.small

theorem ipMaxCnt_toNat (isContext : IsContext heap bwCtx ip bw) :
    (BitVec.ofNat arch.bits bw.ipMaxCnt).toNat = bw.ipMaxCnt :=
  Nat.mod_eq_of_lt isContext.small

theorem ipCnt_toNat (isContext : IsContext heap bwCtx ip bw) :
    (BitVec.ofNat arch.bits bw.ipCnt).toNat = bw.ipCnt :=
  Nat.mod_eq_of_lt (isContext.counted.trans_lt isContext.small)

end IsContext

/-! ### What each function does -/

section Functions

variable {heap : WordHeap arch} {bwCtx ip : Word arch} {bw : BwContext arch}

theorem store_field {cells : Nat → Word arch} {field : Nat}
    (there : heap bwCtx = some ⟨contextWords, cells⟩) (inside : field < contextWords)
    (word : Word arch) :
    store bwCtx field word heap = .ok () (Function.update heap bwCtx
      (some ⟨contextWords, Function.update cells field word⟩)) :=
  store_ok word there inside

/-- The fields of a fresh context are written. -/
theorem mkbwContext_fields {cells words : Nat → Word arch} {depth : Word arch}
    (there : heap bwCtx = some ⟨contextWords, cells⟩)
    (array : heap ip = some ⟨ipBytes depth / arch.wordSize, words⟩) (nonnull : bwCtx ≠ 0)
    (nonnullIp : ip ≠ 0) (apart : bwCtx ≠ ip) (fits : arch.wordSize * depth.toNat < 2 ^ arch.bits) :
    ∃ heap', (do
        store bwCtx ipField ip
        store bwCtx ipCntField 0
        store bwCtx ipMaxCntField depth
        pure bwCtx : WordAction arch (Word arch)) heap = .ok bwCtx heap' ∧
      IsContext heap' bwCtx ip ⟨words, 0, depth.toNat, ipBytes depth⟩ ∧
      ChangesOnly {bwCtx, ip} heap heap' := by
  rw [bind_of_ok (store_field there (show ipField < contextWords by decide) ip),
    bind_of_ok (store_field (Function.update_self _ _ _)
      (show ipCntField < contextWords by decide) 0),
    bind_of_ok (store_field (Function.update_self _ _ _)
      (show ipMaxCntField < contextWords by decide) depth)]
  refine ⟨_, rfl, ?_, ?_⟩
  · exact {
      nonnull := nonnull
      nonnullIp := nonnullIp
      apart := apart
      fields := by
        refine ⟨_, Function.update_self _ _ _, ?_, ?_, ?_⟩
        · simp [ipField, ipCntField, ipMaxCntField]
        · simp [ipCntField, ipMaxCntField]
        · simp
      array := by
        rw [Function.update_of_ne apart.symm, Function.update_of_ne apart.symm,
          Function.update_of_ne apart.symm, array]
        rfl
      counted := Nat.zero_le _
      room := by
        rw [BwContext.words, ipBytes, Nat.mod_eq_of_lt fits, Nat.mul_div_cancel_left _ wordSize_pos]
      small := depth.isLt }
  · have own : bwCtx ∈ ({bwCtx, ip} : Finset (Word arch)) := Finset.mem_insert_self bwCtx _
    exact ((changesOnly_update own).trans (changesOnly_update own)).trans (changesOnly_update own)

/-- `mkbw_context` makes a context of two new blocks, or it leaves the heap as it
was. -/
theorem mkbwContext_ok (alloc : WordAllocator arch) {depth : Word arch}
    (fits : arch.wordSize * depth.toNat < 2 ^ arch.bits) :
    mkbwContext alloc depth heap = .ok 0 heap ∨
      ∃ bwCtx ip words heap', mkbwContext alloc depth heap = .ok bwCtx heap' ∧
        IsContext heap' bwCtx ip ⟨words, 0, depth.toNat, ipBytes depth⟩ ∧
        (heap bwCtx = none ∧ heap ip = none) ∧ ChangesOnly {bwCtx, ip} heap heap' := by
  unfold mkbwContext
  cases first : alloc.gives heap contextWords with
  | none =>
      left
      rw [bind_of_ok (malloc_null first), if_pos rfl]
      rfl
  | some given =>
      obtain ⟨bwCtx, cells⟩ := given
      have nonnull := alloc.nonnull _ _ _ _ first
      have fresh := alloc.fresh _ _ _ _ first
      rw [bind_of_ok (malloc_ok first), if_neg nonnull]
      cases next : alloc.gives (Function.update heap bwCtx (some ⟨contextWords, cells⟩))
          (ipBytes depth / arch.wordSize) with
      | none =>
          left
          rw [bind_of_ok (malloc_null next), if_pos rfl,
            bind_of_ok (free_ok (Function.update_self _ _ _)), Function.update_idem]
          rw [← fresh, Function.update_eq_self]
          rfl
      | some given =>
          right
          obtain ⟨ip, words⟩ := given
          have nonnullIp := alloc.nonnull _ _ _ _ next
          have freshIp := alloc.fresh _ _ _ _ next
          have apart : bwCtx ≠ ip := by
            intro same
            rw [← same, Function.update_self] at freshIp
            cases freshIp
          rw [Function.update_of_ne apart.symm] at freshIp
          rw [bind_of_ok (malloc_ok next), if_neg nonnullIp]
          obtain ⟨both, isBoth⟩ : ∃ both, both = Function.update (Function.update heap bwCtx
              (some ⟨contextWords, cells⟩)) ip (some ⟨ipBytes depth / arch.wordSize, words⟩) :=
            ⟨_, rfl⟩
          have there : both bwCtx = some ⟨contextWords, cells⟩ := by
            rw [isBoth, Function.update_of_ne apart, Function.update_self]
          have array : both ip = some ⟨ipBytes depth / arch.wordSize, words⟩ := by
            rw [isBoth, Function.update_self]
          have onlyBoth : ChangesOnly {bwCtx, ip} heap both := by
            rw [isBoth]
            exact (changesOnly_update (Finset.mem_insert_self bwCtx _)).trans
              (changesOnly_update (by simp))
          obtain ⟨heap', ran, isContext, only⟩ :=
            mkbwContext_fields there array nonnull nonnullIp apart fits
          rw [← isBoth]
          exact ⟨bwCtx, ip, words, heap', ran, isContext, ⟨fresh, freshIp⟩, onlyBoth.trans only⟩

/-- `bw_context_fini` gives both blocks back. -/
theorem bwContextFini_ok (isContext : IsContext heap bwCtx ip bw) :
    ∃ heap', bwContextFini bwCtx heap = .ok () heap' ∧ (heap' bwCtx = none ∧ heap' ip = none) ∧
      ChangesOnly {bwCtx, ip} heap heap' := by
  obtain ⟨cells, there, -⟩ := isContext.fields
  have there' : Function.update heap ip none bwCtx = some ⟨contextWords, cells⟩ := by
    rw [Function.update_of_ne isContext.apart, there]
  refine ⟨Function.update (Function.update heap ip none) bwCtx none, ?_, ⟨?_, ?_⟩, ?_⟩
  · rw [bwContextFini, if_neg isContext.nonnull, bind_of_ok isContext.load_ip,
      if_pos isContext.nonnullIp, bind_of_ok (free_ok isContext.array)]
    exact free_ok there'
  · exact Function.update_self _ _ _
  · rw [Function.update_of_ne isContext.apart.symm, Function.update_self]
  · exact (changesOnly_update (by simp)).trans (changesOnly_update (by simp))

/-- The loop stores into the array what it stores into a context. -/
theorem collectFrom_ok (machine : Machine arch) (ctx : Context arch) (cnt : Nat)
    (isContext : IsContext heap bwCtx ip bw) :
    ∃ heap', collectFrom machine bwCtx ctx cnt heap =
        .ok (Walk.collectFrom machine ctx cnt bw).1 heap' ∧
      IsContext heap' bwCtx ip (Walk.collectFrom machine ctx cnt bw).2 ∧
      ChangesOnly {bwCtx, ip} heap heap' := by
  fun_induction Walk.collectFrom machine ctx cnt bw generalizing heap with
  | case1 ctx cnt bw stopped =>
      rw [collectFrom, stopped]
      exact ⟨heap, rfl, isContext, fun _ _ => rfl⟩
  | case2 ctx cnt bw next stepped full =>
      rw [collectFrom, stepped]
      refine ⟨heap, ?_, isContext, fun _ _ => rfl⟩
      dsimp only
      rw [bind_of_ok isContext.load_ipMaxCnt, isContext.ipMaxCnt_toNat, dif_pos full]
      rfl
  | case3 ctx cnt bw next stepped room inductionHypothesis =>
      obtain ⟨heap₁, stored, isContext₁, only₁⟩ :=
        isContext.store_frame (Nat.lt_of_not_le room) (contextGetIp next)
      have nextCnt : cnt + 1 ≤ bw.ipMaxCnt := Nat.lt_of_not_le room
      obtain ⟨heap₂, counted, isContext₂, only₂⟩ := isContext₁.store_ipCnt nextCnt
      obtain ⟨heap', ran, isContext', only'⟩ := inductionHypothesis isContext₂
      refine ⟨heap', ?_, isContext', (only₁.trans only₂).trans only'⟩
      rw [collectFrom, stepped]
      dsimp only
      rw [bind_of_ok isContext.load_ipMaxCnt, isContext.ipMaxCnt_toNat, dif_neg room,
        bind_of_ok isContext.load_ip, bind_of_ok stored, bind_of_ok counted, ran]

/-- The loop reads the frames of the context, and leaves the heap alone. -/
theorem processFrom_ok (symbols : Symbols arch) (cb : Option (Callback arch σ))
    (isContext : IsContext heap bwCtx ip bw) {i : Nat} (le : i ≤ bw.ipCnt)
    (caller : Caller arch σ) :
    processFrom symbols cb bwCtx i caller heap =
      .ok (processIps symbols cb (bw.frames.drop i) caller) heap := by
  have length : bw.frames.length = bw.ipCnt := by simp [BwContext.frames]
  obtain ⟨left, isLeft⟩ : ∃ left, bw.ipCnt - i = left := ⟨_, rfl⟩
  induction left generalizing i caller with
  | zero =>
      have last : ¬ i < bw.ipCnt := by omega
      rw [processFrom, bind_of_ok isContext.load_ipCnt, isContext.ipCnt_toNat, dif_neg last,
        List.drop_eq_nil_of_le (by omega)]
      rfl
  | succ left inductionHypothesis =>
      have more : i < bw.ipCnt := by omega
      have inside : i < bw.words := more.trans_le (isContext.counted.trans isContext.room)
      have rest := List.drop_eq_getElem_cons (length ▸ more)
      have stored : bw.frames.get ⟨i, length ▸ more⟩ = bw.ip i := by simp [BwContext.frames]
      rw [processFrom, bind_of_ok isContext.load_ipCnt, isContext.ipCnt_toNat, dif_pos more,
        bind_of_ok isContext.load_ip, bind_of_ok (load_ok isContext.array inside), rest]
      rw [List.get_eq_getElem] at stored
      rw [stored, processIps]
      dsimp only
      cases bwFrameProcess symbols cb (bw.ip i) caller with
      | mk answer caller =>
          cases answer with
          | true => exact inductionHypothesis (by omega) caller (by omega)
          | false => rfl

end Functions

/-! ### A client's calls -/

/-- A call of one of the functions; each `mkbw_context` meets an allocator of its
own. -/
inductive ContextCall (arch : Arch) (σ : Type) where
  | make (alloc : WordAllocator arch) (depth : Word arch)
  | fini (bwCtx : Word arch)
  | collect (machine : Machine arch) (start : Context arch) (bwCtx : Word arch)
  | process (symbols : Symbols arch) (cb : Option (Callback arch σ)) (bwCtx : Word arch) (state : σ)

inductive ContextAnswer (arch : Arch) (σ : Type) where
  | made (bwCtx : Word arch)
  | finished
  | collected (complete : Bool)
  | processed (answer : Bool) (caller : Caller arch σ)

/-- What a call does. -/
def ContextCall.run : ContextCall arch σ → WordAction arch (ContextAnswer arch σ)
  | .make alloc depth => do
      let bwCtx ← mkbwContext alloc depth
      pure (.made bwCtx)
  | .fini bwCtx => do
      bwContextFini bwCtx
      pure .finished
  | .collect machine start bwCtx => do
      let complete ← bwBacktraceCollect machine start bwCtx
      pure (.collected complete)
  | .process symbols cb bwCtx state => do
      let done ← bwBacktraceProcess symbols cb bwCtx state
      pure (.processed done.1 done.2)

/-- The client and the heap. `held` are the contexts that it may use: those that
`mkbw_context` returned and that it has not passed to `bw_context_fini`. -/
structure Client (arch : Arch) (σ : Type) where
  heap : WordHeap arch
  held : Finset (Word arch)
  past : List (ContextCall arch σ × ContextAnswer arch σ)
  fault : Option HeapFault

def clientStart : Client arch σ := ⟨fun _ => none, ∅, [], none⟩

/-- The client may make a call if it holds the context; `bw_context_fini` takes a
null pointer too. -/
def ContextCall.Allowed (held : Finset (Word arch)) : ContextCall arch σ → Prop
  | .make _ _ => True
  | .fini bwCtx => bwCtx = 0 ∨ bwCtx ∈ held
  | .collect _ _ bwCtx => bwCtx ∈ held
  | .process _ _ bwCtx _ => bwCtx ∈ held

instance (held : Finset (Word arch)) : (call : ContextCall arch σ) → Decidable (call.Allowed held)
  | .make _ _ => inferInstanceAs (Decidable True)
  | .fini bwCtx => inferInstanceAs (Decidable (bwCtx = 0 ∨ bwCtx ∈ held))
  | .collect _ _ bwCtx => inferInstanceAs (Decidable (bwCtx ∈ held))
  | .process _ _ bwCtx _ => inferInstanceAs (Decidable (bwCtx ∈ held))

/-- What the client holds after a call. -/
def ContextCall.holds (held : Finset (Word arch)) :
    ContextCall arch σ → ContextAnswer arch σ → Finset (Word arch)
  | .make _ _, .made bwCtx => if bwCtx = 0 then held else insert bwCtx held
  | .fini bwCtx, _ => held.erase bwCtx
  | _, _ => held

/-- The client makes a call. -/
def clientStep (call : ContextCall arch σ) (s : Client arch σ) : Option (Client arch σ) :=
  if s.fault = none ∧ call.Allowed s.held then
    match call.run s.heap with
    | .ok answer heap =>
        some ⟨heap, call.holds s.held answer, s.past ++ [(call, answer)], none⟩
    | .error fault heap => some { s with heap := heap, fault := some fault }
  else none

/-! ### What a context is for -/

/-- A context is a depth and the instruction pointers it has stored. -/
structure Stored (arch : Arch) where
  depth : Nat
  ips : List (Word arch)

/-- A collection keeps the first frames of the walk, if it has any. -/
def Stored.collect (machine : Machine arch) (start : Context arch) (stored : Stored arch) :
    Stored arch :=
  { stored with
    ips := if walkTake machine start stored.depth = [] then stored.ips
      else walkTake machine start stored.depth }

/-- What one call means for the context at `bwCtx`. -/
def effect (bwCtx : Word arch) (stored : Option (Stored arch)) :
    ContextCall arch σ × ContextAnswer arch σ → Option (Stored arch)
  | (.make _ depth, .made there) =>
      if there = bwCtx ∧ there ≠ 0 then some ⟨depth.toNat, []⟩ else stored
  | (.fini there, _) => if there = bwCtx then none else stored
  | (.collect machine start there, _) =>
      if there = bwCtx then stored.map (Stored.collect machine start) else stored
  | _ => stored

/-- What the context at `bwCtx` has stored after some calls. -/
def storedAfter (past : List (ContextCall arch σ × ContextAnswer arch σ)) (bwCtx : Word arch) :
    Option (Stored arch) :=
  past.foldl (effect bwCtx) none

/-- The answer of a call, from what its context has stored: the address of a new
context is not that of another; a collection is complete if the walk has no frame
behind the depth; processing calls back for what is stored. -/
def RightAnswer (past : List (ContextCall arch σ × ContextAnswer arch σ)) :
    ContextCall arch σ → ContextAnswer arch σ → Prop
  | .make _ _, .made bwCtx => bwCtx ≠ 0 → storedAfter past bwCtx = none
  | .fini _, .finished => True
  | .collect machine start bwCtx, .collected complete => ∃ stored,
      storedAfter past bwCtx = some stored ∧
        complete = decide (walkIp machine start stored.depth = none)
  | .process symbols cb bwCtx state, .processed answer caller => ∃ stored,
      storedAfter past bwCtx = some stored ∧
        processIps symbols cb stored.ips ⟨state, []⟩ = (answer, caller)
  | _, _ => False

@[simp]
theorem storedAfter_concat (past : List (ContextCall arch σ × ContextAnswer arch σ))
    (event : ContextCall arch σ × ContextAnswer arch σ) (bwCtx : Word arch) :
    storedAfter (past ++ [event]) bwCtx = effect bwCtx (storedAfter past bwCtx) event := by
  simp [storedAfter]

/-! ### Every history -/

/-- What a context object has stored. -/
def stored (bw : BwContext arch) : Stored arch := ⟨bw.ipMaxCnt, bw.frames⟩

theorem stored_bwBacktraceCollect (machine : Machine arch) (start : Context arch)
    (bw : BwContext arch) :
    stored (Walk.bwBacktraceCollect machine start bw).2 = (stored bw).collect machine start := by
  rw [stored, frames_bwBacktraceCollect, ipMaxCnt_bwBacktraceCollect]
  rfl

/-- The heap holds the contexts of the client and nothing else, each with what it
has stored; `ipOf` are their arrays. -/
structure Holds (heap : WordHeap arch) (held : Finset (Word arch)) (ipOf : Word arch → Word arch)
    (bwOf : Word arch → BwContext arch) : Prop where
  shares : Shares heap held fun bwCtx => {bwCtx, ipOf bwCtx}
  contexts : ∀ bwCtx ∈ held, IsContext heap bwCtx (ipOf bwCtx) (bwOf bwCtx)

namespace Holds

variable {heap heap' : WordHeap arch} {held : Finset (Word arch)} {ipOf : Word arch → Word arch}
  {bwOf : Word arch → BwContext arch} {bwCtx ip : Word arch} {bw : BwContext arch}

/-- The contexts but one are as they were. -/
theorem other (holds : Holds heap held ipOf bwOf) (isHeld : bwCtx ∈ held)
    (only : ChangesOnly {bwCtx, ipOf bwCtx} heap heap') {there : Word arch} (isOther : there ∈ held)
    (different : there ≠ bwCtx) : IsContext heap' there (ipOf there) (bwOf there) :=
  (holds.contexts there isOther).frame
    (holds.shares.others isHeld isOther different only (by simp))
    (holds.shares.others isHeld isOther different only (by simp))

theorem make (holds : Holds heap held ipOf bwOf) (isContext : IsContext heap' bwCtx ip bw)
    (fresh : heap bwCtx = none ∧ heap ip = none) (only : ChangesOnly {bwCtx, ip} heap heap') :
    bwCtx ∉ held ∧ Holds heap' (insert bwCtx held) (Function.update ipOf bwCtx ip)
      (Function.update bwOf bwCtx bw) := by
  have isNew : bwCtx ∉ held := by
    intro isHeld
    exact (holds.shares.used bwCtx).mpr ⟨bwCtx, isHeld, by simp⟩ fresh.1
  have unused : ∀ ptr ∈ ({bwCtx, ip} : Finset (Word arch)), heap ptr = none := by
    simpa using fresh
  refine ⟨isNew, ?_, ?_⟩
  · have takes : ∀ ptr ∈ ({bwCtx, ip} : Finset (Word arch)), heap' ptr ≠ none := by
      obtain ⟨cells, there, -⟩ := isContext.fields
      simp [there, isContext.array]
    have shares := holds.shares.add isNew only unused takes
    have blocks : (Function.update (fun bwCtx => {bwCtx, ipOf bwCtx}) bwCtx {bwCtx, ip} :
        Word arch → Finset (Word arch)) =
          fun there => {there, Function.update ipOf bwCtx ip there} := by
      funext there
      by_cases same : there = bwCtx
      · rw [same, Function.update_self, Function.update_self]
      · rw [Function.update_of_ne same, Function.update_of_ne same]
    rwa [blocks] at shares
  · intro there isHeld
    rcases Finset.mem_insert.mp isHeld with same | isHeld
    · rw [same, Function.update_self, Function.update_self]
      exact isContext
    · have different : there ≠ bwCtx := ne_of_mem_of_not_mem isHeld isNew
      rw [Function.update_of_ne different, Function.update_of_ne different]
      have apart : ∀ ptr, heap ptr ≠ none → heap' ptr = heap ptr :=
        fun ptr inUse => only ptr fun member => inUse (unused ptr member)
      have used : ∀ ptr ∈ ({there, ipOf there} : Finset (Word arch)), heap ptr ≠ none :=
        fun ptr member => (holds.shares.used ptr).mpr ⟨there, isHeld, member⟩
      exact (holds.contexts there isHeld).frame (apart _ (used _ (by simp)))
        (apart _ (used _ (by simp)))

theorem fini (holds : Holds heap held ipOf bwOf) (isHeld : bwCtx ∈ held)
    (freed : heap' bwCtx = none ∧ heap' (ipOf bwCtx) = none)
    (only : ChangesOnly {bwCtx, ipOf bwCtx} heap heap') :
    Holds heap' (held.erase bwCtx) ipOf bwOf where
  shares := holds.shares.remove isHeld only (by simpa using freed)
  contexts := by
    intro there isOther
    obtain ⟨different, isOther⟩ := Finset.mem_erase.mp isOther
    exact holds.other isHeld only isOther different

theorem work (holds : Holds heap held ipOf bwOf) (isHeld : bwCtx ∈ held)
    (isContext : IsContext heap' bwCtx (ipOf bwCtx) bw)
    (only : ChangesOnly {bwCtx, ipOf bwCtx} heap heap') :
    Holds heap' held ipOf (Function.update bwOf bwCtx bw) where
  shares := by
    apply holds.shares.keep isHeld only
    obtain ⟨cells, there, -⟩ := isContext.fields
    simp [there, isContext.array]
  contexts := by
    intro there isOther
    by_cases same : there = bwCtx
    · rw [same, Function.update_self]
      exact isContext
    · rw [Function.update_of_ne same]
      exact holds.other isHeld only isOther same

end Holds

/-- What holds after every call. -/
structure ClientOk (s : Client arch σ) : Prop where
  running : s.fault = none
  heap : ∃ ipOf bwOf, Holds s.heap s.held ipOf bwOf ∧
    ∀ bwCtx ∈ s.held, storedAfter s.past bwCtx = some (stored (bwOf bwCtx))
  gone : ∀ bwCtx, bwCtx ∉ s.held → storedAfter s.past bwCtx = none
  right : ∀ (i : Nat) call answer, s.past[i]? = some (call, answer) →
    RightAnswer (s.past.take i) call answer

/-- The product that `mkbw_context` computes does not wrap around. -/
def ContextCall.Fits : ContextCall arch σ → Prop
  | .make _ depth => arch.wordSize * depth.toNat < 2 ^ arch.bits
  | _ => True

section Steps

variable {s s' : Client arch σ} {call : ContextCall arch σ} {answer : ContextAnswer arch σ}

theorem right_concat {past : List (ContextCall arch σ × ContextAnswer arch σ)}
    (right : ∀ (i : Nat) call answer, past[i]? = some (call, answer) →
      RightAnswer (past.take i) call answer)
    (last : RightAnswer past call answer) (i : Nat) (call' : ContextCall arch σ)
    (answer' : ContextAnswer arch σ)
    (there : (past ++ [(call, answer)])[i]? = some (call', answer')) :
    RightAnswer ((past ++ [(call, answer)]).take i) call' answer' := by
  rcases Nat.lt_trichotomy i past.length with earlier | isLast | behind
  · rw [List.getElem?_append_left earlier] at there
    rw [List.take_append_of_le_length earlier.le]
    exact right i call' answer' there
  · rw [isLast, List.getElem?_concat_length] at there
    cases there
    rw [isLast, List.take_left]
    exact last
  · rw [List.getElem?_eq_none (by simp; omega)] at there
    cases there

/-- The state after a call that returns, from what the call did to the heap. -/
theorem clientStep_ok {heap : WordHeap arch} (allowed : s.fault = none ∧ call.Allowed s.held)
    (ran : call.run s.heap = .ok answer heap) :
    clientStep call s =
      some ⟨heap, call.holds s.held answer, s.past ++ [(call, answer)], none⟩ := by
  rw [clientStep, if_pos allowed, ran]

theorem allowed_of_taken (taken : clientStep call s = some s') :
    s.fault = none ∧ call.Allowed s.held := by
  by_contra refused
  rw [clientStep, if_neg refused] at taken
  cases taken

theorem ClientOk.make (ok : ClientOk s) {alloc : WordAllocator arch} {depth : Word arch}
    (fits : arch.wordSize * depth.toNat < 2 ^ arch.bits)
    (taken : clientStep (.make alloc depth) s = some s') :
    ClientOk s' ∧ s'.past.map Prod.fst = s.past.map Prod.fst ++ [.make alloc depth] := by
  obtain ⟨ipOf, bwOf, holds, agrees⟩ := ok.heap
  have outcome : mkbwContext alloc depth s.heap = .ok 0 s.heap ∨ _ := mkbwContext_ok alloc fits
  rcases outcome with failed | made
  · have ran : (ContextCall.make alloc depth : ContextCall arch σ).run s.heap =
        .ok (.made 0) s.heap := bind_of_ok failed
    rw [clientStep_ok (allowed_of_taken taken) ran] at taken
    cases taken
    have same : ∀ bwCtx, storedAfter (s.past ++ [(.make alloc depth, .made 0)]) bwCtx =
        storedAfter s.past bwCtx := by
      simp [effect]
    have keeps : (ContextCall.make alloc depth : ContextCall arch σ).holds s.held (.made 0) =
        s.held := by
      simp [ContextCall.holds]
    rw [keeps]
    refine ⟨⟨rfl, ⟨ipOf, bwOf, holds, ?_⟩, ?_, ?_⟩, by simp⟩
    · exact fun there isHeld => (same there).trans (agrees there isHeld)
    · exact fun there notHeld => (same there).trans (ok.gone there notHeld)
    · exact right_concat ok.right fun nonnull => absurd rfl nonnull
  · obtain ⟨bwCtx, ip, words, heap', made, isContext, fresh, only⟩ := made
    have ran : (ContextCall.make alloc depth : ContextCall arch σ).run s.heap =
        .ok (.made bwCtx) heap' := bind_of_ok made
    rw [clientStep_ok (allowed_of_taken taken) ran] at taken
    cases taken
    obtain ⟨isNew, holds'⟩ := holds.make isContext fresh only
    have nonnull := isContext.nonnull
    have takes : (ContextCall.make alloc depth : ContextCall arch σ).holds s.held (.made bwCtx) =
        insert bwCtx s.held := if_neg nonnull
    rw [takes]
    refine ⟨⟨rfl, ⟨_, _, holds', ?_⟩, ?_, ?_⟩, by simp⟩
    · intro there isHeld
      rw [storedAfter_concat]
      by_cases same : bwCtx = there
      · subst same
        rw [effect, if_pos ⟨rfl, nonnull⟩, Function.update_self]
        simp [stored, BwContext.frames]
      · have isHeld := Finset.mem_of_mem_insert_of_ne isHeld (fun eq => same eq.symm)
        rw [Function.update_of_ne fun eq => same eq.symm]
        simpa [effect, same] using agrees there isHeld
    · intro there notHeld
      rw [Finset.mem_insert, not_or] at notHeld
      have different : bwCtx ≠ there := fun eq => notHeld.1 eq.symm
      rw [storedAfter_concat]
      simpa [effect, different] using ok.gone there notHeld.2
    · exact right_concat ok.right fun _ => ok.gone bwCtx isNew

theorem ClientOk.fini (ok : ClientOk s) {bwCtx : Word arch}
    (taken : clientStep (.fini bwCtx) s = some s') :
    ClientOk s' ∧ s'.past.map Prod.fst = s.past.map Prod.fst ++ [.fini bwCtx] := by
  obtain ⟨ipOf, bwOf, holds, agrees⟩ := ok.heap
  have allowed := allowed_of_taken taken
  -- A null pointer is not held, and nothing happens to the heap.
  have freed : ∃ heap', bwContextFini bwCtx s.heap = .ok () heap' ∧
      Holds heap' (s.held.erase bwCtx) ipOf bwOf := by
    by_cases isHeld : bwCtx ∈ s.held
    · obtain ⟨heap', ran, freed, only⟩ := bwContextFini_ok (holds.contexts bwCtx isHeld)
      exact ⟨heap', ran, holds.fini isHeld freed only⟩
    · have isNull : bwCtx = 0 := allowed.2.resolve_right isHeld
      refine ⟨s.heap, ?_, ?_⟩
      · rw [bwContextFini, if_pos isNull]
        rfl
      · rwa [Finset.erase_eq_of_notMem isHeld]
  obtain ⟨heap', ran, holds'⟩ := freed
  have ran : (ContextCall.fini bwCtx : ContextCall arch σ).run s.heap = .ok .finished heap' :=
    bind_of_ok ran
  rw [clientStep_ok allowed ran] at taken
  cases taken
  refine ⟨⟨rfl, ⟨ipOf, bwOf, holds', ?_⟩, ?_, right_concat ok.right trivial⟩, by simp⟩
  · intro there isHeld
    obtain ⟨different, isHeld⟩ := Finset.mem_erase.mp isHeld
    rw [storedAfter_concat]
    simpa [effect, Ne.symm different] using agrees there isHeld
  · intro there notHeld
    rw [storedAfter_concat]
    by_cases same : bwCtx = there
    · simp [effect, same]
    · have notHeld : there ∉ s.held := fun isHeld =>
        notHeld (Finset.mem_erase.mpr ⟨fun eq => same eq.symm, isHeld⟩)
      simpa [effect, same] using ok.gone there notHeld

theorem ClientOk.collect (ok : ClientOk s) {machine : Machine arch} {start : Context arch}
    {bwCtx : Word arch} (taken : clientStep (.collect machine start bwCtx) s = some s') :
    ClientOk s' ∧ s'.past.map Prod.fst = s.past.map Prod.fst ++ [.collect machine start bwCtx] := by
  obtain ⟨ipOf, bwOf, holds, agrees⟩ := ok.heap
  have allowed := allowed_of_taken taken
  have isHeld : bwCtx ∈ s.held := allowed.2
  obtain ⟨heap', ran, isContext, only⟩ :=
    collectFrom_ok machine start 0 (holds.contexts bwCtx isHeld)
  have ran : (ContextCall.collect machine start bwCtx : ContextCall arch σ).run s.heap =
      .ok (.collected (Walk.bwBacktraceCollect machine start (bwOf bwCtx)).1) heap' :=
    bind_of_ok ran
  rw [clientStep_ok allowed ran] at taken
  cases taken
  have before := agrees bwCtx isHeld
  refine ⟨⟨rfl, ⟨ipOf, _, holds.work isHeld isContext only, ?_⟩, ?_, right_concat ok.right ?_⟩,
    by simp⟩
  · intro there isHeld
    rw [storedAfter_concat]
    by_cases same : bwCtx = there
    · subst same
      rw [Function.update_self, ← Walk.bwBacktraceCollect, stored_bwBacktraceCollect]
      simp [effect, before]
    · rw [Function.update_of_ne fun eq => same eq.symm]
      simpa [effect, same] using agrees there isHeld
  · intro there notHeld
    have different : bwCtx ≠ there := ne_of_mem_of_not_mem isHeld notHeld
    rw [storedAfter_concat]
    simpa [effect, different] using ok.gone there notHeld
  · refine ⟨_, before, ?_⟩
    rw [bwBacktraceCollect_eq]
    rfl

theorem ClientOk.process (ok : ClientOk s) {symbols : Symbols arch} {cb : Option (Callback arch σ)}
    {bwCtx : Word arch} {state : σ}
    (taken : clientStep (.process symbols cb bwCtx state) s = some s') :
    ClientOk s' ∧ s'.past.map Prod.fst =
      s.past.map Prod.fst ++ [.process symbols cb bwCtx state] := by
  obtain ⟨ipOf, bwOf, holds, agrees⟩ := ok.heap
  have allowed := allowed_of_taken taken
  have isHeld : bwCtx ∈ s.held := allowed.2
  have processed := processFrom_ok symbols cb (holds.contexts bwCtx isHeld) (Nat.zero_le _)
    ⟨state, []⟩
  rw [List.drop_zero] at processed
  have ran : (ContextCall.process symbols cb bwCtx state : ContextCall arch σ).run s.heap =
      .ok (.processed (processIps symbols cb (bwOf bwCtx).frames ⟨state, []⟩).1
        (processIps symbols cb (bwOf bwCtx).frames ⟨state, []⟩).2) s.heap :=
    bind_of_ok processed
  rw [clientStep_ok allowed ran] at taken
  cases taken
  have same : ∀ there, storedAfter (s.past ++ [(.process symbols cb bwCtx state,
      .processed (processIps symbols cb (bwOf bwCtx).frames ⟨state, []⟩).1
        (processIps symbols cb (bwOf bwCtx).frames ⟨state, []⟩).2)]) there =
      storedAfter s.past there := by
    simp [effect]
  refine ⟨⟨rfl, ⟨ipOf, bwOf, holds, ?_⟩, ?_, right_concat ok.right ?_⟩, by simp⟩
  · exact fun there isHeld => (same there).trans (agrees there isHeld)
  · exact fun there notHeld => (same there).trans (ok.gone there notHeld)
  · exact ⟨_, agrees bwCtx isHeld, rfl⟩

/-- An allowed call is made, whatever comes of it. -/
theorem exists_clientStep (allowed : s.fault = none ∧ call.Allowed s.held) :
    ∃ s', clientStep call s = some s' ∧
      (s'.fault = none → ∃ answer, s'.held = call.holds s.held answer) := by
  rw [clientStep, if_pos allowed]
  cases call.run s.heap with
  | ok answer heap => exact ⟨_, rfl, fun _ => ⟨answer, rfl⟩⟩
  | error fault heap => exact ⟨_, rfl, fun running => nomatch running⟩

theorem ClientOk.step (ok : ClientOk s) (fits : call.Fits) (taken : clientStep call s = some s') :
    ClientOk s' ∧ s'.past.map Prod.fst = s.past.map Prod.fst ++ [call] := by
  cases call with
  | make => exact ok.make fits taken
  | fini => exact ok.fini taken
  | collect => exact ok.collect taken
  | process => exact ok.process taken

theorem clientOk_start : ClientOk (clientStart : Client arch σ) where
  running := rfl
  heap := ⟨id, fun _ => ⟨fun _ => 0, 0, 0, 0⟩,
    ⟨⟨by simp [clientStart], by simp [clientStart]⟩, by simp [clientStart]⟩, by simp [clientStart]⟩
  gone := fun _ _ => rfl
  right := by simp [clientStart]

theorem clientOk_run {schedule : List (ContextCall arch σ)} (fits : ∀ call ∈ schedule, call.Fits)
    (ran : runSchedule clientStep schedule clientStart = some s) :
    ClientOk s ∧ s.past.map Prod.fst = schedule := by
  have kept := @run_history _ _ clientStep clientStart s schedule
    (fun past s => (∀ call ∈ past, call.Fits) → ClientOk s ∧ s.past.map Prod.fst = past) []
    (by
      intro past call s s' before taken allFit
      obtain ⟨ok, calls⟩ := before fun call member => allFit call (by simp [member])
      have next := ok.step (allFit call (by simp)) taken
      rwa [calls] at next)
    (fun _ => ⟨clientOk_start, rfl⟩) ran
  exact kept fits

end Steps

section Histories

variable (schedule : List (ContextCall arch σ)) (s : Client arch σ)

/-- A client that uses a context only between `mkbw_context` and
`bw_context_fini`, and asks for no depth whose product with `sizeof(uintptr_t)`
wraps around, makes no call access memory outside a block or free what is not
allocated, wherever `malloc` fails. The heap has two blocks for each context that
is held then, and so none if none is held. -/
theorem contexts_leave (ran : runSchedule clientStep schedule clientStart = some s)
    (fits : ∀ alloc depth, .make alloc depth ∈ schedule →
      arch.wordSize * depth.toNat < 2 ^ arch.bits) :
    s.fault = none ∧ {ptr | s.heap ptr ≠ none}.encard = (2 * s.held.card : ℕ) := by
  have allFit : ∀ call ∈ schedule, call.Fits := by
    intro call member
    cases call with
    | make alloc depth => exact fits alloc depth member
    | fini | collect | process => exact trivial
  obtain ⟨ok, -⟩ := clientOk_run allFit ran
  obtain ⟨ipOf, bwOf, holds, -⟩ := ok.heap
  refine ⟨ok.running, ?_⟩
  rw [holds.shares.encard]
  have pairs : ∀ bwCtx ∈ s.held, ({bwCtx, ipOf bwCtx} : Finset (Word arch)).card = 2 :=
    fun bwCtx isHeld => Finset.card_pair (holds.contexts bwCtx isHeld).apart
  rw [Finset.sum_congr rfl pairs, Finset.sum_const, smul_eq_mul, Nat.mul_comm]

/-- The same client gets the answers that it would get if each context were a depth
and a list of instruction pointers of its own: nothing of one context shows in
another, or in one that `malloc` later puts into the same place. -/
theorem contexts_answer (ran : runSchedule clientStep schedule clientStart = some s)
    (fits : ∀ alloc depth, .make alloc depth ∈ schedule →
      arch.wordSize * depth.toNat < 2 ^ arch.bits) :
    s.past.map Prod.fst = schedule ∧
      (∀ bwCtx, bwCtx ∈ s.held ↔ storedAfter s.past bwCtx ≠ none) ∧
      ∀ (i : Nat) call answer, s.past[i]? = some (call, answer) →
        RightAnswer (s.past.take i) call answer := by
  have allFit : ∀ call ∈ schedule, call.Fits := by
    intro call member
    cases call with
    | make alloc depth => exact fits alloc depth member
    | fini | collect | process => exact trivial
  obtain ⟨ok, calls⟩ := clientOk_run allFit ran
  obtain ⟨ipOf, bwOf, -, agrees⟩ := ok.heap
  refine ⟨calls, fun bwCtx => ⟨?_, ?_⟩, ok.right⟩
  · intro isHeld
    simp [agrees bwCtx isHeld]
  · intro isStored
    by_contra notHeld
    exact isStored (ok.gone bwCtx notHeld)

end Histories

/-! ### A context made, used and given back -/

/-- An allocator that has two places, and one that has place for contexts only. -/
def placeAt (heap : WordHeap .x86_64) : Option (Word .x86_64) :=
  [0x1000, 0x2000].find? fun ptr => (heap ptr).isNone

def twoPlaces (most : Nat) : WordAllocator .x86_64 where
  gives heap length :=
    if length ≤ most then (placeAt heap).map fun ptr => (ptr, fun _ => 0xaa) else none
  nonnull := by
    intro heap length ptr cells given
    simp only [Option.ite_none_right_eq_some, Option.map_eq_some_iff, Prod.mk.injEq] at given
    obtain ⟨-, place, found, rfl, -⟩ := given
    have member := List.mem_of_find?_eq_some found
    simp only [List.mem_cons, List.not_mem_nil, or_false] at member
    rcases member with rfl | rfl <;> decide
  fresh := by
    intro heap length ptr cells given
    simp only [Option.ite_none_right_eq_some, Option.map_eq_some_iff, Prod.mk.injEq] at given
    obtain ⟨-, place, found, rfl, -⟩ := given
    simpa using List.find?_some found

/-- The first `mkbw_context` gets no memory for the array. -/
def opening : List (ContextCall .x86_64 Unit) := [.make (twoPlaces 3) 4, .make (twoPlaces 10) 1]

theorem opening_runs : ∃ s, runSchedule clientStep opening clientStart = some s ∧
    s.held = {0x1000} ∧ s.fault = none := ⟨_, rfl, rfl, rfl⟩

theorem opening_fits (alloc : WordAllocator .x86_64) (depth : Word .x86_64)
    (member : .make alloc depth ∈ opening) :
    Arch.x86_64.wordSize * depth.toNat < 2 ^ Arch.x86_64.bits := by
  simp only [opening, List.mem_cons, ContextCall.make.injEq, List.not_mem_nil, or_false] at member
  rcases member with ⟨-, rfl⟩ | ⟨-, rfl⟩ <;> decide

/-- The context that was made has stored something. -/
theorem opening_answers : ∃ s, runSchedule clientStep opening clientStart = some s ∧
    storedAfter s.past 0x1000 ≠ none := by
  obtain ⟨s, ran, held, -⟩ := opening_runs
  have answers := contexts_answer opening s ran opening_fits
  refine ⟨s, ran, (answers.2.1 0x1000).mp ?_⟩
  rw [held]
  exact Finset.mem_singleton_self _

def collectOne : ContextCall .x86_64 Unit := .collect oneFrame ⟨0x10000, 0⟩ 0x1000

def giveBack : ContextCall .x86_64 Unit := .fini 0x1000

/-- A collection, and the end. -/
def closing : List (ContextCall .x86_64 Unit) := [collectOne, giveBack]

theorem closing_runs : ∃ s, runSchedule clientStep (opening ++ closing) clientStart = some s ∧
    (s.fault = none → s.held = ∅) := by
  obtain ⟨s₁, ran, held, running⟩ := opening_runs
  have fit : ∀ call ∈ opening, call.Fits := by
    intro call member
    cases call with
    | make alloc depth => exact opening_fits alloc depth member
    | fini | collect | process => exact trivial
  have collects : collectOne.Allowed s₁.held := by
    rw [held]
    exact Finset.mem_singleton_self _
  obtain ⟨s₂, collected, held₂⟩ := exists_clientStep ⟨running, collects⟩
  have fits : collectOne.Fits := trivial
  have ok₂ := ((clientOk_run fit ran).1.step fits collected).1
  obtain ⟨answer, held₂⟩ := held₂ ok₂.running
  have held₂ : s₂.held = {0x1000} := held₂.trans held
  have finishes : giveBack.Allowed s₂.held := by
    rw [held₂]
    exact .inr (Finset.mem_singleton_self _)
  obtain ⟨s₃, finished, held₃⟩ := exists_clientStep ⟨ok₂.running, finishes⟩
  refine ⟨s₃, ?_, fun running => ?_⟩
  · rw [runSchedule_append ran, closing, runSchedule_cons collected, runSchedule_cons finished]
    rfl
  · obtain ⟨answer, held₃⟩ := held₃ running
    rw [held₃, giveBack, ContextCall.holds, held₂]
    decide

/-- Nothing is left. -/
theorem closing_leaves : ∃ s, runSchedule clientStep (opening ++ closing) clientStart = some s ∧
    {ptr | s.heap ptr ≠ none}.encard = 0 := by
  obtain ⟨s, ran, held⟩ := closing_runs
  have leaves := contexts_leave (opening ++ closing) s ran fun alloc depth member => by
    rcases List.mem_append.mp member with early | late
    · exact opening_fits alloc depth early
    · simp [closing, collectOne, giveBack] at late
  refine ⟨s, ran, ?_⟩
  rw [leaves.2, held leaves.1]
  rfl

end Backwalk.Walk.OnHeap
