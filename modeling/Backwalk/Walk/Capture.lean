import Backwalk.Walk.Backtrace
import Mathlib.Data.ENat.Lattice

/-!
Owns the split capture: `bwBacktraceCollect` into a context, then
`bwBacktraceProcess` over it.

The first part compares it with the direct walk of `bwBacktrace` from the same
starting context, for chains of any length and any stateful callback. The
second part follows one context through any history of collections. `ip_cnt` is
written inside the loop only, so a collection whose walk has no frame leaves
the count of the collection before it; the histories on which this shows are
described exactly.
-/

namespace Backwalk.Walk

open Backwalk.Support

variable {arch : Arch} {σ : Type}

/-! ### What one collection stores -/

/-- Write `ips` into `buffer` from index `cnt` on. -/
def storeFrom (buffer : Nat → Word arch) (cnt : Nat) : List (Word arch) → Nat → Word arch
  | [] => buffer
  | ip :: rest => storeFrom (Function.update buffer cnt ip) (cnt + 1) rest

theorem storeFrom_below (buffer : Nat → Word arch) (cnt : Nat) (ips : List (Word arch))
    {index : Nat} (below : index < cnt) : storeFrom buffer cnt ips index = buffer index := by
  induction ips generalizing buffer cnt with
  | nil => rfl
  | cons ip rest inductionHypothesis =>
      rw [storeFrom, inductionHypothesis _ _ (by omega), Function.update_of_ne (by omega)]

theorem storeFrom_getElem? (buffer : Nat → Word arch) (cnt : Nat) (ips : List (Word arch))
    {index : Nat} (inside : index < ips.length) :
    ips[index]? = some (storeFrom buffer cnt ips (cnt + index)) := by
  induction ips generalizing buffer cnt index with
  | nil => simp at inside
  | cons ip rest inductionHypothesis =>
      cases index with
      | zero =>
          rw [Nat.add_zero, storeFrom, storeFrom_below _ _ _ (Nat.lt_succ_self cnt)]
          simp
      | succ index =>
          have tail := inductionHypothesis (Function.update buffer cnt ip) (cnt + 1)
            (Nat.lt_of_succ_lt_succ inside)
          rw [List.getElem?_cons_succ, tail, storeFrom, Nat.succ_add_eq_add_succ]

/-- The collecting loop stores the next instruction pointers of the walk, as
many as there is room for, counts them if there are any, and returns `true`
when no further frame was found. -/
theorem collectFrom_eq (machine : Machine arch) (ctx : Context arch) (cnt : Nat)
    (bw : BwContext arch) (room : cnt ≤ bw.ipMaxCnt) :
    collectFrom machine ctx cnt bw =
      (decide (walkIp machine ctx (bw.ipMaxCnt - cnt) = none),
        { bw with
          ip := storeFrom bw.ip cnt (walkTake machine ctx (bw.ipMaxCnt - cnt))
          ipCnt :=
            if walkTake machine ctx (bw.ipMaxCnt - cnt) = [] then bw.ipCnt
            else cnt + (walkTake machine ctx (bw.ipMaxCnt - cnt)).length }) := by
  obtain ⟨left, leftEq⟩ : ∃ left, bw.ipMaxCnt - cnt = left := ⟨_, rfl⟩
  rw [leftEq]
  induction left generalizing ctx cnt bw with
  | zero =>
      rw [collectFrom]
      have full : bw.ipMaxCnt ≤ cnt := by omega
      cases stepped : contextStep machine ctx <;>
        simp [full, walkTake, storeFrom, walkIp, orbit_succ, stepped]
  | succ left inductionHypothesis =>
      rw [collectFrom]
      have space : ¬ bw.ipMaxCnt ≤ cnt := by omega
      cases stepped : contextStep machine ctx with
      | none => simp [walkTake, storeFrom, walkIp, orbit_succ_front, stepped]
      | some next =>
          have rest := inductionHypothesis next (cnt + 1)
            { bw with ip := Function.update bw.ip cnt (contextGetIp next), ipCnt := cnt + 1 }
            (by simp only; omega) (by simp only; omega)
          simp only [space, if_false, rest, walkTake, stepped, storeFrom, walkIp_succ stepped,
            List.cons_ne_nil, List.length_cons, Prod.mk.injEq, BwContext.mk.injEq, true_and,
            and_true]
          split
          · rename_i empty
            simp [empty]
          · omega

theorem bwBacktraceCollect_eq (machine : Machine arch) (start : Context arch)
    (bw : BwContext arch) :
    bwBacktraceCollect machine start bw =
      (decide (walkIp machine start bw.ipMaxCnt = none),
        { bw with
          ip := storeFrom bw.ip 0 (walkTake machine start bw.ipMaxCnt)
          ipCnt :=
            if walkTake machine start bw.ipMaxCnt = [] then bw.ipCnt
            else (walkTake machine start bw.ipMaxCnt).length }) := by
  have collected := collectFrom_eq machine start 0 bw (Nat.zero_le _)
  rw [bwBacktraceCollect]
  simpa only [Nat.sub_zero, Nat.zero_add] using collected

/-- The words before index `ips.length` after a store at the front are `ips`. -/
theorem range_map_storeFrom (buffer : Nat → Word arch) (ips : List (Word arch)) :
    (List.range ips.length).map (storeFrom buffer 0 ips) = ips := by
  apply List.ext_getElem?
  intro index
  by_cases inside : index < ips.length
  · rw [storeFrom_getElem? buffer 0 ips inside]
    simp [inside]
  · simp [inside]

/-- A collection replaces the stored frames by those of its walk, unless that
walk has none. -/
theorem frames_bwBacktraceCollect (machine : Machine arch) (start : Context arch)
    (bw : BwContext arch) :
    (bwBacktraceCollect machine start bw).2.frames =
      if walkTake machine start bw.ipMaxCnt = [] then bw.frames
      else walkTake machine start bw.ipMaxCnt := by
  rw [bwBacktraceCollect_eq]
  by_cases empty : walkTake machine start bw.ipMaxCnt = []
  · simp [BwContext.frames, empty, storeFrom]
  · simp only [BwContext.frames, empty, if_false, range_map_storeFrom]

@[simp] theorem ipMaxCnt_bwBacktraceCollect (machine : Machine arch) (start : Context arch)
    (bw : BwContext arch) :
    (bwBacktraceCollect machine start bw).2.ipMaxCnt = bw.ipMaxCnt := by
  rw [bwBacktraceCollect_eq]

/-- What `mkbw_context` hands out when it does not fail. -/
theorem mkbwContext_made {malloc : Nat → Option (Nat → Word arch)} {depth : Nat}
    {bw : BwContext arch} (made : mkbwContext malloc depth = some bw) :
    ∃ ip, bw = ⟨ip, 0, depth, arch.wordSize * depth % 2 ^ arch.bits⟩ := by
  simp only [mkbwContext] at made
  split at made
  · cases made
  · split at made
    · cases made
    · cases made
      exact ⟨_, rfl⟩

theorem mkbwContext_eq_some {malloc : Nat → Option (Nat → Word arch)} {depth : Nat}
    {bw : BwContext arch} (made : mkbwContext malloc depth = some bw) :
    bw.ipCnt = 0 ∧ bw.ipMaxCnt = depth := by
  obtain ⟨ip, rfl⟩ := mkbwContext_made made
  exact ⟨rfl, rfl⟩

/-! ### The direct walk calls back over the same instruction pointers -/

theorem advance_iterate_of_result (machine : Machine arch) (symbols : Symbols arch)
    (cb : Option (Callback arch σ)) (n : Nat) (ctx : Context arch) (caller : Caller arch σ)
    (answer : Bool) :
    (Backtrace.advance machine symbols cb)^[n] ⟨ctx, caller, some answer⟩ =
      ⟨ctx, caller, some answer⟩ :=
  Function.iterate_fixed rfl n

/-- After `n` evaluations of its head, the loop has processed the first `n`
instruction pointers of the walk, and it has returned if a call answered
`false` or if the chain ended. -/
theorem advance_iterate (machine : Machine arch) (symbols : Symbols arch)
    (cb : Option (Callback arch σ)) (n : Nat) (ctx : Context arch) (caller : Caller arch σ) :
    let done := processIps symbols cb (walkTake machine ctx n) caller
    ((Backtrace.advance machine symbols cb)^[n] ⟨ctx, caller, none⟩).caller = done.2 ∧
      ((Backtrace.advance machine symbols cb)^[n] ⟨ctx, caller, none⟩).result =
        if done.1 then
          if orbit (contextStep machine) ctx n = none then some true else none
        else some false := by
  induction n generalizing ctx caller with
  | zero => simp [walkTake, processIps]
  | succ n inductionHypothesis =>
      rw [Function.iterate_succ_apply, orbit_succ_front]
      cases stepped : contextStep machine ctx with
      | none =>
          simp only [Backtrace.advance, stepped, walkTake, processIps]
          rw [advance_iterate_of_result]
          simp
      | some next =>
          simp only [Backtrace.advance, stepped, walkTake, processIps]
          cases answered : bwFrameProcess symbols cb (contextGetIp next) caller with
          | mk answer after =>
              cases answer with
              | true => exact inductionHypothesis next after
              | false =>
                  simp only
                  rw [advance_iterate_of_result]
                  simp

theorem processIps_none (symbols : Symbols arch) (ips : List (Word arch))
    (caller : Caller arch σ) : processIps symbols none ips caller = (true, caller) := by
  induction ips with
  | nil => rfl
  | cons ip rest inductionHypothesis => simp [processIps, bwFrameProcess, inductionHypothesis]

/-- The calls made over a prefix of the instruction pointers are the first
calls made over all of them. -/
theorem processIps_take_calls (symbols : Symbols arch) (cb : Option (Callback arch σ))
    (ips : List (Word arch)) (caller : Caller arch σ) (k : Nat) :
    ∃ made, (processIps symbols cb ips caller).2.calls = caller.calls ++ made ∧
      (processIps symbols cb (ips.take k) caller).2.calls = caller.calls ++ made.take k := by
  cases cb with
  | none => exact ⟨[], by simp [processIps_none]⟩
  | some call =>
      induction ips generalizing caller k with
      | nil => exact ⟨[], by simp [processIps]⟩
      | cons ip rest inductionHypothesis =>
          let frame := bwFrameResolve symbols ip
          let after : Caller arch σ := ⟨(call frame caller.state).2, caller.calls ++ [frame]⟩
          obtain ⟨made, all, first⟩ := inductionHypothesis after (k - 1)
          -- The first call is always made; the answer decides about the rest.
          cases answered : (call frame caller.state).1 with
          | true =>
              refine ⟨frame :: made, ?_, ?_⟩
              · simpa [processIps, bwFrameProcess, frame, answered, after] using all
              · cases k with
                | zero => simp [processIps]
                | succ k => simpa [processIps, bwFrameProcess, frame, answered, after] using first
          | false =>
              refine ⟨[frame], ?_, ?_⟩
              · simp [processIps, bwFrameProcess, frame, answered]
              · cases k with
                | zero => simp [processIps]
                | succ k => simp [processIps, bwFrameProcess, frame, answered]

/-! ### Split capture against direct walk -/

/-- Number of frames of the walk, `⊤` when it does not end. -/
noncomputable def walkLength (machine : Machine arch) (start : Context arch) : ℕ∞ :=
  ⨅ (n : ℕ) (_ : walkIp machine start n = none), (n : ℕ∞)

theorem walkLength_le_iff (machine : Machine arch) (start : Context arch) (depth : Nat) :
    walkLength machine start ≤ depth ↔ walkIp machine start depth = none := by
  constructor
  · intro short
    by_contra going
    have late : ((depth + 1 : ℕ) : ℕ∞) ≤ walkLength machine start := by
      refine le_iInf₂ fun n ended => Nat.cast_le.mpr ?_
      by_contra early
      refine going ?_
      rw [walkIp, Option.map_eq_none_iff] at ended ⊢
      exact orbit_none_of_le ended (by omega)
    have := Nat.cast_le.mp (le_trans late short)
    omega
  · intro ended
    exact iInf₂_le depth ended

theorem length_walkTake (machine : Machine arch) (start : Context arch) (depth : Nat) :
    ((walkTake machine start depth).length : ℕ∞) =
      min (depth : ℕ∞) (walkLength machine start) := by
  have taken := walkTake_getElem? machine start depth
  have bound := walkTake_length_le machine start depth
  obtain ⟨length, lengthEq⟩ : ∃ length, (walkTake machine start depth).length = length := ⟨_, rfl⟩
  rw [lengthEq] at bound ⊢
  apply le_antisymm
  · refine le_min (Nat.cast_le.mpr bound) (le_iInf₂ fun n ended => Nat.cast_le.mpr ?_)
    by_contra early
    have missing := taken n
    rw [ended, ite_self, List.getElem?_eq_none_iff] at missing
    omega
  · by_cases full : length = depth
    · rw [full]
      exact min_le_left _ _
    · refine (min_le_right _ _).trans ((walkLength_le_iff machine start length).mpr ?_)
      have missing := taken length
      rw [if_pos (by omega), List.getElem?_eq_none lengthEq.le] at missing
      exact missing.symm

theorem walkTake_take (machine : Machine arch) (start : Context arch) {k depth : Nat}
    (le : k ≤ depth) :
    (walkTake machine start depth).take k = walkTake machine start k := by
  apply List.ext_getElem?
  intro index
  rw [List.getElem?_take, walkTake_getElem?, walkTake_getElem?]
  by_cases below : index < k
  · rw [if_pos below, if_pos below, if_pos (by omega)]
  · rw [if_neg below, if_neg below]

theorem walkTake_length (machine : Machine arch) (start : Context arch) (depth : Nat) :
    walkTake machine start (walkTake machine start depth).length =
      walkTake machine start depth := by
  rw [← walkTake_take machine start (walkTake_length_le machine start depth), List.take_length]

theorem walkTake_succ_of_ended {machine : Machine arch} {start : Context arch} {depth : Nat}
    (ended : walkIp machine start depth = none) :
    walkTake machine start (depth + 1) = walkTake machine start depth := by
  apply List.ext_getElem?
  intro index
  rw [walkTake_getElem?, walkTake_getElem?]
  by_cases last : index = depth
  · simp [last, ended]
  · simp only [Nat.lt_succ_iff_lt_or_eq, last, or_false]

/-- Collecting into a fresh context of depth `depth` stores the first
`min depth n` instruction pointers of the `n` that the walk yields, in order,
and returns `true` exactly when these are all. Processing the context makes the
calls that the direct walk makes, cut after that many frames, and leaves the
callback in the state the direct walk has it in at that point; when the
collection was complete the direct walk returns what processing returned. -/
theorem bwBacktraceCollect_process_eq_bwBacktrace (machine : Machine arch)
    (symbols : Symbols arch) (cb : Option (Callback arch σ)) (start : Context arch) (state : σ)
    (malloc : Nat → Option (Nat → Word arch)) (depth : Nat) (bw : BwContext arch)
    (made : mkbwContext malloc depth = some bw) :
    let collected := bwBacktraceCollect machine start bw
    let processed := bwBacktraceProcess symbols cb collected.2 state
    let direct := bwBacktrace machine symbols cb start state
    (collected.2.ipCnt : ℕ∞) = min (depth : ℕ∞) (walkLength machine start) ∧
      (∀ index < collected.2.ipCnt, walkIp machine start index = some (collected.2.ip index)) ∧
      (collected.1 = true ↔ walkLength machine start ≤ depth) ∧
      processed.2 = (direct collected.2.ipCnt).caller ∧
      (∀ n, collected.2.ipCnt ≤ n →
        processed.2.calls = (direct n).caller.calls.take collected.2.ipCnt) ∧
      (collected.1 = true →
        ∃ n, (direct n).result = some processed.1 ∧ (direct n).caller = processed.2) := by
  obtain ⟨cntZero, maxEq⟩ := mkbwContext_eq_some made
  have cntEq : (bwBacktraceCollect machine start bw).2.ipCnt =
      (walkTake machine start depth).length := by
    rw [bwBacktraceCollect_eq, maxEq, cntZero]
    by_cases empty : walkTake machine start depth = [] <;> simp [empty]
  have framesEq : (bwBacktraceCollect machine start bw).2.frames =
      walkTake machine start depth := by
    rw [frames_bwBacktraceCollect, maxEq]
    by_cases empty : walkTake machine start depth = []
    · simp [BwContext.frames, cntZero, empty]
    · simp [empty]
  have resultEq : (bwBacktraceCollect machine start bw).1 =
      decide (walkIp machine start depth = none) := by
    rw [bwBacktraceCollect_eq, maxEq]
  intro collected processed direct
  have processedEq : processed =
      processIps symbols cb (walkTake machine start depth) ⟨state, []⟩ := by
    simp only [processed, bwBacktraceProcess, collected, framesEq]
  have directAt : ∀ n, (direct n).caller =
      (processIps symbols cb (walkTake machine start n) ⟨state, []⟩).2 := fun n =>
    (advance_iterate machine symbols cb n start ⟨state, []⟩).1
  refine ⟨?_, ?_, ?_, ?_, ?_, ?_⟩
  · rw [← length_walkTake, ← cntEq]
  · intro index inside
    have stored : (collected.2.frames)[index]? = some (collected.2.ip index) := by
      simp [BwContext.frames, inside]
    have indexBelow : index < depth := by
      have bound := walkTake_length_le machine start depth
      have cnt : collected.2.ipCnt = (walkTake machine start depth).length := cntEq
      omega
    rw [framesEq, walkTake_getElem?, if_pos indexBelow] at stored
    exact stored
  · rw [walkLength_le_iff]
    simp only [collected, resultEq, decide_eq_true_eq]
  · rw [directAt, processedEq, cntEq, walkTake_length]
  · intro n enough
    obtain ⟨calls, all, first⟩ := processIps_take_calls symbols cb (walkTake machine start n)
      ⟨state, []⟩ collected.2.ipCnt
    rw [walkTake_take machine start enough] at first
    have cnt : collected.2.ipCnt = (walkTake machine start depth).length := cntEq
    rw [directAt, all, processedEq, List.nil_append]
    rw [cnt, walkTake_length, List.nil_append] at first
    rw [first, cnt]
  · intro complete
    have ended : walkIp machine start depth = none := by
      simpa only [collected, resultEq, decide_eq_true_eq] using complete
    refine ⟨depth + 1, ?_, ?_⟩
    · have returned := (advance_iterate machine symbols cb (depth + 1) start ⟨state, []⟩).2
      have refused : orbit (contextStep machine) start (depth + 1) = none := by
        simpa [walkIp] using ended
      simp only [refused, if_true, walkTake_succ_of_ended ended, ← processedEq] at returned
      refine returned.trans ?_
      cases processed.1 <;> rfl
    · rw [directAt, walkTake_succ_of_ended ended, processedEq]

/-- One x86-64 frame at `0x10000` that returns to `0x20000`, saved over a frame
pointer below the first mappable address. -/
def oneFrame : Machine .x86_64 where
  mem := fun addr =>
    if addr = 0x10000 then 0x10100
    else if addr = 0x10008 then 0x20000
    else 0
  stripPac := id

/-- A fresh context for one frame. -/
def oneDeep : BwContext .x86_64 := ⟨fun _ => 0, 0, 1, 8⟩

/-- The comparison applies to a context that was really made. -/
theorem oneFrame_collect_process :
    mkbwContext (fun _ => some fun _ => 0) 1 = some oneDeep ∧
      ((bwBacktraceCollect oneFrame ⟨0x10000, 0⟩ oneDeep).1 = true ↔
        walkLength oneFrame ⟨0x10000, 0⟩ ≤ (1 : ℕ)) :=
  ⟨rfl, (bwBacktraceCollect_process_eq_bwBacktrace oneFrame
    ⟨true, fun _ => none, fun _ _ _ => none⟩ (some fun _ (count : Nat) => (true, count + 1))
    ⟨0x10000, 0⟩ 0 (fun _ => some fun _ => 0) 1 oneDeep rfl).2.2.1⟩

/-! ### One context through a history of collections -/

/-- The context after a history of `bw_backtrace_collect` calls, each with the
machine it found and the context it started from. -/
def collectHistory (bw : BwContext arch) (calls : List (Machine arch × Context arch)) :
    BwContext arch :=
  calls.foldl (fun bw call => (bwBacktraceCollect call.1 call.2 bw).2) bw

@[simp] theorem collectHistory_ipMaxCnt (bw : BwContext arch)
    (calls : List (Machine arch × Context arch)) :
    (collectHistory bw calls).ipMaxCnt = bw.ipMaxCnt := by
  induction calls generalizing bw with
  | nil => rfl
  | cons call rest inductionHypothesis =>
      rw [collectHistory, List.foldl_cons, ← collectHistory, inductionHypothesis,
        ipMaxCnt_bwBacktraceCollect]

theorem collectHistory_concat (bw : BwContext arch)
    (calls : List (Machine arch × Context arch)) (call : Machine arch × Context arch) :
    collectHistory bw (calls ++ [call]) =
      (bwBacktraceCollect call.1 call.2 (collectHistory bw calls)).2 := by
  simp [collectHistory]

/-- A context holds no frame exactly when it never stored one. -/
theorem frames_collectHistory_eq_nil_iff (bw : BwContext arch)
    (calls : List (Machine arch × Context arch)) :
    (collectHistory bw calls).frames = [] ↔
      bw.frames = [] ∧ ∀ call ∈ calls, walkTake call.1 call.2 bw.ipMaxCnt = [] := by
  induction calls using List.reverseRecOn with
  | nil => simp [collectHistory]
  | append_singleton calls call inductionHypothesis =>
      rw [collectHistory_concat, frames_bwBacktraceCollect, collectHistory_ipMaxCnt]
      by_cases empty : walkTake call.1 call.2 bw.ipMaxCnt = []
      · rw [if_pos empty, inductionHypothesis]
        simp only [List.mem_append, List.mem_singleton]
        constructor
        · rintro ⟨fresh, none⟩
          refine ⟨fresh, fun other member => ?_⟩
          rcases member with earlier | rfl
          · exact none other earlier
          · exact empty
        · rintro ⟨fresh, none⟩
          exact ⟨fresh, fun other member => none other (Or.inl member)⟩
      · rw [if_neg empty]
        simp only [empty, false_iff]
        rintro ⟨-, none⟩
        exact empty (none call (by simp))

/-- Through every history of collections on a context from `mkbw_context`, the
context describes after each call exactly the frames of that call, if and only
if no collection without a frame comes after one with a frame (or the context
has no room for a frame at all). -/
theorem collectHistory_holds_latest_iff (malloc : Nat → Option (Nat → Word arch)) (depth : Nat)
    (bw : BwContext arch) (made : mkbwContext malloc depth = some bw)
    (calls : List (Machine arch × Context arch)) :
    (∀ n call, calls[n]? = some call →
        (collectHistory bw (calls.take (n + 1))).frames = walkTake call.1 call.2 depth) ↔
      depth = 0 ∨ ∀ (i j : Nat) (first second : Machine arch × Context arch), i < j →
        calls[i]? = some first → calls[j]? = some second →
        contextStep first.1 first.2 ≠ none → contextStep second.1 second.2 ≠ none := by
  obtain ⟨cntZero, maxEq⟩ := mkbwContext_eq_some made
  have fresh : bw.frames = [] := by simp [BwContext.frames, cntZero]
  -- One call leaves the latest trace unless it has no frame and an earlier call had one.
  have oneCall : ∀ n call, calls[n]? = some call →
      ((collectHistory bw (calls.take (n + 1))).frames = walkTake call.1 call.2 depth ↔
        (walkTake call.1 call.2 depth = [] →
          ∀ earlier ∈ calls.take n, walkTake earlier.1 earlier.2 depth = [])) := by
    intro n call at_
    have split : calls.take (n + 1) = calls.take n ++ [call] := by
      rw [List.take_add_one, at_]
      rfl
    rw [split, collectHistory_concat, frames_bwBacktraceCollect, collectHistory_ipMaxCnt, maxEq]
    by_cases empty : walkTake call.1 call.2 depth = []
    · rw [if_pos empty, empty, frames_collectHistory_eq_nil_iff, maxEq]
      simp [fresh]
    · simp [empty]
  constructor
  · intro latest
    refine or_iff_not_imp_left.mpr fun deep i j first second before atFirst atSecond stepped => ?_
    intro refused
    have empty : walkTake second.1 second.2 depth = [] :=
      (walkTake_eq_nil_iff _ _ _).mpr (Or.inr refused)
    have member : first ∈ calls.take j :=
      List.mem_of_getElem? (i := i) (by rw [List.getElem?_take, if_pos before, atFirst])
    have none := (oneCall j second atSecond).mp (latest j second atSecond) empty first member
    rcases (walkTake_eq_nil_iff _ _ _).mp none with zero | noFrame
    · exact deep zero
    · exact stepped noFrame
  · intro ordered n call at_
    refine (oneCall n call at_).mpr fun empty earlier member => ?_
    rcases ordered with zero | ordered
    · rw [zero]
      rfl
    · obtain ⟨i, atEarlier⟩ := List.mem_iff_getElem?.mp member
      rw [List.getElem?_take] at atEarlier
      split at atEarlier
      · rename_i before
        rw [walkTake_eq_nil_iff] at empty ⊢
        refine empty.imp_right fun refused => ?_
        by_contra stepped
        exact ordered i n earlier call before atEarlier at_ stepped refused
      · cases atEarlier

/-- The same frame, after a return from it and a call from elsewhere. -/
def otherFrame : Machine .x86_64 where
  mem := fun addr =>
    if addr = 0x10000 then 0x10100
    else if addr = 0x10008 then 0x30000
    else 0
  stripPac := id

/-- A context is used twice, and describes each trace after its own call. -/
theorem oneDeep_holds_latest :
    mkbwContext (fun _ => some fun _ => 0) 1 = some oneDeep ∧
      (collectHistory oneDeep [(oneFrame, ⟨0x10000, 0⟩)]).frames = [0x20000] ∧
      (collectHistory oneDeep [(oneFrame, ⟨0x10000, 0⟩), (otherFrame, ⟨0x10000, 0⟩)]).frames =
        [0x30000] := by
  have latest := (collectHistory_holds_latest_iff (fun _ => some fun _ => 0) 1 oneDeep rfl
    [(oneFrame, ⟨0x10000, 0⟩), (otherFrame, ⟨0x10000, 0⟩)]).mpr (Or.inr ?_)
  · have first : walkTake oneFrame ⟨0x10000, 0⟩ 1 = [0x20000] := by decide
    have second : walkTake otherFrame ⟨0x10000, 0⟩ 1 = [0x30000] := by decide
    exact ⟨rfl, (latest 0 _ rfl).trans first, (latest 1 _ rfl).trans second⟩
  · intro i j first second before _ atSecond _
    have below : j < 2 := (List.getElem?_eq_some_iff.mp atSecond).1
    obtain rfl : j = 1 := by omega
    cases atSecond
    decide

/-- A collection that finds no frame after one that found a frame leaves the
old frame in the context. -/
theorem oneDeep_keeps_old_frame :
    walkTake oneFrame ⟨0, 0⟩ 1 = [] ∧
      (collectHistory oneDeep [(oneFrame, ⟨0x10000, 0⟩), (oneFrame, ⟨0, 0⟩)]).frames =
        [0x20000] := by
  have second : walkTake oneFrame ⟨0, 0⟩ 1 = [] := by decide
  have first : walkTake oneFrame ⟨0x10000, 0⟩ 1 = [0x20000] := by decide
  refine ⟨second, ?_⟩
  simp only [collectHistory, List.foldl_cons, List.foldl_nil]
  rw [frames_bwBacktraceCollect, ipMaxCnt_bwBacktraceCollect, show oneDeep.ipMaxCnt = 1 from rfl,
    if_pos second, frames_bwBacktraceCollect, show oneDeep.ipMaxCnt = 1 from rfl, first]
  rfl

end Backwalk.Walk
