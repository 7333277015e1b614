import Backwalk.DwarfLine.Lookup
import Backwalk.Windows.FileBytes
import Backwalk.Windows.Transparency

/-!
Contract: a module answers alike wherever it is loaded.

Symbols are held at their addresses in memory and rows at the addresses they were
linked for. Loaded at another address, the symbols move with the module, their
order does not change, and the search for an address that moves with it takes the
same turns; the address that the rows are asked for does not move at all.
-/

namespace Backwalk.Windows

open Backwalk.DwarfLine Backwalk.Support

/-- The sort goes by the results of its comparisons: symbols that compare in the
same way are arranged in the same way. -/
def SymQsort.ByComparison (symSort : SymQsort) : Prop :=
  ∀ (f : Sym → Sym) (syms : List Sym),
    (∀ a ∈ syms, ∀ b ∈ syms, (f a).addr < (f b).addr ↔ a.addr < b.addr) →
    symSort.sort (syms.map f) = (symSort.sort syms).map f

section Move

variable {bits : Nat}

/-- At this address no function of the file lies beyond the end of the address
space. -/
def View.NoWrap (v : View bits) (module : Nat) : Prop :=
  ∀ (h : PeHeaders) (i : Nat) (record : SymRecord) (sh : SectionHeader), v.HasHeaders h →
    FunctionAt v h i record sh → module + sh.virtualAddress + record.value < 2 ^ bits

/-- One file, loaded at two addresses. -/
structure TwoLoads (env : Env bits) (one two : Nat) : Prop where
  oneNonzero : one ≠ 0
  twoNonzero : two ≠ 0
  path : env.path two = env.path one
  file : env.mapFile two = env.mapFile one
  oneFits : ∀ v, env.mapFile one = some v → v.NoWrap one
  twoFits : ∀ v, env.mapFile one = some v → v.NoWrap two

/-- The symbols move by the distance of the addresses. -/
def Retarget.shift (one two : Nat) : Retarget where
  one := one
  two := two
  move sym := ⟨sym.addr - one + two, sym.nameOff⟩
  Known sym := one ≤ sym.addr
  keepsName _ := rfl

variable {env : Env bits} {one two : Nat}

theorem movesSymbols_shift {v : View bits} {h : PeHeaders} (headers : v.HasHeaders h)
    (oneFits : v.NoWrap one) (twoFits : v.NoWrap two) :
    (Retarget.shift one two).MovesSymbols v h := by
  intro i record sh there nameOff
  have first := oneFits h i record sh headers there
  have second := twoFits h i record sh headers there
  simp only [Retarget.shift, sizeT, Nat.mod_eq_of_lt first, Nat.mod_eq_of_lt second]
  refine ⟨by omega, ?_⟩
  congr 1
  omega

theorem sorts_shift {symSort : SymQsort} (comparing : symSort.ByComparison) :
    (Retarget.shift one two).Sorts symSort := by
  intro syms known
  apply comparing
  intro a isA b isB
  have aboveA : one ≤ a.addr := known a isA
  have aboveB : one ≤ b.addr := known b isB
  simp only [Retarget.shift]
  omega

theorem suits_shift (loads : TwoLoads env one two) (comparing : env.symSort.ByComparison) :
    (Retarget.shift one two).Suits env where
  zero := by
    have oneNonzero := loads.oneNonzero
    have twoNonzero := loads.twoNonzero
    simp only [Retarget.shift]
    omega
  path := congrArg noPath loads.path
  file := loads.file
  moves := fun v mapped _ headers =>
    movesSymbols_shift headers (loads.oneFits v mapped) (loads.twoFits v mapped)
  sorts := sorts_shift comparing

/-- In a fresh process both loads leave globals that correspond. -/
theorem loads_agree (loads : TwoLoads env one two) (comparing : env.symSort.ByComparison) :
    Agree (Retarget.shift one two).Rel (bwPeEnsure env one freshProcess)
      (bwPeEnsure env two freshProcess) := by
  rw [bwPeEnsure_fresh env loads.oneNonzero, bwPeEnsure_fresh env loads.twoNonzero]
  exact bwPeLoad_agree (suits_shift loads comparing) freshProcess freshProcess

/-- The name of an address that moves with the module. -/
theorem find_shift {g g' : Globals} (related : Corresponds (Retarget.shift one two) g g')
    (r : Nat) : g'.find (two + r) = g.find (one + r) := by
  apply related.find
  intro sym known
  have above : one ≤ sym.addr := known
  simp only [Retarget.shift]
  omega

/-- The line of an address that moves with the module. -/
theorem line_shift {g g' : Globals} (related : Corresponds (Retarget.shift one two) g g')
    (based : g.imageBase ≠ 0) (r srcLen : Nat) :
    g'.line bits two (two + r) srcLen = g.line bits one (one + r) srcLen := by
  apply related.line
  rw [Globals.linked, Globals.linked, if_pos based, if_pos based,
    Nat.add_assoc two, Nat.add_sub_cancel_left, Nat.add_assoc one, Nat.add_sub_cancel_left]

/-- A state that queries have left behind. -/
def Reachable (env : Env bits) (s : LoadState) : Prop :=
  ∃ qs as, answers env qs freshProcess = .ok as s

theorem answers_keep_warm {qs : List Query} {as : List Answer} {s s' : LoadState}
    (warm : Warm env s) (ended : answers env qs s = .ok as s') : Warm env s' := by
  induction qs generalizing as s with
  | nil =>
      cases ended
      exact warm
  | cons q qs inductionHypothesis =>
      obtain ⟨a, s₁, first, ended⟩ := bind_eq_ok.mp ended
      obtain ⟨rest, s₂, later, ended⟩ := bind_eq_ok.mp ended
      cases ended
      exact inductionHypothesis (answer_warm warm first) later

theorem Reachable.warm {s : LoadState} (reachable : Reachable env s) : Warm env s := by
  obtain ⟨qs, as, ended⟩ := reachable
  exact answers_keep_warm (warm_freshProcess env) ended

/-- Queries of a fresh process that answer alike do so whatever was asked before. -/
theorem verdict_eq_of_fresh {q q' : Query} {s t : LoadState} (before : Reachable env s)
    (before' : Reachable env t)
    (agree : verdict (answer env q freshProcess) = verdict (answer env q' freshProcess)) :
    verdict (answer env q s) = verdict (answer env q' t) := by
  rw [answer_warm_eq before.warm, answer_warm_eq before'.warm, agree]

theorem find_fresh (loads : TwoLoads env one two) (comparing : env.symSort.ByComparison) (r : Nat) :
    verdict (answer env (.find one (one + r)) freshProcess) =
      verdict (answer env (.find two (two + r)) freshProcess) := by
  refine verdict_eq (answer_agree loads.oneNonzero loads.twoNonzero
    (loads_agree loads comparing) ?_)
  intro s t _ related
  exact congrArg Answer.name (find_shift related r)

theorem line_fresh (loads : TwoLoads env one two) (comparing : env.symSort.ByComparison)
    {loaded : LoadState} (accepted : bwPeLoad env one freshProcess = .ok () loaded)
    (based : loaded.globals.imageBase ≠ 0) (r srcLen : Nat) :
    verdict (answer env (.line one (one + r) srcLen) freshProcess) =
      verdict (answer env (.line two (two + r) srcLen) freshProcess) := by
  refine verdict_eq (answer_agree loads.oneNonzero loads.twoNonzero
    (loads_agree loads comparing) ?_)
  intro s t ended related
  have isLoaded : loaded = s := by
    have loadedHere := (bwPeEnsure_fresh env loads.oneNonzero).symm.trans ended
    cases accepted.symm.trans loadedHere
    rfl
  subst isLoaded
  exact congrArg Answer.source (line_shift related based r srcLen)

/-! ### A file on 64 bits -/

theorem View.Holds.lt {v : View bits} {off n value : Nat} (holds : v.Holds off n value) :
    value < 256 ^ n := by
  obtain ⟨bytes, there, rfl⟩ := holds
  rw [← peek_length there]
  exact leNat_lt bytes

theorem SectionHeader.virtualAddress_lt (sh : SectionHeader) : sh.virtualAddress < 2 ^ 32 :=
  field_lt _ _

/-- With pointers of 64 bits only an address at the very end is too high. -/
theorem noWrap_of_low (v : View 64) {module : Nat} (low : module + 2 ^ 33 ≤ 2 ^ 64) :
    v.NoWrap module := by
  intro h i record sh _ there
  have value := there.holds.value.lt
  have virtual := sh.virtualAddress_lt
  omega

/-- The stable sort. -/
def symInsertionSort : SymQsort where
  sort := List.insertionSort (KeyLe Sym.addr)
  perm := List.perm_insertionSort _
  sorted := fun syms => List.pairwise_insertionSort _ syms

theorem byComparison_symInsertionSort : symInsertionSort.ByComparison := by
  intro f syms same
  refine (List.map_insertionSort (KeyLe Sym.addr) (KeyLe Sym.addr) f syms ?_).symm
  intro a isA b isB
  have turned := same b isB a isA
  simp only [KeyLe]
  omega

/-- A PE32+ file with image base `0x400000`, the function `main` at `0x1010` of
the section at `0x1000`, and a line table that consists of `unitV2`. -/
def mainFile : List UInt8 :=
  [0x4d, 0x5a] ++ List.replicate 58 0 ++ [64, 0, 0, 0] ++
  [0x50, 0x45, 0, 0] ++ [0x64, 0x86, 2, 0, 0, 0, 0, 0, 200, 0, 0, 0, 1, 0, 0, 0, 32, 0, 0, 0] ++
  ([0x0b, 0x02] ++ List.replicate 22 0 ++ [0, 0, 0x40, 0, 0, 0, 0, 0]) ++
  ([0x2e, 0x74, 0x65, 0x78, 0x74, 0, 0, 0] ++ [0, 0, 0, 0, 0, 0x10, 0, 0] ++
    List.replicate 24 0) ++
  ([0x2f, 0x34, 0, 0, 0, 0, 0, 0] ++
    [0, 0, 0, 0, 0, 0x20, 0, 0, UInt8.ofNat unitV2.length, 0, 0, 0, 234, 0, 0, 0] ++
    List.replicate 16 0) ++
  [0x6d, 0x61, 0x69, 0x6e, 0, 0, 0, 0, 0x10, 0, 0, 0, 1, 0, 0x20, 0, 2, 0] ++
  ([16, 0, 0, 0] ++ debugLineName ++ [0]) ++ unitV2

/-- Every module is that file. -/
def mainEnv : Env 64 where
  path _ := some [0x61]
  mapFile _ := some (fileView mainFile)
  symSort := symInsertionSort
  qsort := stableQsort

/-- `bw_pe_image_base` when a load has returned. -/
def loadedBase : EStateM.Result Halt LoadState Unit → Nat
  | .ok _ s => s.globals.imageBase
  | .error _ _ => 0

/-- A load that leaves an image base has returned. -/
theorem loads_of_base {env : Env bits} {module : Nat}
    (base : loadedBase (bwPeLoad env module freshProcess) ≠ 0) :
    ∃ loaded, bwPeLoad env module freshProcess = .ok () loaded ∧ loaded.globals.imageBase ≠ 0 := by
  cases ended : bwPeLoad env module freshProcess with
  | ok a loaded =>
      rw [ended] at base
      exact ⟨loaded, rfl, base⟩
  | error why s =>
      rw [ended] at base
      exact absurd rfl base

theorem mainEnv_accepted : ∃ loaded, bwPeLoad mainEnv 0x7ff600000000 freshProcess = .ok () loaded ∧
    loaded.globals.imageBase ≠ 0 :=
  loads_of_base (by decide +kernel)

theorem mainEnv_loads : TwoLoads mainEnv 0x7ff600000000 0x7ff700000000 where
  oneNonzero := by decide
  twoNonzero := by decide
  path := rfl
  file := rfl
  oneFits := fun v _ => noWrap_of_low v (by decide)
  twoFits := fun v _ => noWrap_of_low v (by decide)

theorem reachable_freshProcess (env : Env bits) : Reachable env freshProcess := ⟨[], [], rfl⟩

/-- Whatever was asked before, an address and its module give the same name and
the same line wherever the module is loaded. -/
theorem answer_shift (loads : TwoLoads env one two) (comparing : env.symSort.ByComparison)
    {loaded : LoadState} (accepted : bwPeLoad env one freshProcess = .ok () loaded)
    (based : loaded.globals.imageBase ≠ 0) (r srcLen : Nat) {s t : LoadState}
    (before : Reachable env s) (before' : Reachable env t) :
    verdict (answer env (.find one (one + r)) s) = verdict (answer env (.find two (two + r)) t) ∧
      verdict (answer env (.line one (one + r) srcLen) s) =
        verdict (answer env (.line two (two + r) srcLen) t) :=
  ⟨verdict_eq_of_fresh before before' (find_fresh loads comparing r),
    verdict_eq_of_fresh before before' (line_fresh loads comparing accepted based r srcLen)⟩

theorem answer_shift_main :
    verdict (answer mainEnv (.find 0x7ff600000000 (0x7ff600000000 + 0x1014)) freshProcess) =
        verdict (answer mainEnv (.find 0x7ff700000000 (0x7ff700000000 + 0x1014)) freshProcess) ∧
      verdict (answer mainEnv (.line 0x7ff600000000 (0x7ff600000000 + 0x1014) 16) freshProcess) =
        verdict (answer mainEnv (.line 0x7ff700000000 (0x7ff700000000 + 0x1014) 16)
          freshProcess) := by
  obtain ⟨loaded, accepted, based⟩ := mainEnv_accepted
  exact answer_shift mainEnv_loads byComparison_symInsertionSort accepted based 0x1014 16
    (reachable_freshProcess mainEnv) (reachable_freshProcess mainEnv)

end Move

end Backwalk.Windows
