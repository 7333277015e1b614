import Backwalk.Windows.CoffTable
import Backwalk.Windows.LoadAddress
import Mathlib.Data.List.Perm.Basic

/-!
Contract: the symbols that a load leaves.

Owns the table after `bw_pe_load`, in a 64-bit process and for a file below
4 GiB: the function symbols of the file in some order of their addresses, as many
as were taken over, each with its name in the table of names. What follows the
symbol loop in a load does not touch them, however it ends.
-/

namespace Backwalk.Windows

open Backwalk.DwarfLine Backwalk.Support

/-! ### Taking over -/

/-- While the names fit, the symbols are taken over up to their greatest number. -/
theorem taken_fits {nsym nlen : Nat} {found : List (Nat × List UInt8)}
    (named : ∀ pair ∈ found, pair.2 ≠ [])
    (fits : nlen + nameTotal (found.take (bwPeSymMax - nsym)) ≤ bwPeNameMax) :
    taken nsym nlen found = found.take (bwPeSymMax - nsym) := by
  induction found generalizing nsym nlen with
  | nil => rw [List.take_nil, taken]
  | cons pair rest inductionHypothesis =>
      by_cases full : bwPeSymMax ≤ nsym
      · rw [taken_full full, Nat.sub_eq_zero_of_le full, List.take_zero]
      · rw [show bwPeSymMax - nsym = bwPeSymMax - (nsym + 1) + 1 by omega, List.take_succ_cons] at *
        rw [nameTotal_cons] at fits
        have kept : pair.2.take (bwPeNameMax - nlen - 1) = pair.2 := take_fits (by omega)
        rw [taken, kept, if_neg (not_or.mpr ⟨full, named pair (List.mem_cons_self ..)⟩),
          inductionHypothesis (fun other member => named other (List.mem_cons_of_mem _ member))
            (by omega)]

/-- Whatever there is room for, what is taken over are strings. -/
theorem taken_noNul {nsym nlen : Nat} {found : List (Nat × List UInt8)}
    (strings : ∀ pair ∈ found, NoNul pair.2) : ∀ pair ∈ taken nsym nlen found, NoNul pair.2 := by
  induction found generalizing nsym nlen with
  | nil => simp [taken]
  | cons first rest inductionHypothesis =>
      intro pair member
      rw [taken] at member
      split_ifs at member with stop
      · exact absurd member (List.not_mem_nil)
      · rcases List.mem_cons.mp member with rfl | later
        · intro nul
          exact strings first (List.mem_cons_self ..) (List.mem_of_mem_take nul)
        · exact inductionHypothesis
            (fun other isOther => strings other (List.mem_cons_of_mem _ isOther)) pair later

section Load

variable {v : View 64} {h : PeHeaders}

theorem functionSymbols_names {module : Nat} {pair : Nat × List UInt8}
    (member : pair ∈ v.functionSymbols h module) : pair.2 ≠ [] ∧ NoNul pair.2 := by
  obtain ⟨i, -, found⟩ := List.mem_filterMap.mp member
  exact functionSymbol_name found

/-! ### The loop in a load -/

theorem sizeT_wide {n : Nat} (below : n < 2 ^ 64) : sizeT 64 n = n := Nat.mod_eq_of_lt below

theorem bwPeStrTab_run (small : v.size < 2 ^ 32) (accepted : h.Accepted v) (s : LoadState) :
    ∃ seen, v.Reads h seen [] ∧ bwPeStrTab v h s = .ok (v.strTab h) (s.log seen) := by
  have symOff := accepted.symOff
  have nsym := accepted.nsym
  have records : h.symOff + h.nsym * bwCoffSymSize = recordAt h h.nsym := rfl
  have sum : sizeT 64 (recordAt h h.nsym + 4) = recordAt h h.nsym + 4 := by
    apply sizeT_wide
    unfold recordAt bwCoffSymSize
    omega
  rw [bwPeStrTab, View.strTab, records, sum]
  by_cases there : h.symOff ≠ 0 ∧ h.nsym ≠ 0 ∧ recordAt h h.nsym + 4 ≤ v.size
  · have off : dword (recordAt h h.nsym) = recordAt h h.nsym := Nat.mod_eq_of_lt (by omega)
    have size : v.uint (recordAt h h.nsym) 4 < 256 ^ 4 := v.uint_lt _ 4
    have both : sizeT 64 (recordAt h h.nsym + v.uint (recordAt h h.nsym) 4) =
        recordAt h h.nsym + v.uint (recordAt h h.nsym) 4 := sizeT_wide (by omega)
    rw [if_pos there, if_pos there]
    dsimp only
    rw [off, bind_of_ok (readUint_inside v there.2.2), both]
    refine ⟨_, reads_other there.2.2 (by decide), ?_⟩
    split_ifs <;> rfl
  · rw [if_neg there, if_neg there]
    exact ⟨[], reads_nil, by rw [LoadState.log_nil]; rfl⟩

theorem functionSymbols_walk (module : Nat) (present : h.symOff ≠ 0)
    (inside : recordAt h h.nsym ≤ v.size) :
    v.functionSymbols h module = v.functionsFrom h module h.nsym 0 := by
  rw [View.functionSymbols, View.symbols, if_neg (not_or.mpr ⟨present, Nat.not_lt.mpr inside⟩),
    View.functionsFrom]

/-- No table, no symbols. -/
theorem symbols_absent (absent : ¬ (h.symOff ≠ 0 ∧ h.nsym ≠ 0 ∧ recordAt h h.nsym ≤ v.size)) :
    v.symbols h = [] := by
  unfold View.symbols
  split_ifs with outside
  · rfl
  · obtain ⟨present, inside⟩ := not_or.mp outside
    apply walk_beyond
    intro positive
    exact absent ⟨present, by omega, Nat.le_of_not_lt inside⟩

/-- The end of the symbol table does not wrap around. -/
theorem sizeT_records (accepted : h.Accepted v) :
    sizeT 64 (h.symOff + h.nsym * bwCoffSymSize) = recordAt h h.nsym := by
  have symOff := accepted.symOff
  have nsym := accepted.nsym
  apply sizeT_wide
  unfold bwCoffSymSize
  omega

/-- From empty tables, the loop leaves the symbols that there is room for. -/
theorem bwPeSymbolTable_run (small : v.size < 2 ^ 32) (accepted : h.Accepted v) (module : Nat)
    {s : LoadState} (noSyms : s.globals.nsym = 0) (noNames : s.globals.nlen = 0) :
    ∃ seen t, bwPeSymbolTable v h module (v.strTab h) s = .ok () t ∧
      t.accesses = s.accesses ++ seen ∧
      t.globals = s.globals.withSymbols (taken 0 0 (v.functionSymbols h module)) ∧
      (nameTotal ((v.functionSymbols h module).take bwPeSymMax) ≤ bwPeNameMax →
        v.Reads h seen (v.examined h module bwPeSymMax (v.symbols h))) := by
  rw [bwPeSymbolTable, sizeT_records accepted]
  by_cases there : h.symOff ≠ 0 ∧ h.nsym ≠ 0 ∧ recordAt h h.nsym ≤ v.size
  · have symbols : v.symbols h = v.walk h h.nsym 0 :=
      if_neg (not_or.mpr ⟨there.1, Nat.not_lt.mpr there.2.2⟩)
    have functions := functionSymbols_walk module there.1 there.2.2
    obtain ⟨seen, t, ran, result⟩ := @bwPeSymbols_run v h ⟨small, accepted, there.2.2⟩ module
      (h.nsym + 1) h.nsym 0 s (Nat.zero_le _) (by omega) (by omega)
    have globals := result.globals
    have reads := result.reads
    rw [noSyms, noNames, ← functions] at globals reads
    rw [Nat.sub_zero, Nat.zero_add] at reads
    rw [if_pos there, symbols]
    exact ⟨seen, t, ran, result.accesses, globals, reads⟩
  · have none := symbols_absent there
    have noFunctions : v.functionSymbols h module = [] := by rw [View.functionSymbols, none]; rfl
    rw [if_neg there, noFunctions, none]
    exact ⟨[], s, rfl, (List.append_nil _).symm, rfl, fun _ => reads_nil⟩

/-! ### The rest of a load -/

/-- The tables of symbols and names stay as they are. -/
structure SameSymbols (s t : LoadState) : Prop where
  syms : t.globals.syms = s.globals.syms
  nsym : t.globals.nsym = s.globals.nsym
  names : t.globals.names = s.globals.names
  nlen : t.globals.nlen = s.globals.nlen
  state : t.globals.state = s.globals.state

instance : Std.Refl SameSymbols := ⟨fun _ => ⟨rfl, rfl, rfl, rfl, rfl⟩⟩

instance : IsTrans LoadState SameSymbols where
  trans _ _ _ one two :=
    ⟨two.syms.trans one.syms, two.nsym.trans one.nsym, two.names.trans one.names,
      two.nlen.trans one.nlen, two.state.trans one.state⟩

instance (access : Access) : Develops SameSymbols (logAccess access) :=
  ⟨fun _ => ⟨rfl, rfl, rfl, rfl, rfl⟩⟩

theorem same_modifyGlobals {f : Globals → Globals}
    (kept : ∀ g, (f g).syms = g.syms ∧ (f g).nsym = g.nsym ∧
    (f g).names = g.names ∧ (f g).nlen = g.nlen ∧ (f g).state = g.state) :
    Develops SameSymbols (modifyGlobals f) := by
  refine ⟨fun s => ?_⟩
  obtain ⟨syms, nsym, names, nlen, state⟩ := kept s.globals
  exact ⟨syms, nsym, names, nlen, state⟩

theorem same_log (s : LoadState) (seen : List Access) : SameSymbols s (s.log seen) :=
  ⟨rfl, rfl, rfl, rfl, rfl⟩

theorem withSymbols_state (g : Globals) (pairs : List (Nat × List UInt8)) :
    (g.withSymbols pairs).state = g.state := by
  induction pairs generalizing g with
  | nil => rfl
  | cons pair pairs inductionHypothesis => exact inductionHypothesis (g.withSymbol pair.1 pair.2)

section Steps

variable {bits : Nat} (v : View bits)

instance : Develops SameSymbols bwPeResetLines :=
  same_modifyGlobals fun _ => ⟨rfl, rfl, rfl, rfl, rfl⟩

instance (h : PeHeaders) : Develops SameSymbols (bwPeImageBase v h) := by
  have setBase : ∀ ib : Nat,
      Develops SameSymbols (modifyGlobals fun g => { g with imageBase := sizeT bits ib }) :=
    fun ib => same_modifyGlobals fun _ => ⟨rfl, rfl, rfl, rfl, rfl⟩
  unfold bwPeImageBase
  infer_instance

instance (qsort : Qsort) (found : LineSections) :
    Develops SameSymbols (bwPeParse v qsort found) := by
  unfold bwPeParse
  split_ifs with absent placed
  · infer_instance
  · have next : ∀ g : Globals, Develops SameSymbols (match bwDwarfTabParse
          (v.image found.line found.lineStr found.debugStr placed) qsort g.dwarf with
        | .returned value tab => modifyGlobals fun g => { g with dwarf := tab, dwarfReady := value }
        | .crashed why tab => do
            modifyGlobals fun g => { g with dwarf := tab }
            halt (.crash why)) := by
      intro g
      split
      · exact same_modifyGlobals fun _ => ⟨rfl, rfl, rfl, rfl, rfl⟩
      · have set : ∀ tab : Tab,
            Develops SameSymbols (modifyGlobals fun g => { g with dwarf := tab }) :=
          fun tab => same_modifyGlobals fun _ => ⟨rfl, rfl, rfl, rfl, rfl⟩
        infer_instance
    infer_instance
  · infer_instance

/-- The image base lies before the section headers. -/
theorem bwPeImageBase_run {h : PeHeaders} (accepted : h.Accepted v) (s : LoadState) :
    ∃ t, bwPeImageBase v h s = .ok () t := by
  have secOff := accepted.secOff
  have sections := accepted.sections
  have nsecPositive := accepted.nsecPositive
  unfold sectionHeaderSize at sections
  rw [bwPeImageBase]
  by_cases optional : 28 ≤ h.optSize
  · rw [if_pos optional, bind_of_ok (readUint_inside v (by omega))]
    by_cases isWide : v.uint (h.lfanew + 4 + fileHeaderSize) 2 = 0x20b ∧ 32 ≤ h.optSize
    · rw [if_pos isWide, bind_of_ok (readUint_inside v (by omega))]
      exact ⟨_, rfl⟩
    · rw [if_neg isWide]
      split_ifs
      · rw [bind_of_ok (readUint_inside v (by omega))]
        exact ⟨_, rfl⟩
      · exact ⟨_, rfl⟩
  · rw [if_neg optional]
    exact ⟨_, rfl⟩

/-- The steps in front of the symbol table leave what it holds. -/
theorem bwPeFile_begins {h : PeHeaders} (found : v.headers = some h) (s : LoadState) :
    ∃ s₀ s₁ s₂, bwPeHeaders v s = .ok h s₀ ∧ bwPeResetLines s₀ = .ok () s₁ ∧
      bwPeImageBase v h s₁ = .ok () s₂ ∧ SameSymbols s s₂ := by
  obtain ⟨seen, ranHeaders, -⟩ := bwPeHeaders_run v s
  rw [found, orBreak] at ranHeaders
  obtain ⟨s₁, ranReset⟩ : ∃ t, bwPeResetLines (s.log seen) = .ok () t := ⟨_, rfl⟩
  obtain ⟨s₂, ranBase⟩ := bwPeImageBase_run v (headers_accepted v found) s₁
  have reset : SameSymbols s s₁ := trans_of SameSymbols (same_log s seen) (Develops.ok ranReset)
  have based : SameSymbols s₁ s₂ := Develops.ok ranBase
  exact ⟨s.log seen, s₁, s₂, ranHeaders, ranReset, ranBase, trans_of SameSymbols reset based⟩

end Steps

/-! ### Sorting -/

/-- The table holds these symbols, in an order of their addresses. -/
def Globals.HoldsSymbols (g : Globals) (pairs : List (Nat × List UInt8)) : Prop :=
  ∃ ordered : List (Nat × List UInt8), ordered.Perm pairs ∧
    ordered.Pairwise (fun first second => first.1 ≤ second.1) ∧
    List.Forall₂ g.Is g.symbols ordered

/-- What a symbol denotes depends on the table of names only. -/
theorem Globals.Is.of_names {g g' : Globals} {sym : Sym} {pair : Nat × List UInt8}
    (is : g.Is sym pair)
    (names : g'.names = g.names) (nlen : g'.nlen = g.nlen) : g'.Is sym pair := by
  refine ⟨is.1, is.2.noNul, ?_, ?_, ?_⟩
  · rw [nlen]
    exact is.2.inUse
  · rw [names]
    exact is.2.chars
  · rw [names]
    exact is.2.ended

/-- Only the tables matter for what they hold. -/
theorem holdsSymbols_same {s t : LoadState} {pairs : List (Nat × List UInt8)}
    (same : SameSymbols s t) (holds : s.globals.HoldsSymbols pairs) :
    t.globals.HoldsSymbols pairs := by
  obtain ⟨ordered, perm, sorted, is⟩ := holds
  have symbols : t.globals.symbols = s.globals.symbols := by
    rw [Globals.symbols, same.nsym, same.syms, Globals.symbols]
  refine ⟨ordered, perm, sorted, ?_⟩
  rw [symbols]
  exact is.imp fun sym pair is => is.of_names same.names same.nlen

theorem length_symbols (g : Globals) : g.symbols.length = g.nsym := by
  rw [Globals.symbols, List.length_map, List.length_range]

theorem symbols_arranged (g : Globals) {sorted : List Sym} (length : sorted.length = g.nsym) :
    Globals.symbols { g with
      syms := fun index => (sorted[index]?).getD (g.syms index)
      state := .loaded } = sorted := by
  apply List.ext_getElem
  · rw [length_symbols, length]
  · intro i _ inside
    simp [Globals.symbols, inside]

theorem addr_of_is {g : Globals} {syms : List Sym} {pairs : List (Nat × List UInt8)}
    (is : List.Forall₂ g.Is syms pairs) : syms.map Sym.addr = pairs.map Prod.fst := by
  induction is with
  | nil => rfl
  | cons here _ inductionHypothesis =>
      rw [List.map_cons, List.map_cons, here.1, inductionHypothesis]

/-- The sort leaves what the table holds in the order of the addresses. -/
theorem bwPeSort_run (symSort : SymQsort) {s : LoadState} {pairs : List (Nat × List UInt8)}
    (is : List.Forall₂ s.globals.Is s.globals.symbols pairs) (notYet : s.globals.state ≠ .loaded) :
    ∃ t, bwPeSort symSort s = .ok () t ∧ t.globals.HoldsSymbols pairs ∧
      (t.globals.state = .loaded ↔ pairs ≠ []) := by
  have count : s.globals.nsym = pairs.length := by rw [← is.length_eq, length_symbols]
  rw [bwPeSort, bind_of_ok (show getGlobals s = .ok s.globals s from rfl)]
  by_cases some : 0 < s.globals.nsym
  · have nonempty : pairs ≠ [] := by
      rintro rfl
      rw [List.length_nil] at count
      omega
    obtain ⟨ordered, isOrdered, perm⟩ := List.perm_comp_forall₂ (symSort.perm s.globals.symbols) is
    have addresses := addr_of_is isOrdered
    have sorted : ordered.Pairwise fun first second => first.1 ≤ second.1 := by
      have inOrder := List.pairwise_map.mpr (symSort.sorted s.globals.symbols)
      have keys : (ordered.map Prod.fst).Pairwise (· ≤ ·) := addresses ▸ inOrder
      exact List.pairwise_map.mp keys
    have length : (symSort.sort s.globals.symbols).length = s.globals.nsym := by
      rw [(symSort.perm _).length_eq, length_symbols]
    rw [if_pos some]
    refine ⟨_, rfl, ⟨ordered, perm, sorted, ?_⟩, iff_of_true rfl nonempty⟩
    have arranged := symbols_arranged s.globals length
    dsimp only at arranged ⊢
    rw [arranged]
    exact isOrdered.imp fun _ _ is => is.of_names rfl rfl
  · have empty : pairs = [] := List.eq_nil_of_length_eq_zero (by omega)
    subst empty
    rw [if_neg some]
    exact ⟨s, rfl, ⟨[], .refl _, .nil, is⟩, iff_of_false notYet (not_not.mpr rfl)⟩

/-! ### A load -/

theorem stateAfter_bind {α β : Type} {m : Loader α} {f : α → Loader β} {s t : LoadState} {a : α}
    (ended : m s = .ok a t) : stateAfter (m >>= f) s = stateAfter (f a) t := by
  rw [stateAfter, bind_of_ok ended, stateAfter]

theorem stateAfter_orLeave (m : Loader Unit) (s : LoadState) :
    stateAfter (orLeave m) s = stateAfter m s := by
  unfold stateAfter orLeave
  cases m s with
  | ok a t => rfl
  | error why t => cases why <;> rfl

/-- What the table holds after the loop, it holds at the end. -/
theorem bwPeFile_holds (env : Env 64) (module : Nat) (small : v.size < 2 ^ 32)
    (found : v.headers = some h) {s : LoadState} (noSyms : s.globals.nsym = 0)
    (noNames : s.globals.nlen = 0) (notYet : s.globals.state ≠ .loaded) :
    (stateAfter (bwPeFile env v module) s).globals.HoldsSymbols
        (taken 0 0 (v.functionSymbols h module)) ∧
      ((stateAfter (bwPeFile env v module) s).globals.state = .loaded ↔
        taken 0 0 (v.functionSymbols h module) ≠ []) := by
  have accepted := headers_accepted v found
  obtain ⟨s₀, s₁, s₂, ranHeaders, ranReset, ranBase, begins⟩ := bwPeFile_begins v found s
  obtain ⟨seenTab, -, ranTab⟩ := bwPeStrTab_run small accepted s₂
  have begun : SameSymbols s (s₂.log seenTab) := trans_of SameSymbols begins (same_log s₂ seenTab)
  obtain ⟨_, s₃, ranTable, -, globals, -⟩ := @bwPeSymbolTable_run v h small accepted module
    (s₂.log seenTab) (begun.nsym.trans noSyms) (begun.nlen.trans noNames)
  have empty : List.Forall₂ (s₂.log seenTab).globals.Is (s₂.log seenTab).globals.symbols [] := by
    rw [Globals.symbols, begun.nsym, noSyms]
    exact .nil
  have strings := @taken_noNul 0 0 _ fun pair member =>
    (@functionSymbols_names v h module pair member).2
  have is : List.Forall₂ s₃.globals.Is s₃.globals.symbols
      (taken 0 0 (v.functionSymbols h module)) := by
    rw [globals]
    exact is_withSymbols strings empty
  have state : s₃.globals.state ≠ .loaded := by
    rw [globals, withSymbols_state, begun.state]
    exact notYet
  obtain ⟨s₄, ranSort, holds, isLoaded⟩ := bwPeSort_run env.symSort is state
  rw [bwPeFile, stateAfter_bind ranHeaders, stateAfter_bind ranReset, stateAfter_bind ranBase,
    stateAfter_bind ranTab, stateAfter_bind ranTable, stateAfter_bind ranSort]
  have rest : ∀ m : Loader Unit, Develops SameSymbols m → (stateAfter m s₄).globals.HoldsSymbols
        (taken 0 0 (v.functionSymbols h module)) ∧ ((stateAfter m s₄).globals.state = .loaded ↔
          taken 0 0 (v.functionSymbols h module) ≠ []) := by
    intro m develops
    have same := develops.after s₄
    rw [same.state]
    exact ⟨holdsSymbols_same same holds, isLoaded⟩
  exact rest _ inferInstance

/-- However a load of the file ends, it leaves the symbols that were taken over. -/
theorem bwPeLoad_holds {env : Env 64} {module : Nat} (isModule : module ≠ 0)
    (hasPath : noPath (env.path module) = false) (mapped : env.mapFile module = some v)
    (small : v.size < 2 ^ 32) (headers : v.HasHeaders h) (s : LoadState) :
    (stateAfter (bwPeLoad env module) s).globals.HoldsSymbols
        (taken 0 0 (v.functionSymbols h module)) ∧
      ((stateAfter (bwPeLoad env module) s).globals.state = .loaded ↔
        taken 0 0 (v.functionSymbols h module) ≠ []) := by
  have reset : ∃ t, bwPeReset module s = .ok () t ∧ t.globals.nsym = 0 ∧ t.globals.nlen = 0 ∧
      t.globals.state = .none := ⟨_, rfl, rfl, rfl, rfl⟩
  obtain ⟨t, ran, noSyms, noNames, isNone⟩ := reset
  rw [bwPeLoad, stateAfter_bind ran, if_neg (not_or.mpr ⟨isModule, by simp [hasPath]⟩), mapped]
  dsimp only
  rw [stateAfter_orLeave]
  exact bwPeFile_holds env module small ((hasHeaders_iff v).mp headers) noSyms noNames
    (by simp [isNone])

/-- The loop looks at the symbols of the reference walk, up to the last one there is
room for, and the load leaves their functions in the order of their addresses,
each with its name. -/
theorem bwPeLoad_symbols {env : Env 64} {module : Nat} (isModule : module ≠ 0)
    (hasPath : noPath (env.path module) = false) (mapped : env.mapFile module = some v)
    (small : v.size < 2 ^ 32) (headers : v.HasHeaders h)
    (pool : nameTotal ((v.functionSymbols h module).take bwPeSymMax) ≤ bwPeNameMax) :
    (∀ s : LoadState, s.globals.nsym = 0 → s.globals.nlen = 0 →
      ∃ seen t, (bwPeStrTab v h >>= bwPeSymbolTable v h module) s = .ok () t ∧
        t.accesses = s.accesses ++ seen ∧
        v.Reads h seen (v.examined h module bwPeSymMax (v.symbols h))) ∧
    ∀ s, (stateAfter (bwPeLoad env module) s).globals.HoldsSymbols
      ((v.functionSymbols h module).take bwPeSymMax) := by
  have accepted := headers_accepted v ((hasHeaders_iff v).mp headers)
  constructor
  · intro s noSyms noNames
    obtain ⟨seenTab, readsTab, ranTab⟩ := bwPeStrTab_run small accepted s
    obtain ⟨seen, t, ran, log, -, reads⟩ := @bwPeSymbolTable_run v h small accepted module
      (s.log seenTab) noSyms noNames
    refine ⟨seenTab ++ seen, t, ?_, ?_, ?_⟩
    · rw [bind_of_ok ranTab, ran]
    · rw [log, LoadState.log_accesses, List.append_assoc]
    · exact readsTab.append (reads pool)
  · intro s
    have all := @taken_fits 0 0 (v.functionSymbols h module)
      (fun pair member => (functionSymbols_names member).1) (by rwa [Nat.zero_add])
    rw [Nat.sub_zero] at all
    rw [← all]
    exact (bwPeLoad_holds isModule hasPath mapped small headers s).1

/-- The headers of `mainFile`. -/
def mainHeaders : PeHeaders := ⟨64, 2, 200, 1, 32, 120⟩

theorem mainFile_headers : (fileView mainFile).HasHeaders mainHeaders :=
  (hasHeaders_iff (fileView mainFile)).mpr (by decide +kernel)

/-- A PE32+ file with `g` at `0x1030`, `f` at `0x1010` and `long_name` at `0x1020` of
the section at `0x1000`, in this order. The record behind `g` is an auxiliary one that
looks like a function, and the one behind `f` is of data. -/
def threeFile : List UInt8 :=
  [0x4d, 0x5a] ++ List.replicate 58 0 ++ [64, 0, 0, 0] ++
  [0x50, 0x45, 0, 0] ++ [0x64, 0x86, 1, 0, 0, 0, 0, 0, 160, 0, 0, 0, 5, 0, 0, 0, 32, 0, 0, 0] ++
  ([0x0b, 0x02] ++ List.replicate 22 0 ++ [0, 0, 0x40, 0, 0, 0, 0, 0]) ++
  ([0x2e, 0x74, 0x65, 0x78, 0x74, 0, 0, 0] ++ [0, 0, 0, 0, 0, 0x10, 0, 0] ++
    List.replicate 24 0) ++
  [0x67, 0, 0, 0, 0, 0, 0, 0, 0x30, 0, 0, 0, 1, 0, 0x20, 0, 2, 1] ++
  [0x78, 0, 0, 0, 0, 0, 0, 0, 0x18, 0, 0, 0, 1, 0, 0x20, 0, 2, 0] ++
  [0x66, 0, 0, 0, 0, 0, 0, 0, 0x10, 0, 0, 0, 1, 0, 0x20, 0, 2, 0] ++
  [0x64, 0, 0, 0, 0, 0, 0, 0, 0x12, 0, 0, 0, 1, 0, 0, 0, 2, 0] ++
  [0, 0, 0, 0, 4, 0, 0, 0, 0x20, 0, 0, 0, 1, 0, 0x20, 0, 2, 0] ++
  ([14, 0, 0, 0] ++ [0x6c, 0x6f, 0x6e, 0x67, 0x5f, 0x6e, 0x61, 0x6d, 0x65, 0])

def threeHeaders : PeHeaders := ⟨64, 1, 160, 5, 32, 120⟩

def threeEnv : Env 64 := { mainEnv with mapFile := fun _ => some (fileView threeFile) }

theorem threeFile_headers : (fileView threeFile).HasHeaders threeHeaders :=
  (hasHeaders_iff (fileView threeFile)).mpr (by decide +kernel)

theorem threeFile_functions : (fileView threeFile).functionSymbols threeHeaders 0x7ff600000000 =
    [(0x7ff600001030, [0x67]), (0x7ff600001010, [0x66]),
      (0x7ff600001020, [0x6c, 0x6f, 0x6e, 0x67, 0x5f, 0x6e, 0x61, 0x6d, 0x65])] := by
  decide +kernel

/-- The auxiliary record is not looked at. -/
theorem bwPeLoad_threeFile :
    (∃ seen t, (bwPeStrTab (fileView threeFile) threeHeaders >>=
        bwPeSymbolTable (fileView threeFile) threeHeaders 0x7ff600000000) freshProcess = .ok () t ∧
      (fileView threeFile).Reads threeHeaders seen [0, 2, 3, 4]) ∧
    (stateAfter (bwPeLoad threeEnv 0x7ff600000000) freshProcess).globals.HoldsSymbols
      [(0x7ff600001030, [0x67]), (0x7ff600001010, [0x66]),
        (0x7ff600001020, [0x6c, 0x6f, 0x6e, 0x67, 0x5f, 0x6e, 0x61, 0x6d, 0x65])] := by
  have pool : nameTotal (((fileView threeFile).functionSymbols threeHeaders 0x7ff600000000).take
      bwPeSymMax) ≤ bwPeNameMax := by
    rw [threeFile_functions]
    decide
  have examined : (fileView threeFile).examined threeHeaders 0x7ff600000000 bwPeSymMax
      ((fileView threeFile).symbols threeHeaders) = [0, 2, 3, 4] := by
    decide +kernel
  obtain ⟨loop, holds⟩ := @bwPeLoad_symbols (fileView threeFile) threeHeaders threeEnv
    0x7ff600000000 (by decide) rfl rfl (by decide +kernel) threeFile_headers pool
  obtain ⟨seen, t, ran, -, reads⟩ := loop freshProcess rfl rfl
  rw [examined] at reads
  have holdsFresh := holds freshProcess
  rw [threeFile_functions] at holdsFresh
  exact ⟨⟨seen, t, ran, reads⟩, holdsFresh⟩

end Load

end Backwalk.Windows
