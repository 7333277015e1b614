import Backwalk.Windows.CoffLoop

/-!
Contract: `bw_pe_find` names the nearest function.

Owns the tables that a load leaves when it returns, in either process and for a
file of any size: the symbols that were taken over, arranged by `qsort`, each with
its name; the answer of a search in them; and when that answer is the name of the
function symbol of the file at the greatest address not above the one asked for.

The table is cut before it is sorted, so what lies beyond the cut is missed for
every address above it, and the last name may be cut too.
-/

namespace Backwalk.Windows

open Backwalk.DwarfLine Backwalk.Support

/-! ### Symbols in the table -/

/-- The symbols with these names, which lie one behind the other from `nlen` on. -/
def placedAt : Nat → List (Nat × List UInt8) → List Sym
  | _, [] => []
  | nlen, (addr, name) :: rest => ⟨addr, nlen⟩ :: placedAt (nlen + name.length + 1) rest

theorem symbols_withSymbols (g : Globals) (pairs : List (Nat × List UInt8)) :
    (g.withSymbols pairs).symbols = g.symbols ++ placedAt g.nlen pairs := by
  induction pairs generalizing g with
  | nil => exact (List.append_nil _).symm
  | cons pair rest inductionHypothesis =>
      rw [withSymbols_cons, inductionHypothesis, symbols_withSymbol, List.append_assoc]
      rfl

theorem nlen_withSymbols (g : Globals) (pairs : List (Nat × List UInt8)) :
    (g.withSymbols pairs).nlen = g.nlen + nameTotal pairs := by
  induction pairs generalizing g with
  | nil => rfl
  | cons pair rest inductionHypothesis =>
      rw [withSymbols_cons, inductionHypothesis, nameTotal_cons, ← Nat.add_assoc, ← Nat.add_assoc]
      rfl

theorem placedAt_eq_nil {nlen : Nat} {pairs : List (Nat × List UInt8)} :
    placedAt nlen pairs = [] ↔ pairs = [] := by
  cases pairs <;> simp [placedAt]

/-- What is taken over fits into the table of names. -/
theorem taken_room {nsym nlen : Nat} (found : List (Nat × List UInt8)) (room : nlen ≤ bwPeNameMax) :
    nlen + nameTotal (taken nsym nlen found) ≤ bwPeNameMax := by
  induction found generalizing nsym nlen with
  | nil => exact room
  | cons pair rest inductionHypothesis =>
      obtain ⟨addr, name⟩ := pair
      rw [taken]
      split_ifs with stop
      · exact room
      · have kept := (not_or.mp stop).2
        have length := List.length_pos_iff.mpr kept
        have short := List.length_take_le (bwPeNameMax - nlen - 1) name
        have later := @inductionHypothesis (nsym + 1)
          (nlen + (name.take (bwPeNameMax - nlen - 1)).length + 1) (by omega)
        rw [nameTotal_cons]
        dsimp only
        omega

/-- The name of a symbol in the table is read back whole. -/
theorem Globals.Is.name {g : Globals} {sym : Sym} {pair : Nat × List UInt8} (is : g.Is sym pair)
    (room : g.nlen ≤ bwPeNameMax) : g.name sym.nameOff = pair.2 := by
  have inUse := is.2.inUse
  rw [Globals.name, cstrFrom_text is.2.chars is.2.ended is.2.noNul (by omega)]
  rfl

/-- The tables hold these symbols, arranged by `symSort`. -/
structure Globals.Holds (g : Globals) (symSort : SymQsort) (pairs : List (Nat × List UInt8)) :
    Prop where
  symbols : g.symbols = symSort.sort (placedAt 0 pairs)
  is : List.Forall₂ g.Is (placedAt 0 pairs) pairs
  room : g.nlen ≤ bwPeNameMax
  state : g.state = .loaded ↔ pairs ≠ []

/-! ### Reading stops at what crashes -/

section Crashes

variable {bits : Nat} (v : View bits)

/-- The process crashed. -/
def Halt.IsCrash (why : Halt) : Prop := why ≠ .leave

instance : StopsFor Halt.IsCrash getGlobals := ⟨fun ended => nomatch ended⟩

instance (f : Globals → Globals) : StopsFor Halt.IsCrash (modifyGlobals f) :=
  ⟨fun ended => nomatch ended⟩

instance (access : Access) : StopsFor Halt.IsCrash (logAccess access) :=
  ⟨fun ended => nomatch ended⟩

instance {α : Type} (why : Stop) : StopsFor Halt.IsCrash (halt (.crash why) : Loader α) where
  reason ended := by
    cases ended
    exact nofun

instance (off n : Nat) : StopsFor Halt.IsCrash (readBytes v off n) := by
  unfold readBytes
  have next : ∀ u : Unit, StopsFor Halt.IsCrash (match v.bytesAt off n with
      | .ok bytes => pure bytes
      | .error last => halt (.crash (.fault (.segv last))) : Loader (List UInt8)) := by
    intro u
    split <;> infer_instance
  infer_instance

instance (off n : Nat) : StopsFor Halt.IsCrash (readUint v off n) := by
  unfold readUint
  infer_instance

instance (off : Nat) : StopsFor Halt.IsCrash (readChar v off) := by unfold readChar; infer_instance

instance (h : PeHeaders) : StopsFor Halt.IsCrash (bwPeStrTab v h) := by
  unfold bwPeStrTab
  infer_instance

instance (h : PeHeaders) (i : Nat) : StopsFor Halt.IsCrash (readSymRecord v h i) := by
  unfold readSymRecord
  infer_instance

instance (h : PeHeaders) (index : Nat) : StopsFor Halt.IsCrash (readSectionHeader v h index) := by
  unfold readSectionHeader
  infer_instance

instance stops_nameChars (n off : Nat) : StopsFor Halt.IsCrash (nameChars v n off) := by
  induction n generalizing off with
  | zero => unfold nameChars; infer_instance
  | succ n inductionHypothesis => unfold nameChars; infer_instance

instance (off srcLen : Nat) : StopsFor Halt.IsCrash (bwPeAddName v off srcLen) := by
  unfold bwPeAddName
  infer_instance

instance (addr nameAt nameLen : Nat) : StopsFor Halt.IsCrash (bwPeNamed v addr nameAt nameLen) := by
  unfold bwPeNamed bwPeAddSym
  infer_instance

instance (h : PeHeaders) (module : Nat) (strTab : StrTab) (i : Nat) (record : SymRecord) :
    StopsFor Halt.IsCrash (bwPeSymbol v h module strTab i record) := by
  unfold bwPeSymbol
  infer_instance

instance stops_bwPeSymbols (h : PeHeaders) (module : Nat) (strTab : StrTab) (fuel i : Nat) :
    StopsFor Halt.IsCrash (bwPeSymbols v h module strTab fuel i) := by
  induction fuel generalizing i with
  | zero => unfold bwPeSymbols; infer_instance
  | succ fuel inductionHypothesis => unfold bwPeSymbols; infer_instance

instance (h : PeHeaders) (module : Nat) (strTab : StrTab) :
    StopsFor Halt.IsCrash (bwPeSymbolTable v h module strTab) := by
  unfold bwPeSymbolTable
  infer_instance

/-- An action that does not leave has answered when the block returns. -/
theorem orLeave_bind {α : Type} {m : Loader α} [stops : StopsFor Halt.IsCrash m]
    {f : α → Loader Unit} {s t : LoadState} (ended : orLeave (m >>= f) s = .ok () t) :
    ∃ a s', m s = .ok a s' ∧ orLeave (f a) s' = .ok () t := by
  cases first : m s with
  | ok a s' =>
      refine ⟨a, s', rfl, ?_⟩
      rw [orLeave, bind_of_ok first] at ended
      exact ended
  | error why s' =>
      have crashed := stops.reason first
      rw [orLeave, bind_of_error first] at ended
      cases why with
      | leave => exact absurd rfl crashed
      | crash why => cases ended

theorem orLeave_of_ok {α : Type} {m : Loader α} {f : α → Loader Unit} {a : α} {s s' : LoadState}
    (ended : m s = .ok a s') : orLeave (m >>= f) s = orLeave (f a) s' := by
  rw [orLeave, bind_of_ok ended, orLeave]

end Crashes

/-! ### A load that returns -/

section Load

variable {bits : Nat} {v : View bits} {h : PeHeaders}

/-- The sort arranges the symbols and touches nothing else of the tables. -/
theorem bwPeSort_arranges (symSort : SymQsort) {s : LoadState}
    (notYet : s.globals.state ≠ .loaded) :
    ∃ t, bwPeSort symSort s = .ok () t ∧ t.globals.symbols = symSort.sort s.globals.symbols ∧
      t.globals.names = s.globals.names ∧ t.globals.nlen = s.globals.nlen ∧
      (t.globals.state = .loaded ↔ s.globals.symbols ≠ []) := by
  have count := length_symbols s.globals
  rw [bwPeSort, bind_of_ok (show getGlobals s = .ok s.globals s from rfl)]
  by_cases some : 0 < s.globals.nsym
  · have length : (symSort.sort s.globals.symbols).length = s.globals.nsym := by
      rw [(symSort.perm _).length_eq, count]
    rw [if_pos some]
    refine ⟨_, rfl, symbols_arranged s.globals length, rfl, rfl, iff_of_true rfl ?_⟩
    exact List.ne_nil_of_length_pos (count ▸ some)
  · have empty : s.globals.symbols = [] := List.eq_nil_of_length_eq_zero (by omega)
    have sorted : symSort.sort [] = [] := List.Perm.eq_nil (symSort.perm [])
    rw [if_neg some, empty]
    exact ⟨s, rfl, empty.trans sorted.symm, rfl, rfl, iff_of_false notYet (not_not.mpr rfl)⟩

/-- What a file leaves in the tables when the work on it comes to an end. -/
theorem bwPeFile_tables {env : Env bits} {module : Nat} (found : v.headers = some h)
    {s t : LoadState} (noSyms : s.globals.nsym = 0) (noNames : s.globals.nlen = 0)
    (notYet : s.globals.state ≠ .loaded)
    (ended : orLeave (bwPeFile env v module) s = .ok () t) :
    t.globals.Holds env.symSort (taken 0 0 (v.met h module)) := by
  have accepted := headers_accepted v found
  obtain ⟨s₀, s₁, s₂, ranHeaders, ranReset, ranBase, begun⟩ := bwPeFile_begins v found s
  rw [bwPeFile, orLeave_of_ok ranHeaders, orLeave_of_ok ranReset, orLeave_of_ok ranBase] at ended
  obtain ⟨strTab, s₃, ranTab, ended⟩ := orLeave_bind ended
  obtain ⟨rfl, logged⟩ := bwPeStrTab_read v ranTab
  obtain ⟨_, s₄, ranTable, ended⟩ := orLeave_bind ended
  have empty : s₃.globals.nsym = 0 ∧ s₃.globals.nlen = 0 ∧ s₃.globals.state ≠ .loaded := by
    rw [logged.globals, begun.nsym, begun.nlen, begun.state]
    exact ⟨noSyms, noNames, notYet⟩
  have table := bwPeSymbolTable_read accepted empty.1 empty.2.1 ranTable
  have noEntries : s₃.globals.symbols = [] := List.eq_nil_of_length_eq_zero
    (by rw [length_symbols, empty.1])
  have nothing : List.Forall₂ s₃.globals.Is s₃.globals.symbols [] := by
    rw [noEntries]
    exact .nil
  have symbols : s₄.globals.symbols = placedAt 0 (taken 0 0 (v.met h module)) := by
    rw [table, symbols_withSymbols, noEntries, empty.2.1, List.nil_append]
  have is : List.Forall₂ s₄.globals.Is (placedAt 0 (taken 0 0 (v.met h module)))
      (taken 0 0 (v.met h module)) := by
    rw [← symbols, table]
    exact is_withSymbols (taken_noNul met_noNul) nothing
  have room : s₄.globals.nlen ≤ bwPeNameMax := by
    rw [table, nlen_withSymbols, empty.2.1]
    exact taken_room _ (Nat.zero_le _)
  have notLoaded : s₄.globals.state ≠ .loaded := by
    rw [table, withSymbols_state]
    exact empty.2.2
  obtain ⟨s₅, ranSort, arranged, names, nlen, isLoaded⟩ := bwPeSort_arranges env.symSort notLoaded
  rw [orLeave_of_ok ranSort] at ended
  have rest : ∀ m : Loader Unit, Develops SameSymbols m → orLeave m s₅ = .ok () t →
      t.globals.Holds env.symSort (taken 0 0 (v.met h module)) := by
    intro m develops ended
    have same : SameSymbols s₅ t := by
      rw [← stateAfter_of_ok ended, stateAfter_orLeave]
      exact develops.after s₅
    have entries : t.globals.symbols = s₅.globals.symbols := by
      rw [Globals.symbols, same.nsym, same.syms, Globals.symbols]
    refine ⟨by rw [entries, arranged, symbols], ?_, ?_, ?_⟩
    · exact is.imp fun _ _ is => is.of_names (same.names.trans names) (same.nlen.trans nlen)
    · rw [same.nlen, nlen]
      exact room
    · rw [same.state, isLoaded, not_iff_not, symbols]
      exact ⟨fun none => placedAt_eq_nil.mp none, fun none => placedAt_eq_nil.mpr none⟩
  exact rest _ inferInstance ended

/-- What a load leaves in the tables when it returns. -/
theorem bwPeLoad_tables {env : Env bits} {module : Nat} (isModule : module ≠ 0)
    (hasPath : noPath (env.path module) = false) (mapped : env.mapFile module = some v)
    (headers : v.HasHeaders h) {s t : LoadState} (ended : bwPeLoad env module s = .ok () t) :
    t.globals.Holds env.symSort (taken 0 0 (v.met h module)) := by
  have reset : ∃ t, bwPeReset module s = .ok () t ∧ t.globals.nsym = 0 ∧ t.globals.nlen = 0 ∧
      t.globals.state = .none := ⟨_, rfl, rfl, rfl, rfl⟩
  obtain ⟨s₁, ran, noSyms, noNames, isNone⟩ := reset
  rw [bwPeLoad, bind_of_ok ran, if_neg (not_or.mpr ⟨isModule, by simp [hasPath]⟩), mapped] at ended
  exact bwPeFile_tables ((hasHeaders_iff v).mp headers) noSyms noNames (by simp [isNone]) ended

/-! ### Another arrangement -/

/-- The line tables are the same. -/
def SameLines (s t : LoadState) : Prop := t.globals.dwarf = s.globals.dwarf

instance : Std.Refl SameLines := ⟨fun _ => rfl⟩

instance (access : Access) : Blind SameLines (logAccess access) := ⟨fun related => ⟨rfl, related⟩⟩

instance (qsort : Qsort) (found : LineSections) : Blind SameLines (bwPeParse v qsort found) where
  agree {s t} related := by
    have same : t.globals.dwarf = s.globals.dwarf := related
    unfold bwPeParse
    refine Agree.ite (fun _ => ⟨rfl, related⟩) fun _ => ?_
    split_ifs with placed
    · rw [bind_of_ok (show getGlobals s = .ok s.globals s from rfl),
        bind_of_ok (show getGlobals t = .ok t.globals t from rfl), same]
      cases bwDwarfTabParse (v.image found.line found.lineStr found.debugStr placed) qsort
          s.globals.dwarf with
      | returned value tab => exact ⟨rfl, rfl⟩
      | crashed why tab => exact ⟨rfl, rfl⟩
    · exact ⟨rfl, related⟩

theorem bwPeSort_sameLines (one two : SymQsort) (s : LoadState) :
    Agree SameLines (bwPeSort one s) (bwPeSort two s) := by
  rw [bwPeSort, bwPeSort, bind_of_ok (show getGlobals s = .ok s.globals s from rfl),
    bind_of_ok (show getGlobals s = .ok s.globals s from rfl)]
  exact Agree.ite (fun _ => ⟨rfl, rfl⟩) fun _ => ⟨rfl, rfl⟩

/-- Whether a load returns does not depend on how the symbols are arranged. -/
theorem bwPeLoad_returns (env : Env bits) (symSort : SymQsort) {module : Nat} {s t : LoadState}
    (ended : bwPeLoad env module s = .ok () t) :
    ∃ t', bwPeLoad { env with symSort := symSort } module s = .ok () t' := by
  have files : ∀ (v : View bits) (s : LoadState), Agree SameLines (bwPeFile env v module s)
      (bwPeFile { env with symSort := symSort } v module s) := by
    intro v s
    unfold bwPeFile
    refine Agree.bind_same fun h s₁ _ => ?_
    refine Agree.bind_same fun _ s₂ _ => ?_
    refine Agree.bind_same fun _ s₃ _ => ?_
    refine Agree.bind_same fun strTab s₄ _ => ?_
    refine Agree.bind_same fun _ s₅ _ => ?_
    refine Agree.bind (bwPeSort_sameLines _ _ s₅) fun _ s₆ t₆ _ related => ?_
    exact Agree.bind (Blind.agree related) fun found s₇ t₇ _ related => Blind.agree related
  have loads : Agree SameLines (bwPeLoad env module s)
      (bwPeLoad { env with symSort := symSort } module s) := by
    unfold bwPeLoad
    refine Agree.bind_same fun _ s₁ _ => ?_
    refine Agree.ite (fun _ => ⟨rfl, rfl⟩) fun _ => ?_
    cases env.mapFile module with
    | none => exact ⟨rfl, rfl⟩
    | some v => exact orLeave_agree (files v s₁)
  obtain ⟨t', ended', -⟩ := loads.ok ended
  exact ⟨t', ended'⟩

end Load

/-! ### The search -/

section Find

variable {g : Globals} {symSort : SymQsort} {pairs : List (Nat × List UInt8)}

/-- A search ends at the last symbol not above the address, unless all are above
it. -/
theorem find_sorted (sorted : g.symbols.Pairwise (KeyLe Sym.addr)) (loaded : g.state = .loaded)
    (ip : Nat) :
    (g.find ip = none ∧ ∀ sym ∈ g.symbols, ip < sym.addr) ∨
      ∃ sym, LastLe Sym.addr g.symbols ip sym ∧ g.find ip = some (g.name sym.nameOff) := by
  have count := length_symbols g
  have keys : ∀ i (inside : i < g.symbols.length), (g.syms i).addr = g.symbols[i].addr := by
    intro i inside
    simp [Globals.symbols]
  have increasing : ∀ i j, i ≤ j → j < g.symbols.length → (g.syms i).addr ≤ (g.syms j).addr := by
    intro i j ordered below
    rcases Nat.eq_or_lt_of_le ordered with rfl | before
    · exact le_refl _
    · rw [keys i (by omega), keys j below]
      exact List.pairwise_iff_getElem.mp sorted i j (by omega) below before
  have found : IsLast (fun i => (g.syms i).addr) ip g.symbols.length _ := searchLe_whole increasing
  rw [← findLoop_eq_searchLe] at found
  rw [Globals.find, if_neg (not_not.mpr loaded), ← count]
  cases ended : findLoop g.syms ip g.symbols.length 0 g.symbols.length none with
  | none =>
      rw [ended] at found
      exact Or.inl ⟨rfl, above_of_isLast_none Sym.addr keys found⟩
  | some best =>
      rw [ended] at found
      have below := found.1
      refine Or.inr ⟨g.symbols[best], lastLe_of_isLast Sym.addr below keys found, ?_⟩
      simp [Globals.symbols]

theorem addr_placedAt (nlen : Nat) (pairs : List (Nat × List UInt8)) :
    (placedAt nlen pairs).map Sym.addr = pairs.map Prod.fst := by
  induction pairs generalizing nlen with
  | nil => rfl
  | cons pair rest inductionHypothesis =>
      rw [placedAt, List.map_cons, List.map_cons, inductionHypothesis]

theorem length_placedAt (nlen : Nat) (pairs : List (Nat × List UInt8)) :
    (placedAt nlen pairs).length = pairs.length := by
  have keys := congrArg List.length (addr_placedAt nlen pairs)
  rwa [List.length_map, List.length_map] at keys

/-- A symbol is at the top when what it stands for is. -/
theorem atTop_placedAt {ip k : Nat} (here : k < (placedAt 0 pairs).length)
    (there : k < pairs.length) :
    AtTop Sym.addr (placedAt 0 pairs) ip (placedAt 0 pairs)[k] ↔
      AtTop Prod.fst pairs ip pairs[k] := by
  have keys := addr_placedAt 0 pairs
  have key : ((placedAt 0 pairs)[k]).addr = pairs[k].1 := by
    have both : ((placedAt 0 pairs).map Sym.addr)[k]? = (pairs.map Prod.fst)[k]? := by rw [keys]
    simpa [here, there] using both
  rw [atTop_iff_keys Sym.addr, atTop_iff_keys Prod.fst, keys, key]
  exact and_congr_left fun _ => iff_of_true (List.getElem_mem here) (List.getElem_mem there)

theorem Globals.Holds.name (holds : g.Holds symSort pairs) {k : Nat}
    (here : k < (placedAt 0 pairs).length) (there : k < pairs.length) :
    g.name ((placedAt 0 pairs)[k]).nameOff = pairs[k].2 :=
  Globals.Is.name (holds.is.get here there) holds.room

theorem Globals.Holds.sorted (holds : g.Holds symSort pairs) :
    g.symbols.Pairwise (KeyLe Sym.addr) := by
  rw [holds.symbols]
  exact symSort.sorted _

/-- A name that is found is that of a symbol at the top. -/
theorem Globals.Holds.found (holds : g.Holds symSort pairs) {ip : Nat} {name : List UInt8}
    (found : g.find ip = some name) : ∃ pair, AtTop Prod.fst pairs ip pair ∧ pair.2 = name := by
  have loaded : g.state = .loaded := by
    by_contra other
    rw [Globals.find, if_pos other] at found
    cases found
  rcases find_sorted holds.sorted loaded ip with ⟨missing, -⟩ | ⟨sym, last, answer⟩
  · rw [missing] at found
    cases found
  · have top := last.atTop Sym.addr holds.sorted
    rw [holds.symbols] at top
    have placed := top.of_perm Sym.addr (symSort.perm _)
    obtain ⟨k, here, rfl⟩ := List.mem_iff_getElem.mp placed.mem
    have there : k < pairs.length := length_placedAt 0 pairs ▸ here
    refine ⟨pairs[k], (atTop_placedAt here there).mp placed, ?_⟩
    rw [← holds.name here there]
    exact Option.some_inj.mp (answer.symm.trans found)

/-- The `qsort` that arranges these symbols so. -/
def SymQsort.pinned {items arranged : List Sym}
    (arrangement : Arrangement Sym.addr items arranged) : SymQsort where
  sort syms := if syms = items then arranged else syms.insertionSort (KeyLe Sym.addr)
  perm others := (arrangement.pinned _ others).perm
  sorted others := (arrangement.pinned _ others).sorted

/-- Each symbol at the top is found after some sort. -/
theorem exists_sort_found {ip : Nat} {pair : Nat × List UInt8}
    (top : AtTop Prod.fst pairs ip pair) :
    ∃ symSort : SymQsort, ∀ g : Globals, g.Holds symSort pairs → g.find ip = some pair.2 := by
  obtain ⟨k, there, rfl⟩ := List.mem_iff_getElem.mp top.mem
  have here : k < (placedAt 0 pairs).length := (length_placedAt 0 pairs).symm ▸ there
  have placed := (atTop_placedAt here there).mpr top
  obtain ⟨before, after, arrangement, later⟩ := Arrangement.exists_last Sym.addr placed
  refine ⟨.pinned arrangement, ?_⟩
  intro g holds
  have symbols : g.symbols = before ++ (placedAt 0 pairs)[k] :: after :=
    holds.symbols.trans (if_pos rfl)
  have isLast : LastLe Sym.addr g.symbols ip (placedAt 0 pairs)[k] :=
    ⟨placed.notAbove, before, after, symbols, later⟩
  have loaded : g.state = .loaded := holds.state.mpr (List.ne_nil_of_mem top.mem)
  rcases find_sorted holds.sorted loaded ip with ⟨-, above⟩ | ⟨sym, last, answer⟩
  · exact absurd (above _ (symbols ▸ by simp)) (not_lt_of_ge placed.notAbove)
  · rw [answer, last.unique Sym.addr isLast, holds.name here there]

end Find

/-! ### Names -/

section Names

variable {bits : Nat} {v : View bits} {h : PeHeaders} {env : Env bits} {module : Nat}

/-- Whatever was asked before, a name that is found for `ip` is that of a function
symbol of the file whose address is the greatest not above `ip`. -/
def NamesNearest (env : Env bits) (v : View bits) (h : PeHeaders) (module ip : Nat) : Prop :=
  ∀ s, Reachable env s → ∀ name,
    verdict (answer env (.find module ip) s) = .ok (.name (some name)) →
      ∃ pair, AtTop Prod.fst (v.functionSymbols h module) ip pair ∧ pair.2 = name

theorem find_answer (isModule : module ≠ 0) {loaded : LoadState}
    (ended : bwPeLoad env module freshProcess = .ok () loaded) (ip : Nat) {s : LoadState}
    (reachable : Reachable env s) :
    verdict (answer env (.find module ip) s) = .ok (.name (loaded.globals.find ip)) := by
  have there : bwPeEnsure env module freshProcess = .ok () loaded :=
    (bwPeEnsure_fresh env isModule).trans ended
  rw [answer_warm_eq reachable.warm, answer_eq, if_neg (show (Query.find module ip).module ≠ 0 from
    isModule),
    bind_of_ok (show bwPeEnsure env (Query.find module ip).module freshProcess = _ from there)]
  rfl

/-- Names are found as the file has them, for whatever arrangement of equal
addresses, exactly when each symbol that is nearest among those taken over has
the whole name of one that is nearest among all. -/
theorem bwPeFind_nearest_iff (isModule : module ≠ 0) (hasPath : noPath (env.path module) = false)
    (mapped : env.mapFile module = some v) (headers : v.HasHeaders h) {loaded : LoadState}
    (returns : bwPeLoad env module freshProcess = .ok () loaded) (ip : Nat) :
    (∀ symSort, NamesNearest { env with symSort := symSort } v h module ip) ↔
      ∀ pair, AtTop Prod.fst (taken 0 0 (v.met h module)) ip pair →
        ∃ whole, AtTop Prod.fst (v.functionSymbols h module) ip whole ∧ whole.2 = pair.2 := by
  have loads : ∀ symSort : SymQsort, ∃ t : LoadState,
      bwPeLoad { env with symSort := symSort } module freshProcess = .ok () t ∧
        t.globals.Holds symSort (taken 0 0 (v.met h module)) := by
    intro symSort
    obtain ⟨t, ended⟩ := bwPeLoad_returns env symSort returns
    exact ⟨t, ended, @bwPeLoad_tables bits v h { env with symSort := symSort } module
      isModule hasPath mapped headers freshProcess t ended⟩
  constructor
  · intro nearest pair top
    obtain ⟨symSort, finds⟩ := exists_sort_found top
    obtain ⟨t, ended, holds⟩ := loads symSort
    apply nearest symSort freshProcess (reachable_freshProcess _)
    rw [find_answer isModule ended ip (reachable_freshProcess _), finds t.globals holds]
  · intro kept symSort s reachable name answered
    obtain ⟨t, ended, holds⟩ := loads symSort
    rw [find_answer isModule ended ip reachable] at answered
    cases found : t.globals.find ip with
    | none =>
        rw [found] at answered
        cases answered
    | some other =>
        rw [found] at answered
        cases answered
        obtain ⟨pair, top, rfl⟩ := holds.found found
        exact kept pair top

end Names

/-- Of three functions, the nearest is the last one in the file, and nothing is cut. -/
theorem threeFile_nearest :
    verdict (answer threeEnv (.find 0x7ff600000000 0x7ff600001024) freshProcess) =
        .ok (.name (some [0x6c, 0x6f, 0x6e, 0x67, 0x5f, 0x6e, 0x61, 0x6d, 0x65])) ∧
      NamesNearest threeEnv (fileView threeFile) threeHeaders 0x7ff600000000 0x7ff600001024 := by
  obtain ⟨loaded, returns, -⟩ : ∃ loaded,
      bwPeLoad threeEnv 0x7ff600000000 freshProcess = .ok () loaded ∧
        loaded.globals.imageBase ≠ 0 :=
    loads_of_base (by decide +kernel)
  have accepted := headers_accepted _ ((hasHeaders_iff _).mp threeFile_headers)
  have met : (fileView threeFile).met threeHeaders 0x7ff600000000 = _ :=
    (met_small (by decide +kernel) accepted _).trans threeFile_functions
  constructor
  · have found : (stateAfter (bwPeLoad threeEnv 0x7ff600000000) freshProcess).globals.find
        0x7ff600001024 = some [0x6c, 0x6f, 0x6e, 0x67, 0x5f, 0x6e, 0x61, 0x6d, 0x65] := by
      decide +kernel
    rw [stateAfter_of_ok returns] at found
    rw [find_answer (by decide) returns _ (reachable_freshProcess _), found]
  · refine (bwPeFind_nearest_iff (by decide) rfl rfl threeFile_headers returns _).mpr ?_
      threeEnv.symSort
    rw [met, threeFile_functions]
    intro pair top
    exact ⟨pair, top, rfl⟩

/-! ### A name that does not fit -/

/-- Any two states. -/
def Unrelated (_ _ : LoadState) : Prop := True

instance (access : Access) : Blind Unrelated (logAccess access) := ⟨fun _ => ⟨rfl, trivial⟩⟩

/-- What the loop over the sections begins with. -/
def noSections : LineSections := ⟨⟨0, 0⟩, ⟨0, 0⟩, ⟨0, 0⟩⟩

/-- A load of a file below 4 GiB without line sections returns. -/
theorem bwPeLoad_noLines {env : Env 64} {v : View 64} {h : PeHeaders} {module : Nat}
    (isModule : module ≠ 0) (hasPath : noPath (env.path module) = false)
    (mapped : env.mapFile module = some v) (small : v.size < 2 ^ 32) (found : v.headers = some h)
    (noLines : verdict (bwPeSections v h (v.strTab h) h.nsec 0 noSections freshProcess) =
      .ok noSections) (s : LoadState) :
    ∃ t, bwPeLoad env module s = .ok () t := by
  have accepted := headers_accepted v found
  obtain ⟨s₁, ranReset, noSyms, noNames⟩ : ∃ t, bwPeReset module s = .ok () t ∧
      t.globals.nsym = 0 ∧ t.globals.nlen = 0 := ⟨_, rfl, rfl, rfl⟩
  obtain ⟨seen, ranHeaders, -⟩ := bwPeHeaders_run v s₁
  rw [found, orBreak] at ranHeaders
  obtain ⟨s₂, ranLines⟩ : ∃ t, bwPeResetLines (s₁.log seen) = .ok () t := ⟨_, rfl⟩
  obtain ⟨s₃, ranBase⟩ := bwPeImageBase_run v accepted s₂
  obtain ⟨seenTab, -, ranTab⟩ := bwPeStrTab_run small accepted s₃
  have begun : SameSymbols s₁ (s₃.log seenTab) := trans_of SameSymbols
    (trans_of SameSymbols (same_log s₁ seen) (Develops.ok ranLines))
    (trans_of SameSymbols (Develops.ok ranBase) (same_log s₃ seenTab))
  obtain ⟨-, s₄, ranTable, -⟩ := @bwPeSymbolTable_run v h small accepted module
    (s₃.log seenTab) (begun.nsym.trans noSyms) (begun.nlen.trans noNames)
  obtain ⟨s₅, ranSort⟩ : ∃ t, bwPeSort env.symSort s₄ = .ok () t := by
    rw [bwPeSort, bind_of_ok (show getGlobals s₄ = .ok s₄.globals s₄ from rfl)]
    split_ifs
    · exact ⟨_, rfl⟩
    · exact ⟨_, rfl⟩
  obtain ⟨s₆, ranSections⟩ : ∃ t, bwPeSections v h (v.strTab h) h.nsec 0 noSections s₅ =
      .ok noSections t := by
    have agree := Blind.agree (R := Unrelated)
      (m := bwPeSections v h (v.strTab h) h.nsec 0 noSections)
      (show Unrelated freshProcess s₅ from trivial)
    cases ended : bwPeSections v h (v.strTab h) h.nsec 0 noSections freshProcess with
    | ok sections t =>
        rw [ended] at noLines
        cases noLines
        obtain ⟨t', ended', -⟩ := agree.ok ended
        exact ⟨t', ended'⟩
    | error why t =>
        rw [ended] at noLines
        cases noLines
  have file : bwPeFile env v module s₁ = .ok () s₆ := by
    rw [bwPeFile, bind_of_ok ranHeaders, bind_of_ok ranLines, bind_of_ok ranBase, bind_of_ok ranTab,
      bind_of_ok ranTable, bind_of_ok ranSort]
    exact bind_of_ok ranSections
  refine ⟨s₆, ?_⟩
  rw [bwPeLoad, bind_of_ok ranReset, if_neg (not_or.mpr ⟨isModule, by simp [hasPath]⟩), mapped]
  dsimp only
  rw [orLeave, file]

/-- A name of one character over and over. -/
theorem upToNul_slice_replicate {bits : Nat} (v : View bits) {c : UInt8} (nonzero : c ≠ 0)
    (n off : Nat) (bytes : ∀ i, v.byte (off + i) = ((List.replicate n c ++ [0])[i]?).getD 0) :
    upToNul (v.slice off (n + 1)) = List.replicate n c := by
  induction n generalizing off with
  | zero =>
      have nul : v.byte off = 0 := bytes 0
      rw [v.slice_succ, nul, upToNul_cons_nul, List.replicate_zero]
  | succ n inductionHypothesis =>
      have first : v.byte off = c := bytes 0
      rw [v.slice_succ, first, upToNul_cons_ne _ nonzero, List.replicate_succ,
        inductionHypothesis (off + 1)]
      intro i
      rw [Nat.add_assoc, Nat.add_comm 1, bytes, List.replicate_succ, List.cons_append,
        List.getElem?_cons_succ]

/-- A file with two functions. The name of the first, at `0x1010`, takes 256 KiB;
the second is `b` at `0x1020`. It has one section, without data. -/
def longNameFront : List UInt8 :=
  [0x4d, 0x5a] ++ List.replicate 58 0 ++ [64, 0, 0, 0] ++
  [0x50, 0x45, 0, 0] ++ [0x64, 0x86, 1, 0, 0, 0, 0, 0, 128, 0, 0, 0, 2, 0, 0, 0, 0, 0, 0, 0] ++
  ([0x2e, 0x74, 0x65, 0x78, 0x74, 0, 0, 0] ++ [0, 0, 0, 0, 0, 0x10, 0, 0] ++
    List.replicate 24 0) ++
  [0, 0, 0, 0, 4, 0, 0, 0, 0x10, 0, 0, 0, 1, 0, 0x20, 0, 2, 0] ++
  [0x62, 0, 0, 0, 0, 0, 0, 0, 0x20, 0, 0, 0, 1, 0, 0x20, 0, 2, 0] ++
  [5, 0, 4, 0]

/-- The bytes of the file, with the string table at the end. -/
def longNameFile : List UInt8 := longNameFront ++ (List.replicate (256 * 1024) 0x61 ++ [0])

theorem longNameFront_length : longNameFront.length = 168 := by decide +kernel

theorem longNameFile_length : longNameFile.length = 262313 := by
  rw [longNameFile, List.length_append, longNameFront_length, List.length_append,
    List.length_replicate, List.length_singleton]

def longNameView : View 64 where
  mem := memAt 0x10000 longNameFile
  base := 0x10000
  size := 262313
  width := wide
  mapped := viewBase_mapped
  placed := by
    have placed := memAt_placed longNameFile
    rwa [longNameFile_length] at placed

def longNameHeaders : PeHeaders := ⟨64, 1, 128, 2, 0, 88⟩

/-- Every module is that file. -/
def longNameEnv : Env 64 where
  path _ := some [0x61]
  mapFile _ := some longNameView
  symSort := symInsertionSort
  qsort := stableQsort

theorem longNameView_headers : longNameView.headers = some longNameHeaders := by
  decide +kernel

theorem longNameView_byte (i : Nat) :
    longNameView.byte (168 + i) =
      ((List.replicate (256 * 1024) 0x61 ++ [0])[i]?).getD (0 : UInt8) := by
  have front := longNameFront_length
  have there : longNameView.mem (longNameView.base + (168 + i)) = longNameFile[168 + i]? := by
    change (if 0x10000 ≤ 0x10000 + (168 + i) then longNameFile[0x10000 + (168 + i) - 0x10000]?
      else none) = _
    rw [if_pos (by omega), Nat.add_sub_cancel_left]
  rw [View.byte, there, longNameFile, List.getElem?_append_right (by omega), front,
    Nat.add_sub_cancel_left]

theorem longNameView_functions : longNameView.functionSymbols longNameHeaders 0x7ff600000000 =
    [(0x7ff600001010, List.replicate (256 * 1024) 0x61), (0x7ff600001020, [0x62])] := by
  have symbols : longNameView.symbols longNameHeaders = [0, 1] := by decide +kernel
  have strTab : longNameView.strTab longNameHeaders = ⟨164, 262149⟩ := by decide +kernel
  have second : longNameView.functionSymbol longNameHeaders 0x7ff600000000 1 =
      some (0x7ff600001020, [0x62]) := by
    decide +kernel
  have record : longNameView.symRecord longNameHeaders 0 = ⟨0x10, 1, 0x20, 0⟩ := by decide +kernel
  have addr : longNameView.symbolAddr longNameHeaders 0x7ff600000000 ⟨0x10, 1, 0x20, 0⟩ =
      0x7ff600001010 := by
    decide +kernel
  have isLong : longNameView.uint (recordAt longNameHeaders 0) 4 = 0 := by decide +kernel
  have longOff : longNameView.uint (recordAt longNameHeaders 0 + 4) 4 = 4 := by decide +kernel
  have text := upToNul_slice_replicate longNameView (show (0x61 : UInt8) ≠ 0 by decide)
    (256 * 1024) 168 longNameView_byte
  have name : longNameView.symbolName longNameHeaders 0 =
      some (List.replicate (256 * 1024) 0x61) := by
    rw [View.symbolName, if_pos isLong, longOff, strTab]
    exact congrArg some text
  have wanted : wantedName (List.replicate (256 * 1024) 0x61) = true := by
    rw [show 256 * 1024 = 262143 + 1 from rfl, List.replicate_succ]
    rfl
  have first : longNameView.functionSymbol longNameHeaders 0x7ff600000000 0 =
      some (0x7ff600001010, List.replicate (256 * 1024) 0x61) := by
    rw [View.functionSymbol, record, name, Option.filter_some, wanted, addr]
    rfl
  rw [View.functionSymbols, symbols, List.filterMap_cons_some first,
    List.filterMap_cons_some second, List.filterMap_nil]

/-- Of the long name 262143 characters are taken over, and then there is no room
for the second name. -/
theorem longNameView_taken : taken 0 0 (longNameView.met longNameHeaders 0x7ff600000000) =
    [(0x7ff600001010, List.replicate 262143 0x61)] := by
  have met := met_small (show longNameView.size < 2 ^ 32 by decide +kernel)
    (headers_accepted _ longNameView_headers) 0x7ff600000000
  have kept : (List.replicate (256 * 1024) (0x61 : UInt8)).take (bwPeNameMax - 0 - 1) =
      List.replicate 262143 0x61 := by
    rw [List.take_replicate]
    rfl
  have some : List.replicate 262143 (0x61 : UInt8) ≠ [] := List.ne_nil_of_length_pos (by
    rw [List.length_replicate]
    decide)
  have full : bwPeNameMax - (0 + (List.replicate 262143 (0x61 : UInt8)).length + 1) - 1 = 0 := by
    rw [List.length_replicate]
    rfl
  rw [met, longNameView_functions, taken, kept, if_neg (not_or.mpr ⟨by decide, some⟩), taken, full,
    List.take_zero, if_pos (Or.inr rfl)]

/-- Asked for the second function, the search answers with what is left of the
name of the first. -/
theorem longNameFile_mistaken :
    ¬ ∀ symSort, NamesNearest { longNameEnv with symSort := symSort } longNameView longNameHeaders
      0x7ff600000000 0x7ff600001020 := by
  intro nearest
  obtain ⟨loaded, returns⟩ := @bwPeLoad_noLines longNameEnv longNameView longNameHeaders
    0x7ff600000000 (by decide) rfl rfl (by decide +kernel) longNameView_headers (by decide +kernel)
    freshProcess
  have kept :=
    (bwPeFind_nearest_iff (by decide) rfl rfl ((hasHeaders_iff _).mpr longNameView_headers)
    returns _).mp nearest
  rw [longNameView_taken, longNameView_functions] at kept
  obtain ⟨whole, top, name⟩ := kept (0x7ff600001010, List.replicate 262143 0x61)
    ⟨List.mem_singleton_self _, by decide, fun other member _ => by
      rw [List.mem_singleton.mp member]⟩
  have length := congrArg List.length name
  rw [List.length_replicate] at length
  rcases List.mem_cons.mp top.mem with rfl | second
  · rw [List.length_replicate] at length
    omega
  · rw [List.mem_singleton.mp second, List.length_singleton] at length
    omega

end Backwalk.Windows
