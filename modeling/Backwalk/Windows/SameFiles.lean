import Backwalk.Windows.ClosedFiles

/-!
Contract: one file in two memories.

Two views show the same bytes at the same place, and around these their memories
may differ. Owns that a load of a file that keeps it inside takes the very same
steps in both, function by function, and with it that what is around the files of
a process shows in none of its calls.
-/

namespace Backwalk.Windows

open Backwalk.DwarfLine Backwalk.Support Backwalk.Walk

/-! ### Reads -/

section Reads

variable {bits : Nat} {v : View bits} {mem : Nat → Option UInt8}

/-- Memory with the bytes of the file. -/
def View.Shows (v : View bits) (mem : Nat → Option UInt8) : Prop :=
  ∀ off < v.size, mem (v.base + off) = v.mem (v.base + off)

/-- The file in other memory. -/
def View.around (v : View bits) (mem : Nat → Option UInt8) (shows : v.Shows mem) : View bits where
  mem := mem
  base := v.base
  size := v.size
  width := v.width
  mapped := v.mapped
  placed := v.placed.same fun _ => shows

variable {shows : v.Shows mem} {off n : Nat}

@[simp]
theorem View.around_size : (v.around mem shows).size = v.size := rfl

theorem around_slice (inside : off + n ≤ v.size) :
    (v.around mem shows).slice off n = v.slice off n := by
  unfold View.slice
  refine List.map_congr_left fun i member => ?_
  have below := List.mem_range.mp member
  exact congrArg (Option.getD · 0) (shows (off + i) (by omega))

theorem readBytes_around (inside : off + n ≤ v.size) :
    readBytes (v.around mem shows) off n = readBytes v off n := by
  funext s
  rw [readBytes_inside (v.around mem shows) inside, readBytes_inside v inside, around_slice inside]
  rfl

theorem readUint_around (inside : off + n ≤ v.size) :
    readUint (v.around mem shows) off n = readUint v off n := by
  rw [readUint, readUint, readBytes_around inside]

theorem readChar_around (inside : off < v.size) :
    readChar (v.around mem shows) off = readChar v off := by
  rw [readChar, readChar, readUint_around inside]

end Reads

/-! ### Headers -/

section Headers

variable {bits : Nat} {v : View bits} {mem : Nat → Option UInt8} {shows : v.Shows mem}
  {h : PeHeaders}

theorem bwPeFileHeader_around {lfanew : Nat} (inside : lfanew + 4 + fileHeaderSize ≤ v.size) :
    bwPeFileHeader (v.around mem shows) lfanew = bwPeFileHeader v lfanew := by
  rw [bwPeFileHeader, bwPeFileHeader, readBytes_around inside]
  rfl

theorem bwPeHeaders_around : bwPeHeaders (v.around mem shows) = bwPeHeaders v := by
  rw [bwPeHeaders, bwPeHeaders, View.around_size]
  split_ifs with dosFits
  · rfl
  rw [readBytes_around (by omega)]
  refine bind_congr fun dos => ?_
  dsimp only
  split_ifs with marked fileFits
  · rfl
  · rfl
  have sum : sizeT bits (field dos 60 4 + 4 + fileHeaderSize) =
      field dos 60 4 + 4 + fileHeaderSize := by
    apply v.sizeT_small
    unfold fileHeaderSize
    omega
  rw [sum] at fileFits
  rw [readUint_around (by omega)]
  refine bind_congr fun signature => ?_
  rw [bwPeFileHeader_around (by omega)]

theorem bwPeImageBase_around (accepted : h.Accepted v) :
    bwPeImageBase (v.around mem shows) h = bwPeImageBase v h := by
  have secOff := accepted.secOff
  have sections := accepted.sections
  have nsecPositive := accepted.nsecPositive
  unfold sectionHeaderSize at sections
  rw [bwPeImageBase, bwPeImageBase]
  split_ifs with optional
  · rw [readUint_around (by omega)]
    refine bind_congr fun magic => ?_
    split_ifs with isWide isNarrow
    · rw [readUint_around (by omega)]
    · rw [readUint_around (by omega)]
    · rfl
  · rfl

theorem readSectionHeader_around (accepted : h.Accepted v) {index : Nat}
    (inTable : index < h.nsec) :
    readSectionHeader (v.around mem shows) h index = readSectionHeader v h index := by
  have sections := accepted.sections
  rw [readSectionHeader, readSectionHeader, readBytes_around]
  unfold sectionHeaderSize at *
  omega

end Headers

/-! ### Symbols -/

section Symbols

variable {v : View 64} {mem : Nat → Option UInt8} {shows : v.Shows mem} {h : PeHeaders}

theorem bwPeStrTab_around (small : v.size < 2 ^ 32) (accepted : h.Accepted v) :
    bwPeStrTab (v.around mem shows) h = bwPeStrTab v h := by
  have symOff := accepted.symOff
  have nsym := accepted.nsym
  have sum : sizeT 64 (h.symOff + h.nsym * bwCoffSymSize + 4) =
      h.symOff + h.nsym * bwCoffSymSize + 4 := by
    apply sizeT_wide
    unfold bwCoffSymSize
    omega
  rw [bwPeStrTab, bwPeStrTab, View.around_size, sum]
  split_ifs with there
  · have off : dword (h.symOff + h.nsym * bwCoffSymSize) = h.symOff + h.nsym * bwCoffSymSize :=
      Nat.mod_eq_of_lt (by omega)
    dsimp only
    rw [off, readUint_around there.2.2]
  · rfl

theorem nameChars_around {n off : Nat} (inside : off + n ≤ v.size) :
    nameChars (v.around mem shows) n off = nameChars v n off := by
  induction n generalizing off with
  | zero => rfl
  | succ n inductionHypothesis =>
      rw [nameChars, nameChars, readChar_around (by omega), inductionHypothesis (by omega)]

theorem bwPeAddName_around {off srcLen : Nat} (inside : off + srcLen ≤ v.size) :
    bwPeAddName (v.around mem shows) off srcLen = bwPeAddName v off srcLen := by
  funext s
  have within : addNameLen s.globals.nlen srcLen ≤ srcLen := by
    unfold addNameLen
    split_ifs <;> omega
  rw [bwPeAddName_run, bwPeAddName_run, nameChars_around (by omega)]

theorem bwPeNamed_around {addr nameAt nameLen : Nat} (positive : 0 < nameLen)
    (inside : nameAt + nameLen ≤ v.size) :
    bwPeNamed (v.around mem shows) addr nameAt nameLen = bwPeNamed v addr nameAt nameLen := by
  rw [bwPeNamed, bwPeNamed, readChar_around (by omega), bwPeAddName_around inside]

theorem readSymRecord_around (file : v.SmallFile h) {i : Nat} (inTable : i < h.nsym) :
    readSymRecord (v.around mem shows) h i = readSymRecord v h i := by
  have inside := file.record inTable
  unfold recordAt bwCoffSymSize at inside
  rw [readSymRecord, readSymRecord, file.recordOff inTable]
  unfold recordAt bwCoffSymSize
  rw [readUint_around (by omega), readUint_around (by omega), readUint_around (by omega),
    readUint_around (by omega)]

theorem bwPeSymbol_around (file : v.SmallFile h) {module i : Nat} (inTable : i < h.nsym)
    (record : SymRecord) :
    bwPeSymbol (v.around mem shows) h module (v.strTab h) i record =
      bwPeSymbol v h module (v.strTab h) i record := by
  have inside := file.record inTable
  have strings := strTab_inFile v h
  rw [bwPeSymbol, bwPeSymbol]
  split_ifs with noSection notFcn
  · rfl
  · rfl
  obtain ⟨low, high⟩ := (noSection_iff file.accepted.nsecSmall record).mp (by simpa using noSection)
  rw [readSectionHeader_around file.accepted (by omega)]
  refine bind_congr fun sh => ?_
  dsimp only
  rw [file.recordOff inTable]
  unfold recordAt bwCoffSymSize at *
  rw [readUint_around (by omega)]
  refine bind_congr fun inline => ?_
  split_ifs with inTable'
  · rw [readUint_around (by omega)]
    refine bind_congr fun longOff => ?_
    split_ifs with outside
    · rfl
    · exact bwPeNamed_around (by omega) (by omega)
  · exact bwPeNamed_around (by decide) (by omega)

theorem bwPeSymbols_around (file : v.SmallFile h) {module fuel i : Nat} :
    bwPeSymbols (v.around mem shows) h module (v.strTab h) fuel i =
      bwPeSymbols v h module (v.strTab h) fuel i := by
  induction fuel generalizing i with
  | zero => rfl
  | succ fuel inductionHypothesis =>
      rw [bwPeSymbols, bwPeSymbols]
      refine bind_congr fun g => ?_
      split_ifs with more
      · rw [readSymRecord_around file more.1]
        refine bind_congr fun record => ?_
        rw [bwPeSymbol_around file more.1, inductionHypothesis]
      · rfl

theorem bwPeSymbolTable_around (small : v.size < 2 ^ 32) (accepted : h.Accepted v) (module : Nat) :
    bwPeSymbolTable (v.around mem shows) h module (v.strTab h) =
      bwPeSymbolTable v h module (v.strTab h) := by
  rw [bwPeSymbolTable, bwPeSymbolTable, View.around_size, sizeT_records accepted]
  split_ifs with there
  · exact bwPeSymbols_around ⟨small, accepted, there.2.2⟩
  · rfl

end Symbols

/-! ### Line sections -/

section Sections

variable {v : View 64} {mem : Nat → Option UInt8} {shows : v.Shows mem} {h : PeHeaders}

/-- Characters are read alike up to a NUL. -/
theorem sectionChars_same {charAt charAt' : Nat → Loader UInt8} {last : Nat}
    (same : ∀ i ≤ last, charAt i = charAt' i)
    (ends : ∀ s c t, charAt' last s = .ok c t → c = 0) (inHeader : Bool) (outLen : Nat)
    {fuel i : Nat} (before : i ≤ last) :
    sectionChars charAt inHeader outLen fuel i = sectionChars charAt' inHeader outLen fuel i := by
  induction fuel generalizing i with
  | zero => rfl
  | succ fuel inductionHypothesis =>
      rw [sectionChars, sectionChars]
      split_ifs with room
      · funext s
        refine bind_eq_bind (congrFun (same i before) s) fun c t read => ?_
        by_cases isLast : i = last
        · subst isLast
          have nul : c = 0 := ends s c t read
          rw [if_neg fun more => more.1 nul, if_neg fun more => more.1 nul]
        · rw [inductionHypothesis (by omega)]
      · rfl

/-- A name that ends is read alike. -/
theorem bwSectionName_around {sh : SectionHeader} {strTab : StrTab}
    (inFile : strTab.off + strTab.size ≤ v.size) (ends : NameEnds v sh strTab) (outLen : Nat) :
    bwSectionName (v.around mem shows) sh strTab outLen = bwSectionName v sh strTab outLen := by
  funext s
  rw [bwSectionName, bwSectionName]
  refine bind_eq_bind rfl fun found t ran => ?_
  obtain ⟨seen, placed, -⟩ := sectionNameOff_run sh strTab s
  rw [placed] at ran
  cases ran
  cases place : sh.placeIn strTab with
  | none => rfl
  | some off =>
      have below := placeIn_lt place
      have nul : 0 ∈ v.slice (strTab.off + off) (strTab.size - off) := by
        have member := ends.resolve_left (by simp [place])
        rwa [nameSource, place] at member
      obtain ⟨last, inside, isNul⟩ := List.mem_map.mp nul
      have before := List.mem_range.mp inside
      dsimp only
      refine congrFun (@sectionChars_same _ _ last (fun i le => readChar_around (by omega))
        (fun s c t read => ?_) false outLen outLen 0 (Nat.zero_le _)) _
      rw [readChar_inside v (by omega)] at read
      cases read
      exact isNul

theorem bwPeSections_around (accepted : h.Accepted v)
    (named : ∀ index < h.nsec, NameEnds v (v.sectionHeader h index) (v.strTab h)) {n index : Nat}
    (inTable : index + n ≤ h.nsec) {found : LineSections} :
    bwPeSections (v.around mem shows) h (v.strTab h) n index found =
      bwPeSections v h (v.strTab h) n index found := by
  induction n generalizing index found with
  | zero => rfl
  | succ n inductionHypothesis =>
      have sections := accepted.sections
      have inside : h.secOff + index * sectionHeaderSize + sectionHeaderSize ≤ v.size := by
        unfold sectionHeaderSize at *
        omega
      funext s
      rw [bwPeSections, bwPeSections, readSectionHeader_around accepted (by omega)]
      refine bind_eq_bind rfl fun sh t read => ?_
      have isHeader : sh = v.sectionHeader h index := by
        rw [readSectionHeader, bind_of_ok (readBytes_inside v inside)] at read
        cases read
        rfl
      rw [isHeader, bwSectionName_around (strTab_inFile v h) (named index (by omega))]
      refine bind_eq_bind rfl fun name u _ => ?_
      simp only [inductionHypothesis (show index + 1 + n ≤ h.nsec by omega)]
      rfl

theorem lineImage_shows (shows : v.Shows mem) : SameBytes (v.lineImage h) mem := by
  have inFile : ∀ sec : Section, v.HasSection sec → sec.ptr ≠ 0 → ∀ index < sec.len,
      mem (sec.ptr + index) = v.mem (sec.ptr + index) := by
    intro sec has present index below
    obtain ⟨start, ends⟩ := has present
    obtain ⟨off, isOff⟩ := Nat.exists_eq_add_of_le start
    rw [isOff, Nat.add_assoc]
    exact shows (off + index) (by omega)
  intro sec
  cases sec with
  | line => exact inFile _ (sectionNamed_inFile v h debugLineName)
  | lineStr => exact inFile _ (sectionNamed_inFile v h debugLineStrName)
  | debugStr => exact inFile _ (sectionNamed_inFile v h debugStrName)

theorem bwPeParse_around (closed : ClosedImage (v.lineImage h)) (qsort : Qsort) {s : LoadState}
    (ok : TabOk s.globals.dwarf) :
    bwPeParse (v.around mem shows) qsort (v.lineSections h) s =
      bwPeParse v qsort (v.lineSections h) s := by
  have same : SameBytes (v.lineImage h) mem := lineImage_shows shows
  have placed := lineSections_placed v h
  have placed' : (v.lineSections h).line.Placed 64 mem ∧
      (v.lineSections h).lineStr.Placed 64 mem ∧ (v.lineSections h).debugStr.Placed 64 mem :=
    ⟨placed.1.same (same .line), placed.2.1.same (same .lineStr), placed.2.2.same (same .debugStr)⟩
  obtain ⟨value, tab, here, elsewhere⟩ := closed.returns qsort ok
  by_cases absent : (v.lineSections h).line.ptr = 0
  · rw [bwPeParse, bwPeParse, if_pos absent, if_pos absent]
  · have one : bwPeParse v qsort (v.lineSections h) s = _ :=
      bwPeParse_of_returned absent placed here
    have two : bwPeParse (v.around mem shows) qsort (v.lineSections h) s = _ :=
      bwPeParse_of_returned absent placed' (elsewhere mem same)
    rw [one, two]

end Sections

/-! ### Loads -/

/-- The line table stays as it is. -/
def SameDwarf (s t : LoadState) : Prop := t.globals.dwarf = s.globals.dwarf

instance : Std.Refl SameDwarf := ⟨fun _ => rfl⟩

instance : IsTrans LoadState SameDwarf := ⟨fun _ _ _ one two => Eq.trans two one⟩

instance (access : Access) : Develops SameDwarf (logAccess access) := ⟨fun _ => rfl⟩

theorem sameDwarf_modifyGlobals {f : Globals → Globals} (kept : ∀ g, (f g).dwarf = g.dwarf) :
    Develops SameDwarf (modifyGlobals f) :=
  ⟨fun s => kept s.globals⟩

section Kept

variable {bits : Nat} (v : View bits)

instance (h : PeHeaders) : Develops SameDwarf (bwPeImageBase v h) := by
  have setBase : ∀ ib : Nat,
      Develops SameDwarf (modifyGlobals fun g => { g with imageBase := sizeT bits ib }) :=
    fun ib => sameDwarf_modifyGlobals fun _ => rfl
  unfold bwPeImageBase
  infer_instance

instance (off srcLen : Nat) : Develops SameDwarf (bwPeAddName v off srcLen) := by
  have append : ∀ name : List UInt8, Develops SameDwarf (modifyGlobals fun g => { g with
      names := writeBytes g.names g.nlen (name ++ [0])
      nlen := g.nlen + name.length + 1 }) :=
    fun name => sameDwarf_modifyGlobals fun _ => rfl
  unfold bwPeAddName
  infer_instance

instance (sym : Sym) : Develops SameDwarf (bwPeAddSym sym) := sameDwarf_modifyGlobals fun _ => rfl

instance (addr nameAt nameLen : Nat) : Develops SameDwarf (bwPeNamed v addr nameAt nameLen) := by
  unfold bwPeNamed
  infer_instance

instance (h : PeHeaders) (module : Nat) (strTab : StrTab) (i : Nat) (record : SymRecord) :
    Develops SameDwarf (bwPeSymbol v h module strTab i record) := by
  unfold bwPeSymbol
  infer_instance

instance sameDwarf_bwPeSymbols (h : PeHeaders) (module : Nat) (strTab : StrTab) (fuel i : Nat) :
    Develops SameDwarf (bwPeSymbols v h module strTab fuel i) := by
  induction fuel generalizing i with
  | zero => unfold bwPeSymbols; infer_instance
  | succ fuel inductionHypothesis => unfold bwPeSymbols; infer_instance

instance (h : PeHeaders) (module : Nat) (strTab : StrTab) :
    Develops SameDwarf (bwPeSymbolTable v h module strTab) := by
  unfold bwPeSymbolTable
  infer_instance

instance (symSort : SymQsort) : Develops SameDwarf (bwPeSort symSort) := by
  have sort : ∀ sorted : List Sym, Develops SameDwarf (modifyGlobals fun g => { g with
      syms := fun index => (sorted[index]?).getD (g.syms index)
      state := .loaded }) :=
    fun sorted => sameDwarf_modifyGlobals fun _ => rfl
  unfold bwPeSort
  infer_instance

end Kept

section Loads

variable {env : Env 64} {v : View 64} {mem : Nat → Option UInt8} {shows : v.Shows mem}

/-- The whole work on a file that keeps it inside. -/
theorem bwPeFile_around (file : ClosedFile v) (module : Nat) :
    bwPeFile env (v.around mem shows) module = bwPeFile env v module := by
  funext s
  rw [bwPeFile, bwPeFile, bwPeHeaders_around]
  refine bind_eq_bind rfl fun h s₁ ended => ?_
  have headers : v.HasHeaders h := ⟨s, s₁, ended⟩
  have accepted := headers_accepted v ((hasHeaders_iff v).mp headers)
  refine bind_eq_bind rfl fun _ s₂ reset => ?_
  have ok : TabOk s₂.globals.dwarf := by
    cases reset
    exact tabOk_reset
  rw [bwPeImageBase_around accepted]
  refine bind_eq_bind rfl fun _ s₃ based => ?_
  rw [bwPeStrTab_around file.small accepted]
  refine bind_eq_bind rfl fun strTab s₄ read => ?_
  obtain ⟨seen, -, isTab⟩ := bwPeStrTab_run file.small accepted s₃
  rw [isTab] at read
  cases read
  rw [bwPeSymbolTable_around file.small accepted]
  refine bind_eq_bind rfl fun _ s₅ symbols => ?_
  refine bind_eq_bind rfl fun _ s₆ sorted => ?_
  rw [bwPeSections_around accepted (file.named h headers) (by omega)]
  refine bind_eq_bind rfl fun found s₇ named => ?_
  obtain ⟨seen', isSections⟩ := bwPeSections_lineSections s₆ accepted (file.named h headers)
  rw [show noSections = (⟨⟨0, 0⟩, ⟨0, 0⟩, ⟨0, 0⟩⟩ : LineSections) from rfl, named] at isSections
  cases isSections
  have kept : s₆.globals.dwarf = s₂.globals.dwarf := by
    have one : SameDwarf s₂ s₃ := Develops.ok based
    have two : SameDwarf (s₃.log seen) s₅ := Develops.ok symbols
    have three : SameDwarf s₅ s₆ := Develops.ok sorted
    exact three.trans (two.trans one)
  refine bwPeParse_around (file.lines h headers) env.qsort ?_
  rw [LoadState.log_globals, kept]
  exact ok

/-- The same file in two memories. -/
def View.SameFile (v w : View 64) : Prop := ∃ mem shows, w = v.around mem shows

/-- An environment with other views. -/
def Env.withFiles (env : Env 64) (mapFile : Nat → Option (View 64)) : Env 64 :=
  { env with mapFile := mapFile }

variable {files : Nat → Option (View 64)} {module : Nat}

theorem bwPeLoad_withFiles (alike : (env.mapFile module).Rel View.SameFile (files module))
    (closed : ClosedModule env module) :
    bwPeLoad (env.withFiles files) module = bwPeLoad env module := by
  unfold bwPeLoad
  refine bind_congr fun _ => ?_
  rw [show (env.withFiles files).path = env.path from rfl,
    show (env.withFiles files).mapFile = files from rfl]
  split_ifs
  · rfl
  · cases mapped : env.mapFile module with
    | none =>
        rw [mapped] at alike
        cases here : files module with
        | none => rfl
        | some w =>
            rw [here] at alike
            cases alike
    | some v =>
        rw [mapped] at alike
        cases here : files module with
        | none =>
            rw [here] at alike
            cases alike
        | some w =>
            rw [here] at alike
            obtain ⟨mem, shows, rfl⟩ : v.SameFile w := by
              cases alike
              assumption
            dsimp only
            rw [show bwPeFile (env.withFiles files) (v.around mem shows) module =
              bwPeFile env (v.around mem shows) module from rfl,
              bwPeFile_around (closed v mapped)]

end Loads

/-! ### Processes -/

section Processes

variable {p : Process 64} {files : Nat → Option (View 64)}

/-- The process with other views of its files. -/
def Process.withFiles (p : Process 64) (files : Nat → Option (View 64)) : Process 64 :=
  { p with env := p.env.withFiles files }

/-- All files of the process are such that they keep a load inside, and the views
show the same. -/
structure Process.Alike (p : Process 64) (files : Nat → Option (View 64)) : Prop where
  closed : ∀ module, ClosedModule p.env module
  same : ∀ module, (p.env.mapFile module).Rel View.SameFile (files module)

theorem Process.Alike.ensure (alike : p.Alike files) (module : Nat) :
    bwPeEnsure (p.withFiles files).env module = bwPeEnsure p.env module := by
  unfold bwPeEnsure
  rw [show (p.withFiles files).env = p.env.withFiles files from rfl,
    bwPeLoad_withFiles (alike.same module) (alike.closed module)]

theorem Process.Alike.find (alike : p.Alike files) (module ip : Nat) :
    bwPeFind (p.withFiles files).env module ip = bwPeFind p.env module ip := by
  rw [bwPeFind, bwPeFind, alike.ensure]

theorem Process.Alike.line (alike : p.Alike files) (module probe srcLen : Nat) :
    bwPeLine (p.withFiles files).env module probe srcLen =
      bwPeLine p.env module probe srcLen := by
  rw [bwPeLine, bwPeLine, alike.ensure]

theorem Process.Alike.resolve (alike : p.Alike files) (ip fnameLen snameLen srcLen : Nat) :
    bwWinResolve (p.withFiles files) ip fnameLen snameLen srcLen =
      bwWinResolve p ip fnameLen snameLen srcLen := by
  have name : ∀ module ip probe, bwWinName (p.withFiles files) module ip probe snameLen =
      bwWinName p module ip probe snameLen := by
    intro module ip probe
    rw [bwWinName, bwWinName, alike.find]
    rfl
  have line : ∀ module ip probe, bwWinLine (p.withFiles files) module ip probe srcLen =
      bwWinLine p module ip probe srcLen := by
    intro module ip probe
    rw [bwWinLine, bwWinLine, alike.line]
    rfl
  rw [bwWinResolve, bwWinResolve]
  dsimp only
  rw [name, line]
  rfl

/-- Processes that make the same of each frame. -/
theorem winCalls_congr {arch : Arch} {σ : Type} {p q : Process arch.bits}
    (same : ∀ ip fnameLen snameLen srcLen,
      bwWinResolve q ip fnameLen snameLen srcLen = bwWinResolve p ip fnameLen snameLen srcLen)
    (calls : List (WinCall arch σ)) : winCalls q calls = winCalls p calls := by
  have process : ∀ (cb : Option (WinCallback σ)) (ips : List (Word arch)) (caller : WinCaller σ),
      processWin q cb ips caller = processWin p cb ips caller := by
    intro cb ips
    induction ips with
    | nil => exact fun _ => rfl
    | cons ip rest inductionHypothesis =>
        intro caller
        rw [processWin, processWin, bwFrameProcessWin, bwFrameProcessWin, same]
        simp only [inductionHypothesis]
  unfold winCalls
  congr 2
  funext call
  cases call with
  | backtrace capture ips cb state => exact process cb _ _
  | process bw cb state => exact process cb _ _

theorem Process.Alike.ensures {Thread : Type} [DecidableEq Thread] (alike : p.Alike files)
    (s : WinThreads Thread) (t : Thread) (module : Nat) (without behind : WinPlace) :
    s.ensures t (p.withFiles files).env module without behind =
      s.ensures t p.env module without behind := by
  unfold WinThreads.ensures
  rw [alike.ensure]

/-- What lies around the files of a process, if these keep a load inside, shows in
no call: neither in calls one after the other nor in a step of any thread. -/
theorem process_enclosed (p : Process 64) (files : Nat → Option (View 64))
    (alike : p.Alike files) :
    (∀ (σ : Type) (calls : List (WinCall .x86_64 σ)),
      @winCalls .x86_64 σ (p.withFiles files) calls = @winCalls .x86_64 σ p calls) ∧
    ∀ (Thread : Type) [DecidableEq Thread],
      @winStep Thread _ 64 (p.withFiles files) = @winStep Thread _ 64 p := by
  constructor
  · intro σ calls
    exact winCalls_congr alike.resolve calls
  · intro Thread _
    funext a s
    unfold winStep
    split_ifs
    · rfl
    · cases a with
      | call t c => rfl
      | go t =>
          dsimp only
          unfold winGo
          cases s.place t with
          | name f known source =>
              cases known with
              | none => exact congrArg some (alike.ensures s t _ _ _)
              | some name => rfl
          | line f sname source =>
              cases source with
              | none => exact congrArg some (alike.ensures s t _ _ _)
              | some line => rfl
          | _ => rfl

end Processes

/-- `paddedFile` before other bytes. -/
theorem paddedFile_shows : (fileView paddedFile).Shows (memAt 0x10000 (paddedFile ++ [7, 7])) := by
  intro off below
  have inFile : off < paddedFile.length := Nat.lt_of_lt_of_le below (Nat.min_le_left _ _)
  have base : (fileView paddedFile).base = 0x10000 := rfl
  have here : (fileView paddedFile).mem = memAt 0x10000 paddedFile := rfl
  rw [base, here]
  simp [memAt, inFile, Nat.lt_add_right]

theorem paddedProcess_alike : paddedProcess.Alike
    fun _ => some ((fileView paddedFile).around _ paddedFile_shows) where
  closed := paddedProcess_closed
  same _ := .some ⟨_, paddedFile_shows, rfl⟩

theorem paddedProcess_enclosed :
    let q := paddedProcess.withFiles fun _ => some ((fileView paddedFile).around _ paddedFile_shows)
    @winCalls .x86_64 Nat q [.backtrace callsInModule (fun _ => 0) counting 0] =
        @winCalls .x86_64 Nat paddedProcess [.backtrace callsInModule (fun _ => 0) counting 0] ∧
      @winStep Bool _ 64 q = @winStep Bool _ 64 paddedProcess := by
  obtain ⟨calls, threads⟩ := process_enclosed paddedProcess _ paddedProcess_alike
  exact ⟨calls Nat _, threads Bool⟩

end Backwalk.Windows
