import Backwalk.DwarfLine.Overfull
import Backwalk.Windows.Extents
import Backwalk.Windows.NearestName
import Backwalk.Windows.SectionNames
import Backwalk.Windows.Transparency

/-!
Contract: source lines from the bytes of a PE file to the answer of `bw_pe_line`.

Owns which sections the loader takes the line table from, where it takes the
image base from, and what a query of a file comes to whose line section consists
of given units and padding, or which has none: of the first 65536 rows that are
kept of these units, one at the greatest address that is not above the linked
address of the query.

Does not own files of 4 GiB and more, where offsets of the loader wrap around, or
section names without an end.
-/

namespace Backwalk.Windows

open Backwalk.DwarfLine Backwalk.Support

/-! ### Names in full -/

section Names

variable {bits : Nat} (v : View bits)

/-- The characters of the name end: in `Name`, or with a NUL in the string table. -/
def NameEnds (sh : SectionHeader) (strTab : StrTab) : Prop :=
  sh.placeIn strTab = none ∨ 0 ∈ nameSource v sh strTab

instance (sh : SectionHeader) (strTab : StrTab) : Decidable (NameEnds v sh strTab) :=
  inferInstanceAs (Decidable (_ ∨ _))

theorem nameBytes_drop (sh : SectionHeader) {i : Nat} (inName : i < 8) :
    sh.nameBytes.drop i = sh.char i :: sh.nameBytes.drop (i + 1) := by
  have length : sh.nameBytes.length = 8 := by simp [SectionHeader.nameBytes]
  rw [List.drop_eq_getElem_cons (by omega)]
  simp [SectionHeader.nameBytes]

/-- `Name` is copied to its NUL, or to its eighth character. -/
theorem sectionChars_header (sh : SectionHeader) {outLen fuel i : Nat} (s : LoadState)
    (inName : i ≤ 8) (room : 9 < outLen) (enough : 8 < fuel + i) :
    ∃ seen, sectionChars (nameChar sh) true outLen fuel i s =
      .ok (upToNul (sh.nameBytes.drop i)) (s.log seen) := by
  induction fuel generalizing i s with
  | zero => omega
  | succ fuel inductionHypothesis =>
      rw [sectionChars, if_pos (by omega), bind_of_ok (nameChar_run sh i s)]
      by_cases last : i = 8
      · have behind : ¬ (sh.char i ≠ 0 ∧ (true = false ∨ i < 8)) := by
          simp [last]
        rw [if_neg behind, last, List.drop_eq_nil_of_le (by simp [SectionHeader.nameBytes])]
        exact ⟨[.name 8], rfl⟩
      · have here : i < 8 := by omega
        rw [nameBytes_drop sh here]
        by_cases nul : sh.char i = 0
        · rw [if_neg fun both => both.1 nul, nul, upToNul_cons_nul]
          exact ⟨[.name i], rfl⟩
        · obtain ⟨seen, ran⟩ := @inductionHypothesis (i + 1) (s.log [.name i]) (by omega) (by omega)
          rw [if_pos ⟨nul, .inr here⟩, bind_of_ok ran, upToNul_cons_ne _ nul, LoadState.log_log]
          exact ⟨.name i :: seen, rfl⟩

/-- A name that ends is read in full, as far as `out` has room. -/
theorem bwSectionName_full {sh : SectionHeader} {strTab : StrTab} {outLen : Nat} (s : LoadState)
    (inFile : strTab.off + strTab.size ≤ v.size) (room : 9 < outLen) (ends : NameEnds v sh strTab) :
    ∃ seen, bwSectionName v sh strTab outLen s =
      .ok ((sectionName v sh strTab).take (outLen - 1)) (s.log seen) := by
  obtain ⟨before, -, ran⟩ := bwSectionName_run v sh strTab outLen s
  cases place : sh.placeIn strTab with
  | none =>
      have charAt : nameCharAt v sh strTab = nameChar sh := by
        funext i
        rw [nameCharAt, place]
      have source : nameSource v sh strTab = sh.nameBytes := by
        rw [nameSource, place]
      obtain ⟨seen, copied⟩ := @sectionChars_header sh outLen outLen 0 (s.log before) (by omega)
        room (by omega)
      have short : (upToNul sh.nameBytes).length ≤ outLen - 1 := by
        have most := length_upToNul_le sh.nameBytes
        have length : sh.nameBytes.length = 8 := by simp [SectionHeader.nameBytes]
        omega
      rw [charAt, place, Option.isNone_none, copied, LoadState.log_log, List.drop_zero] at ran
      rw [sectionName, source, List.take_of_length_le short]
      exact ⟨_, ran⟩
  | some off =>
      have nul : 0 ∈ nameSource v sh strTab := ends.resolve_left (by simp [place])
      have reads : ∀ k c, (nameSource v sh strTab)[k]? = some c → ∀ s,
          nameCharAt v sh strTab (0 + k) s = .ok c (s.log [nameSeen v sh strTab (0 + k)]) := by
        intro k c there s
        rw [Nat.zero_add]
        exact nameCharAt_run v inFile there s
      obtain ⟨count, -, copied⟩ := @sectionChars_copies (nameCharAt v sh strTab)
        (nameSeen v sh strTab) _ outLen (nameSource v sh strTab) outLen 0 (s.log before) reads
        (isNone_length v sh strTab) (.inl nul) (by omega)
      rw [copied, LoadState.log_log, Nat.sub_zero] at ran
      exact ⟨_, ran⟩

end Names

/-! ### The sections that are taken -/

section Sections

variable (v : View 64) (h : PeHeaders)

/-- The name of section `index`, and its data. -/
def View.nameOf (index : Nat) : List UInt8 := sectionName v (v.sectionHeader h index) (v.strTab h)

def View.dataOf (index : Nat) : Section := bwSectionData v (v.sectionHeader h index)

/-- The last section of this name that has data in the file. -/
def View.sectionNamed (name : List UInt8) : Section :=
  (List.range h.nsec).foldl (fun found index =>
    if v.nameOf h index = name ∧ (v.dataOf h index).ptr ≠ 0 then v.dataOf h index else found) ⟨0, 0⟩

/-- What the loader makes of section `index`. -/
def LineSections.take (found : LineSections) (name : List UInt8) (data : Section) : LineSections :=
  if data.ptr = 0 then found
  else if name = debugLineName then { found with line := data }
  else if name = debugLineStrName then { found with lineStr := data }
  else if name = debugStrName then { found with debugStr := data }
  else found

variable {v h}

/-- A short name is the name in full exactly if it is what there is room for. -/
theorem take_eq_iff {name short : List UInt8} {n : Nat} (below : short.length < n) :
    name.take n = short ↔ name = short := by
  constructor
  · intro same
    have length := congrArg List.length same
    rw [List.length_take] at length
    rwa [List.take_of_length_le (by omega)] at same
  · rintro rfl
    exact List.take_of_length_le below.le

theorem strTab_inFile (v : View 64) (h : PeHeaders) :
    (v.strTab h).off + (v.strTab h).size ≤ v.size := by
  unfold View.strTab
  dsimp only
  split_ifs with there small
  · dsimp only
    omega
  · exact Nat.le_of_not_lt (not_or.mp small).2
  · exact Nat.zero_le _

/-- One round of the loop over the section headers. -/
theorem bwPeSections_step {found : LineSections} {n index : Nat} (s : LoadState)
    (accepted : h.Accepted v) (inTable : index < h.nsec)
    (ends : NameEnds v (v.sectionHeader h index) (v.strTab h)) :
    ∃ seen, bwPeSections v h (v.strTab h) (n + 1) index found s =
      bwPeSections v h (v.strTab h) n (index + 1)
        (found.take (v.nameOf h index) (v.dataOf h index)) (s.log seen) := by
  have sections := accepted.sections
  have header : h.secOff + index * sectionHeaderSize + sectionHeaderSize ≤ v.size := by
    unfold sectionHeaderSize at *
    omega
  obtain ⟨there, read⟩ : ∃ there, readSectionHeader v h index s =
      .ok (v.sectionHeader h index) (s.log [there]) := by
    refine ⟨.memory (v.ptr (h.secOff + index * sectionHeaderSize)) sectionHeaderSize, ?_⟩
    rw [readSectionHeader, bind_of_ok (readBytes_inside v header)]
    rfl
  obtain ⟨seen, named⟩ := bwSectionName_full v (s.log [there]) (strTab_inFile v h)
    (show 9 < 64 by decide) ends
  refine ⟨there :: seen, ?_⟩
  rw [bwPeSections, bind_of_ok read, bind_of_ok named, LoadState.log_log]
  simp only [take_eq_iff (show debugLineName.length < 64 - 1 by decide),
    take_eq_iff (show debugLineStrName.length < 64 - 1 by decide),
    take_eq_iff (show debugStrName.length < 64 - 1 by decide)]
  rw [LineSections.take, View.nameOf, View.dataOf]
  split_ifs <;> rfl

/-- All rounds from section `index` on. -/
theorem bwPeSections_run {found : LineSections} {n index : Nat} (s : LoadState)
    (accepted : h.Accepted v) (inTable : index + n ≤ h.nsec)
    (ends : ∀ index < h.nsec, NameEnds v (v.sectionHeader h index) (v.strTab h)) :
    ∃ seen, bwPeSections v h (v.strTab h) n index found s =
      .ok ((List.range' index n).foldl
        (fun found index => found.take (v.nameOf h index) (v.dataOf h index)) found)
        (s.log seen) := by
  induction n generalizing index found s with
  | zero => exact ⟨[], by rw [LoadState.log_nil]; rfl⟩
  | succ n inductionHypothesis =>
      obtain ⟨here, step⟩ := @bwPeSections_step v h found n index s accepted (by omega)
        (ends index (by omega))
      obtain ⟨seen, ran⟩ := @inductionHypothesis
        (found.take (v.nameOf h index) (v.dataOf h index)) (index + 1) (s.log here) (by omega)
      refine ⟨here ++ seen, ?_⟩
      rw [step, ran, LoadState.log_log, List.range'_succ, List.foldl_cons]

/-- The sections that are found are the last ones of their names. -/
theorem foldl_take (indices : List Nat) (found : LineSections) :
    indices.foldl (fun found index => found.take (v.nameOf h index) (v.dataOf h index)) found =
      let last := fun (name : List UInt8) (before : Section) => indices.foldl (fun found index =>
        if v.nameOf h index = name ∧ (v.dataOf h index).ptr ≠ 0 then v.dataOf h index
        else found) before
      ⟨last debugLineName found.line, last debugLineStrName found.lineStr,
        last debugStrName found.debugStr⟩ := by
  induction indices generalizing found with
  | nil => rfl
  | cons index rest inductionHypothesis =>
      rw [List.foldl_cons, inductionHypothesis]
      dsimp only
      have lineStr : debugLineStrName ≠ debugLineName := by decide
      have debugStr : debugStrName ≠ debugLineName ∧ debugStrName ≠ debugLineStrName := by decide
      rw [LineSections.take]
      simp only [List.foldl_cons]
      by_cases absent : (v.dataOf h index).ptr = 0
      · simp [absent]
      · by_cases isLine : v.nameOf h index = debugLineName
        · simp [absent, isLine, lineStr.symm, debugStr.1.symm]
        · by_cases isLineStr : v.nameOf h index = debugLineStrName
          · simp [absent, isLineStr, lineStr, debugStr.2.symm]
          · by_cases isDebugStr : v.nameOf h index = debugStrName
            · simp [absent, isDebugStr, debugStr]
            · simp [absent, isLine, isLineStr, isDebugStr]

/-- The line sections of a file. -/
def View.lineSections (v : View 64) (h : PeHeaders) : LineSections :=
  ⟨v.sectionNamed h debugLineName, v.sectionNamed h debugLineStrName, v.sectionNamed h debugStrName⟩

theorem bwPeSections_lineSections (s : LoadState) (accepted : h.Accepted v)
    (ends : ∀ index < h.nsec, NameEnds v (v.sectionHeader h index) (v.strTab h)) :
    ∃ seen, bwPeSections v h (v.strTab h) h.nsec 0 noSections s =
      .ok (v.lineSections h) (s.log seen) := by
  obtain ⟨seen, ran⟩ := @bwPeSections_run v h noSections h.nsec 0 s accepted (by omega) ends
  rw [foldl_take, ← List.range_eq_range'] at ran
  exact ⟨seen, ran⟩

/-- The section is absent or lies in the file. -/
def View.HasSection (v : View 64) (sec : Section) : Prop :=
  sec.ptr ≠ 0 → v.base ≤ sec.ptr ∧ sec.ptr + sec.len ≤ v.base + v.size

/-- Data that is accepted lies in the file. -/
theorem dataOf_inFile (v : View 64) (sh : SectionHeader) : v.HasSection (bwSectionData v sh) := by
  have place := field_lt sh.bytes 20
  have size := field_lt sh.bytes 16
  unfold bwSectionData
  split_ifs with absent outside
  · exact fun present => absurd rfl present
  · exact fun present => absurd rfl present
  · have sum : sizeT 64 (sh.pointerToRawData + sh.sizeOfRawData) =
        sh.pointerToRawData + sh.sizeOfRawData := by
      apply sizeT_wide
      unfold SectionHeader.pointerToRawData SectionHeader.sizeOfRawData
      omega
    rw [sum] at outside
    rw [v.ptr_inside (by omega)]
    intro _
    dsimp only
    omega

theorem sectionNamed_inFile (v : View 64) (h : PeHeaders) (name : List UInt8) :
    v.HasSection (v.sectionNamed h name) := by
  unfold View.sectionNamed
  generalize List.range h.nsec = indices
  have all : ∀ before : Section, v.HasSection before → v.HasSection (indices.foldl
      (fun found index =>
        if v.nameOf h index = name ∧ (v.dataOf h index).ptr ≠ 0 then v.dataOf h index
        else found) before) := by
    induction indices with
    | nil => exact fun _ inFile => inFile
    | cons index rest inductionHypothesis =>
        intro before inFile
        rw [List.foldl_cons]
        apply inductionHypothesis
        split_ifs
        · exact dataOf_inFile v _
        · exact inFile
  exact all _ fun present => absurd rfl present

theorem sectionNamed_placed (v : View 64) (h : PeHeaders) (name : List UInt8) :
    (v.sectionNamed h name).Placed 64 v.mem := by
  intro present
  have fits := v.fits
  obtain ⟨start, ends⟩ := sectionNamed_inFile v h name present
  refine ⟨by omega, fun index below => ?_⟩
  obtain ⟨off, isOff⟩ := Nat.exists_eq_add_of_le start
  rw [isOff, Nat.add_assoc]
  exact Option.isSome_of_eq_some (v.mem_inside (by omega))

theorem lineSections_placed (v : View 64) (h : PeHeaders) :
    (v.lineSections h).line.Placed 64 v.mem ∧ (v.lineSections h).lineStr.Placed 64 v.mem ∧
      (v.lineSections h).debugStr.Placed 64 v.mem :=
  ⟨sectionNamed_placed v h _, sectionNamed_placed v h _, sectionNamed_placed v h _⟩

/-- What the DWARF parser is called with. -/
def View.lineImage (v : View 64) (h : PeHeaders) : Image :=
  v.image (v.sectionNamed h debugLineName) (v.sectionNamed h debugLineStrName)
    (v.sectionNamed h debugStrName)
    ⟨sectionNamed_placed v h _, sectionNamed_placed v h _, sectionNamed_placed v h _⟩

end Sections

/-! ### The linked address -/

section Base

variable {v : View 64} {h : PeHeaders} {s : LoadState}

/-- The `ImageBase` of a file, `0` if the optional header has no room for it. -/
def View.imageBase {bits : Nat} (v : View bits) (h : PeHeaders) : Nat :=
  let opt := h.lfanew + 4 + fileHeaderSize
  if h.optSize < 28 then 0
  else if v.uint opt 2 = 0x20b ∧ 32 ≤ h.optSize then sizeT bits (v.uint (opt + 24) 8)
  else if v.uint opt 2 = 0x10b then sizeT bits (v.uint (opt + 28) 4)
  else 0

/-- The line tables and the image base stay as they are. -/
structure SameTables (s t : LoadState) : Prop where
  dwarf : t.globals.dwarf = s.globals.dwarf
  ready : t.globals.dwarfReady = s.globals.dwarfReady
  base : t.globals.imageBase = s.globals.imageBase

theorem SameTables.trans {s t u : LoadState} (one : SameTables s t) (two : SameTables t u) :
    SameTables s u :=
  ⟨two.dwarf.trans one.dwarf, two.ready.trans one.ready, two.base.trans one.base⟩

/-- The image base is stored over a `0`. -/
theorem bwPeImageBase_stores (accepted : h.Accepted v) (unset : s.globals.imageBase = 0) :
    ∃ t, bwPeImageBase v h s = .ok () t ∧ t.globals.dwarf = s.globals.dwarf ∧
      t.globals.dwarfReady = s.globals.dwarfReady ∧ t.globals.imageBase = v.imageBase h := by
  have secOff := accepted.secOff
  have sections := accepted.sections
  have nsecPositive := accepted.nsecPositive
  unfold sectionHeaderSize at sections
  rw [bwPeImageBase, View.imageBase]
  by_cases optional : 28 ≤ h.optSize
  · rw [if_pos optional, if_neg (Nat.not_lt.mpr optional),
      bind_of_ok (readUint_inside v (by omega))]
    by_cases isWide : v.uint (h.lfanew + 4 + fileHeaderSize) 2 = 0x20b ∧ 32 ≤ h.optSize
    · rw [if_pos isWide, if_pos isWide, bind_of_ok (readUint_inside v (by omega))]
      exact ⟨_, rfl, rfl, rfl, rfl⟩
    · rw [if_neg isWide, if_neg isWide]
      by_cases isNarrow : v.uint (h.lfanew + 4 + fileHeaderSize) 2 = 0x10b
      · rw [if_pos isNarrow, if_pos isNarrow, bind_of_ok (readUint_inside v (by omega))]
        exact ⟨_, rfl, rfl, rfl, rfl⟩
      · rw [if_neg isNarrow, if_neg isNarrow]
        exact ⟨_, rfl, rfl, rfl, unset⟩
  · rw [if_neg optional, if_pos (Nat.lt_of_not_le optional)]
    exact ⟨s, rfl, rfl, rfl, unset⟩

/-- Symbols are stored apart from the line tables. -/
theorem withSymbols_tables (g : Globals) (pairs : List (Nat × List UInt8)) :
    (g.withSymbols pairs).dwarf = g.dwarf ∧ (g.withSymbols pairs).dwarfReady = g.dwarfReady ∧
      (g.withSymbols pairs).imageBase = g.imageBase := by
  induction pairs generalizing g with
  | nil => exact ⟨rfl, rfl, rfl⟩
  | cons pair rest inductionHypothesis =>
      rw [withSymbols_cons]
      exact inductionHypothesis _

theorem bwPeSort_tables (symSort : SymQsort) (s : LoadState) :
    ∃ t, bwPeSort symSort s = .ok () t ∧ SameTables s t := by
  rw [bwPeSort, bind_of_ok (show getGlobals s = .ok s.globals s from rfl)]
  by_cases some : 0 < s.globals.nsym
  · rw [if_pos some]
    exact ⟨_, rfl, rfl, rfl, rfl⟩
  · rw [if_neg some]
    exact ⟨s, rfl, rfl, rfl, rfl⟩

/-- The address that a query of a file comes to. -/
def View.linkedAddr (v : View 64) (h : PeHeaders) (module probe : Nat) : Nat :=
  if v.imageBase h ≠ 0 then sizeT 64 (v.imageBase h + (probe + 2 ^ 64 - module)) else probe

end Base

/-! ### A load -/

section Load

variable {env : Env 64} {v : View 64} {h : PeHeaders} {module : Nat}

/-- A parse that returns false has found no rows. -/
theorem bwDwarfTabParse_false {img : Image} {qsort : Qsort} {tab tab' : Tab}
    (parsed : bwDwarfTabParse img qsort (bwDwarfTabReset tab) = .returned false tab') :
    tab'.rows = [] := by
  unfold bwDwarfTabParse at parsed
  by_cases absent : img.line.ptr = 0 ∨ img.line.len = 0
  · rw [if_pos absent] at parsed
    cases parsed
    rfl
  · rw [if_neg absent] at parsed
    cases ended : bwParseUnits img (bwDwarfTabReset tab) with
    | error why s =>
        rw [ended] at parsed
        cases parsed
    | ok _ s =>
        rw [ended] at parsed
        dsimp only at parsed
        split_ifs at parsed with empty
        · cases parsed
          exact List.eq_nil_of_length_eq_zero empty
        · cases parsed

/-- The line section consists of these units and padding; without one there are none. -/
def LinesOf (img : Image) (units : List (SectionUnit img)) : Prop :=
  (img.line.ptr = 0 ∧ units = []) ∨ SectionWithin img units

/-- A mapped file of less than 4 GiB whose line section consists of these units,
and whose section names end. -/
structure Described (env : Env 64) (module : Nat) (v : View 64) (h : PeHeaders)
    (units : List (SectionUnit (v.lineImage h))) : Prop where
  isModule : module ≠ 0
  hasPath : noPath (env.path module) = false
  mapped : env.mapFile module = some v
  small : v.size < 2 ^ 32
  headers : v.HasHeaders h
  named : ∀ index < h.nsec, NameEnds v (v.sectionHeader h index) (v.strTab h)
  lines : LinesOf (v.lineImage h) units

/-- What a load leaves for queries of lines: these rows, in the order that `qsort`
gives them. -/
structure Lines (qsort : Qsort) (base : Nat) (rows : List TextRow) (g : Globals) : Prop where
  base : g.imageBase = base
  table : ∃ built : Tab, built.textRows = rows ∧ g.dwarf = built.sortedAs (qsort.sort built.rows)
  ready : g.dwarfReady = false → rows = []

variable {units : List (SectionUnit (v.lineImage h))}

/-- The last step of a load, when the parse returns. -/
theorem bwPeParse_of_returned {w : View 64} {found : LineSections} {qsort : Qsort} {s : LoadState}
    (present : found.line.ptr ≠ 0)
    (placed : found.line.Placed 64 w.mem ∧ found.lineStr.Placed 64 w.mem ∧
      found.debugStr.Placed 64 w.mem) {value : Bool} {tab : Tab}
    (parsed : bwDwarfTabParse (w.image found.line found.lineStr found.debugStr placed) qsort
      s.globals.dwarf = .returned value tab) :
    bwPeParse w qsort found s =
      .ok () { s with globals := { s.globals with dwarf := tab, dwarfReady := value } } := by
  rw [bwPeParse, if_neg present, dif_pos placed,
    bind_of_ok (show getGlobals s = .ok s.globals s from rfl), parsed]
  rfl

/-- After the line table was reset it makes the table of the units. -/
theorem bwPeParse_lines (lines : LinesOf (v.lineImage h) units) (qsort : Qsort) {s : LoadState}
    {tab : Tab} (reset : s.globals.dwarf = bwDwarfTabReset tab) :
    ∃ t, bwPeParse v qsort (v.lineSections h) s = .ok () t ∧
      Lines qsort s.globals.imageBase (firstRows units) t.globals := by
  rcases lines with ⟨absent, rfl⟩ | within
  · have isAbsent : (v.lineSections h).line.ptr = 0 := absent
    have sorted : (bwDwarfTabReset tab).sortedAs (qsort.sort (bwDwarfTabReset tab).rows) =
        bwDwarfTabReset tab := by
      rw [show (bwDwarfTabReset tab).rows = [] from rfl, qsort.sort_nil]
      rfl
    rw [bwPeParse, if_pos isAbsent]
    exact ⟨s, rfl, rfl, ⟨bwDwarfTabReset tab, rfl, reset.trans sorted.symm⟩, fun _ => rfl⟩
  · obtain ⟨built, rows, parses⟩ := bwDwarfTabParse_first within tab
    obtain ⟨value, parsed⟩ := parses qsort
    have ran : bwPeParse v qsort (v.lineSections h) s = _ :=
      bwPeParse_of_returned within.present (lineSections_placed v h) (reset ▸ parsed)
    rw [ran]
    refine ⟨_, rfl, rfl, ⟨built, rows, rfl⟩, ?_⟩
    intro unready
    have failed : value = false := unready
    subst failed
    have none : qsort.sort built.rows = [] := bwDwarfTabParse_false parsed
    have empty : built.rows = [] := List.Perm.eq_nil (none ▸ qsort.perm built.rows).symm
    rw [← rows, Tab.textRows, empty, List.map_nil]

/-- A load of a file below 4 GiB whose section names end goes as far as the parse
of the line sections, into a table that was reset. -/
theorem bwPeLoad_toParse (isModule : module ≠ 0) (hasPath : noPath (env.path module) = false)
    (mapped : env.mapFile module = some v) (small : v.size < 2 ^ 32) (headers : v.HasHeaders h)
    (named : ∀ index < h.nsec, NameEnds v (v.sectionHeader h index) (v.strTab h)) (s : LoadState) :
    ∃ t tab, t.globals.dwarf = bwDwarfTabReset tab ∧ t.globals.imageBase = v.imageBase h ∧
      ∀ u, bwPeParse v env.qsort (v.lineSections h) t = .ok () u →
        bwPeLoad env module s = .ok () u := by
  have found := (hasHeaders_iff v).mp headers
  have accepted := headers_accepted v found
  obtain ⟨s₁, ranReset, noSyms, noNames⟩ : ∃ t, bwPeReset module s = .ok () t ∧
      t.globals.nsym = 0 ∧ t.globals.nlen = 0 := ⟨_, rfl, rfl, rfl⟩
  obtain ⟨seen, ranHeaders, -⟩ := bwPeHeaders_run v s₁
  rw [found, orBreak] at ranHeaders
  obtain ⟨s₂, ranLines, reset, unset, symbols, names⟩ : ∃ t,
      bwPeResetLines (s₁.log seen) = .ok () t ∧
      t.globals.dwarf = bwDwarfTabReset s₁.globals.dwarf ∧ t.globals.imageBase = 0 ∧
      t.globals.nsym = s₁.globals.nsym ∧ t.globals.nlen = s₁.globals.nlen :=
    ⟨_, rfl, rfl, rfl, rfl, rfl⟩
  obtain ⟨s₃, ranBase, dwarf, -, base⟩ := bwPeImageBase_stores accepted unset
  have based : SameSymbols s₂ s₃ := Develops.ok ranBase
  obtain ⟨seenTab, -, ranTab⟩ := bwPeStrTab_run small accepted s₃
  obtain ⟨-, s₄, ranTable, -, globals, -⟩ := @bwPeSymbolTable_run v h small accepted module
    (s₃.log seenTab) ((based.nsym.trans symbols).trans noSyms)
    ((based.nlen.trans names).trans noNames)
  have tables : SameTables s₃ s₄ := by
    have stored := withSymbols_tables s₃.globals (taken 0 0 (v.functionSymbols h module))
    constructor
    · rw [globals]
      exact stored.1
    · rw [globals]
      exact stored.2.1
    · rw [globals]
      exact stored.2.2
  obtain ⟨s₅, ranSort, sorted⟩ := bwPeSort_tables env.symSort s₄
  obtain ⟨seenSections, ranSections⟩ := bwPeSections_lineSections s₅ accepted named
  have kept := tables.trans sorted
  refine ⟨s₅.log seenSections, s₁.globals.dwarf, (kept.dwarf.trans dwarf).trans reset,
    kept.base.trans base, fun u ranParse => ?_⟩
  have ran : bwPeFile env v module s₁ = .ok () u := by
    rw [bwPeFile, bind_of_ok ranHeaders, bind_of_ok ranLines, bind_of_ok ranBase, bind_of_ok ranTab,
      bind_of_ok ranTable, bind_of_ok ranSort]
    exact (bind_of_ok ranSections).trans ranParse
  rw [bwPeLoad, bind_of_ok ranReset, if_neg (not_or.mpr ⟨isModule, by simp [hasPath]⟩), mapped]
  dsimp only
  rw [orLeave, ran]

/-- A load of the file returns, from any state. -/
theorem bwPeLoad_lines (file : Described env module v h units) (s : LoadState) :
    ∃ t, bwPeLoad env module s = .ok () t ∧
      Lines env.qsort (v.imageBase h) (firstRows units) t.globals := by
  obtain ⟨t, tab, reset, base, rest⟩ := bwPeLoad_toParse file.isModule file.hasPath file.mapped
    file.small file.headers file.named s
  obtain ⟨u, ranParse, lines⟩ := bwPeParse_lines file.lines env.qsort reset
  rw [base] at lines
  exact ⟨u, rest u ranParse, lines⟩

/-- A query of a line after a load comes to one of its rows. -/
theorem Lines.topmost {qsort : Qsort} {base : Nat} {rows : List TextRow} {g : Globals}
    (lines : Lines qsort base rows g) (module probe srcLen : Nat) :
    ∃ row, Topmost TextRow.addr rows (g.linked 64 module probe) row ∧
      g.line 64 module probe srcLen = row.map fun row =>
        (bwCopyCstr srcLen row.file, row.line) := by
  obtain ⟨built, rfl, table⟩ := lines.table
  cases isReady : g.dwarfReady with
  | false =>
      have empty := lines.ready isReady
      refine ⟨none, ?_, ?_⟩
      · rw [empty]
        exact fun row member => nomatch member
      · rw [Globals.line, isReady]
        rfl
  | true =>
      obtain ⟨row, top, looked⟩ := bwDwarfTabLookup_topmost built qsort (g.linked 64 module probe)
      refine ⟨row, top, ?_⟩
      have line : g.line 64 module probe srcLen =
          (bwDwarfTabLookup g.dwarf (g.linked 64 module probe)).map fun found =>
            (bwCopyCstr srcLen found.1, found.2) := by
        rw [Globals.line, isReady]
        rfl
      rw [line, table, looked, Option.map_map]
      rfl

/-- Whatever was asked before, a line is asked for at the address that the file was
linked for, and the answer is one of the rows of the line section at the greatest
address not above it; there is none only if all rows are above it. -/
theorem bwPeLine_described (file : Described env module v h units) (probe srcLen : Nat)
    {s : LoadState} (reachable : Reachable env s) :
    ∃ row, Topmost TextRow.addr (firstRows units) (v.linkedAddr h module probe) row ∧
      verdict (answer env (.line module probe srcLen) s) =
        .ok (.source (row.map fun row => (bwCopyCstr srcLen row.file, row.line))) := by
  obtain ⟨loaded, ran, lines⟩ := bwPeLoad_lines file freshProcess
  have ensured : bwPeEnsure env (Query.line module probe srcLen).module freshProcess =
      .ok () loaded := (bwPeEnsure_fresh env file.isModule).trans ran
  have answered : verdict (answer env (.line module probe srcLen) s) =
      .ok (.source (loaded.globals.line 64 module probe srcLen)) := by
    rw [answer_warm_eq reachable.warm, answer_eq,
      if_neg (show (Query.line module probe srcLen).module ≠ 0
      from file.isModule), bind_of_ok ensured]
    rfl
  have linked : loaded.globals.linked 64 module probe = v.linkedAddr h module probe := by
    rw [Globals.linked, View.linkedAddr, lines.base]
  obtain ⟨row, top, line⟩ := lines.topmost module probe srcLen
  rw [linked] at top
  exact ⟨row, top, by rw [answered, line]⟩

end Load

/-! ### A file of one unit -/

/-- A PE32+ file with image base `0x400000` and one section, at `0x1000`, which
serves as code, with the function `f` at its start, and as `.debug_line`, with the
data of `shortUnit`. -/
def lineFile : List UInt8 :=
  [0x4d, 0x5a] ++ List.replicate 58 0 ++ [64, 0, 0, 0] ++
  [0x50, 0x45, 0, 0] ++ [0x64, 0x86, 1, 0, 0, 0, 0, 0, 160, 0, 0, 0, 1, 0, 0, 0, 32, 0, 0, 0] ++
  ([0x0b, 0x02] ++ List.replicate 22 0 ++ [0, 0, 0x40, 0, 0, 0, 0, 0]) ++
  ([0x2f, 0x34, 0, 0, 0, 0, 0, 0] ++
    [0, 0, 0, 0, 0, 0x10, 0, 0, UInt8.ofNat shortUnit.bytes.length, 0, 0, 0, 194, 0, 0, 0] ++
    List.replicate 16 0) ++
  [0x66, 0, 0, 0, 0, 0, 0, 0, 0, 0, 0, 0, 1, 0, 0x20, 0, 2, 0] ++
  ([16, 0, 0, 0] ++ debugLineName ++ [0]) ++ shortUnit.bytes

def lineHeaders : PeHeaders := ⟨64, 1, 160, 1, 32, 120⟩

/-- Every module is that file. -/
def lineEnv : Env 64 where
  path _ := some [0x61]
  mapFile _ := some (fileView lineFile)
  symSort := symInsertionSort
  qsort := stableQsort

def lineFileUnit : SectionUnit ((fileView lineFile).lineImage lineHeaders) where
  unit := shortUnit
  tables := shortTables _
  sums := shortUnit_sums

theorem lineFile_described : Described lineEnv 0x7ff600000000 (fileView lineFile) lineHeaders
    [lineFileUnit] where
  isModule := by decide
  hasPath := rfl
  mapped := rfl
  small := by decide +kernel
  headers := (hasHeaders_iff _).mpr (by decide +kernel)
  named := by decide +kernel
  lines := Or.inr
    { present := by decide +kernel
      bytes := ⟨[], padding_nil, by decide +kernel⟩
      strsFit := by decide +kernel }

theorem lineFile_rows : firstRows [lineFileUnit] = [⟨0x401000, [0x61], 1⟩] := by
  decide +kernel

theorem lineFile_linked :
    (fileView lineFile).linkedAddr lineHeaders 0x7ff600000000 0x7ff600001004 = 0x401004 := by
  decide +kernel

/-- Where one row is not above the address, it is what a search comes to. -/
theorem lineFile_topmost {row : Option TextRow}
    (top : Topmost TextRow.addr (firstRows [lineFileUnit])
      ((fileView lineFile).linkedAddr lineHeaders 0x7ff600000000 0x7ff600001004) row) :
    row = some ⟨0x401000, [0x61], 1⟩ := by
  rw [lineFile_rows, lineFile_linked] at top
  cases row with
  | none => exact absurd (top _ (List.mem_singleton_self _)) (by decide)
  | some row => rw [List.mem_singleton.mp top.mem]

/-- Four bytes behind the start of the sequence, wherever the module lies. -/
theorem lineFile_line :
    verdict (answer lineEnv (.line 0x7ff600000000 0x7ff600001004 16) freshProcess) =
      .ok (.source (some ([0x61], 1))) := by
  obtain ⟨row, top, answered⟩ := bwPeLine_described lineFile_described 0x7ff600001004 16
    (reachable_freshProcess lineEnv)
  rw [answered, lineFile_topmost top]
  rfl

end Backwalk.Windows
