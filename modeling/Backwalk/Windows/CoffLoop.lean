import Backwalk.Windows.CoffSymbols

/-!
Contract: the loop of `bw_pe_load` over the symbol table, in a process of either
width and over a file of any size.

Owns the function symbols as the loop meets them: its offsets are `DWORD`s, so in
a table beyond 4 GiB it comes back to records it has seen, and in a process of 32
bits the check of the table may let one through that is not in the file. Whenever
the loop comes to its end, it has appended these symbols as far as there was
room. For a file below 4 GiB in a 64-bit process they are the function symbols of
the file.
-/

namespace Backwalk.Windows

open Backwalk.DwarfLine Backwalk.Support

/-! ### Values -/

section Values

variable {bits : Nat} (v : View bits) (h : PeHeaders)

/-- What a read of `n` bytes at `base + off` answers. -/
def View.read (off n : Nat) : Nat := ((v.bytesAt off n).toOption.map leNat).getD 0

/-- `n` characters from `base + off` on, each read for itself. -/
def View.chars (off n : Nat) : List UInt8 :=
  (List.range n).map fun i => UInt8.ofNat (v.read (off + i) 1)

/-- The fields that are read of record `i`. -/
def View.readRecord (i : Nat) : SymRecord where
  value := v.read (recordOff h i + 8) 4
  secNum := v.read (recordOff h i + 12) 2
  type := v.read (recordOff h i + 14) 2
  naux := v.read (recordOff h i + 17) 1

/-- The string table, where the loader looks for it. -/
def View.readStrTab : StrTab :=
  if h.symOff ≠ 0 ∧ h.nsym ≠ 0 ∧ sizeT bits (h.symOff + h.nsym * bwCoffSymSize + 4) ≤ v.size then
    let off := dword (h.symOff + h.nsym * bwCoffSymSize)
    let size := v.read off 4
    if size < 4 ∨ v.size < sizeT bits (off + size) then ⟨off, 0⟩ else ⟨off, size⟩
  else ⟨0, 0⟩

/-- The name that is read for record `i`. -/
def View.readName (strTab : StrTab) (i : Nat) : Option (List UInt8) :=
  if v.read (recordOff h i) 4 = 0 then
    let longOff := v.read (recordOff h i + 4) 4
    if strTab.size = 0 ∨ strTab.size ≤ longOff then none
    else some (upToNul (v.chars (strTab.off + longOff) (strTab.size - longOff)))
  else some (upToNul (v.chars (recordOff h i) 8))

/-- The function symbol that the loop makes of record `i`. -/
def View.readFunction (module : Nat) (strTab : StrTab) (i : Nat) : Option (Nat × List UInt8) :=
  let record := v.readRecord h i
  if record.noSection h.nsec = false ∧ record.isFcn = true then
    ((v.readName h strTab i).filter wantedName).map fun name => (v.symbolAddr h module record, name)
  else none

/-- The function symbols that the loop meets from record `i` on. -/
def View.metFrom (module : Nat) (strTab : StrTab) : Nat → Nat → List (Nat × List UInt8)
  | 0, _ => []
  | fuel + 1, i =>
      let naux := (v.readRecord h i).naux
      if h.nsym ≤ i ∨ (naux ≠ 0 ∧ h.nsym ≤ dword (i + naux)) then []
      else (v.readFunction h module strTab i).toList ++
        View.metFrom module strTab fuel (dword (dword (i + naux) + 1))

/-- The function symbols that the loop meets. -/
def View.met (module : Nat) : List (Nat × List UInt8) :=
  if h.symOff ≠ 0 ∧ h.nsym ≠ 0 ∧ sizeT bits (h.symOff + h.nsym * bwCoffSymSize) ≤ v.size then
    v.metFrom h module (v.readStrTab h) (h.nsym + 1) 0
  else []

end Values

/-! ### Characters -/

section Chars

variable {bits : Nat} (v : View bits)

theorem View.chars_succ (off n : Nat) :
    v.chars off (n + 1) = UInt8.ofNat (v.read off 1) :: v.chars (off + 1) n := by
  simp only [chars, List.range_succ_eq_map, List.map_cons, List.map_map, Nat.add_zero]
  congr 1
  apply List.map_congr_left
  intro i _
  simp only [Function.comp_apply, Nat.succ_eq_add_one]
  rw [Nat.add_assoc, Nat.add_comm 1]

theorem View.chars_take (off : Nat) {m n : Nat} (shorter : m ≤ n) :
    (v.chars off n).take m = v.chars off m := by
  rw [chars, ← List.map_take, List.take_range, Nat.min_eq_left shorter, chars]

@[simp]
theorem View.chars_length (off n : Nat) : (v.chars off n).length = n := by
  rw [chars, List.length_map, List.length_range]

end Chars

/-! ### Reads that answer -/

/-- Accesses are all that was added. -/
def Logged (s s' : LoadState) : Prop := ∃ seen, s' = s.log seen

instance : Std.Refl Logged := ⟨fun s => ⟨[], s.log_nil.symm⟩⟩

instance : IsTrans LoadState Logged where
  trans s _ _ one two := by
    obtain ⟨seen, rfl⟩ := one
    obtain ⟨more, rfl⟩ := two
    exact ⟨seen ++ more, s.log_log seen more⟩

instance (access : Access) : Develops Logged (logAccess access) := ⟨fun _ => ⟨[access], rfl⟩⟩

theorem Logged.globals {s s' : LoadState} (logged : Logged s s') : s'.globals = s.globals := by
  obtain ⟨seen, rfl⟩ := logged
  rfl

section Reads

variable {bits : Nat} (v : View bits) {h : PeHeaders} {s s' : LoadState}

theorem View.Holds.read {off n value : Nat} (holds : v.Holds off n value) :
    v.read off n = value := by
  obtain ⟨bytes, there, rfl⟩ := holds
  rw [View.read, there]
  rfl

theorem readUint_read {off n value : Nat} (ended : readUint v off n s = .ok value s') :
    v.read off n = value :=
  View.Holds.read v (readUint_ok v ended)

theorem readChar_read {off : Nat} {c : UInt8} (ended : readChar v off s = .ok c s') :
    UInt8.ofNat (v.read off 1) = c := by
  obtain ⟨value, s₁, read, ended⟩ := bind_eq_ok.mp ended
  cases ended
  rw [readUint_read v read]

theorem readSymRecord_read {i : Nat} {record : SymRecord}
    (ended : readSymRecord v h i s = .ok record s') :
    v.readRecord h i = record := by
  have holds := readSymRecord_ok v ended
  rw [View.readRecord, holds.value.read, holds.secNum.read, holds.type.read, holds.naux.read]

theorem nameChars_read {n off : Nat} {name : List UInt8}
    (ended : nameChars v n off s = .ok name s') :
    upToNul (v.chars off n) = name := by
  induction n generalizing off name s with
  | zero =>
      cases ended
      rfl
  | succ n inductionHypothesis =>
      obtain ⟨c, s₁, read, ended⟩ := bind_eq_ok.mp ended
      rw [v.chars_succ, readChar_read v read]
      split_ifs at ended with nul
      · cases ended
        rw [nul, upToNul_cons_nul]
      · obtain ⟨rest, s₂, later, ended⟩ := bind_eq_ok.mp ended
        cases ended
        rw [upToNul_cons_ne _ nul, inductionHypothesis later]

theorem bwPeStrTab_read {strTab : StrTab} (ended : bwPeStrTab v h s = .ok strTab s') :
    v.readStrTab h = strTab ∧ Logged s s' := by
  refine ⟨?_, Develops.ok ended⟩
  unfold bwPeStrTab at ended
  unfold View.readStrTab
  split_ifs at ended ⊢ with there
  · obtain ⟨size, s₁, read, ended⟩ := bind_eq_ok.mp ended
    dsimp only
    rw [readUint_read v read]
    split_ifs at ended ⊢ <;> (cases ended; rfl)
  · cases ended
    rfl

end Reads

/-! ### What the loop does -/

/-- Whether the loop goes on after a record with this function symbol, and with
what globals. -/
def Globals.taking (g : Globals) : Option (Nat × List UInt8) → Bool × Globals
  | none => (true, g)
  | some (addr, name) =>
      let kept := name.take (bwPeNameMax - g.nlen - 1)
      if kept = [] then (false, g) else (true, g.withSymbol addr kept)

section Loop

variable {bits : Nat} {v : View bits} {h : PeHeaders} {s t : LoadState}

/-- `bw_pe_add_name` appends the characters that there is room for. -/
theorem bwPeAddName_read {off srcLen : Nat} {nameOff : Int}
    (ended : bwPeAddName v off srcLen s = .ok nameOff t) :
    let kept := (upToNul (v.chars off srcLen)).take (bwPeNameMax - s.globals.nlen - 1)
    (kept = [] ∧ nameOff = -1 ∧ t.globals = s.globals) ∨
      (kept ≠ [] ∧ nameOff = s.globals.nlen ∧ t.globals = s.globals.withName kept) := by
  have short := length_upToNul_le (v.chars off srcLen)
  rw [v.chars_length] at short
  have cut : upToNul (v.chars off (addNameLen s.globals.nlen srcLen)) =
      (upToNul (v.chars off srcLen)).take (bwPeNameMax - s.globals.nlen - 1) := by
    unfold addNameLen
    split_ifs with long
    · rw [← v.chars_take off (show bwPeNameMax - s.globals.nlen - 1 ≤ srcLen by omega),
        upToNul_take]
    · rw [List.take_of_length_le (by omega)]
  have noName : addNameLen s.globals.nlen srcLen = 0 →
      (upToNul (v.chars off srcLen)).take (bwPeNameMax - s.globals.nlen - 1) = [] := by
    intro none
    rw [← cut, none]
    rfl
  rw [bwPeAddName_run] at ended
  split_ifs at ended with full noRoom
  · refine Or.inl ⟨noName ?_, ?_⟩
    · unfold addNameLen
      split_ifs <;> omega
    · cases ended
      exact ⟨rfl, rfl⟩
  · refine Or.inl ⟨noName noRoom, ?_⟩
    cases ended
    exact ⟨rfl, rfl⟩
  · obtain ⟨name, s₁, read, ended⟩ := bind_eq_ok.mp ended
    have logged : Logged s s₁ := Develops.ok read
    have isName := nameChars_read v read
    rw [cut] at isName
    dsimp only
    rw [isName]
    split_ifs at ended with empty
    · cases ended
      exact Or.inl ⟨empty, rfl, logged.globals⟩
    · cases ended
      exact Or.inr ⟨empty, rfl, by rw [← logged.globals]⟩

theorem bwPeNamed_read {addr nameAt nameLen : Nat} (positive : 0 < nameLen) {more : Bool}
    (ended : bwPeNamed v addr nameAt nameLen s = .ok more t) :
    (more, t.globals) = s.globals.taking
        (((some (upToNul (v.chars nameAt nameLen))).filter wantedName).map
          fun name => (addr, name)) := by
  obtain ⟨n, rfl⟩ : ∃ n, nameLen = n + 1 := ⟨nameLen - 1, by omega⟩
  obtain ⟨first, s₁, read, ended⟩ := bind_eq_ok.mp ended
  have logged : Logged s s₁ := Develops.ok read
  have wanted : wantedName (upToNul (v.chars nameAt (n + 1))) =
      !decide (first = 0x2e ∨ first = 0) := by
    rw [v.chars_succ, wantedName_cons, readChar_read v read]
  rw [Option.filter_some, wanted]
  by_cases skipped : first = 0x2e ∨ first = 0
  · rw [if_pos skipped] at ended
    cases ended
    rw [logged.globals, if_neg (by simp [skipped])]
    rfl
  · rw [if_neg skipped] at ended
    obtain ⟨nameOff, s₂, added, ended⟩ := bind_eq_ok.mp ended
    have result := bwPeAddName_read added
    rw [logged.globals] at result
    rw [if_pos (by simp [skipped]), Option.map_some, Globals.taking]
    rcases result with ⟨noRoom, rfl, same⟩ | ⟨room, rfl, extended⟩
    · rw [if_pos (by decide)] at ended
      cases ended
      rw [if_pos noRoom, same]
    · rw [if_neg (by omega)] at ended
      cases ended
      rw [if_neg room, extended]
      rfl

theorem readSectionHeader_read {index : Nat} {sh : SectionHeader}
    (inside : h.secOff + (index + 1) * sectionHeaderSize ≤ v.size)
    (ended : readSectionHeader v h index s = .ok sh t) :
    sh.virtualAddress = v.uint (h.secOff + index * sectionHeaderSize + 12) 4 := by
  have bytes := readSectionHeader_ok v ended
  rw [v.bytesAt_inside (by unfold sectionHeaderSize at *; omega)] at bytes
  rw [SectionHeader.virtualAddress, ← Except.ok.inj bytes]
  exact field_slice v (by decide)

/-- What the body of the loop does with a record. -/
theorem bwPeSymbol_read {module i : Nat} {strTab : StrTab} (accepted : h.Accepted v) {more : Bool}
    (ended : bwPeSymbol v h module strTab i (v.readRecord h i) s = .ok more t) :
    (more, t.globals) = s.globals.taking (v.readFunction h module strTab i) := by
  have few := accepted.nsecSmall
  have sections := accepted.sections
  unfold bwPeSymbol at ended
  unfold View.readFunction
  dsimp only
  by_cases isSymbol : (v.readRecord h i).noSection h.nsec = false ∧ (v.readRecord h i).isFcn = true
  · obtain ⟨low, high⟩ := (noSection_iff few _).mp isSymbol.1
    rw [if_neg (show ¬ (v.readRecord h i).noSection h.nsec = true by simp [isSymbol.1]),
      if_neg (show ¬ (!(v.readRecord h i).isFcn) = true by simp [isSymbol.2])] at ended
    rw [if_pos isSymbol]
    obtain ⟨sh, s₁, header, ended⟩ := bind_eq_ok.mp ended
    obtain ⟨inline, s₂, readInline, ended⟩ := bind_eq_ok.mp ended
    have logged : Logged s s₂ := trans_of Logged (Develops.ok header) (Develops.ok readInline)
    have address := readSectionHeader_read (by unfold sectionHeaderSize at *; omega) header
    rw [address] at ended
    change (if inline = 0 then _ else bwPeNamed v (v.symbolAddr h module (v.readRecord h i)) _ _ :
      Loader Bool) s₂ = _ at ended
    rw [View.readName, readUint_read v readInline]
    by_cases isLong : inline = 0
    · rw [if_pos isLong] at ended
      rw [if_pos isLong]
      obtain ⟨longOff, s₃, readLong, ended⟩ := bind_eq_ok.mp ended
      have loggedLong : Logged s s₃ := trans_of Logged logged (Develops.ok readLong)
      dsimp only
      rw [readUint_read v readLong]
      split_ifs at ended ⊢ with outside
      · cases ended
        rw [loggedLong.globals]
        rfl
      · rw [← loggedLong.globals]
        exact bwPeNamed_read (by omega) ended
    · rw [if_neg isLong] at ended
      rw [if_neg isLong, ← logged.globals]
      exact bwPeNamed_read (by decide) ended
  · rw [if_neg isSymbol]
    split_ifs at ended with noSection notFcn
    · cases ended
      rfl
    · cases ended
      rfl
    · exact absurd ⟨by simpa using noSection, by simpa using notFcn⟩ isSymbol

theorem withSymbols_cons (g : Globals) (pair : Nat × List UInt8) (pairs : List (Nat × List UInt8)) :
    g.withSymbols (pair :: pairs) = (g.withSymbol pair.1 pair.2).withSymbols pairs := rfl

/-- A loop that comes to its end has appended what it met, as far as there was
room. -/
theorem bwPeSymbols_read {module fuel i : Nat} {strTab : StrTab} (accepted : h.Accepted v)
    (ended : bwPeSymbols v h module strTab fuel i s = .ok () t) :
    t.globals = s.globals.withSymbols
      (taken s.globals.nsym s.globals.nlen (v.metFrom h module strTab fuel i)) := by
  induction fuel generalizing i s with
  | zero => cases ended
  | succ fuel inductionHypothesis =>
      rw [bwPeSymbols, bind_of_ok (show getGlobals s = .ok s.globals s from rfl)] at ended
      by_cases room : i < h.nsym ∧ s.globals.nsym < bwPeSymMax
      · rw [if_pos room] at ended
        obtain ⟨record, s₁, read, ended⟩ := bind_eq_ok.mp ended
        have logged : Logged s s₁ := Develops.ok read
        obtain rfl := readSymRecord_read v read
        rw [View.metFrom]
        by_cases last : (v.readRecord h i).naux ≠ 0 ∧ h.nsym ≤ dword (i + (v.readRecord h i).naux)
        · rw [if_pos last] at ended
          cases ended
          rw [if_pos (Or.inr last), logged.globals]
          rfl
        · rw [if_neg last] at ended
          obtain ⟨more, s₂, body, ended⟩ := bind_eq_ok.mp ended
          have took := bwPeSymbol_read accepted body
          rw [logged.globals] at took
          rw [if_neg (not_or.mpr ⟨Nat.not_le.mpr room.1, last⟩)]
          cases found : v.readFunction h module strTab i with
          | none =>
              rw [found, Globals.taking] at took
              obtain ⟨rfl, same⟩ := Prod.mk.inj took
              rw [if_pos rfl] at ended
              rw [inductionHypothesis ended, same]
              rfl
          | some pair =>
              obtain ⟨addr, name⟩ := pair
              rw [found, Globals.taking] at took
              change _ = s.globals.withSymbols (taken _ _ ((addr, name) :: _))
              rw [taken]
              by_cases noRoom : name.take (bwPeNameMax - s.globals.nlen - 1) = []
              · rw [if_pos noRoom] at took
                obtain ⟨rfl, same⟩ := Prod.mk.inj took
                rw [if_neg (by simp)] at ended
                cases ended
                rw [if_pos (Or.inr noRoom), same]
                rfl
              · rw [if_neg noRoom] at took
                obtain ⟨rfl, added⟩ := Prod.mk.inj took
                rw [if_pos rfl] at ended
                rw [if_neg (not_or.mpr ⟨Nat.not_le.mpr room.2, noRoom⟩), withSymbols_cons,
                  inductionHypothesis ended, added]
                rfl
      · rw [if_neg room] at ended
        cases ended
        rcases not_and_or.mp room with beyond | full
        · rw [View.metFrom, if_pos (Or.inl (Nat.le_of_not_lt beyond))]
          rfl
        · rw [taken_full (Nat.le_of_not_lt full)]
          rfl

theorem bwPeSymbolTable_read {module : Nat} (accepted : h.Accepted v) (noSyms : s.globals.nsym = 0)
    (noNames : s.globals.nlen = 0)
    (ended : bwPeSymbolTable v h module (v.readStrTab h) s = .ok () t) :
    t.globals = s.globals.withSymbols (taken 0 0 (v.met h module)) := by
  unfold bwPeSymbolTable at ended
  unfold View.met
  split_ifs at ended ⊢ with there
  · have appended := bwPeSymbols_read accepted ended
    rwa [noSyms, noNames] at appended
  · cases ended
    rfl

/-- The names that are met are strings. -/
theorem readFunction_noNul {module i : Nat} {strTab : StrTab} {pair : Nat × List UInt8}
    (found : v.readFunction h module strTab i = some pair) : NoNul pair.2 := by
  unfold View.readFunction at found
  dsimp only at found
  split_ifs at found
  obtain ⟨name, named, rfl⟩ := Option.map_eq_some_iff.mp found
  obtain ⟨isName, -⟩ := Option.filter_eq_some_iff.mp named
  unfold View.readName at isName
  dsimp only at isName
  split_ifs at isName
  · cases isName
    exact nul_notMem_upToNul _
  · cases isName
    exact nul_notMem_upToNul _

theorem metFrom_noNul {module fuel i : Nat} {strTab : StrTab} :
    ∀ pair ∈ v.metFrom h module strTab fuel i, NoNul pair.2 := by
  induction fuel generalizing i with
  | zero =>
      intro pair member
      cases member
  | succ fuel inductionHypothesis =>
      intro pair member
      rw [View.metFrom] at member
      split_ifs at member
      · cases member
      · rcases List.mem_append.mp member with here | later
        · exact readFunction_noNul (Option.mem_toList.mp here)
        · exact inductionHypothesis pair later

theorem met_noNul {module : Nat} : ∀ pair ∈ v.met h module, NoNul pair.2 := by
  unfold View.met
  split_ifs
  · exact metFrom_noNul
  · intro pair member
    cases member

end Loop

/-! ### A file below 4 GiB -/

section Small

variable {v : View 64} {h : PeHeaders}

theorem View.read_inside {off n : Nat} (inside : off + n ≤ v.size) :
    v.read off n = v.uint off n := by
  rw [read, v.bytesAt_inside inside]
  rfl

theorem View.chars_inside {off n : Nat} (inside : off + n ≤ v.size) :
    v.chars off n = v.slice off n := by
  apply List.map_congr_left
  intro i member
  have below := List.mem_range.mp member
  rw [View.read_inside (by omega), View.uint, v.slice_succ]
  simp [View.slice, leNat]

theorem readRecord_small (file : v.SmallFile h) {i : Nat} (inTable : i < h.nsym) :
    v.readRecord h i = v.symRecord h i := by
  have inside := file.record inTable
  unfold recordAt bwCoffSymSize at inside
  have atRecord : recordAt h i = h.symOff + i * 18 := rfl
  rw [View.readRecord, View.symRecord, file.recordOff inTable, View.read_inside (by omega),
    View.read_inside (by omega), View.read_inside (by omega), View.read_inside (by omega)]

theorem readStrTab_small (small : v.size < 2 ^ 32) (accepted : h.Accepted v) :
    v.readStrTab h = v.strTab h := by
  obtain ⟨seen, -, ran⟩ := bwPeStrTab_run small accepted freshProcess
  exact (bwPeStrTab_read v ran).1

theorem readName_small (file : v.SmallFile h) {i : Nat} (inTable : i < h.nsym) :
    v.readName h (v.strTab h) i = v.symbolName h i := by
  have inside := file.record inTable
  unfold recordAt bwCoffSymSize at inside
  have atRecord : recordAt h i = h.symOff + i * 18 := rfl
  rw [View.readName, View.symbolName, file.recordOff inTable, View.read_inside (by omega),
    View.read_inside (by omega), View.chars_inside (by omega)]
  by_cases isLong : v.uint (recordAt h i) 4 = 0
  · rw [if_pos isLong, if_pos isLong]
    dsimp only
    by_cases inStrings : v.uint (recordAt h i + 4) 4 < (v.strTab h).size
    · have fits := strTab_fits v h (by omega)
      rw [if_neg (by omega), if_pos inStrings, View.chars_inside (by omega)]
    · rw [if_pos (by omega), if_neg inStrings]
  · rw [if_neg isLong, if_neg isLong]

theorem readFunction_small (file : v.SmallFile h) {module i : Nat}
    (whole : i + (v.symRecord h i).naux < h.nsym) :
    v.readFunction h module (v.strTab h) i = v.functionSymbol h module i := by
  have inTable : i < h.nsym := by omega
  have inSection := noSection_iff file.accepted.nsecSmall (v.symRecord h i)
  rw [View.readFunction, View.functionSymbol, readRecord_small file inTable,
    readName_small file inTable]
  simp only [inSection, whole, true_and, and_assoc]

/-- Without a wrap the loop takes the steps of the walk. -/
theorem metFrom_small (file : v.SmallFile h) {module fuel n i : Nat} (enough : h.nsym < fuel + i)
    (far : h.nsym ≤ n + i) (inside : i ≤ h.nsym) :
    v.metFrom h module (v.strTab h) fuel i = v.functionsFrom h module n i := by
  induction fuel generalizing n i with
  | zero => omega
  | succ fuel inductionHypothesis =>
      rw [View.metFrom]
      by_cases inTable : i < h.nsym
      · have small := nsym_small file
        have nauxSmall := naux_small v h i
        have sum : dword (i + (v.symRecord h i).naux) = i + (v.symRecord h i).naux :=
          Nat.mod_eq_of_lt (by omega)
        obtain ⟨n, rfl⟩ : ∃ m, n = m + 1 := ⟨n - 1, by omega⟩
        rw [readRecord_small file inTable, sum, View.functionsFrom, View.walk, if_pos inTable]
        by_cases whole : i + (v.symRecord h i).naux < h.nsym
        · have next : dword (i + (v.symRecord h i).naux + 1) = i + 1 + (v.symRecord h i).naux := by
            rw [Nat.add_right_comm]
            exact Nat.mod_eq_of_lt (by omega)
          have rest := @inductionHypothesis n (i + 1 + (v.symRecord h i).naux) (by omega) (by omega)
            (by omega)
          rw [if_neg (by omega), if_pos whole, next, rest, readFunction_small file whole,
            View.functionsFrom]
          cases found : v.functionSymbol h module i with
          | none => rw [List.filterMap_cons_none found]; rfl
          | some pair => rw [List.filterMap_cons_some found]; rfl
        · have none : v.functionSymbol h module i = none := by
            cases found : v.functionSymbol h module i with
            | none => rfl
            | some pair => exact absurd (functionSymbol_whole found) whole
          rw [if_pos (by omega), if_neg whole, List.filterMap_cons_none none]
          rfl
      · rw [if_pos (Or.inl (Nat.le_of_not_lt inTable)), View.functionsFrom, walk_beyond inTable]
        rfl

/-- In a file below 4 GiB a 64-bit process meets the function symbols of the file. -/
theorem met_small (small : v.size < 2 ^ 32) (accepted : h.Accepted v) (module : Nat) :
    v.met h module = v.functionSymbols h module := by
  rw [View.met, sizeT_records accepted, readStrTab_small small accepted]
  by_cases there : h.symOff ≠ 0 ∧ h.nsym ≠ 0 ∧ recordAt h h.nsym ≤ v.size
  · rw [if_pos there, functionSymbols_walk module there.1 there.2.2]
    exact metFrom_small ⟨small, accepted, there.2.2⟩ (by omega) (by omega) (Nat.zero_le _)
  · rw [if_neg there, View.functionSymbols, symbols_absent there]
    rfl

end Small

end Backwalk.Windows
