import Backwalk.DwarfLine.FileTables
import Backwalk.Windows.Headers
import Backwalk.Windows.SectionNames

/-!
Contract: the symbol table of a PE file and the loop of `bw_pe_load` over it.

Owns the reference walk, from one symbol to the next over its auxiliary records,
and the function symbols it meets; and the run of the loop in a 64-bit process
over a file below 4 GiB, where no offset leaves 32 bits. The loop looks at the
records of the walk and appends their functions to the table, as far as there is
room for symbols and for names.
-/

namespace Backwalk.Windows

open Backwalk.DwarfLine Backwalk.Support

/-! ### The reference walk -/

/-- Offset of record `i`. -/
def recordAt (h : PeHeaders) (i : Nat) : Nat := h.symOff + i * bwCoffSymSize

section Walk

variable {bits : Nat} (v : View bits) (h : PeHeaders)

/-- The fields of record `i`. -/
def View.symRecord (i : Nat) : SymRecord where
  value := v.uint (recordAt h i + 8) 4
  secNum := v.uint (recordAt h i + 12) 2
  type := v.uint (recordAt h i + 14) 2
  naux := v.uint (recordAt h i + 17) 1

/-- The symbols from record `i` on, each followed by its auxiliary records. The
walk ends at the first one whose auxiliary records are not all in the table. -/
def View.walk : Nat → Nat → List Nat
  | 0, _ => []
  | fuel + 1, i =>
      if i < h.nsym then
        i :: (if i + (v.symRecord h i).naux < h.nsym then
          View.walk fuel (i + 1 + (v.symRecord h i).naux) else [])
      else []

/-- The walk from the first record, if the table is there and lies in the file. -/
def View.symbols : List Nat :=
  if h.symOff = 0 ∨ v.size < recordAt h h.nsym then [] else v.walk h h.nsym 0

/-- The string table behind the records; size 0 if it is absent or does not fit. -/
def View.strTab : StrTab :=
  if h.symOff ≠ 0 ∧ h.nsym ≠ 0 ∧ recordAt h h.nsym + 4 ≤ v.size then
    let off := recordAt h h.nsym
    let size := v.uint off 4
    if size < 4 ∨ v.size < off + size then ⟨off, 0⟩ else ⟨off, size⟩
  else ⟨0, 0⟩

/-- The name of record `i`, in itself or in the string table. -/
def View.symbolName (i : Nat) : Option (List UInt8) :=
  if v.uint (recordAt h i) 4 = 0 then
    let off := v.uint (recordAt h i + 4) 4
    if off < (v.strTab h).size then
      some (upToNul (v.slice ((v.strTab h).off + off) ((v.strTab h).size - off)))
    else none
  else some (upToNul (v.slice (recordAt h i) 8))

/-- A name that is looked for: not empty, and not that of a section. -/
def wantedName (name : List UInt8) : Bool := name ≠ [] && name.head? ≠ some 0x2e

/-- Where the function of a record is in memory. -/
def View.symbolAddr (module : Nat) (record : SymRecord) : Nat :=
  sizeT bits (module + v.uint (h.secOff + (record.secNum - 1) * sectionHeaderSize + 12) 4 +
    record.value)

/-- The function symbol of record `i`: address and name. -/
def View.functionSymbol (module i : Nat) : Option (Nat × List UInt8) :=
  let record := v.symRecord h i
  if i + record.naux < h.nsym ∧ 1 ≤ record.secNum ∧ record.secNum ≤ h.nsec ∧
      record.isFcn = true then
    ((v.symbolName h i).filter wantedName).map fun name => (v.symbolAddr h module record, name)
  else none

/-- All function symbols of the file, in the order of their records. -/
def View.functionSymbols (module : Nat) : List (Nat × List UInt8) :=
  (v.symbols h).filterMap (v.functionSymbol h module)

/-- The records of the walk that come before `room` function symbols are found. -/
def View.examined (module : Nat) : Nat → List Nat → List Nat
  | _, [] => []
  | 0, _ :: _ => []
  | room + 1, i :: rest =>
      i :: (if (v.functionSymbol h module i).isSome then View.examined module room rest
        else View.examined module (room + 1) rest)

end Walk

/-! ### Names -/

/-- What is in the table of names at `off`: the name and a NUL behind it, in the
part that is in use. -/
structure Globals.Denotes (g : Globals) (off : Nat) (name : List UInt8) : Prop where
  noNul : NoNul name
  inUse : off + name.length < g.nlen
  chars : ∀ i (inside : i < name.length), g.names (off + i) = name[i]
  ended : g.names (off + name.length) = 0

/-- A symbol of the table stands for this address and name. -/
def Globals.Is (g : Globals) (sym : Sym) (pair : Nat × List UInt8) : Prop :=
  sym.addr = pair.1 ∧ g.Denotes sym.nameOff pair.2

/-- The globals with a symbol and its name appended. -/
def Globals.withSymbol (g : Globals) (addr : Nat) (name : List UInt8) : Globals :=
  { g.withName name with
    syms := fun index => if index = g.nsym then ⟨addr, g.nlen⟩ else g.syms index
    nsym := g.nsym + 1 }

/-- What of the symbols `found` is taken over, with `nsym` symbols and `nlen`
bytes of names there already: as many as there is room for, the last name cut to
the bytes that are left. -/
def taken : Nat → Nat → List (Nat × List UInt8) → List (Nat × List UInt8)
  | _, _, [] => []
  | nsym, nlen, (addr, name) :: rest =>
      let kept := name.take (bwPeNameMax - nlen - 1)
      if bwPeSymMax ≤ nsym ∨ kept = [] then []
      else (addr, kept) :: taken (nsym + 1) (nlen + kept.length + 1) rest

/-- The globals with these symbols appended. -/
def Globals.withSymbols (g : Globals) (pairs : List (Nat × List UInt8)) : Globals :=
  pairs.foldl (fun g pair => g.withSymbol pair.1 pair.2) g

theorem Globals.Denotes.withName {g : Globals} {off : Nat} {name : List UInt8}
    (denotes : g.Denotes off name) (more : List UInt8) : (g.withName more).Denotes off name where
  noNul := denotes.noNul
  inUse := by
    have inUse := denotes.inUse
    simp only [Globals.withName]
    omega
  chars := by
    intro i inside
    have inUse := denotes.inUse
    rw [← denotes.chars i inside]
    exact writeBytes_below _ _ (by omega)
  ended := by
    rw [← denotes.ended]
    exact writeBytes_below _ _ denotes.inUse

theorem denotes_withName (g : Globals) {name : List UInt8} (noNul : NoNul name) :
    (g.withName name).Denotes g.nlen name where
  noNul := noNul
  inUse := by
    simp only [Globals.withName]
    omega
  chars := by
    intro i inside
    have there := writeBytes_at g.names g.nlen (name ++ [0])
      (show i < (name ++ [0]).length by simp; omega)
    rw [List.get_eq_getElem, List.getElem_append_left inside] at there
    exact there
  ended := writeBytes_end _ _ _

theorem symbols_withSymbol (g : Globals) (addr : Nat) (name : List UInt8) :
    (g.withSymbol addr name).symbols = g.symbols ++ [⟨addr, g.nlen⟩] := by
  have last : (g.withSymbol addr name).syms g.nsym = ⟨addr, g.nlen⟩ := if_pos rfl
  have others : List.map (g.withSymbol addr name).syms (List.range g.nsym) = g.symbols := by
    apply List.map_congr_left
    intro i member
    exact if_neg (Nat.ne_of_lt (List.mem_range.mp member))
  rw [Globals.symbols, show (g.withSymbol addr name).nsym = g.nsym + 1 from rfl, List.range_succ,
    List.map_append, List.map_singleton, last, others]

/-- A symbol that is appended is there afterwards, behind the others. -/
theorem is_withSymbol {g : Globals} {pairs : List (Nat × List UInt8)} (addr : Nat)
    {name : List UInt8} (noNul : NoNul name) (there : List.Forall₂ g.Is g.symbols pairs) :
    List.Forall₂ (g.withSymbol addr name).Is (g.withSymbol addr name).symbols
      (pairs ++ [(addr, name)]) := by
  have kept : List.Forall₂ (g.withSymbol addr name).Is g.symbols pairs :=
    there.imp fun _ _ is => ⟨is.1, { is.2.withName name with }⟩
  have added := denotes_withName g noNul
  rw [symbols_withSymbol]
  exact List.rel_append kept (.cons ⟨rfl, { added with }⟩ .nil)

theorem is_withSymbols {g : Globals} {pairs more : List (Nat × List UInt8)}
    (noNul : ∀ pair ∈ more, NoNul pair.2) (there : List.Forall₂ g.Is g.symbols pairs) :
    List.Forall₂ (g.withSymbols more).Is (g.withSymbols more).symbols (pairs ++ more) := by
  induction more generalizing g pairs with
  | nil => rwa [List.append_nil]
  | cons pair more inductionHypothesis =>
      have next := is_withSymbol pair.1 (noNul pair (List.mem_cons_self ..)) there
      have all :=
        inductionHypothesis (fun other member => noNul other (List.mem_cons_of_mem _ member)) next
      rwa [List.append_assoc] at all

/-! ### What is looked at -/

section Accesses

variable {bits : Nat} (v : View bits) (h : PeHeaders)

/-- All that is looked at is in the file, and the two fields that make a record a
function, section number and type, are looked at in these records and no others.
They are all that is read in two bytes. -/
structure View.Reads (seen : List Access) (records : List Nat) : Prop where
  inFile : ∀ access ∈ seen, access.InFile v
  fields : ∀ off, Access.memory (v.base + off) 2 ∈ seen ↔
    ∃ i ∈ records, off = recordAt h i + 12 ∨ off = recordAt h i + 14

variable {v h}

theorem reads_nil : v.Reads h [] [] := ⟨by simp, by simp⟩

theorem View.Reads.append {seen more : List Access} {records others : List Nat}
    (first : v.Reads h seen records) (next : v.Reads h more others) :
    v.Reads h (seen ++ more) (records ++ others) where
  inFile := by
    intro access member
    rcases List.mem_append.mp member with early | late
    · exact first.inFile access early
    · exact next.inFile access late
  fields := by
    intro off
    rw [List.mem_append, first.fields, next.fields]
    simp only [List.mem_append, or_and_right, exists_or]

theorem reads_other {off n : Nat} (inside : off + n ≤ v.size) (other : n ≠ 2) :
    v.Reads h [.memory (v.ptr off) n] [] where
  inFile := by
    intro access member
    rw [List.mem_singleton.mp member]
    exact inFile_memory v inside
  fields := by
    intro off'
    simp [other.symm]

/-- The four fields of a record. -/
theorem reads_record {i : Nat} (inside : recordAt h (i + 1) ≤ v.size) :
    v.Reads h [.memory (v.ptr (recordAt h i + 8)) 4, .memory (v.ptr (recordAt h i + 12)) 2,
      .memory (v.ptr (recordAt h i + 14)) 2, .memory (v.ptr (recordAt h i + 17)) 1] [i] := by
  unfold recordAt bwCoffSymSize at *
  rw [v.ptr_inside (by omega), v.ptr_inside (by omega), v.ptr_inside (by omega),
    v.ptr_inside (by omega)]
  refine ⟨?_, ?_⟩
  · intro access member
    simp only [List.mem_cons, List.not_mem_nil, or_false] at member
    rcases member with rfl | rfl | rfl | rfl
    · exact ⟨_, 4, by omega, rfl⟩
    · exact ⟨_, 2, by omega, rfl⟩
    · exact ⟨_, 2, by omega, rfl⟩
    · exact ⟨_, 1, by omega, rfl⟩
  · intro off
    simp [recordAt, bwCoffSymSize]

end Accesses

/-! ### Runs -/

section Runs

variable {v : View 64} {h : PeHeaders}

/-- A file below 4 GiB in a 64-bit process, with its symbol table inside. -/
structure View.SmallFile (v : View 64) (h : PeHeaders) : Prop where
  small : v.size < 2 ^ 32
  accepted : h.Accepted v
  table : recordAt h h.nsym ≤ v.size

theorem recordAt_le {i j : Nat} (le : i ≤ j) : recordAt h i ≤ recordAt h j :=
  Nat.add_le_add_left (Nat.mul_le_mul_right _ le) _

theorem View.SmallFile.record (file : v.SmallFile h) {i : Nat} (inTable : i < h.nsym) :
    recordAt h (i + 1) ≤ v.size :=
  (recordAt_le inTable).trans file.table

theorem View.SmallFile.recordOff (file : v.SmallFile h) {i : Nat} (inTable : i < h.nsym) :
    recordOff h i = recordAt h i := by
  have inside := file.record inTable
  have small := file.small
  unfold recordAt bwCoffSymSize at *
  rw [Windows.recordOff, bwCoffSymSize, show dword (i * 18) = i * 18 from
    Nat.mod_eq_of_lt (by omega)]

theorem readSymRecord_run (file : v.SmallFile h) {i : Nat} (inTable : i < h.nsym) (s : LoadState) :
    ∃ seen, readSymRecord v h i s = .ok (v.symRecord h i) (s.log seen) ∧ v.Reads h seen [i] := by
  have inside := file.record inTable
  refine ⟨_, ?_, reads_record inside⟩
  unfold recordAt bwCoffSymSize at inside
  rw [readSymRecord, file.recordOff inTable]
  unfold View.symRecord recordAt bwCoffSymSize
  rw [bind_of_ok (readUint_inside v (by omega)), bind_of_ok (readUint_inside v (by omega)),
    bind_of_ok (readUint_inside v (by omega)), bind_of_ok (readUint_inside v (by omega))]
  simp only [LoadState.log_log]
  rfl

/-- Characters are read up to the NUL. -/
theorem nameChars_run {n off : Nat} (inside : off + n ≤ v.size) (s : LoadState) :
    ∃ seen, nameChars v n off s = .ok (upToNul (v.slice off n)) (s.log seen) ∧
      v.Reads h seen [] := by
  induction n generalizing off s with
  | zero => exact ⟨[], by rw [LoadState.log_nil]; rfl, reads_nil⟩
  | succ n inductionHypothesis =>
      have here : v.Reads h [.memory (v.ptr off) 1] [] := reads_other (by omega) (by decide)
      rw [nameChars, bind_of_ok (readChar_inside v (by omega)), v.slice_succ]
      by_cases nul : v.byte off = 0
      · rw [if_pos nul, nul, upToNul_cons_nul]
        exact ⟨_, rfl, here⟩
      · obtain ⟨seen, ran, reads⟩ := @inductionHypothesis (off + 1) (by omega)
          (s.log [.memory (v.ptr off) 1])
        rw [if_neg nul, bind_of_ok ran, upToNul_cons_ne _ nul, LoadState.log_log]
        exact ⟨_, rfl, here.append reads⟩

/-- `bw_pe_add_name` appends the name, cut to the bytes that are left. -/
theorem bwPeAddName_appends {off srcLen : Nat} (inside : off + srcLen ≤ v.size) (s : LoadState) :
    ∃ seen, v.Reads h seen [] ∧ bwPeAddName v off srcLen s =
      (let kept := (upToNul (v.slice off srcLen)).take (bwPeNameMax - s.globals.nlen - 1)
      if kept = [] then .ok (-1) (s.log seen)
      else .ok s.globals.nlen ⟨s.globals.withName kept, s.accesses ++ seen⟩) := by
  have short := length_upToNul_le (v.slice off srcLen)
  rw [v.slice_length] at short
  rw [bwPeAddName_run]
  by_cases full : srcLen = 0 ∨ bwPeNameMax ≤ s.globals.nlen
  · have nothing : (upToNul (v.slice off srcLen)).take (bwPeNameMax - s.globals.nlen - 1) = [] := by
      rcases full with empty | full
      · have none : upToNul (v.slice off srcLen) = [] := List.eq_nil_of_length_eq_zero (by omega)
        rw [none, List.take_nil]
      · rw [show bwPeNameMax - s.globals.nlen - 1 = 0 by omega, List.take_zero]
    rw [if_pos full, nothing]
    exact ⟨[], reads_nil, by rw [LoadState.log_nil]; rfl⟩
  · have cut : upToNul (v.slice off (addNameLen s.globals.nlen srcLen)) =
        (upToNul (v.slice off srcLen)).take (bwPeNameMax - s.globals.nlen - 1) := by
      unfold addNameLen
      split_ifs with long
      · obtain ⟨rest, split⟩ : ∃ rest, srcLen = bwPeNameMax - s.globals.nlen - 1 + rest :=
          ⟨srcLen - (bwPeNameMax - s.globals.nlen - 1), by omega⟩
        rw [split, v.slice_append, ← upToNul_take, List.take_left' (v.slice_length _ _)]
      · rw [List.take_of_length_le (by omega)]
    have within : addNameLen s.globals.nlen srcLen ≤ srcLen := by
      unfold addNameLen
      split_ifs <;> omega
    rw [if_neg full, ← cut]
    by_cases noRoom : addNameLen s.globals.nlen srcLen = 0
    · rw [if_pos noRoom, noRoom]
      exact ⟨[], reads_nil, by rw [LoadState.log_nil]; rfl⟩
    · obtain ⟨seen, ran, reads⟩ := @nameChars_run v h (addNameLen s.globals.nlen srcLen) off
        (by omega) s
      refine ⟨seen, reads, ?_⟩
      rw [if_neg noRoom, bind_of_ok ran]
      dsimp only
      split_ifs <;> rfl

/-- What becomes of a record that has been looked at, with the function symbol it
is: the symbol is appended, with what there is room for of its name. -/
def afterSymbol (s : LoadState) (seen : List Access) :
    Option (Nat × List UInt8) → EStateM.Result Halt LoadState Bool
  | none => .ok true (s.log seen)
  | some (addr, name) =>
      let kept := name.take (bwPeNameMax - s.globals.nlen - 1)
      if kept = [] then .ok false (s.log seen)
      else .ok true ⟨s.globals.withSymbol addr kept, s.accesses ++ seen⟩

theorem afterSymbol_log (s : LoadState) (seen more : List Access)
    (found : Option (Nat × List UInt8)) :
    afterSymbol (s.log seen) more found = afterSymbol s (seen ++ more) found := by
  cases found with
  | none => rw [afterSymbol, afterSymbol, LoadState.log_log]
  | some pair =>
      rw [afterSymbol, afterSymbol, LoadState.log_log, LoadState.log_globals,
        LoadState.log_accesses, List.append_assoc]

/-- A name that does not begin with a period is wanted unless it is empty. -/
theorem wantedName_cons (c : UInt8) (rest : List UInt8) :
    wantedName (upToNul (c :: rest)) = !decide (c = 0x2e ∨ c = 0) := by
  by_cases nul : c = 0
  · rw [nul, upToNul_cons_nul]
    rfl
  · rw [upToNul_cons_ne _ nul]
    simp [wantedName, nul]

theorem bwPeNamed_run {addr nameAt nameLen : Nat} (inside : nameAt + nameLen ≤ v.size)
    (positive : 0 < nameLen) (s : LoadState) :
    ∃ seen, v.Reads h seen [] ∧ bwPeNamed v addr nameAt nameLen s =
      afterSymbol s seen (((some (upToNul (v.slice nameAt nameLen))).filter wantedName).map
        fun name => (addr, name)) := by
  obtain ⟨n, rfl⟩ : ∃ n, nameLen = n + 1 := ⟨nameLen - 1, by omega⟩
  have first : v.Reads h [.memory (v.ptr nameAt) 1] [] := reads_other (by omega) (by decide)
  have wanted : wantedName (upToNul (v.slice nameAt (n + 1))) =
      !decide (v.byte nameAt = 0x2e ∨ v.byte nameAt = 0) := by
    rw [v.slice_succ, wantedName_cons]
  rw [bwPeNamed, bind_of_ok (readChar_inside v (by omega))]
  by_cases skipped : v.byte nameAt = 0x2e ∨ v.byte nameAt = 0
  · have unwanted : wantedName (upToNul (v.slice nameAt (n + 1))) = false := by
      rw [wanted, decide_eq_true skipped]
      rfl
    rw [if_pos skipped, Option.filter_some, unwanted]
    exact ⟨_, first, rfl⟩
  · obtain ⟨seen, reads, ran⟩ := @bwPeAddName_appends v h nameAt (n + 1) inside
      (s.log [.memory (v.ptr nameAt) 1])
    have isWanted : wantedName (upToNul (v.slice nameAt (n + 1))) = true := by
      rw [wanted, decide_eq_false skipped]
      rfl
    refine ⟨_, first.append reads, ?_⟩
    rw [if_neg skipped, Option.filter_some, if_pos isWanted, Option.map_some, ← afterSymbol_log,
      afterSymbol]
    dsimp only at ran ⊢
    split_ifs at ran ⊢ with noRoom
    · rw [bind_of_ok ran]
      rfl
    · rw [bind_of_ok ran, if_neg (by omega)]
      rfl

theorem strTab_fits (v : View 64) (h : PeHeaders) (present : (v.strTab h).size ≠ 0) :
    (v.strTab h).off + (v.strTab h).size ≤ v.size := by
  unfold View.strTab at present ⊢
  dsimp only at present ⊢
  split_ifs at present ⊢ with there small
  · exact absurd rfl present
  · exact Nat.le_of_not_lt (not_or.mp small).2
  · exact absurd rfl present

theorem noSection_iff {nsec : Nat} (few : nsec ≤ 96) (record : SymRecord) :
    record.noSection nsec = false ↔ 1 ≤ record.secNum ∧ record.secNum ≤ nsec := by
  unfold SymRecord.noSection
  simp only [Bool.or_eq_false_iff, decide_eq_false_iff_not]
  omega

/-- The name of a record is looked for in itself or in the string table. -/
theorem symbolName_run (file : v.SmallFile h) {i : Nat} (inTable : i < h.nsym) (addr : Nat)
    (s : LoadState) :
    ∃ seen, v.Reads h seen [] ∧
      (do
        let inline ← readUint v (recordAt h i) 4
        if inline = 0 then
          let longOff ← readUint v (recordAt h i + 4) 4
          if (v.strTab h).size = 0 ∨ (v.strTab h).size ≤ longOff then pure true
          else bwPeNamed v addr ((v.strTab h).off + longOff) ((v.strTab h).size - longOff)
        else bwPeNamed v addr (recordAt h i) 8 : Loader Bool) s =
        afterSymbol s seen
          (((v.symbolName h i).filter wantedName).map fun name => (addr, name)) := by
  have record := file.record inTable
  have atRecord : recordAt h i = h.symOff + i * 18 := rfl
  unfold recordAt bwCoffSymSize at record
  have inlineSeen : v.Reads h [.memory (v.ptr (recordAt h i)) 4] [] :=
    reads_other (by omega) (by decide)
  rw [bind_of_ok (readUint_inside v (by omega)), View.symbolName]
  by_cases isLong : v.uint (recordAt h i) 4 = 0
  · have longSeen : v.Reads h [.memory (v.ptr (recordAt h i + 4)) 4] [] :=
      reads_other (by omega) (by decide)
    rw [if_pos isLong, if_pos isLong, bind_of_ok (readUint_inside v (by omega)), LoadState.log_log]
    by_cases inStrings : v.uint (recordAt h i + 4) 4 < (v.strTab h).size
    · have fits := strTab_fits v h (by omega)
      obtain ⟨seen, reads, ran⟩ := @bwPeNamed_run v h addr
        ((v.strTab h).off + v.uint (recordAt h i + 4) 4)
        ((v.strTab h).size - v.uint (recordAt h i + 4) 4) (by omega) (by omega)
        (s.log ([.memory (v.ptr (recordAt h i)) 4] ++ [.memory (v.ptr (recordAt h i + 4)) 4]))
      rw [if_neg (by omega), if_pos inStrings, ran, afterSymbol_log]
      exact ⟨_, (inlineSeen.append longSeen).append reads, rfl⟩
    · rw [if_pos (by omega), if_neg inStrings]
      exact ⟨_, inlineSeen.append longSeen, rfl⟩
  · obtain ⟨seen, reads, ran⟩ := @bwPeNamed_run v h addr (recordAt h i) 8 (by omega) (by decide)
      (s.log [.memory (v.ptr (recordAt h i)) 4])
    rw [if_neg isLong, if_neg isLong, ran, afterSymbol_log]
    exact ⟨_, inlineSeen.append reads, rfl⟩

theorem readSectionHeader_run {index : Nat}
    (inside : h.secOff + (index + 1) * sectionHeaderSize ≤ v.size) (s : LoadState) :
    ∃ seen sh, v.Reads h seen [] ∧ readSectionHeader v h index s = .ok sh (s.log seen) ∧
      sh.virtualAddress = v.uint (h.secOff + index * sectionHeaderSize + 12) 4 := by
  have header : h.secOff + index * sectionHeaderSize + sectionHeaderSize ≤ v.size := by
    unfold sectionHeaderSize at *
    omega
  refine ⟨_, ⟨v.slice (h.secOff + index * sectionHeaderSize) sectionHeaderSize⟩,
    reads_other header (by decide), ?_, field_slice v (by decide)⟩
  rw [readSectionHeader, bind_of_ok (readBytes_inside v header)]
  rfl

/-- What the loop does with a record whose auxiliary records are in the table. -/
theorem bwPeSymbol_run (file : v.SmallFile h) {i : Nat}
    (whole : i + (v.symRecord h i).naux < h.nsym) (module : Nat) (s : LoadState) :
    ∃ seen, v.Reads h seen [] ∧
      bwPeSymbol v h module (v.strTab h) i (v.symRecord h i) s =
        afterSymbol s seen (v.functionSymbol h module i) := by
  have inTable : i < h.nsym := by omega
  have few := file.accepted.nsecSmall
  have sections := file.accepted.sections
  rw [bwPeSymbol, View.functionSymbol]
  dsimp only
  by_cases isSymbol : (v.symRecord h i).noSection h.nsec = false ∧ (v.symRecord h i).isFcn = true
  · obtain ⟨low, high⟩ := (noSection_iff few _).mp isSymbol.1
    obtain ⟨seen, sh, reads, ran, address⟩ := @readSectionHeader_run v h
      ((v.symRecord h i).secNum - 1) (by unfold sectionHeaderSize at *; omega) s
    obtain ⟨more, readsName, ranName⟩ := symbolName_run file inTable
      (v.symbolAddr h module (v.symRecord h i)) (s.log seen)
    rw [if_neg (show ¬ (v.symRecord h i).noSection h.nsec = true by simp [isSymbol.1]),
      if_neg (show ¬ (!(v.symRecord h i).isFcn) = true by simp [isSymbol.2]),
      if_pos ⟨whole, low, high, isSymbol.2⟩, bind_of_ok ran, file.recordOff inTable, address]
    exact ⟨_, reads.append readsName, ranName.trans (afterSymbol_log s seen more _)⟩
  · have outside : ¬ (i + (v.symRecord h i).naux < h.nsym ∧ 1 ≤ (v.symRecord h i).secNum ∧
        (v.symRecord h i).secNum ≤ h.nsec ∧ (v.symRecord h i).isFcn = true) := by
      rintro ⟨-, low, high, isFcn⟩
      exact isSymbol ⟨(noSection_iff few _).mpr ⟨low, high⟩, isFcn⟩
    rw [if_neg outside]
    refine ⟨[], reads_nil, ?_⟩
    rw [afterSymbol, LoadState.log_nil]
    split_ifs with noSection notFcn
    · rfl
    · rfl
    · exact absurd ⟨by simpa using noSection, by simpa using notFcn⟩ isSymbol

/-- The bytes that these names take in the table of names. -/
def nameTotal (pairs : List (Nat × List UInt8)) : Nat :=
  (pairs.map fun pair => pair.2.length + 1).sum

theorem nameTotal_cons (pair : Nat × List UInt8) (pairs : List (Nat × List UInt8)) :
    nameTotal (pair :: pairs) = pair.2.length + 1 + nameTotal pairs := by
  rw [nameTotal, List.map_cons, List.sum_cons, nameTotal]

theorem functionSymbol_whole {bits : Nat} {v : View bits} {module i : Nat}
    {pair : Nat × List UInt8} (found : v.functionSymbol h module i = some pair) :
    i + (v.symRecord h i).naux < h.nsym := by
  unfold View.functionSymbol at found
  dsimp only at found
  split_ifs at found with wanted
  exact wanted.1

/-- The name of a function symbol is a string, and not the empty one. -/
theorem functionSymbol_name {bits : Nat} {v : View bits} {module i : Nat}
    {pair : Nat × List UInt8} (found : v.functionSymbol h module i = some pair) :
    pair.2 ≠ [] ∧ NoNul pair.2 := by
  unfold View.functionSymbol at found
  dsimp only at found
  split_ifs at found
  obtain ⟨name, named, rfl⟩ := Option.map_eq_some_iff.mp found
  obtain ⟨isName, isWanted⟩ := Option.filter_eq_some_iff.mp named
  constructor
  · rintro rfl
    simp [wantedName] at isWanted
  · unfold View.symbolName at isName
    dsimp only at isName
    split_ifs at isName
    · cases isName
      exact nul_notMem_upToNul _
    · cases isName
      exact nul_notMem_upToNul _

theorem taken_full {nsym : Nat} (full : bwPeSymMax ≤ nsym) (nlen : Nat)
    (found : List (Nat × List UInt8)) : taken nsym nlen found = [] := by
  cases found with
  | nil => rfl
  | cons pair rest => exact if_pos (Or.inl full)

theorem examined_zero {bits : Nat} (v : View bits) (h : PeHeaders) (module : Nat)
    (records : List Nat) : v.examined h module 0 records = [] := by
  cases records <;> rfl

/-- A name that fits is kept whole. -/
theorem take_fits {name : List UInt8} {nlen : Nat} (fits : nlen + (name.length + 1) ≤ bwPeNameMax) :
    name.take (bwPeNameMax - nlen - 1) = name :=
  List.take_of_length_le (by omega)

theorem nsym_small (file : v.SmallFile h) : h.nsym + 256 ≤ 2 ^ 32 := by
  have tableSmall := file.table.trans_lt file.small
  unfold recordAt bwCoffSymSize at tableSmall
  omega

theorem naux_small (v : View 64) (h : PeHeaders) (i : Nat) : (v.symRecord h i).naux < 256 :=
  v.uint_lt _ 1

/-- A record whose auxiliary records are in the table, and how the loop goes on
behind them. -/
theorem bwPeSymbols_next (file : v.SmallFile h) {module fuel i : Nat} {s : LoadState}
    (room : s.globals.nsym < bwPeSymMax) (whole : i + (v.symRecord h i).naux < h.nsym) :
    ∃ seen, v.Reads h seen [i] ∧ ∀ more t,
      afterSymbol s seen (v.functionSymbol h module i) = .ok more t →
        bwPeSymbols v h module (v.strTab h) (fuel + 1) i s =
          if more then bwPeSymbols v h module (v.strTab h) fuel (i + 1 + (v.symRecord h i).naux) t
          else .ok () t := by
  have inTable : i < h.nsym := by omega
  have small := nsym_small file
  have nauxSmall := naux_small v h i
  have sum : dword (i + (v.symRecord h i).naux) = i + (v.symRecord h i).naux :=
    Nat.mod_eq_of_lt (by omega)
  have next : dword (i + (v.symRecord h i).naux + 1) = i + 1 + (v.symRecord h i).naux := by
    rw [Nat.add_right_comm]
    exact Nat.mod_eq_of_lt (by omega)
  obtain ⟨here, ranHere, readsHere⟩ := readSymRecord_run file inTable s
  obtain ⟨seen, reads, ran⟩ := bwPeSymbol_run file whole module (s.log here)
  rw [afterSymbol_log] at ran
  refine ⟨here ++ seen, readsHere.append reads, ?_⟩
  intro more t after
  rw [after] at ran
  rw [bwPeSymbols, bind_of_ok (show getGlobals s = .ok s.globals s from rfl),
    if_pos ⟨inTable, room⟩, bind_of_ok ranHere, sum, if_neg (by omega), next]
  refine (bind_of_ok ran).trans ?_
  cases more <;> rfl

/-- A record whose auxiliary records run past the table ends the loop. -/
theorem bwPeSymbols_last (file : v.SmallFile h) {module fuel i : Nat} {s : LoadState}
    (inTable : i < h.nsym) (room : s.globals.nsym < bwPeSymMax)
    (cut : ¬ i + (v.symRecord h i).naux < h.nsym) :
    ∃ seen, v.Reads h seen [i] ∧
      bwPeSymbols v h module (v.strTab h) (fuel + 1) i s = .ok () (s.log seen) := by
  have small := nsym_small file
  have nauxSmall := naux_small v h i
  have sum : dword (i + (v.symRecord h i).naux) = i + (v.symRecord h i).naux :=
    Nat.mod_eq_of_lt (by omega)
  obtain ⟨here, ranHere, readsHere⟩ := readSymRecord_run file inTable s
  refine ⟨here, readsHere, ?_⟩
  rw [bwPeSymbols, bind_of_ok (show getGlobals s = .ok s.globals s from rfl),
    if_pos ⟨inTable, room⟩, bind_of_ok ranHere, sum, if_pos (by omega)]
  rfl

theorem walk_beyond {n i : Nat} (beyond : ¬ i < h.nsym) : v.walk h n i = [] := by
  cases n with
  | zero => rfl
  | succ n => exact if_neg beyond

/-- The functions of the walk from record `i` on. -/
def View.functionsFrom (v : View 64) (h : PeHeaders) (module n i : Nat) : List (Nat × List UInt8) :=
  (v.walk h n i).filterMap (v.functionSymbol h module)

/-- What the loop leaves from a state with these counts. -/
structure LoopResult (v : View 64) (h : PeHeaders) (module n i : Nat) (s : LoadState)
    (seen : List Access) (t : LoadState) : Prop where
  globals : t.globals = s.globals.withSymbols (taken s.globals.nsym s.globals.nlen
    (v.functionsFrom h module n i))
  accesses : t.accesses = s.accesses ++ seen
  reads : s.globals.nlen + nameTotal ((v.functionsFrom h module n i).take
      (bwPeSymMax - s.globals.nsym)) ≤ bwPeNameMax →
    v.Reads h seen (v.examined h module (bwPeSymMax - s.globals.nsym) (v.walk h n i))

theorem loopResult_stop {module n i : Nat} {s : LoadState}
    (stop : ¬ (i < h.nsym ∧ s.globals.nsym < bwPeSymMax)) : LoopResult v h module n i s [] s := by
  rcases not_and_or.mp stop with beyond | full
  · have ended : v.walk h n i = [] := walk_beyond beyond
    refine ⟨?_, (List.append_nil _).symm, ?_⟩
    · rw [View.functionsFrom, ended]
      rfl
    · intro _
      rw [ended]
      cases bwPeSymMax - s.globals.nsym <;> exact reads_nil
  · have none : bwPeSymMax - s.globals.nsym = 0 := Nat.sub_eq_zero_of_le (Nat.le_of_not_lt full)
    refine ⟨?_, (List.append_nil _).symm, ?_⟩
    · rw [taken_full (Nat.le_of_not_lt full)]
      rfl
    · intro _
      rw [none, examined_zero]
      exact reads_nil

/-! One record and the rest of the loop. -/

section Records

variable {module n i : Nat} {s t : LoadState} {seen more : List Access}

theorem walk_succ (inTable : i < h.nsym) (whole : i + (v.symRecord h i).naux < h.nsym) :
    v.walk h (n + 1) i = i :: v.walk h n (i + 1 + (v.symRecord h i).naux) := by
  rw [View.walk, if_pos inTable, if_pos whole]

theorem functionsFrom_none (inTable : i < h.nsym) (whole : i + (v.symRecord h i).naux < h.nsym)
    (found : v.functionSymbol h module i = none) : v.functionsFrom h module (n + 1) i =
      v.functionsFrom h module n (i + 1 + (v.symRecord h i).naux) := by
  rw [View.functionsFrom, walk_succ inTable whole, List.filterMap_cons_none found,
    View.functionsFrom]

theorem functionsFrom_some {pair : Nat × List UInt8} (inTable : i < h.nsym)
    (whole : i + (v.symRecord h i).naux < h.nsym)
    (found : v.functionSymbol h module i = some pair) : v.functionsFrom h module (n + 1) i =
      pair :: v.functionsFrom h module n (i + 1 + (v.symRecord h i).naux) := by
  rw [View.functionsFrom, walk_succ inTable whole, List.filterMap_cons_some found,
    View.functionsFrom]

theorem exists_room (room : s.globals.nsym < bwPeSymMax) :
    ∃ r, bwPeSymMax - s.globals.nsym = r + 1 :=
  ⟨bwPeSymMax - s.globals.nsym - 1, by omega⟩

/-- A record that is no function. -/
theorem loopResult_none (inTable : i < h.nsym) (room : s.globals.nsym < bwPeSymMax)
    (whole : i + (v.symRecord h i).naux < h.nsym)
    (found : v.functionSymbol h module i = none) (reads : v.Reads h seen [i])
    (result : LoopResult v h module n (i + 1 + (v.symRecord h i).naux) (s.log seen) more t) :
    LoopResult v h module (n + 1) i s (seen ++ more) t := by
  have functions := @functionsFrom_none v h module n i inTable whole found
  obtain ⟨r, isRoom⟩ := exists_room room
  refine ⟨?_, ?_, ?_⟩
  · rw [functions]
    exact result.globals
  · rw [result.accesses, LoadState.log_accesses, List.append_assoc]
  · intro fits
    have readsMore := result.reads (functions ▸ fits)
    rw [LoadState.log_globals, isRoom] at readsMore
    rw [walk_succ inTable whole, isRoom, View.examined, found, Option.isSome_none,
      if_neg (by simp)]
    exact reads.append readsMore

/-- The last record, with auxiliary records that are not there. -/
theorem loopResult_last (inTable : i < h.nsym) (room : s.globals.nsym < bwPeSymMax)
    (cut : ¬ i + (v.symRecord h i).naux < h.nsym) (reads : v.Reads h seen [i]) :
    LoopResult v h module (n + 1) i s seen (s.log seen) := by
  have walk : v.walk h (n + 1) i = [i] := by
    rw [View.walk, if_pos inTable, if_neg cut]
  have none : v.functionSymbol h module i = none := by
    cases found : v.functionSymbol h module i with
    | none => rfl
    | some pair => exact absurd (functionSymbol_whole found) cut
  obtain ⟨r, isRoom⟩ := exists_room room
  refine ⟨?_, rfl, ?_⟩
  · rw [View.functionsFrom, walk, List.filterMap_cons_none none]
    rfl
  · intro _
    rw [walk, isRoom, View.examined, none, Option.isSome_none, if_neg (by simp)]
    exact reads

section Function

variable {addr : Nat} {name : List UInt8}

/-- Where all names fit, that of the next function does. -/
theorem keeps_whole (inTable : i < h.nsym) (room : s.globals.nsym < bwPeSymMax)
    (whole : i + (v.symRecord h i).naux < h.nsym)
    (found : v.functionSymbol h module i = some (addr, name))
    (fits : s.globals.nlen + nameTotal ((v.functionsFrom h module (n + 1) i).take
      (bwPeSymMax - s.globals.nsym)) ≤ bwPeNameMax) :
    name.take (bwPeNameMax - s.globals.nlen - 1) = name := by
  obtain ⟨r, isRoom⟩ := exists_room room
  rw [functionsFrom_some inTable whole found, isRoom, List.take_succ_cons, nameTotal_cons] at fits
  exact take_fits (by dsimp only at fits; omega)

/-- A function whose name finds no room at all. -/
theorem loopResult_full (inTable : i < h.nsym) (room : s.globals.nsym < bwPeSymMax)
    (whole : i + (v.symRecord h i).naux < h.nsym)
    (found : v.functionSymbol h module i = some (addr, name))
    (noRoom : name.take (bwPeNameMax - s.globals.nlen - 1) = []) :
    LoopResult v h module (n + 1) i s seen (s.log seen) := by
  refine ⟨?_, rfl, ?_⟩
  · rw [functionsFrom_some inTable whole found, taken, if_pos (Or.inr noRoom)]
    rfl
  · intro fits
    rw [keeps_whole inTable room whole found fits] at noRoom
    exact absurd noRoom (functionSymbol_name found).1

/-- A function that is taken over, its name as far as there is room. -/
theorem loopResult_some (inTable : i < h.nsym) (room : s.globals.nsym < bwPeSymMax)
    (whole : i + (v.symRecord h i).naux < h.nsym)
    (found : v.functionSymbol h module i = some (addr, name))
    (hasRoom : name.take (bwPeNameMax - s.globals.nlen - 1) ≠ []) (reads : v.Reads h seen [i])
    (result : LoopResult v h module n (i + 1 + (v.symRecord h i).naux)
      ⟨s.globals.withSymbol addr (name.take (bwPeNameMax - s.globals.nlen - 1)),
        s.accesses ++ seen⟩ more t) :
    LoopResult v h module (n + 1) i s (seen ++ more) t := by
  have functions := @functionsFrom_some v h module n i _ inTable whole found
  obtain ⟨r, isRoom⟩ := exists_room room
  refine ⟨?_, ?_, ?_⟩
  · rw [functions, taken, if_neg (not_or.mpr ⟨Nat.not_le.mpr room, hasRoom⟩)]
    exact result.globals
  · rw [result.accesses, List.append_assoc]
  · intro fits
    have readsMore := result.reads
    have nsymNext : bwPeSymMax - (s.globals.withSymbol addr name).nsym = r := by
      simp only [Globals.withSymbol]
      omega
    have nlenNext : (s.globals.withSymbol addr name).nlen = s.globals.nlen + name.length + 1 := rfl
    rw [keeps_whole inTable room whole found fits] at readsMore
    rw [functions, isRoom, List.take_succ_cons, nameTotal_cons] at fits
    rw [walk_succ inTable whole, isRoom, View.examined, found, Option.isSome_some, if_pos rfl]
    dsimp only at readsMore fits
    rw [nsymNext, nlenNext] at readsMore
    exact reads.append (readsMore (by omega))

end Function

end Records

/-- The loop appends the functions of the walk as far as there is room. While the
names fit, it looks at the records of the walk up to the last symbol there is
room for. -/
theorem bwPeSymbols_run (file : v.SmallFile h) (module : Nat) {fuel n i : Nat} (s : LoadState)
    (inside : i ≤ h.nsym) (enough : h.nsym < fuel + i) (far : h.nsym ≤ n + i) :
    ∃ seen t, bwPeSymbols v h module (v.strTab h) fuel i s = .ok () t ∧
      LoopResult v h module n i s seen t := by
  induction fuel generalizing n i s with
  | zero => omega
  | succ fuel inductionHypothesis =>
      by_cases room : i < h.nsym ∧ s.globals.nsym < bwPeSymMax
      · obtain ⟨n, rfl⟩ : ∃ m, n = m + 1 := ⟨n - 1, by omega⟩
        by_cases whole : i + (v.symRecord h i).naux < h.nsym
        · obtain ⟨seen, reads, ran⟩ := @bwPeSymbols_next v h file module fuel i s room.2 whole
          -- the loop behind this record, from what it left
          have rest := fun next => @inductionHypothesis n (i + 1 + (v.symRecord h i).naux) next
            (by omega) (by omega) (by omega)
          cases found : v.functionSymbol h module i with
          | none =>
              obtain ⟨more, t, ranMore, result⟩ := rest (s.log seen)
              refine ⟨seen ++ more, t, ?_, loopResult_none room.1 room.2 whole found reads result⟩
              rw [ran true (s.log seen) (by rw [found]; rfl), if_pos rfl, ranMore]
          | some pair =>
              obtain ⟨addr, name⟩ := pair
              by_cases noRoom : name.take (bwPeNameMax - s.globals.nlen - 1) = []
              · refine ⟨seen, s.log seen, ?_, loopResult_full room.1 room.2 whole found noRoom⟩
                rw [ran false (s.log seen) (by rw [found]; exact if_pos noRoom), if_neg (by simp)]
              · obtain ⟨more, t, ranMore, result⟩ := rest ⟨s.globals.withSymbol addr
                  (name.take (bwPeNameMax - s.globals.nlen - 1)), s.accesses ++ seen⟩
                refine ⟨seen ++ more, t, ?_,
                  loopResult_some room.1 room.2 whole found noRoom reads result⟩
                rw [ran true _ (by rw [found]; exact if_neg noRoom), if_pos rfl, ranMore]
        · obtain ⟨seen, reads, ran⟩ :=
            @bwPeSymbols_last v h file module fuel i s room.1 room.2 whole
          exact ⟨seen, s.log seen, ran, loopResult_last room.1 room.2 whole reads⟩
      · refine ⟨[], s, ?_, loopResult_stop room⟩
        rw [bwPeSymbols, bind_of_ok (show getGlobals s = .ok s.globals s from rfl), if_neg room]
        rfl

end Runs

end Backwalk.Windows
