import Backwalk.Elf.Sname
import Backwalk.Support.Action
import Mathlib.Data.List.Basic

/-!
Contract: `bw_elf_sname` stays in the file.

Owns what the lookup comes to as a function of the file: its symbol tables, the
symbols that cover an address, the one that is kept, and the name. Every read is
guarded: headers by the size of the file, symbols and names by the extents of
their sections, so a run always answers and reads nothing else.
-/

namespace Backwalk.Elf

open Backwalk.DwarfLine Backwalk.Support

/-! ### Layouts -/

namespace ElfClass

variable (c : ElfClass)

theorem ehdr_fields : c.eShoff + c.wordSize ≤ c.ehdrSize ∧ c.eShentsize + 2 ≤ c.ehdrSize ∧
    c.eShnum + 2 ≤ c.ehdrSize ∧ 4 ≤ c.ehdrSize := by
  cases c <;> decide

theorem shdr_fields : 8 ≤ c.shdrSize ∧ c.shOffset + c.wordSize ≤ c.shdrSize ∧
    c.shSize + c.wordSize ≤ c.shdrSize ∧ c.shLink + 4 ≤ c.shdrSize ∧
    c.shEntsize + c.wordSize ≤ c.shdrSize := by
  cases c <;> decide

theorem sym_fields : 4 ≤ c.symSize ∧ c.stValue + c.wordSize ≤ c.symSize ∧
    c.stSize + c.wordSize ≤ c.symSize ∧ c.stInfo + 1 ≤ c.symSize ∧
    c.stShndx + 2 ≤ c.symSize := by
  cases c <;> decide

end ElfClass

section Lookup

variable {c : ElfClass} (f : ElfFile c)

/-! ### Values -/

/-- A field of the file. -/
def ElfFile.field (off n : Nat) : Nat := leNat (f.slice off n)

/-- Offset and size of the section of a header, if it lies in the file. -/
def ElfFile.extent (at_ : Nat) : Option (Nat × Nat) :=
  let off := f.field (at_ + c.shOffset) c.wordSize
  let size := f.field (at_ + c.shSize) c.wordSize
  if off ≤ f.size ∧ size ≤ f.size - off then some (off, size) else none

/-- Section `i`, if it is a symbol table that is looked into. -/
def ElfFile.symTab (shoff shnum i : Nat) : Option SymTab :=
  let sh := shoff + i * c.shdrSize
  let link := f.field (sh + c.shLink) 4
  if f.field (sh + 4) 4 = shtSymtab ∧ f.field (sh + c.shEntsize) c.wordSize = c.symSize ∧
      link < shnum then
    (f.extent sh).bind fun syms => (f.extent (shoff + link * c.shdrSize)).map fun strs =>
      ⟨syms.1, syms.2 / c.symSize, strs.1, strs.2⟩
  else none

/-- Offset and length of the section table, if the header has one in the file. -/
def ElfFile.ehdr : Option (Nat × Nat) :=
  let shoff := f.field c.eShoff c.wordSize
  let shnum := f.field c.eShnum 2
  if c.ehdrSize ≤ f.size ∧ (f.field 0 1 = 0x7f ∧ f.field 1 1 = 0x45 ∧ f.field 2 1 = 0x4c ∧
      f.field 3 1 = 0x46) ∧ f.field c.eShentsize 2 = c.shdrSize ∧ shoff ≠ 0 ∧ shoff ≤ f.size ∧
      shnum * c.shdrSize ≤ f.size - shoff then
    some (shoff, shnum)
  else none

/-- The symbol tables, in the order of the sections. -/
def ElfFile.symTabs : List SymTab :=
  f.ehdr.elim [] fun table => (List.range table.2).filterMap (f.symTab table.1 table.2)

/-- The symbols of a table, by their offset. -/
def SymTab.symbols (c : ElfClass) (tab : SymTab) : List Nat :=
  (List.range tab.nsym).map fun s => tab.symOff + s * c.symSize

/-- Where a symbol begins in memory. -/
def ElfFile.start (bias sym : Nat) : Nat :=
  (bias + f.field (sym + c.stValue) c.wordSize) % 2 ^ c.bits

/-- The symbol is a defined function with a name, and `ip` is in it. -/
def ElfFile.Covers (bias ip strSize sym : Nat) : Prop :=
  f.field (sym + c.stInfo) 1 &&& 0xf = sttFunc ∧ f.field (sym + c.stShndx) 2 ≠ shnUndef ∧
    f.field (sym + c.stSize) c.wordSize ≠ 0 ∧ f.field sym 4 ≠ 0 ∧ f.field sym 4 < strSize ∧
    f.start bias sym ≤ ip ∧
      ip < (f.start bias sym + f.field (sym + c.stSize) c.wordSize) % 2 ^ c.bits

instance (bias ip strSize sym : Nat) : Decidable (f.Covers bias ip strSize sym) :=
  inferInstanceAs (Decidable (_ ∧ _))

/-- Of two symbols the one that begins later is kept, and the second if they begin
together. -/
def ElfFile.better (bias : Nat) (best : Option Nat) (sym : Nat) : Option Nat :=
  if best.all fun old => f.start bias old ≤ f.start bias sym then some sym else best

/-- The symbols of a table that cover `ip`. -/
def ElfFile.covering (bias ip : Nat) (tab : SymTab) : List Nat :=
  (tab.symbols c).filter fun sym => f.Covers bias ip tab.strSize sym

/-- The best of the symbols of these tables and `best`. -/
def ElfFile.select (bias ip : Nat) (tabs : List SymTab) (best : Option Nat) : Option Nat :=
  (tabs.flatMap (f.covering bias ip)).foldl (f.better bias) best

/-- What the loops find: the best symbol, and the string table of the last symbol
table. -/
def ElfFile.found (bias ip : Nat) : Found where
  best := f.select bias ip f.symTabs none
  strtab := f.symTabs.getLast?.map fun tab => (tab.strOff, tab.strSize)

/-- The characters of the name of a symbol in a string table. -/
def ElfFile.nameIn (sym : Nat) (strs : Nat × Nat) : List UInt8 :=
  upToNul (f.slice (strs.1 + f.field sym 4) (strs.2 - f.field sym 4))

/-- The name of what was found, empty if there is none. -/
def ElfFile.nameOf (found : Found) : List UInt8 :=
  (found.best.bind fun best => found.strtab.map fun strs => f.nameIn best strs).getD []

/-- The name that is found for `ip`. -/
def ElfFile.foundName (bias ip : Nat) : List UInt8 := f.nameOf (f.found bias ip)

/-- What becomes of `out` with that name. -/
def copied (name out : List UInt8) : Bool × List UInt8 :=
  if name = [] then (false, out)
  else (true, name.take (out.length - 1) ++ 0 :: out.drop ((name.take (out.length - 1)).length + 1))

/-! ### Answers -/

/-- The run answers this, and all its reads are in the file. -/
def ElfFile.Answers {α : Type} (m : Reader α) (a : α) : Prop :=
  ∀ log, ∃ seen, m log = .ok a (log ++ seen) ∧ ∀ r ∈ seen, r.off + r.len ≤ f.size

variable {f}

section Answers

variable {α β : Type}

theorem answers_pure (a : α) : f.Answers (pure a) a :=
  fun log => ⟨[], by rw [List.append_nil]; rfl, by simp⟩

theorem ElfFile.Answers.bind {m : Reader α} {g : α → Reader β} {a : α} {b : β}
    (first : f.Answers m a) (next : f.Answers (g a) b) : f.Answers (m >>= g) b := by
  intro log
  obtain ⟨seen, ran, inside⟩ := first log
  obtain ⟨more, ranNext, insideNext⟩ := next (log ++ seen)
  refine ⟨seen ++ more, ?_, ?_⟩
  · rw [bind_of_ok ran, ranNext, List.append_assoc]
  · intro r member
    rcases List.mem_append.mp member with early | late
    · exact inside r early
    · exact insideNext r late

theorem answers_readBytes {off n : Nat} (inside : off + n ≤ f.size) :
    f.Answers (readBytes f off n) (f.slice off n) := by
  intro log
  refine ⟨[⟨off, n⟩], if_pos inside, ?_⟩
  intro r member
  rw [List.mem_singleton.mp member]
  exact inside

theorem answers_readField {off n : Nat} (inside : off + n ≤ f.size) :
    f.Answers (readField f off n) (f.field off n) :=
  (answers_readBytes inside).bind (answers_pure _)

/-- One branch of a check. -/
theorem ElfFile.Answers.ite {cond : Prop} [Decidable cond] {m n : Reader α} {a : α}
    (yes : cond → f.Answers m a) (no : ¬ cond → f.Answers n a) :
    f.Answers (if cond then m else n) a := by
  split
  · exact yes ‹_›
  · exact no ‹_›

end Answers

/-! ### Headers -/

theorem answers_readMagic (inside : 4 ≤ f.size) :
    f.Answers (readMagic f) (decide (f.field 0 1 = 0x7f ∧ f.field 1 1 = 0x45 ∧ f.field 2 1 = 0x4c ∧
      f.field 3 1 = 0x46)) := by
  unfold readMagic
  apply (answers_readField (by omega)).bind
  apply ElfFile.Answers.ite
  · intro other
    simp only [other, false_and, decide_false]
    exact answers_pure false
  · intro mag0
    apply (answers_readField (by omega)).bind
    apply ElfFile.Answers.ite
    · intro other
      simp only [other, false_and, and_false, decide_false]
      exact answers_pure false
    · intro mag1
      apply (answers_readField (by omega)).bind
      apply ElfFile.Answers.ite
      · intro other
        simp only [other, false_and, and_false, decide_false]
        exact answers_pure false
      · intro mag2
        apply (answers_readField (by omega)).bind
        rw [not_not] at mag0 mag1 mag2
        simp only [mag0, mag1, mag2, true_and]
        exact answers_pure _

theorem answers_readEhdr : f.Answers (readEhdr f) f.ehdr := by
  obtain ⟨shoffFits, shentsizeFits, shnumFits, magicFits⟩ := c.ehdr_fields
  unfold readEhdr
  apply ElfFile.Answers.ite
  · intro short
    rw [show f.ehdr = none from if_neg fun all => absurd all.1 (by omega)]
    exact answers_pure none
  · intro long
    apply (answers_readMagic (by omega)).bind
    apply ElfFile.Answers.ite
    · intro other
      rw [show f.ehdr = none from if_neg fun all => by simp [all.2.1] at other]
      exact answers_pure none
    · intro magic
      apply (answers_readField (by omega)).bind
      apply ElfFile.Answers.ite
      · intro other
        rw [show f.ehdr = none from if_neg fun all => other all.2.2.1]
        exact answers_pure none
      · intro shentsize
        apply (answers_readField (by omega)).bind
        apply ElfFile.Answers.ite
        · intro absent
          rw [show f.ehdr = none from if_neg fun all => all.2.2.2.1 absent]
          exact answers_pure none
        · intro present
          apply (answers_readField (by omega)).bind
          apply ElfFile.Answers.ite
          · intro outside
            rw [show f.ehdr = none from if_neg fun all => by omega]
            exact answers_pure none
          · intro within
            rw [not_or, Nat.not_lt, Nat.not_lt] at within
            rw [show f.ehdr = some _ from if_pos ⟨Nat.le_of_not_lt long, by simpa using magic,
              not_not.mp shentsize, present, within.1, within.2⟩]
            exact answers_pure _

theorem answers_readExtent {at_ : Nat} (inside : at_ + c.shdrSize ≤ f.size) :
    f.Answers (readExtent f at_) (f.extent at_) := by
  obtain ⟨-, offsetFits, sizeFits, -, -⟩ := c.shdr_fields
  unfold readExtent
  apply (answers_readField (by omega)).bind
  apply ElfFile.Answers.ite
  · intro outside
    rw [show f.extent at_ = none from if_neg fun all => absurd all.1 (by omega)]
    exact answers_pure none
  · intro begins
    apply (answers_readField (by omega)).bind
    apply ElfFile.Answers.ite
    · intro outside
      rw [show f.extent at_ = none from if_neg fun all => absurd all.2 (by omega)]
      exact answers_pure none
    · intro ends
      rw [show f.extent at_ = some _ from if_pos ⟨Nat.le_of_not_lt begins, Nat.le_of_not_lt ends⟩]
      exact answers_pure _

/-- The section headers from `shoff` on are in the file. -/
def ElfFile.HasHeaders (f : ElfFile c) (shoff shnum : Nat) : Prop :=
  shoff + shnum * c.shdrSize ≤ f.size

theorem ElfFile.HasHeaders.header {shoff shnum i : Nat} (headers : f.HasHeaders shoff shnum)
    (below : i < shnum) : shoff + i * c.shdrSize + c.shdrSize ≤ f.size := by
  have within : (i + 1) * c.shdrSize ≤ shnum * c.shdrSize := Nat.mul_le_mul_right _ below
  rw [Nat.add_mul, Nat.one_mul] at within
  unfold ElfFile.HasHeaders at headers
  omega

theorem answers_readSymTab {shoff shnum i : Nat} (headers : f.HasHeaders shoff shnum)
    (below : i < shnum) : f.Answers (readSymTab f shoff shnum i) (f.symTab shoff shnum i) := by
  obtain ⟨typeFits, -, -, linkFits, entsizeFits⟩ := c.shdr_fields
  have header := headers.header below
  unfold readSymTab
  apply (answers_readField (by omega)).bind
  apply ElfFile.Answers.ite
  · intro other
    rw [show f.symTab shoff shnum i = none from if_neg fun all => other all.1]
    exact answers_pure none
  · intro type
    apply (answers_readField (by omega)).bind
    apply ElfFile.Answers.ite
    · intro other
      rw [show f.symTab shoff shnum i = none from if_neg fun all => other all.2.1]
      exact answers_pure none
    · intro entsize
      apply (answers_readField (by omega)).bind
      apply ElfFile.Answers.ite
      · intro outside
        rw [show f.symTab shoff shnum i = none from if_neg fun all => absurd all.2.2 (by omega)]
        exact answers_pure none
      · intro link
        rw [not_not] at type entsize
        rw [Nat.not_le] at link
        rw [ElfFile.symTab, if_pos ⟨type, entsize, link⟩]
        apply (answers_readExtent header).bind
        cases f.extent (shoff + i * c.shdrSize) with
        | none => exact answers_pure none
        | some syms =>
            apply (answers_readExtent (headers.header link)).bind
            cases f.extent (shoff + f.field (shoff + i * c.shdrSize + c.shLink) 4 * c.shdrSize) with
            | none => exact answers_pure none
            | some strs => exact answers_pure _

theorem extent_fits {at_ : Nat} {extent : Nat × Nat} (found : f.extent at_ = some extent) :
    extent.1 + extent.2 ≤ f.size := by
  unfold ElfFile.extent at found
  dsimp only at found
  split_ifs at found with fits
  cases found
  dsimp only
  omega

/-- Symbols and strings of a table that is looked into are in the file. -/
structure SymTab.Fits (f : ElfFile c) (tab : SymTab) : Prop where
  syms : tab.symOff + tab.nsym * c.symSize ≤ f.size
  strs : tab.strOff + tab.strSize ≤ f.size

theorem symTab_fits {shoff shnum i : Nat} {tab : SymTab}
    (found : f.symTab shoff shnum i = some tab) : tab.Fits f := by
  unfold ElfFile.symTab at found
  dsimp only at found
  split_ifs at found
  obtain ⟨syms, isSyms, found⟩ := Option.bind_eq_some_iff.mp found
  obtain ⟨strs, isStrs, rfl⟩ := Option.map_eq_some_iff.mp found
  have symsFit := extent_fits isSyms
  have whole := Nat.div_mul_le_self syms.2 c.symSize
  exact ⟨by dsimp only; omega, extent_fits isStrs⟩

/-! ### Symbols -/

/-- The symbol is in the file. -/
def ElfFile.HasSymbol (f : ElfFile c) (sym : Nat) : Prop := sym + c.symSize ≤ f.size

theorem SymTab.Fits.symbol {tab : SymTab} (fits : tab.Fits f) {s : Nat} (below : s < tab.nsym) :
    f.HasSymbol (tab.symOff + s * c.symSize) := by
  have syms := fits.syms
  have within : (s + 1) * c.symSize ≤ tab.nsym * c.symSize := Nat.mul_le_mul_right _ below
  rw [Nat.add_mul, Nat.one_mul] at within
  unfold ElfFile.HasSymbol
  omega

theorem answers_readStart {sym : Nat} (there : f.HasSymbol sym) (bias : Nat) :
    f.Answers (readStart f bias sym) (f.start bias sym) := by
  obtain ⟨-, valueFits, -, -, -⟩ := c.sym_fields
  unfold ElfFile.HasSymbol at there
  exact (answers_readField (by omega)).bind (answers_pure _)

theorem answers_readCovers {sym : Nat} (there : f.HasSymbol sym) (bias ip strSize : Nat) :
    f.Answers (readCovers f bias ip strSize sym) (decide (f.Covers bias ip strSize sym)) := by
  obtain ⟨nameFits, -, sizeFits, infoFits, shndxFits⟩ := c.sym_fields
  have inFile := there
  unfold ElfFile.HasSymbol at inFile
  unfold readCovers
  apply (answers_readField (by omega)).bind
  apply ElfFile.Answers.ite
  · intro other
    rw [decide_eq_false fun all => other all.1]
    exact answers_pure false
  · intro isFunc
    apply (answers_readField (by omega)).bind
    apply ElfFile.Answers.ite
    · intro undefined
      rw [decide_eq_false fun all => all.2.1 undefined]
      exact answers_pure false
    · intro defined
      apply (answers_readField (by omega)).bind
      apply ElfFile.Answers.ite
      · intro empty
        rw [decide_eq_false fun all => all.2.2.1 empty]
        exact answers_pure false
      · intro sized
        apply (answers_readField (by omega)).bind
        apply ElfFile.Answers.ite
        · intro unnamed
          rw [decide_eq_false fun all => by
            obtain ⟨-, -, -, isNamed, inStrings, -⟩ := all
            omega]
          exact answers_pure false
        · intro named
          apply (answers_readStart there bias).bind
          apply ElfFile.Answers.ite
          · intro outside
            rw [decide_eq_false fun all => by
              obtain ⟨-, -, -, -, -, low, high⟩ := all
              omega]
            exact answers_pure false
          · intro inside
            rw [not_or, Nat.not_lt, Nat.not_le] at inside
            rw [not_or, Nat.not_le] at named
            rw [decide_eq_true ⟨not_not.mp isFunc, defined, sized, named.1, named.2, inside⟩]
            exact answers_pure true

theorem answers_readBetter {best : Option Nat} (kept : ∀ old ∈ best, f.HasSymbol old) {sym : Nat}
    (there : f.HasSymbol sym) (bias : Nat) :
    f.Answers (readBetter f bias best sym) (f.better bias best sym) := by
  cases best with
  | none => exact answers_pure _
  | some old =>
      apply (answers_readStart there bias).bind
      apply (answers_readStart (kept old rfl) bias).bind
      apply ElfFile.Answers.ite
      · intro later
        rw [show f.better bias (some old) sym = some sym from if_pos (by simpa using later)]
        exact answers_pure _
      · intro earlier
        rw [show f.better bias (some old) sym = some old from if_neg (by simpa using earlier)]
        exact answers_pure _

/-- What is kept is one of the two. -/
theorem better_mem {bias sym new : Nat} {best : Option Nat}
    (member : new ∈ f.better bias best sym) :
    new = sym ∨ new ∈ best := by
  unfold ElfFile.better at member
  split_ifs at member
  · exact Or.inl (Option.some_inj.mp member).symm
  · exact Or.inr member

/-- The loop over the symbols keeps the best one that covers `ip`. -/
theorem answers_bwElfSymbols (bias ip : Nat) {tab : SymTab} (fits : tab.Fits f) {n s : Nat}
    {best : Option Nat} (within : s + n ≤ tab.nsym) (kept : ∀ old ∈ best, f.HasSymbol old) :
    f.Answers (bwElfSymbols f bias ip tab n s best)
      ((((List.range' s n).map fun s => tab.symOff + s * c.symSize).filter fun sym =>
        f.Covers bias ip tab.strSize sym).foldl (f.better bias) best) := by
  induction n generalizing s best with
  | zero => exact answers_pure _
  | succ n inductionHypothesis =>
      have there : f.HasSymbol (tab.symOff + s * c.symSize) := fits.symbol (by omega)
      rw [bwElfSymbols, List.range'_succ, List.map_cons]
      apply (answers_readCovers there bias ip tab.strSize).bind
      apply ElfFile.Answers.ite
      · intro covers
        rw [List.filter_cons, if_pos (by exact covers), List.foldl_cons]
        apply (answers_readBetter kept there bias).bind
        apply inductionHypothesis (by omega)
        intro new member
        rcases better_mem member with rfl | old
        · exact there
        · exact kept new old
      · intro misses
        rw [List.filter_cons, if_neg (by exact misses)]
        exact inductionHypothesis (by omega) kept

theorem foldl_better_mem {bias new : Nat} {syms : List Nat} {best : Option Nat}
    (member : new ∈ syms.foldl (f.better bias) best) : new ∈ syms ∨ new ∈ best := by
  induction syms generalizing best with
  | nil => exact Or.inr member
  | cons sym syms inductionHypothesis =>
      rcases inductionHypothesis member with later | before
      · exact Or.inl (List.mem_cons_of_mem sym later)
      · rcases better_mem before with rfl | old
        · exact Or.inl (List.mem_cons_self ..)
        · exact Or.inr old

theorem covering_hasSymbol {bias ip sym : Nat} {tab : SymTab} (fits : tab.Fits f)
    (member : sym ∈ f.covering bias ip tab) : f.HasSymbol sym := by
  obtain ⟨s, below, rfl⟩ := List.mem_map.mp (List.mem_of_mem_filter member)
  exact fits.symbol (List.mem_range.mp below)

/-! ### Sections -/

/-- The loop over the sections keeps the best symbol of all tables and the strings
of the last one. -/
theorem answers_bwElfSections (bias ip : Nat) {shoff shnum n i : Nat} {found : Found}
    (headers : f.HasHeaders shoff shnum) (within : i + n ≤ shnum)
    (kept : ∀ old ∈ found.best, f.HasSymbol old) :
    f.Answers (bwElfSections f bias ip shoff shnum n i found)
      (let tabs := (List.range' i n).filterMap (f.symTab shoff shnum)
      ⟨f.select bias ip tabs found.best,
        (tabs.getLast?.map fun tab => (tab.strOff, tab.strSize)).or found.strtab⟩) := by
  induction n generalizing i found with
  | zero => exact answers_pure _
  | succ n inductionHypothesis =>
      rw [bwElfSections, List.range'_succ]
      apply (answers_readSymTab headers (by omega)).bind
      cases isTab : f.symTab shoff shnum i with
      | none =>
          rw [List.filterMap_cons_none isTab]
          exact inductionHypothesis (by omega) kept
      | some tab =>
          have fits := symTab_fits isTab
          have symbols := answers_bwElfSymbols bias ip fits (Nat.le_of_eq (Nat.zero_add _)) kept
          rw [← List.range_eq_range'] at symbols
          have keptNext : ∀ old ∈ (f.covering bias ip tab).foldl (f.better bias) found.best,
              f.HasSymbol old := by
            intro old member
            rcases foldl_better_mem member with here | before
            · exact covering_hasSymbol fits here
            · exact kept old before
          have rest := @inductionHypothesis (i + 1)
            ⟨(f.covering bias ip tab).foldl (f.better bias) found.best,
              some (tab.strOff, tab.strSize)⟩ (by omega) keptNext
          rw [List.filterMap_cons_some isTab]
          dsimp only at rest ⊢
          have strtab : ∀ tabs : List SymTab,
              ((tab :: tabs).getLast?.map fun tab => (tab.strOff, tab.strSize)).or found.strtab =
                (tabs.getLast?.map fun tab => (tab.strOff, tab.strSize)).or
                  (some (tab.strOff, tab.strSize)) := by
            intro tabs
            rw [List.getLast?_cons]
            cases tabs.getLast? <;> rfl
          rw [strtab, ElfFile.select, List.flatMap_cons, List.foldl_append]
          exact symbols.bind rest

/-! ### The name -/

theorem slice_succ {off : Nat} (n : Nat) (inside : off < f.size) :
    ∃ ch, f.slice off (n + 1) = ch :: f.slice (off + 1) n ∧ f.field off 1 = ch.toNat := by
  unfold ElfFile.size at inside
  refine ⟨f.bytes[off], ?_, ?_⟩
  · rw [ElfFile.slice, ElfFile.slice, List.drop_eq_getElem_cons inside, List.take_succ_cons]
  · rw [ElfFile.field, ElfFile.slice, List.drop_eq_getElem_cons inside, List.take_succ_cons,
      List.take_zero]
    simp [leNat]

theorem answers_elfNameLen {n off : Nat} (inside : off + n ≤ f.size) :
    f.Answers (elfNameLen f n off) (upToNul (f.slice off n)).length := by
  induction n generalizing off with
  | zero => exact answers_pure _
  | succ n inductionHypothesis =>
      obtain ⟨ch, slice, value⟩ := slice_succ (f := f) n (show off < f.size by omega)
      rw [elfNameLen, slice]
      apply (answers_readField (by omega)).bind
      apply ElfFile.Answers.ite
      · intro isNul
        have nul : ch = 0 := UInt8.toNat_inj.mp (value.symm.trans isNul)
        rw [nul, upToNul_cons_nul]
        exact answers_pure _
      · intro other
        have nonzero : ch ≠ 0 := by
          rintro rfl
          exact other value
        rw [upToNul_cons_ne _ nonzero]
        exact (inductionHypothesis (by omega)).bind (answers_pure _)

theorem length_nameIn_le (sym : Nat) (strs : Nat × Nat) :
    (f.nameIn sym strs).length ≤ strs.2 - f.field sym 4 :=
  Nat.le_trans (length_upToNul_le _) (List.length_take_le _ _)

theorem slice_nameIn {sym : Nat} {strs : Nat × Nat} {n : Nat}
    (short : n ≤ (f.nameIn sym strs).length) :
    f.slice (strs.1 + f.field sym 4) n = (f.nameIn sym strs).take n := by
  have within := length_nameIn_le (f := f) sym strs
  have whole := upToNul_eq_take (f.slice (strs.1 + f.field sym 4) (strs.2 - f.field sym 4))
  rw [← ElfFile.nameIn] at whole
  rw [← whole, List.take_take, Nat.min_eq_left short, ElfFile.slice, ElfFile.slice, List.take_take,
    Nat.min_eq_left (by omega)]

/-- The copy behind the length, of a name that stands at `off`. -/
theorem answers_copyText {off : Nat} {name out : List UInt8} (room : 0 < out.length)
    (there : ∀ n ≤ name.length, f.slice off n = name.take n) (inside : off + name.length ≤ f.size) :
    f.Answers (do
      let len := if out.length ≤ name.length then out.length - 1 else name.length
      let text ← readBytes f off len
      pure (true, text ++ 0 :: out.drop (len + 1)))
      (true, name.take (out.length - 1) ++
        0 :: out.drop ((name.take (out.length - 1)).length + 1)) := by
  have length : (if out.length ≤ name.length then out.length - 1 else name.length) =
      (name.take (out.length - 1)).length := by
    rw [List.length_take]
    split_ifs <;> omega
  have short : (name.take (out.length - 1)).length ≤ name.length := List.length_take_le' _ _
  have cut : name.take (name.take (out.length - 1)).length = name.take (out.length - 1) := by
    rw [List.length_take, ← List.take_eq_take_min]
  dsimp only
  rw [length]
  have read : f.Answers (readBytes f off (name.take (out.length - 1)).length)
      (name.take (out.length - 1)) := by
    have plain := answers_readBytes (f := f)
      (show off + (name.take (out.length - 1)).length ≤ f.size by omega)
    rwa [there _ short, cut] at plain
  exact read.bind (answers_pure _)

/-- The name of what was found is copied, cut to the buffer. -/
theorem answers_bwElfCopyName {found : Found} (kept : ∀ sym ∈ found.best, f.HasSymbol sym)
    (strings : ∀ strs ∈ found.strtab, strs.1 + strs.2 ≤ f.size) {out : List UInt8}
    (room : 0 < out.length) :
    f.Answers (bwElfCopyName f found out) (copied (f.nameOf found) out) := by
  obtain ⟨best, strtab⟩ := found
  cases best with
  | none => exact answers_pure _
  | some sym =>
      cases strtab with
      | none => exact answers_pure _
      | some strs =>
          have there : f.HasSymbol sym := kept sym rfl
          have fits : strs.1 + strs.2 ≤ f.size := strings strs rfl
          have nameFits := c.sym_fields.1
          unfold ElfFile.HasSymbol at there
          have isName : f.nameOf ⟨some sym, some strs⟩ = f.nameIn sym strs := rfl
          rw [isName, copied, bwElfCopyName]
          apply (answers_readField (by omega)).bind
          apply ElfFile.Answers.ite
          · intro below
            apply (answers_elfNameLen (by omega)).bind
            change f.Answers (if 0 < (f.nameIn sym strs).length then _ else _) _
            apply ElfFile.Answers.ite
            · intro nonempty
              have within := length_nameIn_le (f := f) sym strs
              have inside : strs.1 + f.field sym 4 + (f.nameIn sym strs).length ≤ f.size := by omega
              rw [if_neg (List.ne_nil_of_length_pos nonempty)]
              exact answers_copyText room (fun _ short => slice_nameIn short) inside
            · intro empty
              rw [if_pos (List.eq_nil_of_length_eq_zero (by omega))]
              exact answers_pure _
          · intro beyond
            have empty : f.nameIn sym strs = [] := by
              rw [ElfFile.nameIn, show strs.2 - f.field sym 4 = 0 by omega]
              rfl
            rw [if_pos empty]
            exact answers_pure _

theorem nul_notMem_nameOf (found : Found) : 0 ∉ f.nameOf found := by
  unfold ElfFile.nameOf
  cases isName : found.best.bind fun best => found.strtab.map fun strs => f.nameIn best strs with
  | none => simp
  | some name =>
      obtain ⟨best, -, named⟩ := Option.bind_eq_some_iff.mp isName
      obtain ⟨strs, -, rfl⟩ := Option.map_eq_some_iff.mp named
      exact nul_notMem_upToNul _

theorem ehdr_hasHeaders {table : Nat × Nat} (found : f.ehdr = some table) :
    f.HasHeaders table.1 table.2 := by
  unfold ElfFile.ehdr at found
  dsimp only at found
  split_ifs at found with all
  cases found
  obtain ⟨-, -, -, -, begins, ends⟩ := all
  unfold ElfFile.HasHeaders
  dsimp only
  omega

theorem symTabs_fit {tab : SymTab} (member : tab ∈ f.symTabs) : tab.Fits f := by
  unfold ElfFile.symTabs at member
  cases isTable : f.ehdr with
  | none => simp [isTable] at member
  | some table =>
      rw [isTable] at member
      obtain ⟨i, -, found⟩ := List.mem_filterMap.mp member
      exact symTab_fits found

theorem select_hasSymbol {bias ip sym : Nat} {tabs : List SymTab}
    (fits : ∀ tab ∈ tabs, tab.Fits f) (member : sym ∈ f.select bias ip tabs none) :
    f.HasSymbol sym := by
  rcases foldl_better_mem member with covering | absent
  · obtain ⟨tab, isTab, covers⟩ := List.mem_flatMap.mp covering
    exact covering_hasSymbol (fits tab isTab) covers
  · cases absent

variable (f) in
/-- The loops on their own: `best` and `strtab` when they have ended. -/
def bwElfFound (bias ip : Nat) : Reader Found := do
  let ehdr ← readEhdr f
  match ehdr with
  | none => pure ⟨none, none⟩
  | some (shoff, shnum) => bwElfSections f bias ip shoff shnum shnum 0 ⟨none, none⟩

/-- What follows the loops looks at what they found only. -/
theorem bwElfMapped_eq (bias ip : Nat) (out : List UInt8) :
    bwElfMapped f bias ip out =
      bwElfFound f bias ip >>= fun found => bwElfCopyName f found out := by
  rw [bwElfMapped, bwElfFound, bind_assoc]
  congr 1
  funext ehdr
  cases ehdr <;> rfl

theorem answers_bwElfFound (bias ip : Nat) :
    f.Answers (bwElfFound f bias ip) (f.found bias ip) := by
  apply answers_readEhdr.bind
  cases isTable : f.ehdr with
  | none =>
      rw [ElfFile.found, ElfFile.symTabs, isTable]
      exact answers_pure _
  | some table =>
      have sections := @answers_bwElfSections c f bias ip table.1 table.2 table.2 0 ⟨none, none⟩
        (ehdr_hasHeaders isTable) (Nat.le_of_eq (Nat.zero_add _)) (by simp)
      rw [← List.range_eq_range'] at sections
      dsimp only at sections
      rw [Option.or_none] at sections
      rw [ElfFile.found, ElfFile.symTabs, isTable]
      exact sections

/-- A run answers with the name that is found, and reads nothing outside the
file. -/
theorem answers_bwElfMapped (bias ip : Nat) {out : List UInt8} (room : 0 < out.length) :
    f.Answers (bwElfMapped f bias ip out) (copied (f.foundName bias ip) out) := by
  have strings : ∀ strs ∈ (f.found bias ip).strtab, strs.1 + strs.2 ≤ f.size := by
    intro strs member
    obtain ⟨tab, isLast, rfl⟩ := Option.map_eq_some_iff.mp member
    exact (symTabs_fit (List.mem_of_getLast? isLast)).strs
  have symbols : ∀ sym ∈ (f.found bias ip).best, f.HasSymbol sym :=
    fun sym member => select_hasSymbol (fun tab => symTabs_fit) member
  rw [bwElfMapped_eq]
  exact (answers_bwElfFound bias ip).bind (answers_bwElfCopyName symbols strings room)

/-! ### The buffer -/

/-- What a result of `bw_elf_sname` should say: with `true`, `out` holds a string
that is not empty and fits; with `false` it is as before. -/
def GoodResult (out : List UInt8) (result : Bool × List UInt8) : Prop :=
  (result.1 = true → ∃ text, text ≠ [] ∧ 0 ∉ text ∧ text.length ≤ out.length - 1 ∧
    result.2 = text ++ 0 :: out.drop (text.length + 1)) ∧
  (result.1 = false → result.2 = out)

theorem goodResult_copied_iff {name out : List UInt8} (noNul : 0 ∉ name) (room : 0 < out.length) :
    GoodResult out (copied name out) ↔ out.length ≠ 1 ∨ name = [] := by
  unfold copied GoodResult
  by_cases empty : name = []
  · rw [if_pos empty]
    simp [empty]
  · rw [if_neg empty]
    constructor
    · intro good
      obtain ⟨text, nonempty, -, short, -⟩ := good.1 rfl
      have positive := List.length_pos_of_ne_nil nonempty
      exact Or.inl (by omega)
    · intro enough
      have large : out.length ≠ 1 := enough.resolve_right empty
      refine ⟨fun _ => ⟨name.take (out.length - 1), ?_, ?_, List.length_take_le _ _, rfl⟩, by simp⟩
      · simp only [ne_eq, List.take_eq_nil_iff, empty, or_false]
        omega
      · exact fun member => noNul (List.mem_of_mem_take member)

/-- With a path, a file and a buffer, the work on the file is all there is. -/
theorem bwElfSname_mapped {mapFile : List UInt8 → Option (ElfFile c)} {path : List UInt8}
    (hasPath : path ≠ []) (mapped : mapFile path = some f) (bias ip : Nat) {out : List UInt8}
    (room : 1 ≤ out.length) :
    bwElfSname mapFile (some path) bias ip out = bwElfMapped f bias ip out := by
  rw [bwElfSname, Option.getD_some, if_neg (not_or.mpr ⟨hasPath, by omega⟩), mapped]

/-- Every read is in the file, and the result is good exactly if `out` has room for
more than the NUL, or there is no name for `ip`. -/
theorem bwElfSname_inside_iff {mapFile : List UInt8 → Option (ElfFile c)} {path : List UInt8}
    (hasPath : path ≠ []) (mapped : mapFile path = some f) (bias ip : Nat) {out : List UInt8}
    (room : 1 ≤ out.length) (log : List Read) :
    ∃ result seen, bwElfSname mapFile (some path) bias ip out log = .ok result (log ++ seen) ∧
      (((∀ r ∈ seen, r.off + r.len ≤ f.size) ∧ GoodResult out result) ↔
        out.length ≠ 1 ∨ f.foundName bias ip = []) := by
  obtain ⟨seen, ran, inside⟩ := answers_bwElfMapped (f := f) bias ip room log
  refine ⟨copied (f.foundName bias ip) out, seen, ?_, ?_⟩
  · rw [bwElfSname_mapped hasPath mapped bias ip room]
    exact ran
  · have noNul : 0 ∉ f.foundName bias ip := nul_notMem_nameOf (f.found bias ip)
    rw [goodResult_copied_iff noNul room]
    exact and_iff_right inside

end Lookup

/-- A file with the function `f` at `[0x1000, 0x1010)`. -/
def oneFunctionBytes : List UInt8 :=
  [0x7f, 0x45, 0x4c, 0x46] ++ List.replicate 36 0 ++ [64, 0, 0, 0, 0, 0, 0, 0] ++
  List.replicate 10 0 ++ [64, 0, 2, 0, 0, 0] ++
  (List.replicate 4 0 ++ [2, 0, 0, 0] ++ List.replicate 16 0 ++ [192, 0, 0, 0, 0, 0, 0, 0] ++
    [24, 0, 0, 0, 0, 0, 0, 0] ++ [1, 0, 0, 0] ++ List.replicate 12 0 ++
    [24, 0, 0, 0, 0, 0, 0, 0]) ++
  (List.replicate 4 0 ++ [3, 0, 0, 0] ++ List.replicate 16 0 ++ [216, 0, 0, 0, 0, 0, 0, 0] ++
    [3, 0, 0, 0, 0, 0, 0, 0] ++ List.replicate 24 0) ++
  ([1, 0, 0, 0, 0x12, 0, 1, 0] ++ [0, 0x10, 0, 0, 0, 0, 0, 0] ++ [0x10, 0, 0, 0, 0, 0, 0, 0]) ++
  [0, 0x66, 0]

theorem oneFunction_fits : oneFunctionBytes.length < 2 ^ ElfClass.elf64.bits := by decide +kernel

def oneFunction : ElfFile .elf64 := ⟨oneFunctionBytes, oneFunction_fits⟩

/-- Two bytes hold the name. -/
theorem oneFunction_named : ∃ result seen,
    bwElfSname (fun _ => some oneFunction) (some [0x61]) 0 0x1004 [0x78, 0x78] [] =
      .ok result seen ∧
      (∀ r ∈ seen, r.off + r.len ≤ oneFunction.size) ∧ GoodResult [0x78, 0x78] result := by
  obtain ⟨result, seen, ran, good⟩ := @bwElfSname_inside_iff .elf64 oneFunction
    (fun _ => some oneFunction) [0x61] (by decide) rfl 0 0x1004 [0x78, 0x78] (by decide) []
  exact ⟨result, seen, ran, good.mpr (Or.inl (by decide))⟩

/-- One byte holds no name, and yet `true` is returned. -/
theorem oneFunction_empty : ∃ seen,
    bwElfSname (fun _ => some oneFunction) (some [0x61]) 0 0x1004 [0x78] [] = .ok (true, [0]) seen ∧
      ¬ GoodResult [0x78] (true, [0]) := by
  have name : oneFunction.foundName 0 0x1004 = [0x66] := by decide +kernel
  obtain ⟨seen, ran, -⟩ := answers_bwElfMapped (f := oneFunction) 0 0x1004
    (show 0 < [(0x78 : UInt8)].length by decide) []
  rw [name] at ran
  refine ⟨_, ran, ?_⟩
  rintro ⟨good, -⟩
  obtain ⟨text, nonempty, -, short, -⟩ := good rfl
  exact nonempty (List.eq_nil_of_length_eq_zero (Nat.le_zero.mp short))

end Backwalk.Elf
