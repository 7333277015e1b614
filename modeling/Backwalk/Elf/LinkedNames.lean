import Backwalk.Elf.Selection

/-!
Contract: whose name `bw_elf_sname` copies.

Owns the name of a symbol in the string table that its own section is linked with.
The loops remember the string table of the last symbol table instead, whether or
not a symbol of that table is selected, so the copied name is that of the selected
symbol exactly where the two string tables cannot be told apart.
-/

namespace Backwalk.Elf

open Backwalk.DwarfLine Backwalk.Support

section LinkedNames

variable {c : ElfClass} (f : ElfFile c)

/-- The name of the symbol at a place, in the string table linked from its section. -/
def ElfFile.ownName (place : Place) : List UInt8 :=
  f.nameIn (place.sym c) (place.tab.strOff, place.tab.strSize)

/-- Where the name of the selected symbol should be, the string table linked from
the last symbol table holds no text, or one with the same first `n` characters. -/
def ElfFile.LastStringsFit (bias ip n : Nat) : Prop :=
  ∀ place last, f.Selects bias ip place → f.symTabs.getLast? = some last →
    f.nameIn (place.sym c) (last.strOff, last.strSize) = [] ∨
      (f.nameIn (place.sym c) (last.strOff, last.strSize)).take n = (f.ownName place).take n

/-- What a result of `bw_elf_sname` should say: with `true`, `out` holds the name of
the selected symbol, cut to the buffer. -/
def ElfFile.OwnNameIn (bias ip : Nat) (out : List UInt8) (result : Bool × List UInt8) : Prop :=
  result.1 = true → ∃ place text, f.Selects bias ip place ∧
    text = (f.ownName place).take (out.length - 1) ∧
    result.2 = text ++ 0 :: out.drop (text.length + 1)

variable {f}

theorem nul_notMem_nameIn (sym : Nat) (strs : Nat × Nat) : 0 ∉ f.nameIn sym strs :=
  nul_notMem_upToNul _

theorem lists_mem_symTabs {place : Place} (listed : f.Lists place) : place.tab ∈ f.symTabs := by
  obtain ⟨shoff, shnum, isTable, below, isTab, -⟩ := listed
  rw [ElfFile.symTabs, isTable]
  exact List.mem_filterMap.mpr ⟨place.secIndex, List.mem_range.mpr below, isTab⟩

/-- With a symbol selected, its name is taken from the strings of the last table. -/
theorem foundName_of_selects {bias ip : Nat} {place : Place} (selects : f.Selects bias ip place) :
    ∃ last, f.symTabs.getLast? = some last ∧
      f.foundName bias ip = f.nameIn (place.sym c) (last.strOff, last.strSize) := by
  have isBest : (f.found bias ip).best = some (place.sym c) := by
    rw [best_found]
    rcases selected_spec (f := f) bias ip with ⟨-, noneCovers⟩ | ⟨other, some, isOther⟩
    · exact absurd selects.covers (noneCovers place selects.listed)
    · rw [some, isOther.unique selects]
      rfl
  have member := lists_mem_symTabs selects.listed
  have isLast := List.getLast?_eq_some_getLast (List.ne_nil_of_mem member)
  refine ⟨_, isLast, ?_⟩
  have isStrtab : (f.found bias ip).strtab = f.symTabs.getLast?.map fun tab =>
      (tab.strOff, tab.strSize) := rfl
  rw [ElfFile.foundName, ElfFile.nameOf, isBest, isStrtab, isLast]
  rfl

theorem foundName_of_none {bias ip : Nat} (none : f.selected bias ip = none) :
    f.foundName bias ip = [] := by
  rw [ElfFile.foundName, ElfFile.nameOf, best_found, none]
  rfl

/-- A single string table is the right one. -/
theorem lastStringsFit_of_single {bias ip n : Nat} {strOff strSize : Nat}
    (single : ∀ tab ∈ f.symTabs, tab.strOff = strOff ∧ tab.strSize = strSize) :
    f.LastStringsFit bias ip n := by
  intro place last selects isLast
  apply Or.inr
  obtain ⟨off, size⟩ := single place.tab (lists_mem_symTabs selects.listed)
  obtain ⟨lastOff, lastSize⟩ := single last (List.mem_of_getLast? isLast)
  rw [ElfFile.ownName, off, size, lastOff, lastSize]

/-- The text that is copied decides. -/
theorem ownNameIn_copied_iff {bias ip : Nat} {place : Place} (selects : f.Selects bias ip place)
    {name : List UInt8} (noNul : 0 ∉ name) (out : List UInt8) :
    f.OwnNameIn bias ip out (copied name out) ↔
      name = [] ∨ name.take (out.length - 1) = (f.ownName place).take (out.length - 1) := by
  unfold ElfFile.OwnNameIn copied
  by_cases empty : name = []
  · rw [if_pos empty]
    simp [empty]
  · rw [if_neg empty]
    constructor
    · intro own
      obtain ⟨other, text, isOther, isText, same⟩ := own rfl
      rw [isOther.unique selects] at isText
      have noNulCut : 0 ∉ name.take (out.length - 1) := fun member =>
        noNul (List.mem_of_mem_take member)
      have noNulText : 0 ∉ text := by
        rw [isText]
        exact fun member => nul_notMem_nameIn _ _ (List.mem_of_mem_take member)
      have sameText := congrArg upToNul same
      rw [upToNul_append_nul noNulCut, upToNul_append_nul noNulText] at sameText
      exact Or.inr (sameText.trans isText)
    · intro agree _
      exact ⟨place, _, selects, agree.resolve_left empty, rfl⟩

/-- What is copied is the name of the selected symbol, as its section has it, exactly
if the strings of the last symbol table fit it. -/
theorem bwElfSname_own_iff {mapFile : List UInt8 → Option (ElfFile c)} {path : List UInt8}
    (hasPath : path ≠ []) (mapped : mapFile path = some f) (bias ip : Nat) {out : List UInt8}
    (room : 1 ≤ out.length) (log : List Read) :
    ∃ result seen, bwElfSname mapFile (some path) bias ip out log = .ok result (log ++ seen) ∧
      (f.OwnNameIn bias ip out result ↔ f.LastStringsFit bias ip (out.length - 1)) := by
  obtain ⟨seen, ran, -⟩ := answers_bwElfMapped (f := f) bias ip room log
  refine ⟨copied (f.foundName bias ip) out, seen, ?_, ?_⟩
  · rw [bwElfSname_mapped hasPath mapped bias ip room]
    exact ran
  · rcases selected_spec (f := f) bias ip with ⟨none, noneCovers⟩ | ⟨place, -, selects⟩
    · have notFound : ¬ (copied (f.foundName bias ip) out).1 = true := by
        simp [foundName_of_none none, copied]
      refine iff_of_true (fun found => absurd found notFound) ?_
      intro place _ selects
      exact absurd selects.covers (noneCovers place selects.listed)
    · obtain ⟨last, isLast, isName⟩ := foundName_of_selects selects
      rw [isName, ownNameIn_copied_iff selects (nul_notMem_nameIn _ _)]
      constructor
      · intro fits other last' isOther isLast'
        obtain rfl := isOther.unique selects
        obtain rfl := Option.some_inj.mp (isLast.symm.trans isLast')
        exact fits
      · intro fits
        exact fits place last selects isLast

end LinkedNames

/-- A file with two symbol tables: the function `f` at `[0x1000, 0x1010)` in the
first, and a second one that is empty and linked with a string table of its own. -/
def twoTablesBytes : List UInt8 :=
  [0x7f, 0x45, 0x4c, 0x46] ++ List.replicate 36 0 ++ [64, 0, 0, 0, 0, 0, 0, 0] ++
  List.replicate 10 0 ++ [64, 0, 4, 0, 0, 0] ++
  (List.replicate 4 0 ++ [2, 0, 0, 0] ++ List.replicate 16 0 ++ [64, 1, 0, 0, 0, 0, 0, 0] ++
    [24, 0, 0, 0, 0, 0, 0, 0] ++ [1, 0, 0, 0] ++ List.replicate 12 0 ++
    [24, 0, 0, 0, 0, 0, 0, 0]) ++
  (List.replicate 4 0 ++ [3, 0, 0, 0] ++ List.replicate 16 0 ++ [88, 1, 0, 0, 0, 0, 0, 0] ++
    [3, 0, 0, 0, 0, 0, 0, 0] ++ List.replicate 24 0) ++
  (List.replicate 4 0 ++ [2, 0, 0, 0] ++ List.replicate 16 0 ++ [88, 1, 0, 0, 0, 0, 0, 0] ++
    [0, 0, 0, 0, 0, 0, 0, 0] ++ [3, 0, 0, 0] ++ List.replicate 12 0 ++ [24, 0, 0, 0, 0, 0, 0, 0]) ++
  (List.replicate 4 0 ++ [3, 0, 0, 0] ++ List.replicate 16 0 ++ [91, 1, 0, 0, 0, 0, 0, 0] ++
    [3, 0, 0, 0, 0, 0, 0, 0] ++ List.replicate 24 0) ++
  ([1, 0, 0, 0, 0x12, 0, 1, 0] ++ [0, 0x10, 0, 0, 0, 0, 0, 0] ++ [0x10, 0, 0, 0, 0, 0, 0, 0]) ++
  [0, 0x66, 0] ++ [0, 0x67, 0]

theorem twoTables_fits : twoTablesBytes.length < 2 ^ ElfClass.elf64.bits := by decide +kernel

def twoTables : ElfFile .elf64 := ⟨twoTablesBytes, twoTables_fits⟩

/-- The place of `f`. -/
def placeOfF : Place := ⟨0, ⟨320, 1, 344, 3⟩, 0⟩

theorem twoTables_selects {place : Place} (selects : twoTables.Selects 0 0x1004 place) :
    place = placeOfF := by
  have only : ∀ place ∈ twoTables.places, place = placeOfF := by decide +kernel
  exact only place (mem_places.mpr selects.listed)

/-- With one symbol table the name is that of its symbol. -/
theorem oneFunction_own : ∃ result seen,
    bwElfSname (fun _ => some oneFunction) (some [0x61]) 0 0x1004 [0x78, 0x78] [] =
      .ok result seen ∧ oneFunction.OwnNameIn 0 0x1004 [0x78, 0x78] result := by
  obtain ⟨result, seen, ran, own⟩ := @bwElfSname_own_iff .elf64 oneFunction
    (fun _ => some oneFunction) [0x61] (by decide) rfl 0 0x1004 [0x78, 0x78] (by decide) []
  have single : ∀ tab ∈ oneFunction.symTabs, tab.strOff = 216 ∧ tab.strSize = 3 := by
    decide +kernel
  exact ⟨result, _, ran, own.mpr (lastStringsFit_of_single single)⟩

/-- The function `f` is reported as `g`. -/
theorem twoTables_misnamed : ∃ seen,
    bwElfSname (fun _ => some twoTables) (some [0x61]) 0 0x1004 [0x78, 0x78] [] =
        .ok (true, [0x67, 0]) seen ∧
      ¬ twoTables.OwnNameIn 0 0x1004 [0x78, 0x78] (true, [0x67, 0]) := by
  have name : twoTables.foundName 0 0x1004 = [0x67] := by decide +kernel
  have ownName : twoTables.ownName placeOfF = [0x66] := by decide +kernel
  obtain ⟨seen, ran, -⟩ := answers_bwElfMapped (f := twoTables) 0 0x1004
    (show 0 < [(0x78 : UInt8), 0x78].length by decide) []
  rw [name] at ran
  refine ⟨_, ran, ?_⟩
  intro own
  obtain ⟨place, text, selects, rfl, same⟩ := own rfl
  rw [twoTables_selects selects, ownName] at same
  exact absurd same (by decide)

end Backwalk.Elf
