import Backwalk.Elf.Inside
import Backwalk.Support.Search

/-!
Contract: which symbol `bw_elf_sname` selects.

Owns the places at which symbols stand, in the order of the two loops, and the
candidates among them: functions that cover an address, in plain arithmetic. The
loops select the candidate that begins last; where several begin together, the
one that is scanned last.

Does **not** own the name that is copied for it.
-/

namespace Backwalk.Elf

open Backwalk.DwarfLine Backwalk.Support

/-! ### Places -/

/-- Where a symbol stands: a section, its symbol table, and an index in it. -/
structure Place where
  secIndex : Nat
  tab : SymTab
  symIndex : Nat
deriving DecidableEq, Repr

/-- The offset of the symbol. -/
def Place.sym (c : ElfClass) (place : Place) : Nat := place.tab.symOff + place.symIndex * c.symSize

/-- The loops come to one place before the other. -/
def Place.ScannedBefore (one other : Place) : Prop :=
  one.secIndex < other.secIndex ∨ one.secIndex = other.secIndex ∧ one.symIndex < other.symIndex

section Selection

variable {c : ElfClass} (f : ElfFile c)

/-- The place is one of a symbol table that is looked into. -/
def ElfFile.Lists (place : Place) : Prop :=
  ∃ shoff shnum, f.ehdr = some (shoff, shnum) ∧ place.secIndex < shnum ∧
    f.symTab shoff shnum place.secIndex = some place.tab ∧ place.symIndex < place.tab.nsym

/-- The places in section `i`. -/
def ElfFile.placesIn (shoff shnum i : Nat) : List Place :=
  (f.symTab shoff shnum i).elim [] fun tab => (List.range tab.nsym).map fun s => ⟨i, tab, s⟩

/-- The places in the order of the loops. -/
def ElfFile.places : List Place :=
  f.ehdr.elim [] fun table => (List.range table.2).flatMap (f.placesIn table.1 table.2)

/-- The symbol at `sym` is a defined function with a size, and with a name in a
string table of that size. -/
def ElfFile.IsFunction (strSize sym : Nat) : Prop :=
  f.field (sym + c.stInfo) 1 &&& 0xf = sttFunc ∧ f.field (sym + c.stShndx) 2 ≠ shnUndef ∧
    f.field (sym + c.stSize) c.wordSize ≠ 0 ∧ f.field sym 4 ≠ 0 ∧ f.field sym 4 < strSize

instance (strSize sym : Nat) : Decidable (f.IsFunction strSize sym) :=
  inferInstanceAs (Decidable (_ ∧ _))

/-- The start address of a symbol. -/
def ElfFile.startOf (bias sym : Nat) : Nat := bias + f.field (sym + c.stValue) c.wordSize

/-- The address behind a symbol. -/
def ElfFile.endOf (bias sym : Nat) : Nat := f.startOf bias sym + f.field (sym + c.stSize) c.wordSize

/-- A symbol that may be selected for `ip`. -/
structure ElfFile.Candidate (bias ip : Nat) (place : Place) : Prop where
  listed : f.Lists place
  function : f.IsFunction place.tab.strSize (place.sym c)
  begins : f.startOf bias (place.sym c) ≤ ip
  ends : ip < f.endOf bias (place.sym c)

/-- The places whose symbols cover `ip`. -/
def ElfFile.coveringPlaces (bias ip : Nat) : List Place :=
  f.places.filter fun place => f.Covers bias ip place.tab.strSize (place.sym c)

/-- What the loops select, as a place. -/
def ElfFile.selected (bias ip : Nat) : Option Place :=
  (f.coveringPlaces bias ip).foldl (keepLast fun place => f.start bias (place.sym c)) none

variable {f}

theorem mem_placesIn {shoff shnum i : Nat} {place : Place} :
    place ∈ f.placesIn shoff shnum i ↔
      place.secIndex = i ∧ f.symTab shoff shnum i = some place.tab ∧
        place.symIndex < place.tab.nsym := by
  obtain ⟨secIndex, tab, symIndex⟩ := place
  unfold ElfFile.placesIn
  cases isTab : f.symTab shoff shnum i with
  | none => simp
  | some tab' =>
      simp only [Option.elim_some, List.mem_map, List.mem_range, Place.mk.injEq, Option.some_inj]
      constructor
      · rintro ⟨s, below, rfl, rfl, rfl⟩
        exact ⟨rfl, rfl, below⟩
      · rintro ⟨rfl, rfl, below⟩
        exact ⟨symIndex, below, rfl, rfl, rfl⟩

theorem mem_places {place : Place} : place ∈ f.places ↔ f.Lists place := by
  unfold ElfFile.places ElfFile.Lists
  cases isTable : f.ehdr with
  | none => simp
  | some table =>
      obtain ⟨shoff, shnum⟩ := table
      simp only [Option.elim_some, List.mem_flatMap, List.mem_range, mem_placesIn]
      constructor
      · rintro ⟨i, below, rfl, isTab, inTab⟩
        exact ⟨shoff, shnum, rfl, below, isTab, inTab⟩
      · rintro ⟨shoff', shnum', same, below, isTab, inTab⟩
        cases same
        exact ⟨place.secIndex, below, rfl, isTab, inTab⟩

theorem mem_coveringPlaces {bias ip : Nat} {place : Place} :
    place ∈ f.coveringPlaces bias ip ↔
      f.Lists place ∧ f.Covers bias ip place.tab.strSize (place.sym c) := by
  rw [ElfFile.coveringPlaces, List.mem_filter, mem_places, decide_eq_true_eq]

/-- The list of places is in the order of the loops. -/
theorem places_ordered : f.places.Pairwise Place.ScannedBefore := by
  unfold ElfFile.places
  cases f.ehdr with
  | none => exact List.Pairwise.nil
  | some table =>
      refine List.pairwise_flatMap.mpr ⟨?_, ?_⟩
      · intro i _
        unfold ElfFile.placesIn
        cases f.symTab table.1 table.2 i with
        | none => exact List.Pairwise.nil
        | some tab =>
            apply List.Pairwise.map _ _ List.pairwise_lt_range
            intro s s' before
            exact Or.inr ⟨rfl, before⟩
      · apply List.pairwise_lt_range.imp
        intro i j before one inOne other inOther
        have isOne := (mem_placesIn.mp inOne).1
        have isOther := (mem_placesIn.mp inOther).1
        exact Or.inl (by omega)

/-! ### The loops -/

/-- The symbols that the loops compare are those at the places that cover `ip`. -/
theorem covering_placesIn (bias ip shoff shnum : Nat) (sections : List Nat) :
    (sections.filterMap (f.symTab shoff shnum)).flatMap (f.covering bias ip) =
      ((sections.flatMap (f.placesIn shoff shnum)).filter fun place =>
        f.Covers bias ip place.tab.strSize (place.sym c)).map (Place.sym c) := by
  induction sections with
  | nil => rfl
  | cons i sections inductionHypothesis =>
      rw [List.flatMap_cons, List.filter_append, List.map_append, ← inductionHypothesis]
      cases isTab : f.symTab shoff shnum i with
      | none =>
          rw [List.filterMap_cons_none isTab, ElfFile.placesIn, isTab]
          rfl
      | some tab =>
          rw [List.filterMap_cons_some isTab, List.flatMap_cons, ElfFile.placesIn, isTab,
            ElfFile.covering, SymTab.symbols, Option.elim_some, List.filter_map, List.filter_map,
            List.map_map]
          rfl

/-- The symbol found is the one at the place selected. -/
theorem best_found (bias ip : Nat) :
    (f.found bias ip).best = (f.selected bias ip).map (Place.sym c) := by
  have sameScan : f.symTabs.flatMap (f.covering bias ip) =
      (f.coveringPlaces bias ip).map (Place.sym c) := by
    unfold ElfFile.symTabs ElfFile.coveringPlaces ElfFile.places
    cases f.ehdr with
    | none => rfl
    | some table => exact covering_placesIn bias ip table.1 table.2 (List.range table.2)
  have sameStep : f.better bias = keepLast (f.start bias) := rfl
  rw [ElfFile.found, ElfFile.select, sameScan, sameStep]
  exact foldl_keepLast_map (Place.sym c) _ none

/-- The place covers `ip`, and the others that do begin before it or, together with
it, are scanned before it. -/
structure ElfFile.Selects (f : ElfFile c) (bias ip : Nat) (place : Place) : Prop where
  listed : f.Lists place
  covers : f.Covers bias ip place.tab.strSize (place.sym c)
  others : ∀ other, f.Lists other → f.Covers bias ip other.tab.strSize (other.sym c) →
    other = place ∨ f.start bias (other.sym c) < f.start bias (place.sym c) ∨
      (f.start bias (other.sym c) ≤ f.start bias (place.sym c) ∧ other.ScannedBefore place)

theorem ElfFile.Selects.unique {bias ip : Nat} {one other : Place} (isOne : f.Selects bias ip one)
    (isOther : f.Selects bias ip other) : one = other := by
  rcases isOne.others other isOther.listed isOther.covers with same | later
  · exact same.symm
  · rcases isOther.others one isOne.listed isOne.covers with same | earlier
    · exact same
    · unfold Place.ScannedBefore at later earlier
      omega

/-- The loops come to the place that is selected, or to none. -/
theorem selected_spec (bias ip : Nat) :
    (f.selected bias ip = none ∧ ∀ place, f.Lists place →
        ¬ f.Covers bias ip place.tab.strSize (place.sym c)) ∨
      ∃ place, f.selected bias ip = some place ∧ f.Selects bias ip place := by
  rcases foldl_keepLast (fun place => f.start bias (place.sym c)) (f.coveringPlaces bias ip) with
    ⟨empty, none⟩ | ⟨place, some, last⟩
  · apply Or.inl
    refine ⟨none, ?_⟩
    intro place listed covers
    have member := mem_coveringPlaces.mpr ⟨listed, covers⟩
    rw [empty] at member
    exact absurd member List.not_mem_nil
  · apply Or.inr
    obtain ⟨listed, covers⟩ := mem_coveringPlaces.mp last.mem
    refine ⟨place, some, listed, covers, ?_⟩
    intro other otherListed otherCovers
    apply last.other (places_ordered.filter _)
    exact mem_coveringPlaces.mpr ⟨otherListed, otherCovers⟩

/-! ### Without wraparound -/

/-- No function of the file wraps around the end of the address space. -/
def ElfFile.Unwrapped (f : ElfFile c) (bias : Nat) : Prop :=
  ∀ place, f.Lists place → f.IsFunction place.tab.strSize (place.sym c) →
    f.endOf bias (place.sym c) < 2 ^ c.bits

theorem start_of_unwrapped {bias sym : Nat} (unwrapped : f.endOf bias sym < 2 ^ c.bits) :
    f.start bias sym = f.startOf bias sym := by
  have below : f.startOf bias sym < 2 ^ c.bits :=
    Nat.lt_of_le_of_lt (Nat.le_add_right _ _) unwrapped
  exact Nat.mod_eq_of_lt below

theorem covers_iff_candidate {bias ip : Nat} (unwrapped : f.Unwrapped bias) {place : Place}
    (listed : f.Lists place) :
    f.Covers bias ip place.tab.strSize (place.sym c) ↔ f.Candidate bias ip place := by
  constructor
  · rintro ⟨isFunc, defined, sized, named, inStrings, low, high⟩
    have function : f.IsFunction place.tab.strSize (place.sym c) :=
      ⟨isFunc, defined, sized, named, inStrings⟩
    have below := unwrapped place listed function
    rw [start_of_unwrapped below] at low high
    exact ⟨listed, function, low, lt_of_lt_of_eq high (Nat.mod_eq_of_lt below)⟩
  · rintro ⟨-, function, low, high⟩
    have below := unwrapped place listed function
    obtain ⟨isFunc, defined, sized, named, inStrings⟩ := function
    refine ⟨isFunc, defined, sized, named, inStrings, ?_, ?_⟩
    · rw [start_of_unwrapped below]
      exact low
    · rw [start_of_unwrapped below]
      exact lt_of_lt_of_eq high (Nat.mod_eq_of_lt below).symm

/-- The loops of a run end with nothing selected exactly if there is no candidate,
and otherwise with the candidate that begins last, the one scanned last where
several begin together. -/
theorem bwElfSname_selects {mapFile : List UInt8 → Option (ElfFile c)} {path : List UInt8}
    (hasPath : path ≠ []) (mapped : mapFile path = some f) {bias : Nat}
    (unwrapped : f.Unwrapped bias) (ip : Nat) {out : List UInt8} (room : 1 ≤ out.length)
    (log : List Read) :
    ∃ found seen, bwElfFound f bias ip log = .ok found (log ++ seen) ∧
      bwElfSname mapFile (some path) bias ip out log = bwElfCopyName f found out (log ++ seen) ∧
      (found.best = none ↔ ∀ place, ¬ f.Candidate bias ip place) ∧
      ∀ sym, found.best = some sym → ∃ place, sym = place.sym c ∧ f.Candidate bias ip place ∧
        ∀ other, f.Candidate bias ip other → other = place ∨
          f.startOf bias (other.sym c) < f.startOf bias sym ∨
          (f.startOf bias (other.sym c) = f.startOf bias sym ∧ other.ScannedBefore place) := by
  obtain ⟨seen, ran, -⟩ := answers_bwElfFound (f := f) bias ip log
  refine ⟨f.found bias ip, seen, ran, ?_, ?_⟩
  · rw [bwElfSname_mapped hasPath mapped bias ip room, bwElfMapped_eq, bind_of_ok ran]
  · rw [best_found]
    rcases selected_spec (f := f) bias ip with
      ⟨none, noneCovers⟩ | ⟨place, some, selects⟩
    · rw [none]
      refine ⟨iff_of_true rfl ?_, by simp⟩
      intro place candidate
      exact noneCovers place candidate.listed
        ((covers_iff_candidate unwrapped candidate.listed).mpr candidate)
    · have candidate := (covers_iff_candidate unwrapped selects.listed).mp selects.covers
      have exactStart := start_of_unwrapped (unwrapped place selects.listed candidate.function)
      rw [some]
      refine ⟨iff_of_false (by simp) fun noCandidate => noCandidate place candidate, ?_⟩
      rintro sym isSym
      obtain rfl := Option.some_inj.mp isSym
      refine ⟨place, rfl, candidate, ?_⟩
      intro other otherCandidate
      have otherCovers := (covers_iff_candidate unwrapped otherCandidate.listed).mpr otherCandidate
      have otherStart :=
        start_of_unwrapped (unwrapped other otherCandidate.listed otherCandidate.function)
      have order := selects.others other otherCandidate.listed otherCovers
      rw [exactStart, otherStart] at order
      rcases order with same | earlier | ⟨notLater, before⟩
      · exact Or.inl same
      · exact Or.inr (Or.inl earlier)
      · rcases Nat.lt_or_eq_of_le notLater with earlier | together
        · exact Or.inr (Or.inl earlier)
        · exact Or.inr (Or.inr ⟨together, before⟩)

end Selection

/-- A file with `f` at `[0x1000, 0x1100)` and, inside it, `g` at `[0x1010, 0x1020)` and
`h` at `[0x1010, 0x1030)`. -/
def nestedFunctionsBytes : List UInt8 :=
  [0x7f, 0x45, 0x4c, 0x46] ++ List.replicate 36 0 ++ [64, 0, 0, 0, 0, 0, 0, 0] ++
  List.replicate 10 0 ++ [64, 0, 2, 0, 0, 0] ++
  (List.replicate 4 0 ++ [2, 0, 0, 0] ++ List.replicate 16 0 ++ [192, 0, 0, 0, 0, 0, 0, 0] ++
    [72, 0, 0, 0, 0, 0, 0, 0] ++ [1, 0, 0, 0] ++ List.replicate 12 0 ++
    [24, 0, 0, 0, 0, 0, 0, 0]) ++
  (List.replicate 4 0 ++ [3, 0, 0, 0] ++ List.replicate 16 0 ++ [8, 1, 0, 0, 0, 0, 0, 0] ++
    [7, 0, 0, 0, 0, 0, 0, 0] ++ List.replicate 24 0) ++
  ([1, 0, 0, 0, 0x12, 0, 1, 0] ++ [0, 0x10, 0, 0, 0, 0, 0, 0] ++ [0, 1, 0, 0, 0, 0, 0, 0]) ++
  ([3, 0, 0, 0, 0x12, 0, 1, 0] ++ [0x10, 0x10, 0, 0, 0, 0, 0, 0] ++ [0x10, 0, 0, 0, 0, 0, 0, 0]) ++
  ([5, 0, 0, 0, 0x12, 0, 1, 0] ++ [0x10, 0x10, 0, 0, 0, 0, 0, 0] ++ [0x20, 0, 0, 0, 0, 0, 0, 0]) ++
  [0, 0x66, 0, 0x67, 0, 0x68, 0]

def nestedFunctions : ElfFile .elf64 := ⟨nestedFunctionsBytes, by decide +kernel⟩

/-- Where the symbol `n` of the file is. -/
def nestedPlace (n : Nat) : Place := ⟨0, ⟨192, 3, 264, 7⟩, n⟩

theorem nestedFunctions_places :
    nestedFunctions.places = [nestedPlace 0, nestedPlace 1, nestedPlace 2] := by
  decide +kernel

theorem nestedFunctions_unwrapped : nestedFunctions.Unwrapped 0 := by
  have all : ∀ place ∈ nestedFunctions.places,
      nestedFunctions.IsFunction place.tab.strSize (place.sym .elf64) →
        nestedFunctions.endOf 0 (place.sym .elf64) < 2 ^ ElfClass.elf64.bits := by
    decide +kernel
  intro place listed
  exact all place (mem_places.mpr listed)

/-- All three cover the address, two of them begin together, and the last of these is
selected. -/
theorem nestedFunctions_selected :
    (∀ n < 3, nestedFunctions.Candidate 0 0x1014 (nestedPlace n)) ∧ ∃ found seen,
      bwElfFound nestedFunctions 0 0x1014 [] = .ok found seen ∧
        found.best = some ((nestedPlace 2).sym .elf64) := by
  have candidates : ∀ n < 3, nestedFunctions.Candidate 0 0x1014 (nestedPlace n) := by
    have listed : ∀ n < 3, nestedPlace n ∈ nestedFunctions.places := by decide +kernel
    have functions : ∀ n < 3, nestedFunctions.IsFunction (nestedPlace n).tab.strSize
        ((nestedPlace n).sym .elf64) := by decide +kernel
    have begin : ∀ n < 3, nestedFunctions.startOf 0 ((nestedPlace n).sym .elf64) ≤ 0x1014 := by
      decide +kernel
    have ends : ∀ n < 3, 0x1014 < nestedFunctions.endOf 0 ((nestedPlace n).sym .elf64) := by
      decide +kernel
    exact fun n below =>
      ⟨mem_places.mp (listed n below), functions n below, begin n below, ends n below⟩
  obtain ⟨found, seen, ran, -, none, selected⟩ := @bwElfSname_selects .elf64 nestedFunctions
    (fun _ => some nestedFunctions) [0x61] (by decide) rfl 0 nestedFunctions_unwrapped 0x1014 [0x78]
    (by decide) []
  refine ⟨candidates, found, _, ran, ?_⟩
  have some : found.best ≠ Option.none := fun absent => none.mp absent _ (candidates 2 (by decide))
  obtain ⟨sym, isBest⟩ := Option.ne_none_iff_exists'.mp some
  obtain ⟨place, rfl, candidate, others⟩ := selected sym isBest
  have member : place = nestedPlace 0 ∨ place = nestedPlace 1 ∨ place = nestedPlace 2 := by
    simpa [nestedFunctions_places] using mem_places.mpr candidate.listed
  have starts : nestedFunctions.startOf 0 ((nestedPlace 0).sym .elf64) = 0x1000 ∧
      nestedFunctions.startOf 0 ((nestedPlace 1).sym .elf64) = 0x1010 ∧
      nestedFunctions.startOf 0 ((nestedPlace 2).sym .elf64) = 0x1010 := by
    decide +kernel
  have last := others (nestedPlace 2) (candidates 2 (by decide))
  rw [isBest]
  rcases member with rfl | rfl | rfl
  · rcases last with same | earlier | ⟨together, -⟩
    · exact absurd same (by decide)
    · omega
    · omega
  · rcases last with same | earlier | ⟨-, before⟩
    · exact absurd same (by decide)
    · omega
    · simp [Place.ScannedBefore, nestedPlace] at before
  · rfl

end Backwalk.Elf
