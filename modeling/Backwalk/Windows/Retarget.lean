import Backwalk.DwarfLine.Calls
import Backwalk.DwarfLine.StaleBytes
import Backwalk.Support.Search
import Backwalk.Windows.FileBytes
import Backwalk.Windows.SymbolCache

/-!
Contract: two loads of one file, at two addresses, into globals that differ.

Owns the relation `Corresponds` between the globals of two loads: they agree in
everything that is in use, except that the symbols of the second are those of
the first moved to its load address. What an earlier load has left behind the
counts is free. Every step of the loader keeps the relation, and queries answer
alike on both sides.

Does not own the two uses: the same address with another past, and another
address.
-/

namespace Backwalk.Windows

open Backwalk.DwarfLine Backwalk.Support

/-- Two module handles, what becomes of a symbol of the first at the second, and
what is known of the symbols of the first. -/
structure Retarget where
  one : Nat
  two : Nat
  move : Sym → Sym
  Known : Sym → Prop
  keepsName : ∀ sym, (move sym).nameOff = sym.nameOff

/-- A NUL stands in the used part of the names, at or after `off`. -/
def NameOk (g : Globals) (off : Nat) : Prop :=
  ∃ index, off ≤ index ∧ index < g.nlen ∧ g.names index = 0

/-- What is in use agrees, with the symbols moved. -/
structure Corresponds (r : Retarget) (g g' : Globals) : Prop where
  modOne : g.mod = r.one
  modTwo : g'.mod = r.two
  state : g'.state = g.state
  nsym : g'.nsym = g.nsym
  syms : ∀ i < g.nsym, g'.syms i = r.move (g.syms i)
  nlen : g'.nlen = g.nlen
  names : ∀ i < g.nlen, g'.names i = g.names i
  imageBase : g'.imageBase = g.imageBase
  dwarf : Alike g.dwarf g'.dwarf
  dwarfReady : g'.dwarfReady = g.dwarfReady
  nlenFits : g.nlen ≤ bwPeNameMax
  known : ∀ i < g.nsym, r.Known (g.syms i) ∧ NameOk g (g.syms i).nameOff
  dwarfOk : TabOk g.dwarf

/-- The states hold globals that correspond. -/
def Retarget.Rel (r : Retarget) (s t : LoadState) : Prop := Corresponds r s.globals t.globals

section Loading

variable {bits : Nat} {r : Retarget} {α : Type}

/-! ### Reads -/

instance (access : Access) : Blind r.Rel (logAccess access) := ⟨fun related => ⟨rfl, related⟩⟩

/-- A change of the globals that keeps them in correspondence. -/
theorem blind_modifyGlobals {f : Globals → Globals}
    (keeps : ∀ {g g'}, Corresponds r g g' → Corresponds r (f g) (f g')) :
    Blind r.Rel (modifyGlobals f) :=
  ⟨fun related => ⟨rfl, keeps related⟩⟩

variable (v : View bits)

instance (h : PeHeaders) : Blind r.Rel (bwPeImageBase v h) := by
  have setBase : ∀ ib : Nat,
      Blind r.Rel (modifyGlobals fun g => { g with imageBase := sizeT bits ib }) := by
    intro ib
    exact blind_modifyGlobals fun {g g'} related => { related with imageBase := rfl }
  unfold bwPeImageBase
  infer_instance

/-- Reading leaves the globals alone. -/
def SameGlobals (s s' : LoadState) : Prop := s'.globals = s.globals

instance : Std.Refl SameGlobals := ⟨fun _ => rfl⟩

instance : IsTrans LoadState SameGlobals := ⟨fun _ _ _ one two => two.trans one⟩

instance (access : Access) : Develops SameGlobals (logAccess access) := ⟨fun _ => rfl⟩

theorem nameChars_length {n off : Nat} {name : List UInt8} {s s' : LoadState}
    (ended : nameChars v n off s = .ok name s') : name.length ≤ n := by
  induction n generalizing off name s with
  | zero =>
      cases ended
      exact Nat.zero_le _
  | succ n inductionHypothesis =>
      obtain ⟨c, s₁, -, ended⟩ := bind_eq_ok.mp ended
      split_ifs at ended
      · cases ended
        exact Nat.zero_le _
      · obtain ⟨rest, s₂, later, ended⟩ := bind_eq_ok.mp ended
        cases ended
        exact Nat.succ_le_succ (inductionHypothesis later)

/-! ### Names -/

/-- The globals with a name appended. -/
def Globals.withName (g : Globals) (name : List UInt8) : Globals :=
  { g with names := writeBytes g.names g.nlen (name ++ [0]), nlen := g.nlen + name.length + 1 }

theorem NameOk.withName {g : Globals} {off : Nat} (name : List UInt8) (ok : NameOk g off) :
    NameOk (g.withName name) off := by
  obtain ⟨index, after, below, zero⟩ := ok
  exact ⟨index, after, by simp only [Globals.withName]; omega,
    (writeBytes_below _ _ below).trans zero⟩

theorem nameOk_withName (g : Globals) (name : List UInt8) : NameOk (g.withName name) g.nlen :=
  ⟨g.nlen + name.length, Nat.le_add_right _ _, by simp only [Globals.withName]; omega,
    writeBytes_end _ _ _⟩

theorem Corresponds.withName {g g' : Globals} (related : Corresponds r g g') {name : List UInt8}
    (room : g.nlen + name.length + 1 ≤ bwPeNameMax) :
    Corresponds r (g.withName name) (g'.withName name) where
  modOne := related.modOne
  modTwo := related.modTwo
  state := related.state
  nsym := related.nsym
  syms := related.syms
  nlen := by rw [Globals.withName, Globals.withName, related.nlen]
  names := by
    intro i below
    simp only [Globals.withName] at below ⊢
    rw [related.nlen]
    simp only [writeBytes]
    split_ifs with fresh
    · rw [List.getElem?_eq_getElem (by simp; omega)]
      rfl
    · exact related.names i (by omega)
  imageBase := related.imageBase
  dwarf := related.dwarf
  dwarfReady := related.dwarfReady
  nlenFits := room
  known := fun i below => ⟨(related.known i below).1, (related.known i below).2.withName name⟩
  dwarfOk := related.dwarfOk

/-- The number of characters that `bw_pe_add_name` looks at. -/
def addNameLen (nlen srcLen : Nat) : Nat :=
  if bwPeNameMax - nlen ≤ srcLen then bwPeNameMax - nlen - 1 else srcLen

theorem addNameLen_fits {nlen srcLen : Nat} (room : ¬ (srcLen = 0 ∨ bwPeNameMax ≤ nlen)) :
    nlen + addNameLen nlen srcLen + 1 ≤ bwPeNameMax := by
  unfold addNameLen
  split_ifs <;> omega

/-- `bw_pe_add_name` behind its first look at the globals. -/
theorem bwPeAddName_run (off srcLen : Nat) (s : LoadState) :
    bwPeAddName v off srcLen s =
      (if srcLen = 0 ∨ bwPeNameMax ≤ s.globals.nlen then pure (-1)
      else
        if addNameLen s.globals.nlen srcLen = 0 then pure (-1)
        else do
          let name ← nameChars v (addNameLen s.globals.nlen srcLen) off
          if name = [] then pure (-1)
          else
            modifyGlobals fun g => g.withName name
            pure (s.globals.nlen : Int)) s :=
  rfl

/-- What is written goes behind what is in use. -/
instance (off srcLen : Nat) : Blind r.Rel (bwPeAddName v off srcLen) where
  agree {s t} related := by
    rw [bwPeAddName_run, bwPeAddName_run, related.nlen]
    refine Agree.ite (fun _ => ⟨rfl, related⟩) fun room => ?_
    refine Agree.ite (fun _ => ⟨rfl, related⟩) fun _ => ?_
    refine Agree.bind (Blind.agree related) fun name s₁ t₁ ended related₁ => ?_
    refine Agree.ite (fun _ => ⟨rfl, related₁⟩) fun _ => ?_
    have kept : SameGlobals s s₁ := Develops.ok ended
    have same : s₁.globals = s.globals := kept
    have fits := addNameLen_fits room
    have short := nameChars_length v ended
    refine ⟨rfl, related₁.withName ?_⟩
    rw [same]
    omega

/-- A name that was appended can be read back. -/
theorem bwPeAddName_named {off srcLen : Nat} {nameOff : Int} {s s' : LoadState}
    (ended : bwPeAddName v off srcLen s = .ok nameOff s') (added : 0 ≤ nameOff) :
    NameOk s'.globals nameOff.toNat := by
  rw [bwPeAddName_run] at ended
  split_ifs at ended
  · cases ended
    omega
  · cases ended
    omega
  · obtain ⟨name, s₁, read, ended⟩ := bind_eq_ok.mp ended
    have kept : SameGlobals s s₁ := Develops.ok read
    have same : s₁.globals = s.globals := kept
    split_ifs at ended
    · cases ended
      omega
    · cases ended
      rw [← same, Int.toNat_natCast]
      exact nameOk_withName _ _

/-! ### Symbols -/

theorem Corresponds.withSym {g g' : Globals} (related : Corresponds r g g') {sym sym' : Sym}
    (moved : sym' = r.move sym) (known : r.Known sym) (named : NameOk g sym.nameOff) :
    Corresponds r
      { g with syms := fun index => if index = g.nsym then sym else g.syms index
               nsym := g.nsym + 1 }
      { g' with syms := fun index => if index = g'.nsym then sym' else g'.syms index
                nsym := g'.nsym + 1 } where
  modOne := related.modOne
  modTwo := related.modTwo
  state := related.state
  nsym := by simp only [related.nsym]
  syms := by
    intro i below
    simp only [related.nsym] at below ⊢
    split_ifs with last
    · exact moved
    · exact related.syms i (by omega)
  nlen := related.nlen
  names := related.names
  imageBase := related.imageBase
  dwarf := related.dwarf
  dwarfReady := related.dwarfReady
  nlenFits := related.nlenFits
  known := by
    intro i below
    simp only at below ⊢
    split_ifs with last
    · exact ⟨known, named⟩
    · exact related.known i (by omega)
  dwarfOk := related.dwarfOk

/-- One symbol at both addresses. -/
theorem bwPeNamed_agree {addr addr' nameAt nameLen : Nat} {s t : LoadState} (related : r.Rel s t)
    (moves : ∀ nameOff, r.Known ⟨addr, nameOff⟩ ∧ ⟨addr', nameOff⟩ = r.move ⟨addr, nameOff⟩) :
    Agree r.Rel (bwPeNamed v addr nameAt nameLen s) (bwPeNamed v addr' nameAt nameLen t) := by
  unfold bwPeNamed
  refine Agree.bind (Blind.agree related) fun first s₁ t₁ _ related₁ => ?_
  refine Agree.ite (fun _ => ⟨rfl, related₁⟩) fun _ => ?_
  refine Agree.bind (Blind.agree related₁) fun nameOff s₂ t₂ ended related₂ => ?_
  refine Agree.ite (fun _ => ⟨rfl, related₂⟩) fun added => ?_
  obtain ⟨known, moved⟩ := moves nameOff.toNat
  exact ⟨rfl, Corresponds.withSym related₂ moved known (bwPeAddName_named v ended (by omega))⟩

/-! ### The symbol table -/

/-- The bytes at `base + off` hold this value. -/
def View.Holds (off n value : Nat) : Prop :=
  ∃ bytes, v.bytesAt off n = .ok bytes ∧ leNat bytes = value

theorem readBytes_ok {off n : Nat} {bytes : List UInt8} {s s' : LoadState}
    (ended : readBytes v off n s = .ok bytes s') : v.bytesAt off n = .ok bytes := by
  unfold readBytes at ended
  rw [bind_of_ok (show logAccess (.memory (v.ptr off) n) s = .ok () _ from rfl)] at ended
  cases found : v.bytesAt off n with
  | ok bytes' =>
      rw [found] at ended
      cases ended
      rfl
  | error last =>
      rw [found] at ended
      cases ended

theorem readUint_ok {off n value : Nat} {s s' : LoadState}
    (ended : readUint v off n s = .ok value s') : v.Holds off n value := by
  obtain ⟨bytes, s₁, read, ended⟩ := bind_eq_ok.mp ended
  cases ended
  exact ⟨bytes, readBytes_ok v read, rfl⟩

/-- Record `i` has these fields. -/
structure View.HoldsRecord (h : PeHeaders) (i : Nat) (record : SymRecord) : Prop where
  value : v.Holds (recordOff h i + 8) 4 record.value
  secNum : v.Holds (recordOff h i + 12) 2 record.secNum
  type : v.Holds (recordOff h i + 14) 2 record.type
  naux : v.Holds (recordOff h i + 17) 1 record.naux

/-- The records that are symbols: the others belong to the symbol before them. -/
inductive IsSymbol (h : PeHeaders) : Nat → Prop where
  | first : IsSymbol h 0
  | next {i : Nat} {record : SymRecord} : IsSymbol h i → i < h.nsym → v.HoldsRecord h i record →
      IsSymbol h (dword (dword (i + record.naux) + 1))

/-- A function of the file: its record, and the header of the section it lies
in. -/
structure FunctionAt (h : PeHeaders) (i : Nat) (record : SymRecord) (sh : SectionHeader) :
    Prop where
  isSymbol : IsSymbol v h i
  inTable : i < h.nsym
  holds : v.HoldsRecord h i record
  inSection : record.noSection h.nsec = false
  isFcn : record.isFcn = true
  header : v.bytesAt (h.secOff + (record.secNum - 1) * sectionHeaderSize) sectionHeaderSize =
    .ok sh.bytes

/-- The symbols of the file move from the one address to the other. -/
def Retarget.MovesSymbols (r : Retarget) (h : PeHeaders) : Prop :=
  ∀ (i : Nat) (record : SymRecord) (sh : SectionHeader), FunctionAt v h i record sh → ∀ nameOff,
    r.Known ⟨sizeT bits (r.one + sh.virtualAddress + record.value), nameOff⟩ ∧
      ⟨sizeT bits (r.two + sh.virtualAddress + record.value), nameOff⟩ =
        r.move ⟨sizeT bits (r.one + sh.virtualAddress + record.value), nameOff⟩

theorem readSymRecord_ok {h : PeHeaders} {i : Nat} {record : SymRecord} {s s' : LoadState}
    (ended : readSymRecord v h i s = .ok record s') : v.HoldsRecord h i record := by
  obtain ⟨value, s₁, readValue, ended⟩ := bind_eq_ok.mp ended
  obtain ⟨secNum, s₂, readSecNum, ended⟩ := bind_eq_ok.mp ended
  obtain ⟨type, s₃, readType, ended⟩ := bind_eq_ok.mp ended
  obtain ⟨naux, s₄, readNaux, ended⟩ := bind_eq_ok.mp ended
  cases ended
  exact ⟨readUint_ok v readValue, readUint_ok v readSecNum, readUint_ok v readType,
    readUint_ok v readNaux⟩

theorem readSectionHeader_ok {h : PeHeaders} {index : Nat} {sh : SectionHeader} {s s' : LoadState}
    (ended : readSectionHeader v h index s = .ok sh s') :
    v.bytesAt (h.secOff + index * sectionHeaderSize) sectionHeaderSize = .ok sh.bytes := by
  obtain ⟨bytes, s₁, read, ended⟩ := bind_eq_ok.mp ended
  cases ended
  exact readBytes_ok v read

theorem bwPeSymbol_agree {h : PeHeaders} {strTab : StrTab} {i : Nat} {record : SymRecord}
    {s t : LoadState} (related : r.Rel s t) (moves : r.MovesSymbols v h) (isSymbol : IsSymbol v h i)
    (inTable : i < h.nsym) (holds : v.HoldsRecord h i record) :
    Agree r.Rel (bwPeSymbol v h r.one strTab i record s)
      (bwPeSymbol v h r.two strTab i record t) := by
  unfold bwPeSymbol
  refine Agree.ite (fun _ => ⟨rfl, related⟩) fun inSection => ?_
  refine Agree.ite (fun _ => ⟨rfl, related⟩) fun isFcn => ?_
  refine Agree.bind (Blind.agree related) fun sh s₁ t₁ ended related₁ => ?_
  have moved := moves i record sh ⟨isSymbol, inTable, holds, by simpa using inSection,
    by simpa using isFcn, readSectionHeader_ok v ended⟩
  refine Agree.bind (Blind.agree related₁) fun inline s₂ t₂ _ related₂ => ?_
  refine Agree.ite (fun _ => ?_) fun _ => bwPeNamed_agree v related₂ moved
  refine Agree.bind (Blind.agree related₂) fun longOff s₃ t₃ _ related₃ => ?_
  exact Agree.ite (fun _ => ⟨rfl, related₃⟩) fun _ => bwPeNamed_agree v related₃ moved

theorem bwPeSymbols_agree {h : PeHeaders} {strTab : StrTab} {fuel i : Nat} {s t : LoadState}
    (related : r.Rel s t) (moves : r.MovesSymbols v h) (isSymbol : IsSymbol v h i) :
    Agree r.Rel (bwPeSymbols v h r.one strTab fuel i s)
      (bwPeSymbols v h r.two strTab fuel i t) := by
  induction fuel generalizing i s t with
  | zero => exact ⟨rfl, related⟩
  | succ fuel inductionHypothesis =>
      rw [bwPeSymbols, bwPeSymbols, bind_of_ok (show getGlobals s = .ok s.globals s from rfl),
        bind_of_ok (show getGlobals t = .ok t.globals t from rfl), related.nsym]
      refine Agree.ite (fun more => ?_) fun _ => ⟨rfl, related⟩
      refine Agree.bind (Blind.agree related) fun record s₁ t₁ ended related₁ => ?_
      have holds := readSymRecord_ok v ended
      refine Agree.ite (fun _ => ⟨rfl, related₁⟩) fun _ => ?_
      refine Agree.bind (bwPeSymbol_agree v related₁ moves isSymbol more.1 holds)
        fun goesOn s₂ t₂ _ related₂ => ?_
      exact Agree.ite (fun _ => inductionHypothesis related₂ (isSymbol.next more.1 holds))
        fun _ => ⟨rfl, related₂⟩

theorem bwPeSymbolTable_agree {h : PeHeaders} {strTab : StrTab} {s t : LoadState}
    (related : r.Rel s t) (moves : r.MovesSymbols v h) :
    Agree r.Rel (bwPeSymbolTable v h r.one strTab s) (bwPeSymbolTable v h r.two strTab t) :=
  Agree.ite (fun _ => bwPeSymbols_agree v related moves .first) fun _ => ⟨rfl, related⟩

/-- The sort arranges moved symbols as it arranges the symbols. -/
def Retarget.Sorts (r : Retarget) (symSort : SymQsort) : Prop :=
  ∀ syms, (∀ sym ∈ syms, r.Known sym) → symSort.sort (syms.map r.move) =
    (symSort.sort syms).map r.move

theorem mem_symbols {g : Globals} {sym : Sym} :
    sym ∈ g.symbols ↔ ∃ i < g.nsym, g.syms i = sym := by
  simp [Globals.symbols]

theorem Corresponds.symbols {g g' : Globals} (related : Corresponds r g g') :
    g'.symbols = g.symbols.map r.move := by
  rw [Globals.symbols, Globals.symbols, List.map_map, related.nsym]
  apply List.map_congr_left
  intro i member
  exact related.syms i (List.mem_range.mp member)

theorem bwPeSort_agree {symSort : SymQsort} {s t : LoadState} (related : r.Rel s t)
    (sorts : r.Sorts symSort) : Agree r.Rel (bwPeSort symSort s) (bwPeSort symSort t) := by
  have sorted : symSort.sort t.globals.symbols = (symSort.sort s.globals.symbols).map r.move := by
    rw [related.symbols]
    apply sorts
    intro sym member
    obtain ⟨i, below, rfl⟩ := mem_symbols.mp member
    exact (related.known i below).1
  have length : (symSort.sort s.globals.symbols).length = s.globals.nsym := by
    rw [(symSort.perm _).length_eq, Globals.symbols, List.length_map, List.length_range]
  rw [bwPeSort, bind_of_ok (show getGlobals s = .ok s.globals s from rfl),
    bind_of_ok (show getGlobals t = .ok t.globals t from rfl), related.nsym, sorted]
  refine Agree.ite (fun _ => ?_) fun _ => ⟨rfl, related⟩
  refine ⟨rfl, { related with state := rfl, syms := ?_, known := ?_ }⟩
  · intro i below
    have inside : i < (symSort.sort s.globals.symbols).length := length ▸ below
    simp [List.getElem?_eq_getElem inside]
  · intro i below
    have inside : i < (symSort.sort s.globals.symbols).length := length ▸ below
    obtain ⟨j, belowJ, there⟩ := mem_symbols.mp
      ((symSort.perm _).mem_iff.mp (List.getElem_mem inside))
    simp only [List.getElem?_eq_getElem inside, Option.getD_some, ← there]
    exact related.known j belowJ

/-! ### The line table -/

/-- Whether it returns or crashes, a parse leaves a table that is in order. -/
theorem bwDwarfTabParse_tabOk {img : Image} {qsort : Qsort} {tab tab' : Tab} (ok : TabOk tab)
    (left : (∃ value, bwDwarfTabParse img qsort tab = .returned value tab') ∨
      ∃ why, bwDwarfTabParse img qsort tab = .crashed why tab') : TabOk tab' := by
  rcases left with ⟨value, returned⟩ | ⟨why, crashed⟩
  · have after : Call.after tab (.parse img qsort) = some tab' := by rw [Call.after, returned]
    exact Call.after_ok ok after
  · rcases bwDwarfTabParse_cases img qsort tab with
      ⟨-, result⟩ | ⟨present, result | result | ⟨reason, -, result⟩⟩
    · cases result.symm.trans crashed
    · cases result.symm.trans crashed
    · cases result.symm.trans crashed
    · cases result.symm.trans crashed
      exact (unitsEnd_ok ok present).1.tab

theorem bwPeParse_agree {qsort : Qsort} {found : LineSections} {s t : LoadState}
    (related : r.Rel s t) :
    Agree r.Rel (bwPeParse v qsort found s) (bwPeParse v qsort found t) := by
  unfold bwPeParse
  refine Agree.ite (fun _ => ⟨rfl, related⟩) fun _ => ?_
  split_ifs with placed
  · rw [bind_of_ok (show getGlobals s = .ok s.globals s from rfl),
      bind_of_ok (show getGlobals t = .ok t.globals t from rfl)]
    have alike := bwDwarfTabParse_alike
      (v.image found.line found.lineStr found.debugStr placed) qsort related.dwarfOk related.dwarf
    cases one : bwDwarfTabParse (v.image found.line found.lineStr found.debugStr placed) qsort
        s.globals.dwarf with
    | returned value tab =>
        cases two : bwDwarfTabParse (v.image found.line found.lineStr found.debugStr placed) qsort
            t.globals.dwarf with
        | returned value' tab' =>
            rw [one, two] at alike
            obtain ⟨rfl, sameTab⟩ := alike
            exact ⟨rfl, { related with
              dwarf := sameTab
              dwarfReady := rfl
              dwarfOk := bwDwarfTabParse_tabOk related.dwarfOk (Or.inl ⟨_, one⟩) }⟩
        | crashed why' tab' =>
            rw [one, two] at alike
            exact alike.elim
    | crashed why tab =>
        cases two : bwDwarfTabParse (v.image found.line found.lineStr found.debugStr placed) qsort
            t.globals.dwarf with
        | returned value' tab' =>
            rw [one, two] at alike
            exact alike.elim
        | crashed why' tab' =>
            rw [one, two] at alike
            obtain ⟨rfl, sameTab⟩ := alike
            exact ⟨rfl, { related with
              dwarf := sameTab
              dwarfOk := bwDwarfTabParse_tabOk related.dwarfOk (Or.inr ⟨_, one⟩) }⟩
  · exact ⟨rfl, related⟩

/-! ### A load -/

theorem alike_reset (tab tab' : Tab) : Alike (bwDwarfTabReset tab) (bwDwarfTabReset tab') :=
  ⟨rfl, rfl, fun _ below => nomatch below⟩

instance : Blind r.Rel bwPeResetLines :=
  blind_modifyGlobals fun {g g'} related => { related with
    imageBase := rfl
    dwarfReady := rfl
    dwarf := alike_reset g.dwarf g'.dwarf
    dwarfOk := tabOk_reset }

/-- Whatever was there before, a reset leaves globals that correspond. -/
theorem bwPeReset_agree (r : Retarget) (s t : LoadState) :
    Agree r.Rel (bwPeReset r.one s) (bwPeReset r.two t) :=
  ⟨rfl, {
    modOne := rfl
    modTwo := rfl
    state := rfl
    nsym := rfl
    syms := fun _ below => nomatch below
    nlen := rfl
    names := fun _ below => nomatch below
    imageBase := rfl
    dwarf := alike_reset _ _
    dwarfReady := rfl
    nlenFits := Nat.zero_le _
    known := fun _ below => nomatch below
    dwarfOk := tabOk_reset }⟩

/-- The headers that the loader reads in the view. -/
def View.HasHeaders (h : PeHeaders) : Prop := ∃ s s', bwPeHeaders v s = .ok h s'

theorem bwPeFile_agree {env : Env bits} {s t : LoadState} (related : r.Rel s t)
    (moves : ∀ h, v.HasHeaders h → r.MovesSymbols v h) (sorts : r.Sorts env.symSort) :
    Agree r.Rel (bwPeFile env v r.one s) (bwPeFile env v r.two t) := by
  unfold bwPeFile
  refine Agree.bind (Blind.agree related) fun h s₁ t₁ ended related₁ => ?_
  have movesHere := moves h ⟨s, s₁, ended⟩
  refine Agree.bind (Blind.agree related₁) fun _ s₂ t₂ _ related₂ => ?_
  refine Agree.bind (Blind.agree related₂) fun _ s₃ t₃ _ related₃ => ?_
  refine Agree.bind (Blind.agree related₃) fun strTab s₄ t₄ _ related₄ => ?_
  refine Agree.bind (bwPeSymbolTable_agree v related₄ movesHere) fun _ s₅ t₅ _ related₅ => ?_
  refine Agree.bind (bwPeSort_agree related₅ sorts) fun _ s₆ t₆ _ related₆ => ?_
  refine Agree.bind (Blind.agree related₆) fun found s₇ t₇ _ related₇ => ?_
  exact bwPeParse_agree v related₇

theorem orLeave_agree {R : LoadState → LoadState → Prop} {m n : Loader Unit} {s t : LoadState}
    (agree : Agree R (m s) (n t)) : Agree R (orLeave m s) (orLeave n t) := by
  unfold orLeave
  cases ended : m s with
  | ok a s' =>
      obtain ⟨t', ended₂, related⟩ := agree.ok ended
      rw [ended₂]
      exact ⟨rfl, related⟩
  | error why s' =>
      obtain ⟨t', ended₂, related⟩ := agree.error ended
      rw [ended₂]
      cases why <;> exact ⟨rfl, related⟩

/-- What two handles have to share for their loads to correspond. -/
structure Retarget.Suits (r : Retarget) (env : Env bits) : Prop where
  zero : r.two = 0 ↔ r.one = 0
  path : noPath (env.path r.two) = noPath (env.path r.one)
  file : env.mapFile r.two = env.mapFile r.one
  moves : ∀ v, env.mapFile r.one = some v → ∀ h, v.HasHeaders h → r.MovesSymbols v h
  sorts : r.Sorts env.symSort

/-- Loads of one file correspond, whatever was loaded before. -/
theorem bwPeLoad_agree {env : Env bits} (suits : r.Suits env) (s t : LoadState) :
    Agree r.Rel (bwPeLoad env r.one s) (bwPeLoad env r.two t) := by
  unfold bwPeLoad
  refine Agree.bind (bwPeReset_agree r s t) fun _ s₁ t₁ _ related₁ => ?_
  simp only [suits.zero, suits.path, suits.file]
  refine Agree.ite (fun _ => ⟨rfl, related₁⟩) fun _ => ?_
  cases mapped : env.mapFile r.one with
  | none => exact ⟨rfl, related₁⟩
  | some v => exact orLeave_agree (bwPeFile_agree v related₁ (suits.moves v mapped) suits.sorts)

end Loading

/-! ### Queries -/

section Queries

variable {bits : Nat} {r : Retarget}

theorem findLoop_eq_searchLe (syms : Nat → Sym) (ip fuel lo hi : Nat) (best : Option Nat) :
    findLoop syms ip fuel lo hi best =
      searchLe (fun i => (syms i).addr) ip fuel lo hi best := by
  induction fuel generalizing lo hi best with
  | zero => rfl
  | succ fuel inductionHypothesis =>
      rw [findLoop, searchLe]
      simp only [inductionHypothesis]

/-- A name that is in use is the same string on both sides. -/
theorem Corresponds.name {g g' : Globals} (related : Corresponds r g g') {off : Nat}
    (ok : NameOk g off) : g'.name off = g.name off := by
  obtain ⟨index, after, below, zero⟩ := ok
  have last : g.names (off + (index - off)) = 0 := by
    rwa [show off + (index - off) = index by omega]
  have fits := related.nlenFits
  have same :
      cstrFrom g'.names (bwPeNameMax - off) off = cstrFrom g.names (bwPeNameMax - off) off :=
    cstrFrom_moved (index - off) (fun k within => related.names (off + k) (by omega)) last
      (by omega) (by omega)
  rw [Globals.name, Globals.name, same]

/-- A query of the loaded module for a name. -/
def Globals.find (g : Globals) (ip : Nat) : Option (List UInt8) :=
  if g.state ≠ .loaded then none
  else (findLoop g.syms ip g.nsym 0 g.nsym none).map fun best => g.name (g.syms best).nameOff

theorem findLoop_lt {syms : Nat → Sym} {ip n i : Nat}
    (found : findLoop syms ip n 0 n none = some i) :
    i < n := by
  rw [findLoop_eq_searchLe] at found
  refine searchLe_lt (le_refl n) ?_ i found
  intro best isBest
  cases isBest

/-- The same symbol is found on both sides, if the addresses that are asked for
lie alike. -/
theorem Corresponds.find {g g' : Globals} (related : Corresponds r g g') {ip ip' : Nat}
    (alike : ∀ sym, r.Known sym → (sym.addr ≤ ip ↔ (r.move sym).addr ≤ ip')) :
    g'.find ip' = g.find ip := by
  have loops : findLoop g'.syms ip' g'.nsym 0 g'.nsym none =
      findLoop g.syms ip g.nsym 0 g.nsym none := by
    rw [findLoop_eq_searchLe, findLoop_eq_searchLe, related.nsym]
    refine (searchLe_congr (le_refl _) fun i below => ?_).symm
    rw [related.syms i below]
    exact alike _ (related.known i below).1
  rw [Globals.find, Globals.find, related.state, loops]
  split_ifs
  · rfl
  · cases found : findLoop g.syms ip g.nsym 0 g.nsym none with
    | none => rfl
    | some best =>
        have below := findLoop_lt found
        rw [Option.map_some, Option.map_some, related.syms best below, r.keepsName,
          related.name (related.known best below).2]

/-- The address that the line table is asked for. -/
def Globals.linked (bits : Nat) (g : Globals) (module probe : Nat) : Nat :=
  if g.imageBase ≠ 0 then sizeT bits (g.imageBase + (probe + 2 ^ bits - module)) else probe

/-- A query of the loaded module for a line. -/
def Globals.line (bits : Nat) (g : Globals) (module probe srcLen : Nat) :
    Option (List UInt8 × Nat) :=
  if !g.dwarfReady then none
  else (bwDwarfTabLookup g.dwarf (g.linked bits module probe)).map fun found =>
    (bwCopyCstr srcLen found.1, found.2)

/-- The same line is found on both sides, if it is asked for at the same linked
address. -/
theorem Corresponds.line {g g' : Globals} (related : Corresponds r g g')
    {module probe module' probe' srcLen : Nat}
    (alike : g.linked bits module' probe' = g.linked bits module probe) :
    g'.line bits module' probe' srcLen = g.line bits module probe srcLen := by
  have linked : g'.linked bits module' probe' = g.linked bits module probe := by
    rw [← alike, Globals.linked, Globals.linked, related.imageBase]
  rw [Globals.line, Globals.line, related.dwarfReady, linked,
    bwDwarfTabLookup_alike related.dwarfOk related.dwarf]

/-- The module that a query is about. -/
def Query.module : Query → Nat
  | .find module _ => module
  | .line module _ _ => module

/-- What a query of the loaded module answers. -/
def Globals.answer (bits : Nat) (g : Globals) : Query → Answer
  | .find _ ip => .name (g.find ip)
  | .line module probe srcLen => .source (g.line bits module probe srcLen)

/-- What a query of `NULL` answers. -/
def Query.nothing : Query → Answer
  | .find _ _ => .name none
  | .line _ _ _ => .source none

variable (env : Env bits)

/-- A query loads the module it is about and looks into what is loaded. -/
theorem answer_eq (q : Query) :
    answer env q =
      if q.module = 0 then pure q.nothing
      else (do
        bwPeEnsure env q.module
        let g ← getGlobals
        pure (g.answer bits q)) := by
  cases q with
  | find module ip =>
      by_cases isNull : module = 0
      · simp [answer, bwPeFind, Query.module, Query.nothing, isNull]
      · rw [answer, bwPeFind, if_neg isNull, Query.module, if_neg isNull, bind_assoc]
        refine bind_congr fun _ => ?_
        rw [bind_assoc]
        refine bind_congr fun g => ?_
        rw [Globals.answer, Globals.find]
        split_ifs <;> rfl
  | line module probe srcLen =>
      by_cases isNull : module = 0
      · simp [answer, bwPeLine, Query.module, Query.nothing, isNull]
      · rw [answer, bwPeLine, if_neg isNull, Query.module, if_neg isNull, bind_assoc]
        refine bind_congr fun _ => ?_
        rw [bind_assoc]
        refine bind_congr fun g => ?_
        rw [Globals.answer, Globals.line]
        cases g.dwarfReady <;> rfl

variable {env} {s t : LoadState} {q q' : Query}

/-- Queries agree if the modules are there alike and give the same answer. -/
theorem answer_agree (isModule : q.module ≠ 0) (isModule' : q'.module ≠ 0)
    (there : Agree r.Rel (bwPeEnsure env q.module s) (bwPeEnsure env q'.module t))
    (same : ∀ s' t', bwPeEnsure env q.module s = .ok () s' → r.Rel s' t' →
      t'.globals.answer bits q' = s'.globals.answer bits q) :
    Agree r.Rel (answer env q s) (answer env q' t) := by
  rw [answer_eq, answer_eq, if_neg isModule, if_neg isModule']
  apply Agree.bind there
  intro _ s' t' ended related
  exact ⟨(same s' t' ended related).symm, related⟩

theorem verdict_eq {α : Type} {R : LoadState → LoadState → Prop}
    {result result' : EStateM.Result Halt LoadState α} (agree : Agree R result result') :
    verdict result = verdict result' := by
  cases ended : result with
  | ok a s =>
      obtain ⟨t, ended', -⟩ := agree.ok ended
      rw [ended']
      rfl
  | error why s =>
      obtain ⟨t, ended', -⟩ := agree.error ended
      rw [ended']
      rfl

end Queries

end Backwalk.Windows
