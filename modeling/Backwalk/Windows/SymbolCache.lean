import Backwalk.Windows.PeFile

/-!
Contract: `bw_pe_load`, and the queries `bw_pe_find` and `bw_pe_line` over what
it has loaded last.

What lies outside the source is a parameter: for each module handle the path the
caller passes with it and the view that the file functions of Windows give of
the file there, `none` where one of them fails or the file is empty; and the two
arrangements that `qsort` produces.
-/

namespace Backwalk.Windows

open Backwalk.DwarfLine

/-! ### COFF symbols -/

section Symbols

variable {bits : Nat} (v : View bits)

/-- The characters from `base + off` on up to a NUL, at most `n`. -/
def nameChars : Nat → Nat → Loader (List UInt8)
  | 0, _ => pure []
  | n + 1, off => do
      let c ← readChar v off
      if c = 0 then pure []
      else
        let rest ← nameChars n (off + 1)
        pure (c :: rest)

/-- `bw_pe_add_name` of the `srcLen` bytes at `base + off`. -/
def bwPeAddName (off srcLen : Nat) : Loader Int := do
  let g ← getGlobals
  if srcLen = 0 ∨ bwPeNameMax ≤ g.nlen then pure (-1)
  else
    let srcLen := if bwPeNameMax - g.nlen ≤ srcLen then bwPeNameMax - g.nlen - 1 else srcLen
    if srcLen = 0 then pure (-1)
    else
      let name ← nameChars v srcLen off
      if name = [] then pure (-1)
      else
        modifyGlobals fun g => { g with
          names := writeBytes g.names g.nlen (name ++ [0])
          nlen := g.nlen + name.length + 1 }
        pure g.nlen

/-- Append to `bw_pe_syms`. -/
def bwPeAddSym (sym : Sym) : Loader Unit :=
  modifyGlobals fun g => { g with
    syms := fun index => if index = g.nsym then sym else g.syms index
    nsym := g.nsym + 1 }

/-- Take over a symbol if it has a name that is wanted; `false` is a `break`. -/
def bwPeNamed (addr nameAt nameLen : Nat) : Loader Bool := do
  let first ← readChar v nameAt
  if first = 0x2e ∨ first = 0 then pure true
  else
    let nameOff ← bwPeAddName v nameAt nameLen
    if nameOff < 0 then pure false
    else
      bwPeAddSym ⟨addr, nameOff.toNat⟩
      pure true

/-- The fields of a symbol record. -/
structure SymRecord where
  value : Nat
  secNum : Nat
  type : Nat
  naux : Nat
deriving DecidableEq, Repr

/-- `base + sym_off + i * BW_COFF_SYM_SIZE`, from `base`. -/
def recordOff (h : PeHeaders) (i : Nat) : Nat := h.symOff + dword (i * bwCoffSymSize)

def readSymRecord (h : PeHeaders) (i : Nat) : Loader SymRecord := do
  let value ← readUint v (recordOff h i + 8) 4
  let secNum ← readUint v (recordOff h i + 12) 2
  let type ← readUint v (recordOff h i + 14) 2
  let naux ← readUint v (recordOff h i + 17) 1
  pure ⟨value, secNum, type, naux⟩

/-- `sec_num <= 0 || sec_num > (SHORT)nsec`, of a `SHORT`. -/
def SymRecord.noSection (record : SymRecord) (nsec : Nat) : Bool :=
  record.secNum = 0 || 2 ^ 15 ≤ record.secNum || nsec < record.secNum

/-- `ISFCN`. -/
def SymRecord.isFcn (record : SymRecord) : Bool := record.type &&& 0x30 = 0x20

/-- What the loop body does with record `i` once its fields are read; `false` is
a `break`. -/
def bwPeSymbol (h : PeHeaders) (module : Nat) (strTab : StrTab) (i : Nat) (record : SymRecord) :
    Loader Bool :=
  if record.noSection h.nsec then pure true
  else if !record.isFcn then pure true
  else do
    let sh ← readSectionHeader v h (record.secNum - 1)
    let addr := sizeT bits (module + sh.virtualAddress + record.value)
    let inline ← readUint v (recordOff h i) 4
    if inline = 0 then
      let longOff ← readUint v (recordOff h i + 4) 4
      if strTab.size = 0 ∨ strTab.size ≤ longOff then pure true
      else bwPeNamed v addr (strTab.off + longOff) (strTab.size - longOff)
    else bwPeNamed v addr (recordOff h i) 8

/-- The loop over the symbol table. -/
def bwPeSymbols (h : PeHeaders) (module : Nat) (strTab : StrTab) : Nat → Nat → Loader Unit
  | 0, _ => halt (.crash (.fault .fuel))
  | fuel + 1, i => do
      let g ← getGlobals
      if i < h.nsym ∧ g.nsym < bwPeSymMax then
        let record ← readSymRecord v h i
        if record.naux ≠ 0 ∧ h.nsym ≤ dword (i + record.naux) then pure ()
        else
          let more ← bwPeSymbol v h module strTab i record
          if more then bwPeSymbols h module strTab fuel (dword (dword (i + record.naux) + 1))
          else pure ()
      else pure ()

/-- The symbol table, if it lies in the file. -/
def bwPeSymbolTable (h : PeHeaders) (module : Nat) (strTab : StrTab) : Loader Unit :=
  if h.symOff ≠ 0 ∧ h.nsym ≠ 0 ∧ sizeT bits (h.symOff + h.nsym * bwCoffSymSize) ≤ v.size then
    bwPeSymbols v h module strTab (h.nsym + 1) 0
  else pure ()

/-- `bw_pe_syms[0, bw_pe_nsym)`. -/
def Globals.symbols (g : Globals) : List Sym := (List.range g.nsym).map g.syms

/-- Sort the symbols, if there are any. -/
def bwPeSort (symSort : SymQsort) : Loader Unit := do
  let g ← getGlobals
  if 0 < g.nsym then
    let sorted := symSort.sort g.symbols
    modifyGlobals fun g => { g with
      syms := fun index => (sorted[index]?).getD (g.syms index)
      state := .loaded }
  else pure ()

end Symbols

/-! ### Line sections -/

/-- `".debug_line"`. -/
def debugLineName : List UInt8 :=
  [0x2e, 0x64, 0x65, 0x62, 0x75, 0x67, 0x5f, 0x6c, 0x69, 0x6e, 0x65]

/-- `".debug_line_str"`. -/
def debugLineStrName : List UInt8 := debugLineName ++ [0x5f, 0x73, 0x74, 0x72]

/-- `".debug_str"`. -/
def debugStrName : List UInt8 := [0x2e, 0x64, 0x65, 0x62, 0x75, 0x67, 0x5f, 0x73, 0x74, 0x72]

/-- The sections that the line table is read from; pointer `0` for those that
were not found. -/
structure LineSections where
  line : Section
  lineStr : Section
  debugStr : Section
deriving DecidableEq, Repr

section Lines

variable {bits : Nat} (v : View bits)

/-- The loop over the section headers, from index `s` on. -/
def bwPeSections (h : PeHeaders) (strTab : StrTab) :
    Nat → Nat → LineSections → Loader LineSections
  | 0, _, found => pure found
  | n + 1, s, found => do
      let sh ← readSectionHeader v h s
      let name ← bwSectionName v sh strTab 64
      let data := bwSectionData v sh
      if data.ptr = 0 then bwPeSections h strTab n (s + 1) found
      else if name = debugLineName then
        bwPeSections h strTab n (s + 1) { found with line := data }
      else if name = debugLineStrName then
        bwPeSections h strTab n (s + 1) { found with lineStr := data }
      else if name = debugStrName then
        bwPeSections h strTab n (s + 1) { found with debugStr := data }
      else bwPeSections h strTab n (s + 1) found

/-- The call of `bw_dwarf_tab_parse`. On 32 bits the sum of place and size of a
section may wrap around, and then its end is no address of the file: what the
parser does with such a pointer is undefined. -/
def bwPeParse (qsort : Qsort) (found : LineSections) : Loader Unit :=
  if found.line.ptr = 0 then pure ()
  else if placed : found.line.Placed bits v.mem ∧ found.lineStr.Placed bits v.mem ∧
      found.debugStr.Placed bits v.mem then do
    let g ← getGlobals
    match
      bwDwarfTabParse (v.image found.line found.lineStr found.debugStr placed) qsort g.dwarf with
    | .returned value tab => modifyGlobals fun g => { g with dwarf := tab, dwarfReady := value }
    | .crashed why tab => do
        modifyGlobals fun g => { g with dwarf := tab }
        halt (.crash why)
  else halt (.crash (.fault (.segv found.line.ptr)))

end Lines

/-! ### Loading -/

/-- What the source calls without containing it. The file of a module is one view: each
load maps it at the same address, with the same memory around it. -/
structure Env (bits : Nat) where
  path : Nat → Option (List UInt8)
  mapFile : Nat → Option (View bits)
  symSort : SymQsort
  qsort : Qsort

section Queries

variable {bits : Nat} (env : Env bits)

/-- The assignments at the top of `bw_pe_load`. -/
def bwPeReset (module : Nat) : Loader Unit :=
  modifyGlobals fun g => { g with
    mod := module
    state := .none
    nsym := 0
    nlen := 0
    imageBase := 0
    dwarfReady := false
    dwarf := bwDwarfTabReset g.dwarf }

/-- The assignments behind the header checks. -/
def bwPeResetLines : Loader Unit :=
  modifyGlobals fun g => { g with
    imageBase := 0
    dwarfReady := false
    dwarf := bwDwarfTabReset g.dwarf }

/-- The work on a file that is mapped, up to the `while (0)`. -/
def bwPeFile (v : View bits) (module : Nat) : Loader Unit := do
  let h ← bwPeHeaders v
  bwPeResetLines
  bwPeImageBase v h
  let strTab ← bwPeStrTab v h
  bwPeSymbolTable v h module strTab
  bwPeSort env.symSort
  let found ← bwPeSections v h strTab h.nsec 0 ⟨⟨0, 0⟩, ⟨0, 0⟩, ⟨0, 0⟩⟩
  bwPeParse v env.qsort found

/-- A `break` leaves the block with what it has done. -/
def orLeave (m : Loader Unit) : Loader Unit := fun s =>
  match m s with
  | .error .leave s => .ok () s
  | result => result

/-- `path == NULL || path[0] == '\0' || path[0] == '?'`. -/
def noPath : Option (List UInt8) → Bool
  | none => true
  | some [] => true
  | some (c :: _) => c = 0x3f

/-- `bw_pe_load`. -/
def bwPeLoad (module : Nat) : Loader Unit := do
  bwPeReset module
  if module = 0 ∨ noPath (env.path module) = true then pure ()
  else
    match env.mapFile module with
    | none => pure ()
    | some v => orLeave (bwPeFile env v module)

/-! ### Queries -/

/-- Load the module unless it was loaded last. -/
def bwPeEnsure (module : Nat) : Loader Unit := do
  let g ← getGlobals
  if g.mod ≠ module then bwPeLoad env module else pure ()

/-- The loop of `bw_pe_find`; `best` is `none` for `(size_t)-1`. -/
def findLoop (syms : Nat → Sym) (ip : Nat) : Nat → Nat → Nat → Option Nat → Option Nat
  | 0, _, _, best => best
  | fuel + 1, lo, hi, best =>
      if lo < hi then
        let mid := lo + (hi - lo) / 2
        if (syms mid).addr ≤ ip then findLoop syms ip fuel (mid + 1) hi (some mid)
        else findLoop syms ip fuel lo mid best
      else best

/-- The C string at `bw_pe_names + off`. -/
def Globals.name (g : Globals) (off : Nat) : List UInt8 :=
  (cstrFrom g.names (bwPeNameMax - off) off).getD []

/-- `bw_pe_find`: the name, or `none` for `NULL`. -/
def bwPeFind (module ip : Nat) : Loader (Option (List UInt8)) :=
  if module = 0 then pure none
  else do
    bwPeEnsure env module
    let g ← getGlobals
    if g.state ≠ .loaded then pure none
    else pure ((findLoop g.syms ip g.nsym 0 g.nsym none).map fun best =>
      g.name (g.syms best).nameOff)

/-- `bw_copy_cstr` of a string: what it leaves in `dst` before the terminator. -/
def bwCopyCstr (dstLen : Nat) (src : List UInt8) : List UInt8 := src.take (dstLen - 1)

/-- `bw_pe_line`: what it leaves in `src` and `line`, or `none` if it does not
touch them. -/
def bwPeLine (module probe srcLen : Nat) : Loader (Option (List UInt8 × Nat)) :=
  if module = 0 then pure none
  else do
    bwPeEnsure env module
    let g ← getGlobals
    if !g.dwarfReady then pure none
    else
      let linked := if g.imageBase ≠ 0 then
          sizeT bits (g.imageBase + (probe + 2 ^ bits - module))
        else probe
      pure ((bwDwarfTabLookup g.dwarf linked).map fun found =>
        (bwCopyCstr srcLen found.1, found.2))

/-- A call of `bw_pe_find` or `bw_pe_line`. -/
inductive Query where
  | find (module ip : Nat)
  | line (module probe srcLen : Nat)
deriving DecidableEq, Repr

/-- What a query answers. -/
inductive Answer where
  | name (name : Option (List UInt8))
  | source (found : Option (List UInt8 × Nat))
deriving DecidableEq, Repr

def answer : Query → Loader Answer
  | .find module ip => do
      let name ← bwPeFind env module ip
      pure (.name name)
  | .line module probe srcLen => do
      let found ← bwPeLine env module probe srcLen
      pure (.source found)

/-- The answers to one query after the other. -/
def answers : List Query → Loader (List Answer)
  | [] => pure []
  | q :: qs => do
      let first ← answer env q
      let rest ← answers qs
      pure (first :: rest)

end Queries

/-- A process that has not asked yet. -/
def freshProcess : LoadState := ⟨Globals.zeroed, []⟩

/-- What a run came to: its answer or why it crashed. -/
def verdict {α : Type} : EStateM.Result Halt LoadState α → Except Halt α
  | .ok a _ => .ok a
  | .error why _ => .error why

end Backwalk.Windows
