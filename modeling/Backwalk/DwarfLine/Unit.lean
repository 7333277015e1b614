import Backwalk.DwarfLine.Cursor

/-!
Contract: `bw_parse_unit` and `bw_dwarf_tab_parse` of `src/dwarf_line.c`.

The unit parser is cut at the places where the source moves from one part of a
unit to the next: the length field, the prologue up to
`standard_opcode_lengths`, the version 5 tables, the version 2-4 tables, and
the line program. Every `return 0` is a `stop`; the two early `return 1` leave
the cursor at the unit end, as the normal one does.

`is_stmt` is left out: the source assigns it and never reads it.
-/

namespace Backwalk.DwarfLine

variable (img : Image)

/-! ### Header -/

/-- The unit end, from the value of `unit_length`. -/
def bwUnitEnd (unitLen offsetSize : Nat) : Parser (Nat × Nat) := do
  let c ← getCur
  if unitLen < 2 then stop .malformed
  else if bwCurOk img c (img.size unitLen) then
    pure (img.ptrAdd c.p (img.size unitLen), offsetSize)
  else stop .short

/-- `unit_length`: the unit end and the offset size. -/
def bwUnitLength : Parser (Nat × Nat) := do
  let unit32 ← bwU32 img
  if unit32 = 0xffffffff then
    let unitLen ← bwU64 img
    setDwarf64 true
    bwUnitEnd img unitLen 8
  else
    setDwarf64 false
    bwUnitEnd img unit32 4

/-- The header fields that the tables and the program are read with. -/
structure Prologue where
  unitEnd : Nat
  prog : Nat
  offsetSize : Nat
  version : Nat
  addrSize : Nat
  minInst : Nat
  maxOps : Nat
  lineBase : Int
  lineRange : Nat
  opcodeBase : Nat
  stdLen : CArray Nat

/-- `(signed char)b`. -/
def toI8 (b : Nat) : Int := if b < 128 then b else (b : Int) - 256

/-- `std_len` as `memset` leaves it. -/
def stdLenInit : CArray Nat := ⟨.stdLen, 256, fun _ => 0⟩

/-- The loop over `standard_opcode_lengths`, from opcode `op` on. -/
def bwStdLens : Nat → Nat → CArray Nat → Parser (CArray Nat)
  | 0, _, stdLen => pure stdLen
  | n + 1, op, stdLen => do
      let len ← bwU8 img
      let stdLen ← stdLen.write op len
      bwStdLens n (op + 1) stdLen

/-- `addr_size` and `seg_size`, which only version 5 has. -/
def bwAddrSeg (version : Nat) : Parser (Nat × Nat) :=
  if version = 5 then do
    let addrSize ← bwU8 img
    let segSize ← bwU8 img
    pure (addrSize, segSize)
  else pure (8, 0)

/-- `header_length`. -/
def bwHeaderLength : Parser Nat := do
  let c ← getCur
  if c.dwarf64 then bwU64 img else bwU32 img

/-- `max_ops`, which version 4 introduced. -/
def bwMaxOps (version : Nat) : Parser Nat :=
  if 4 ≤ version then bwU8 img else pure 1

/-- The header from `default_is_stmt` to `standard_opcode_lengths`. -/
def bwOpcodeHeader (unitEnd prog offsetSize version addrSize minInst maxOps : Nat) :
    Parser Prologue := do
  let _defStmt ← bwU8 img
  let lb ← bwU8 img
  let lineRange ← bwU8 img
  if lineRange = 0 then stop .malformed
  else
    let opcodeBase ← bwU8 img
    if opcodeBase = 0 then stop .malformed
    else
      let stdLen ← bwStdLens img (opcodeBase - 1) 1 stdLenInit
      pure ⟨unitEnd, prog, offsetSize, version, addrSize, minInst, maxOps, toI8 lb, lineRange,
        opcodeBase, stdLen⟩

/-- What the header up to `standard_opcode_lengths` leads to. Where the source
skips the unit, `headerEnd` is where the header was read to and `prog` where the
program would begin. -/
inductive Opening where
  | skip (unitEnd headerEnd prog : Nat)
  | go (prologue : Prologue)

/-- The header from `min_inst` on, with the program's place known. -/
def bwHeaderRest (unitEnd prog offsetSize version addrSize : Nat) : Parser Opening := do
  let minInst ← bwU8 img
  let maxOps ← bwMaxOps img version
  if minInst = 0 ∨ maxOps = 0 then
    let c ← getCur
    pure (.skip unitEnd c.p prog)
  else
    let prologue ← bwOpcodeHeader img unitEnd prog offsetSize version addrSize minInst maxOps
    pure (.go prologue)

/-- The header up to `standard_opcode_lengths`. -/
def bwPrologue : Parser Opening := do
  let (unitEnd, offsetSize) ← bwUnitLength img
  let version ← bwU16 img
  let (addrSize, segSize) ← bwAddrSeg img version
  if segSize ≠ 0 then
    let c ← getCur
    pure (.skip unitEnd c.p c.p)
  else
    let headerLen ← bwHeaderLength img
    let c ← getCur
    let prog := img.ptrAdd c.p (img.size headerLen)
    if unitEnd < prog then stop .malformed
    else bwHeaderRest img unitEnd prog offsetSize version addrSize

/-! ### Directory and file tables -/

def dirOffInit : CArray Int := ⟨.dirOff, bwDwarfDirsMax, fun _ => -1⟩

def fileOffInit : CArray Int := ⟨.fileOff, bwDwarfFilesMax, fun _ => -1⟩

/-- `file_off` and `nfile`. -/
structure Files where
  fileOff : CArray Int
  nfile : Nat

/-- `dir_off` and `ndir`. -/
structure Dirs where
  dirOff : CArray Int
  ndir : Nat

/-- Intern the name of a file entry. `hasDir` is `have_dir` in a version 5
table and true in an older one. -/
def bwAddFile (dirs : Dirs) (hasDir : Bool) (dirIdx : Nat) (path : List UInt8) : Parser Int :=
  if hasDir ∧ dirIdx < dirs.ndir then do
    let off ← dirs.dirOff.read dirIdx
    if 0 ≤ off then
      let dir ← poolStr off.toNat
      let joined := bwJoinPath bwJoinedLen dir path
      checkIndex .joined joined.length bwJoinedLen
      if joined.isEmpty then stop .malformed else bwAddStr joined
    else bwAddStr path
  else bwAddStr path

/-- The entry format of a version 5 table: content types and forms. -/
structure Formats where
  count : Nat
  lnct : CArray Nat
  form : CArray Nat

/-- The loop over the pairs of an entry format. -/
def bwFormatPairs : Nat → Nat → CArray Nat → CArray Nat → Parser (CArray Nat × CArray Nat)
  | 0, _, lnct, form => pure (lnct, form)
  | n + 1, i, lnct, form => do
      let contentType ← bwUleb img
      let lnct ← lnct.write i contentType
      let code ← bwUleb img
      let form ← form.write i code
      bwFormatPairs n (i + 1) lnct form

/-- An entry format: `fmt_count` and its pairs, over the arrays of the format
read before. -/
def bwFormats (lnct form : CArray Nat) : Parser Formats := do
  let count ← bwU8 img
  if bwDwarfFmtMax < count then stop .malformed
  else
    let (lnct, form) ← bwFormatPairs img count 0 lnct form
    pure ⟨count, lnct, form⟩

def bwLnctPath : Nat := 1
def bwLnctDirectoryIndex : Nat := 2

/-- One directory entry, from format pair `f` on. -/
def bwDirEntry (formats : Formats) (offsetSize : Nat) :
    Nat → Nat → List UInt8 → Parser (List UInt8)
  | 0, _, path => pure path
  | n + 1, f, path => do
      let contentType ← formats.lnct.read f
      let code ← formats.form.read f
      if contentType = bwLnctPath then
        let path ← bwFormPath img code offsetSize
        bwDirEntry formats offsetSize n (f + 1) path
      else
        bwFormSkip img code offsetSize
        bwDirEntry formats offsetSize n (f + 1) path

/-- The directories of a version 5 header. -/
def bwDirsV5 (formats : Formats) (offsetSize : Nat) : Nat → Dirs → Parser Dirs
  | 0, dirs => pure dirs
  | n + 1, dirs => do
      let path ← bwDirEntry img formats offsetSize formats.count 0 []
      let off ← bwAddStr path
      let dirOff ← dirs.dirOff.write dirs.ndir off
      bwDirsV5 formats offsetSize n ⟨dirOff, dirs.ndir + 1⟩

/-- The locals of a file entry of a version 5 header. -/
structure FileEntry where
  path : List UInt8
  dirIdx : Nat
  haveDir : Bool

/-- One file entry, from format pair `f` on. -/
def bwFileEntry (formats : Formats) (offsetSize : Nat) :
    Nat → Nat → FileEntry → Parser FileEntry
  | 0, _, entry => pure entry
  | n + 1, f, entry => do
      let contentType ← formats.lnct.read f
      let code ← formats.form.read f
      if contentType = bwLnctPath then
        let path ← bwFormPath img code offsetSize
        bwFileEntry formats offsetSize n (f + 1) { entry with path := path }
      else if contentType = bwLnctDirectoryIndex then
        let dirIdx ← bwFormUdata img code
        bwFileEntry formats offsetSize n (f + 1) { entry with dirIdx := dirIdx, haveDir := true }
      else
        bwFormSkip img code offsetSize
        bwFileEntry formats offsetSize n (f + 1) entry

/-- The files of a version 5 header. -/
def bwFilesV5 (formats : Formats) (offsetSize : Nat) (dirs : Dirs) : Nat → Files → Parser Files
  | 0, files => pure files
  | n + 1, files => do
      let entry ← bwFileEntry img formats offsetSize formats.count 0 ⟨[], 0, false⟩
      let off ← bwAddFile dirs entry.haveDir entry.dirIdx entry.path
      let fileOff ← files.fileOff.write files.nfile off
      bwFilesV5 formats offsetSize dirs n ⟨fileOff, files.nfile + 1⟩

/-- The tables of a version 5 header. The local format arrays start with
arbitrary contents; none of their cells is read before it is written. -/
def bwTablesV5 (offsetSize : Nat) : Parser Files := do
  let dirFormats ← bwFormats img ⟨.lnct, bwDwarfFmtMax, fun _ => 0⟩
    ⟨.form, bwDwarfFmtMax, fun _ => 0⟩
  let dirCount ← bwUleb img
  if bwDwarfDirsMax < dirCount then stop .malformed
  else
    let dirs ← bwDirsV5 img dirFormats offsetSize dirCount ⟨dirOffInit, 0⟩
    let fileFormats ← bwFormats img dirFormats.lnct dirFormats.form
    let fileCount ← bwUleb img
    if bwDwarfFilesMax < fileCount then stop .malformed
    else bwFilesV5 img fileFormats offsetSize dirs fileCount ⟨fileOffInit, 0⟩

/-- One entry of `include_directories`. -/
def bwDirV2 : Parser Int := do
  let c ← getCur
  let name ← strlen img .line c.p fun n => img.ptrAdd c.p (n + 1)
  let off ← bwAddStr name
  setP (img.ptrAdd c.p (name.length + 1))
  pure off

/-- The step over the byte that ends a list of strings. -/
def bwListEnd {α : Type} (list : α) : Parser α := do
  bwSkip img 1
  pure list

/-- The loop over `include_directories`, and the step over its end. -/
def bwDirsV2 : Nat → Dirs → Parser Dirs
  | 0, _ => stop (.fault .fuel)
  | fuel + 1, dirs => do
      let c ← getCur
      if bwCurOk img c 1 then
        let first ← load img c.p
        if first ≠ 0 ∧ dirs.ndir < bwDwarfDirsMax then
          let off ← bwDirV2 img
          let dirOff ← dirs.dirOff.write dirs.ndir off
          bwDirsV2 fuel ⟨dirOff, dirs.ndir + 1⟩
        else bwListEnd img dirs
      else bwListEnd img dirs

/-- One entry of `file_names`. -/
def bwFileV2 (dirs : Dirs) : Parser Int := do
  let c ← getCur
  let name ← strlen img .line c.p fun n => img.ptrAdd c.p (n + 1)
  setP (img.ptrAdd c.p (name.length + 1))
  let dirIdx ← bwUleb img
  let _mtime ← bwUleb img
  let _length ← bwUleb img
  bwAddFile dirs true dirIdx name

/-- The loop over `file_names`, and the step over its end. -/
def bwFilesV2 (dirs : Dirs) : Nat → Files → Parser Files
  | 0, _ => stop (.fault .fuel)
  | fuel + 1, files => do
      let c ← getCur
      if bwCurOk img c 1 then
        let first ← load img c.p
        if first ≠ 0 ∧ files.nfile < bwDwarfFilesMax then
          let off ← bwFileV2 img dirs
          let fileOff ← files.fileOff.write files.nfile off
          bwFilesV2 dirs fuel ⟨fileOff, files.nfile + 1⟩
        else bwListEnd img files
      else bwListEnd img files

/-- The tables of a version 2-4 header. -/
def bwTablesV2 : Parser Files := do
  let off ← bwAddStr []
  let dirOff ← dirOffInit.write 0 off
  let dirs ← bwDirsV2 img bwDwarfDirsMax ⟨dirOff, 1⟩
  let fileOff ← fileOffInit.write 0 (-1)
  bwFilesV2 img dirs bwDwarfFilesMax ⟨fileOff, 1⟩

/-- The tables that the version field selects. -/
def bwTables (prologue : Prologue) : Parser Files :=
  if 5 ≤ prologue.version then bwTablesV5 img prologue.offsetSize else bwTablesV2 img

/-! ### Line program -/

/-- The registers of the line program. -/
structure Regs where
  address : Nat
  opIndex : Nat
  fileIdx : Nat
  line : Nat
deriving DecidableEq, Repr

/-- The registers at the start and after `end_sequence`. -/
def Regs.init : Regs := ⟨0, 0, 1, 1⟩

def bwLnsCopy : Nat := 1
def bwLnsAdvancePc : Nat := 2
def bwLnsAdvanceLine : Nat := 3
def bwLnsSetFile : Nat := 4
def bwLnsConstAddPc : Nat := 8
def bwLnsFixedAdvancePc : Nat := 9
def bwLneEndSequence : Nat := 1
def bwLneSetAddress : Nat := 2

section Program

variable (prologue : Prologue) (files : Files)

/-- The address and `op_index` updates of an operation advance. -/
def bwAdvance (regs : Regs) (opAdvance : Nat) : Parser Regs := do
  let sum := (regs.opIndex + opAdvance) % 2 ^ 64
  let quotient ← cDiv sum prologue.maxOps
  let opIndex ← cMod sum prologue.maxOps
  pure { regs with
    address := img.size (regs.address + prologue.minInst * img.size quotient)
    opIndex := opIndex }

/-- `bw_emit` of the current registers, when the file number is in the table. -/
def bwEmitRegs (regs : Regs) : Parser Unit :=
  if regs.fileIdx < files.nfile then do
    let off ← files.fileOff.read regs.fileIdx
    bwEmit regs.address off regs.line
  else pure ()

/-- A special opcode. -/
def bwSpecial (op : Nat) (regs : Regs) : Parser Regs := do
  let adjusted := op - prologue.opcodeBase
  let opAdvance ← cDiv adjusted prologue.lineRange
  let lineAdvance ← cMod adjusted prologue.lineRange
  let line := ofI64 (toI64 regs.line + prologue.lineBase + lineAdvance)
  let regs ← bwAdvance img prologue { regs with line := line } opAdvance
  bwEmitRegs files regs
  pure regs

/-- The operand of `set_address`. -/
def bwSetAddressOperand : Parser Nat :=
  if prologue.addrSize = 8 then bwU64 img
  else if prologue.addrSize = 4 then bwU32 img
  else stop .malformed

/-- An extended opcode, after its leading zero. Whatever its operand was, the
cursor goes to the end that the length states. -/
def bwExtended (regs : Regs) : Parser Regs := do
  let insnLen ← bwUleb img
  let c ← getCur
  if insnLen = 0 then stop .malformed
  else if bwCurOk img c (img.size insnLen) then
    let insnEnd := img.ptrAdd c.p (img.size insnLen)
    let ext ← bwU8 img
    if ext = bwLneEndSequence then
      setP insnEnd
      pure Regs.init
    else if ext = bwLneSetAddress then
      let addr ← bwSetAddressOperand img prologue
      setP insnEnd
      pure { regs with address := img.size addr, opIndex := 0 }
    else
      setP insnEnd
      pure regs
  else stop .short

/-- The operands of a standard opcode the parser does not know. A bad operand
leaves this loop only. -/
def bwSkipOperands : Nat → Parser Unit
  | 0 => pure ()
  | n + 1 => fun s =>
      match bwUleb img s with
      | .ok _ s => bwSkipOperands n s
      | .error (.fault fault) s => .error (.fault fault) s
      | .error .short s => .ok () s
      | .error .malformed s => .ok () s

/-- A standard opcode, below `opcode_base`. -/
def bwStandard (op : Nat) (regs : Regs) : Parser Regs :=
  if op = bwLnsCopy then do
    bwEmitRegs files regs
    pure regs
  else if op = bwLnsAdvancePc then do
    let opAdvance ← bwUleb img
    bwAdvance img prologue regs opAdvance
  else if op = bwLnsAdvanceLine then do
    let d ← bwSleb img
    pure { regs with line := ofI64 (toI64 regs.line + d) }
  else if op = bwLnsSetFile then do
    let fileIdx ← bwUleb img
    pure { regs with fileIdx := fileIdx }
  else if op = bwLnsConstAddPc then do
    let opAdvance ← cDiv (255 - prologue.opcodeBase) prologue.lineRange
    bwAdvance img prologue regs opAdvance
  else if op = bwLnsFixedAdvancePc then do
    let d ← bwU16 img
    pure { regs with address := img.size (regs.address + d), opIndex := 0 }
  else do
    let count ← prologue.stdLen.read op
    bwSkipOperands img count
    pure regs

/-- One iteration of the opcode loop; it stops where the source breaks. -/
def bwOpcode (regs : Regs) : Parser Regs := do
  let op ← bwU8 img
  if op = 0 then bwExtended img prologue regs
  else if prologue.opcodeBase ≤ op then bwSpecial img prologue files op regs
  else bwStandard img prologue files op regs

/-- Why the opcode loop was left. -/
inductive LoopExit where
  | unitEnd
  | short
  | malformed
deriving DecidableEq, Repr

/-- The opcode loop. -/
def bwOpcodeLoop : Nat → Regs → Parser LoopExit
  | 0, _ => stop (.fault .fuel)
  | fuel + 1, regs => fun s =>
      if s.cur.p < prologue.unitEnd then
        match bwOpcode img prologue files regs s with
        | .ok regs s => bwOpcodeLoop fuel regs s
        | .error (.fault fault) s => .error (.fault fault) s
        | .error .short s => .ok .short s
        | .error .malformed s => .ok .malformed s
      else .ok .unitEnd s

end Program

/-! ### Units and sections -/

/-- How a unit was left when the source returns 1: where its header, tables
included, was read to, where its program begins, and why its opcode loop was
left if it was entered. -/
structure UnitExit where
  headerEnd : Nat
  prog : Nat
  exit : Option LoopExit
deriving DecidableEq, Repr

/-- A unit after its prologue: tables and program. -/
def bwUnitBody (prologue : Prologue) : Parser UnitExit := do
  let files ← bwTables img prologue
  let c ← getCur
  setP prologue.prog
  let exit ← bwOpcodeLoop img prologue files (prologue.unitEnd - prologue.prog + 1) Regs.init
  setP prologue.unitEnd
  pure ⟨c.p, prologue.prog, some exit⟩

/-- `bw_parse_unit`. -/
def bwParseUnit : Parser UnitExit := do
  match ← bwPrologue img with
  | .skip unitEnd headerEnd prog =>
      setP unitEnd
      pure ⟨headerEnd, prog, none⟩
  | .go prologue => bwUnitBody img prologue

/-- The unit loop of `bw_dwarf_tab_parse`. -/
def bwUnits : Nat → Parser Unit
  | 0 => stop (.fault .fuel)
  | fuel + 1 => fun s =>
      if s.cur.p < s.cur.endp then
        match bwParseUnit img s with
        | .ok _ s => bwUnits fuel s
        | .error (.fault fault) s => .error (.fault fault) s
        | .error .short s => .ok () s
        | .error .malformed s => .ok () s
      else .ok () s

/-- The state in which the unit loop starts. -/
def startState (tab : Tab) : State :=
  ⟨tab, ⟨img.line.ptr, img.line.ptr + img.line.len, false⟩, [], [tab]⟩

/-- The unit loop over the whole line section. -/
def bwParseUnits (tab : Tab) : EStateM.Result Stop State Unit :=
  bwUnits img (img.line.len + 1) (startState img tab)

/-- The end of a call of `bw_dwarf_tab_parse`. -/
inductive ParseResult where
  | returned (value : Bool) (tab : Tab)
  | crashed (why : Stop) (tab : Tab)

/-- `bw_dwarf_tab_parse`. -/
def bwDwarfTabParse (qsort : Qsort) (tab : Tab) : ParseResult :=
  if img.line.ptr = 0 ∨ img.line.len = 0 then .returned false tab
  else
    match bwParseUnits img tab with
    | .ok _ s =>
        if s.tab.nrow = 0 then .returned false s.tab
        else .returned true { s.tab with rows := qsort.sort s.tab.rows }
    | .error why s => .crashed why s.tab

end Backwalk.DwarfLine
