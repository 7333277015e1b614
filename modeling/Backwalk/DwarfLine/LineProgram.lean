import Backwalk.DwarfLine.Decoding
import Backwalk.DwarfLine.Program
import Backwalk.Support.LineMachine

/-!
Contract: the opcode loop of `bw_parse_unit` runs the line-number state machine.

Owns the encodings of the operations under a header, the rows of the machine
that the table takes, and the simulation: over the encoding of a program the
loop goes through the registers of the machine, appends the rows it takes, and
ends behind the encoding.
-/

namespace Backwalk.DwarfLine

open Backwalk.Support

/-! ### Encodings -/

/-- The machine that a header describes. -/
def Prologue.params (prologue : Prologue) (img : Image) : LineParams where
  width := img.bits
  minInst := prologue.minInst
  maxOps := prologue.maxOps
  lineBase := prologue.lineBase
  lineRange := prologue.lineRange
  opcodeBase := prologue.opcodeBase

/-- An unsigned operand of 64 bits in ten bytes at most. -/
structure UnsignedOperand (n : Nat) (bytes : List UInt8) : Prop where
  leb : IsLeb bytes
  short : bytes.length ≤ 10
  value : unsignedLeb bytes = n
  fits : n < 2 ^ 64

/-- A signed operand of 64 bits in ten bytes at most. -/
structure SignedOperand (d : Int) (bytes : List UInt8) : Prop where
  leb : IsLeb bytes
  short : bytes.length ≤ 10
  value : signedLeb bytes = d
  fits : InI64 d

/-- The standard opcodes that the parser acts on. -/
def knownStandard : List Nat :=
  [bwLnsCopy, bwLnsAdvancePc, bwLnsAdvanceLine, bwLnsSetFile, bwLnsConstAddPc, bwLnsFixedAdvancePc]

/-- The header fields that encodings depend on. -/
structure Coding where
  opcodeBase : Nat
  addrSize : Nat
  stdLen : Nat → Nat

def Prologue.coding (prologue : Prologue) : Coding :=
  ⟨prologue.opcodeBase, prologue.addrSize, prologue.stdLen.cell⟩

/-- The encodings of an operation. -/
inductive Encodes (c : Coding) : LineOp → List UInt8 → Prop where
  | special {x : UInt8} : c.opcodeBase ≤ x.toNat → Encodes c (.special x.toNat) [x]
  | copy : bwLnsCopy < c.opcodeBase → Encodes c .copy [1]
  | advancePc {n : Nat} {operand : List UInt8} : bwLnsAdvancePc < c.opcodeBase →
      UnsignedOperand n operand → Encodes c (.advancePc n) (2 :: operand)
  | advanceLine {d : Int} {operand : List UInt8} : bwLnsAdvanceLine < c.opcodeBase →
      SignedOperand d operand → Encodes c (.advanceLine d) (3 :: operand)
  | setFile {n : Nat} {operand : List UInt8} : bwLnsSetFile < c.opcodeBase →
      UnsignedOperand n operand → Encodes c (.setFile n) (4 :: operand)
  | constAddPc : bwLnsConstAddPc < c.opcodeBase → Encodes c .constAddPc [8]
  | fixedAdvancePc {operand : List UInt8} : bwLnsFixedAdvancePc < c.opcodeBase →
      operand.length = 2 → Encodes c (.fixedAdvancePc (leNat operand)) (9 :: operand)
  | standard {x : UInt8} {operands : List (List UInt8)} : x ≠ 0 → x.toNat < c.opcodeBase →
      x.toNat ∉ knownStandard → operands.length = c.stdLen x.toNat →
      (∀ operand ∈ operands, IsLeb operand ∧ operand.length ≤ 10) →
      Encodes c .ignored (x :: operands.flatten)
  | endSequence {len : List UInt8} : UnsignedOperand 1 len →
      Encodes c .endSequence (0 :: (len ++ [1]))
  | setAddress {len operand : List UInt8} : operand.length = c.addrSize →
      c.addrSize = 4 ∨ c.addrSize = 8 →
      UnsignedOperand (1 + operand.length) len →
      Encodes c (.setAddress (leNat operand)) (0 :: (len ++ 2 :: operand))
  | extended {x : UInt8} {len payload : List UInt8} : x.toNat ≠ bwLneEndSequence →
      x.toNat ≠ bwLneSetAddress → UnsignedOperand (1 + payload.length) len →
      Encodes c .ignored (0 :: (len ++ x :: payload))

/-- An instruction of a program under a header. -/
structure Insn (c : Coding) where
  op : LineOp
  bytes : List UInt8
  encodes : Encodes c op bytes

def insnBytes {c : Coding} (program : List (Insn c)) : List UInt8 :=
  program.flatMap Insn.bytes

/-! ### Additions -/

/-- The sums that the operation takes fit in the 64 bits that the parser takes
them in. -/
def SumsFit (p : LineParams) (regs : LineRegs) : LineOp → Prop
  | .special opcode => InI64 (regs.line + p.lineBase) ∧
      InI64 (regs.line + p.lineBase + p.lineAdvance opcode)
  | .advanceLine d => InI64 (regs.line + d)
  | .advancePc n => regs.opIndex + n < 2 ^ 64
  | _ => True

/-- So do all sums of a program. -/
def AllSumsFit (p : LineParams) : LineRegs → List LineOp → Prop
  | _, [] => True
  | regs, op :: ops => SumsFit p regs op ∧ AllSumsFit p (p.step regs op) ops

instance (p : LineParams) (regs : LineRegs) : (op : LineOp) → Decidable (SumsFit p regs op)
  | .special _ => inferInstanceAs (Decidable (_ ∧ _))
  | .advanceLine _ => inferInstanceAs (Decidable (InI64 _))
  | .advancePc _ => inferInstanceAs (Decidable (_ < _))
  | .copy | .setFile _ | .constAddPc | .fixedAdvancePc _ | .endSequence | .setAddress _
  | .ignored => inferInstanceAs (Decidable True)

instance instDecidableAllSumsFit (p : LineParams) :
    (regs : LineRegs) → (ops : List LineOp) → Decidable (AllSumsFit p regs ops)
  | _, [] => inferInstanceAs (Decidable True)
  | regs, op :: ops =>
      have : Decidable (AllSumsFit p (p.step regs op) ops) :=
        instDecidableAllSumsFit p (p.step regs op) ops
      inferInstanceAs (Decidable (SumsFit p regs op ∧ AllSumsFit p (p.step regs op) ops))

/-! ### Rows -/

/-- The row of the table for a row of the machine: none for a row without
address, without a line number of 32 bits, or with a file that has no name. -/
def Files.taken (files : Files) (row : LineRegs) : Option Row :=
  if row.address ≠ 0 ∧ 1 ≤ row.line ∧ row.line ≤ 0xffffffff ∧ row.file < files.nfile ∧
      0 ≤ files.fileOff.cell row.file then
    some ⟨row.address, (files.fileOff.cell row.file).toNat, row.line.toNat⟩
  else none

/-- A table with rows appended, as many as it has room for. -/
def Tab.withRows (tab : Tab) (rows : List Row) : Tab :=
  { tab with rows := (tab.rows ++ rows).take bwDwarfRowMax }

theorem Tab.withRows_nil {tab : Tab} (fits : tab.nrow ≤ bwDwarfRowMax) : tab.withRows [] = tab := by
  rw [withRows, List.append_nil, List.take_of_length_le fits]

@[simp]
theorem Tab.withRows_withRows (tab : Tab) (rows others : List Row) :
    (tab.withRows rows).withRows others = tab.withRows (rows ++ others) := by
  simp only [withRows, Tab.mk.injEq, and_self, and_true]
  rw [← List.append_assoc, List.take_append, @List.take_append _ (tab.rows ++ rows),
    List.take_take, Nat.min_self, List.length_take]
  rcases Nat.le_total (tab.rows ++ rows).length bwDwarfRowMax with short | long
  · rw [Nat.min_eq_right short]
  · rw [Nat.min_eq_left long, Nat.sub_self, Nat.sub_eq_zero_of_le long]

theorem Tab.withRows_nrow (tab : Tab) (rows : List Row) :
    (tab.withRows rows).nrow ≤ bwDwarfRowMax := by
  rw [Tab.nrow, withRows]
  exact List.length_take_le _ _

/-! ### One operation -/

section Steps

variable {img : Image} {prologue : Prologue} {files : Files} {s t u : State} {xs ys : List UInt8}

/-- What the program relies on in a header. -/
structure ProgramHeader (prologue : Prologue) : Prop where
  maxOps : 1 ≤ prologue.maxOps
  maxOpsByte : prologue.maxOps < 256
  lineRange : 1 ≤ prologue.lineRange
  opcodeBase : 1 ≤ prologue.opcodeBase
  stdLen : prologue.stdLen.size = 256

/-- The parser's registers for the machine's. -/
def coded (regs : LineRegs) : Regs := ⟨regs.address, regs.opIndex, regs.file, ofI64 regs.line⟩

/-- The machine's registers are within what the parser's can hold. -/
structure Codable (regs : LineRegs) : Prop where
  line : InI64 regs.line
  opIndex : regs.opIndex < 256

/-- The cursor has moved over `n` bytes, and the rows of the machine were
appended. -/
structure Ran (files : Files) (s t : State) (n : Nat) (rows : List LineRegs) : Prop where
  cur : t.cur = s.cur.advance n
  tab : t.tab = s.tab.withRows (rows.filterMap files.taken)

theorem Ran.trans {n m : Nat} {rows others : List LineRegs} (one : Ran files s t n rows)
    (two : Ran files t u m others) : Ran files s u (n + m) (rows ++ others) where
  cur := by rw [two.cur, one.cur, Cur.advance_advance]
  tab := by rw [two.tab, one.tab, Tab.withRows_withRows, List.filterMap_append]

/-- Reads append nothing. -/
theorem Ran.advance (files : Files) (room : s.tab.nrow ≤ bwDwarfRowMax) (n : Nat) :
    Ran files s (s.advance n) n [] where
  cur := rfl
  tab := (Tab.withRows_nil room).symm

theorem size_mod (n : Nat) : img.size n = n % 2 ^ img.bits := rfl

theorem bwAdvance_coded {regs : LineRegs} {n : Nat} (header : ProgramHeader prologue)
    (fits : regs.opIndex + n < 2 ^ 64) :
    bwAdvance img prologue (coded regs) n s =
      .ok (coded ((prologue.params img).advance regs n)) s := by
  have nonzero : prologue.maxOps ≠ 0 := by
    have := header.maxOps
    omega
  have quotient : ∀ a, cDiv a prologue.maxOps s = .ok (a / prologue.maxOps) s := by
    intro a
    rw [cDiv, if_neg nonzero]
    rfl
  have remainder : ∀ a, cMod a prologue.maxOps s = .ok (a % prologue.maxOps) s := by
    intro a
    rw [cMod, if_neg nonzero]
    rfl
  unfold bwAdvance
  rw [show (coded regs).opIndex = regs.opIndex from rfl, Nat.mod_eq_of_lt fits,
    bind_of_ok (quotient _), bind_of_ok (remainder _)]
  have address : img.size (regs.address + prologue.minInst *
      img.size ((regs.opIndex + n) / prologue.maxOps)) =
        (regs.address + prologue.minInst * ((regs.opIndex + n) / prologue.maxOps)) %
          2 ^ img.bits := by
    rw [size_mod, size_mod, Nat.add_mod, Nat.mul_mod, Nat.mod_mod, ← Nat.mul_mod, ← Nat.add_mod]
  show EStateM.Result.ok _ s = _
  rw [show (coded regs).address = regs.address from rfl, address]
  rfl

theorem Codable.advance {regs : LineRegs} (header : ProgramHeader prologue)
    (codable : InI64 regs.line) (n : Nat) :
    Codable ((prologue.params img).advance regs n) where
  line := codable
  opIndex := (Nat.mod_lt _ header.maxOps).trans header.maxOpsByte

/-- A row is appended if the table takes it. -/
theorem bwEmitRegs_coded {regs : LineRegs} (codable : Codable regs)
    (filesFit : files.nfile ≤ files.fileOff.size) (room : s.tab.nrow ≤ bwDwarfRowMax) :
    ∃ t, bwEmitRegs files (coded regs) s = .ok () t ∧ Ran files s t 0 [regs] := by
  obtain ⟨low, high⟩ := codable.line
  have line : ofI64 regs.line = (regs.line % 2 ^ 64).toNat := rfl
  by_cases named : regs.file < files.nfile
  · have read : files.fileOff.read regs.file s = .ok (files.fileOff.cell regs.file) s :=
      read_of_lt (by omega) s
    have run : bwEmitRegs files (coded regs) s =
        bwEmit regs.address (files.fileOff.cell regs.file) (ofI64 regs.line) s := by
      rw [bwEmitRegs, if_pos (show (coded regs).fileIdx < files.nfile from named)]
      exact bind_of_ok read
    rw [run, bwEmit_run]
    by_cases full : bwDwarfRowMax ≤ s.tab.nrow
    · refine ⟨s, if_pos (by simp [full]), rfl, ?_⟩
      rw [Tab.withRows, List.take_append_of_le_length full, List.take_of_length_le room]
    · by_cases taken : regs.address ≠ 0 ∧ 1 ≤ regs.line ∧ regs.line ≤ 0xffffffff ∧
          regs.file < files.nfile ∧ 0 ≤ files.fileOff.cell regs.file
      · have row : files.taken regs = some ⟨regs.address, (files.fileOff.cell regs.file).toNat,
            regs.line.toNat⟩ := if_pos taken
        obtain ⟨nonzero, lineLow, lineHigh, -, hasName⟩ := taken
        have lineNat : ofI64 regs.line = regs.line.toNat := by omega
        refine ⟨_, if_neg ?_, rfl, ?_⟩
        · simp only [Bool.or_eq_true, decide_eq_true_eq]
          omega
        · simp only [List.filterMap_cons, row, List.filterMap_nil, Tab.withRows, Tab.mk.injEq,
            and_self, and_true]
          rw [List.take_of_length_le (by simp [Tab.nrow] at full ⊢; omega)]
          simp [lineNat]
      · have none : files.taken regs = none := if_neg taken
        refine ⟨s, if_pos ?_, rfl, ?_⟩
        · simp only [Bool.or_eq_true, decide_eq_true_eq]
          omega
        · simp [none, Tab.withRows_nil room]
  · have none : files.taken regs = none := if_neg fun taken => named taken.2.2.2.1
    rw [bwEmitRegs, if_neg (show ¬ (coded regs).fileIdx < files.nfile from named)]
    exact ⟨s, rfl, rfl, by simp [none, Tab.withRows_nil room]⟩

theorem bwUleb_operand {n : Nat} (ahead : Ahead img (xs ++ ys) s.cur)
    (operand : UnsignedOperand n xs) : bwUleb img s = .ok n (s.advance xs.length) := by
  rw [bwUleb_ahead ahead operand.leb operand.short, operand.value, Nat.mod_eq_of_lt operand.fits]

theorem bwSleb_operand {d : Int} (ahead : Ahead img (xs ++ ys) s.cur)
    (operand : SignedOperand d xs) : bwSleb img s = .ok d (s.advance xs.length) := by
  rw [bwSleb_ahead ahead operand.leb operand.short, operand.value, toI64_ofI64 operand.fits]

/-! ### Special opcodes -/

theorem bwOpcode_special {regs : Regs} {x : UInt8} (ahead : Ahead img (x :: ys) s.cur)
    (header : ProgramHeader prologue) (isSpecial : prologue.opcodeBase ≤ x.toNat) :
    bwOpcode img prologue files regs s =
      bwSpecial img prologue files x.toNat regs (s.advance 1) := by
  have nonzero : ¬ x.toNat = 0 := by
    have := header.opcodeBase
    omega
  rw [bwOpcode, bind_of_ok (bwU8_ahead ahead), if_neg nonzero, if_pos isSpecial]

theorem bwSpecial_coded {regs : LineRegs} {x : UInt8} (header : ProgramHeader prologue)
    (codable : Codable regs) (sums : SumsFit (prologue.params img) regs (.special x.toNat))
    (filesFit : files.nfile ≤ files.fileOff.size) (room : s.tab.nrow ≤ bwDwarfRowMax) :
    ∃ t, bwSpecial img prologue files x.toNat (coded regs) s =
        .ok (coded ((prologue.params img).step regs (.special x.toNat))) t ∧
      Ran files s t 0 [(prologue.params img).step regs (.special x.toNat)] := by
  have nonzero : prologue.lineRange ≠ 0 := by
    have := header.lineRange
    omega
  have byte := x.toNat_lt
  have quotient : cDiv (x.toNat - prologue.opcodeBase) prologue.lineRange s =
      .ok ((prologue.params img).opAdvance x.toNat) s := by
    rw [cDiv, if_neg nonzero]
    rfl
  have remainder : cMod (x.toNat - prologue.opcodeBase) prologue.lineRange s =
      .ok ((prologue.params img).lineAdvance x.toNat) s := by
    rw [cMod, if_neg nonzero]
    rfl
  have small : (prologue.params img).opAdvance x.toNat ≤ x.toNat :=
    (Nat.div_le_self _ _).trans (Nat.sub_le _ _)
  have opIndex := codable.opIndex
  have line : ofI64 (toI64 (coded regs).line + prologue.lineBase +
      ((prologue.params img).lineAdvance x.toNat : Nat)) =
        ofI64 (regs.line + (prologue.params img).lineBase +
          (prologue.params img).lineAdvance x.toNat) := by
    rw [show (coded regs).line = ofI64 regs.line from rfl, toI64_ofI64 codable.line]
    rfl
  have advanced := @bwAdvance_coded img prologue s
    { regs with line := regs.line + (prologue.params img).lineBase +
        (prologue.params img).lineAdvance x.toNat }
    ((prologue.params img).opAdvance x.toNat) header (by dsimp only; omega)
  have codableAfter : Codable ((prologue.params img).step regs (.special x.toNat)) :=
    Codable.advance header sums.2 _
  obtain ⟨t, emitted, ran⟩ := bwEmitRegs_coded codableAfter filesFit room
  refine ⟨t, ?_, ran⟩
  rw [bwSpecial, bind_of_ok quotient, bind_of_ok remainder, line]
  exact (bind_of_ok advanced).trans (bind_of_ok emitted)

/-! ### Standard opcodes -/

theorem bwOpcode_standard {regs : Regs} {x : UInt8} (ahead : Ahead img (x :: ys) s.cur)
    (nonzero : x.toNat ≠ 0) (below : x.toNat < prologue.opcodeBase) :
    bwOpcode img prologue files regs s =
      bwStandard img prologue files x.toNat regs (s.advance 1) := by
  rw [bwOpcode, bind_of_ok (bwU8_ahead ahead), if_neg nonzero, if_neg (Nat.not_le_of_lt below)]

/-- The operands of an opcode that is not known are stepped over. -/
theorem bwSkipOperands_ahead {operands : List (List UInt8)}
    (lebs : ∀ operand ∈ operands, IsLeb operand ∧ operand.length ≤ 10)
    (ahead : Ahead img (operands.flatten ++ ys) s.cur) :
    bwSkipOperands img operands.length s = .ok () (s.advance operands.flatten.length) := by
  induction operands generalizing s with
  | nil => rfl
  | cons operand operands inductionHypothesis =>
      obtain ⟨leb, short⟩ := lebs operand List.mem_cons_self
      rw [List.flatten_cons, List.append_assoc] at ahead
      rw [List.length_cons, bwSkipOperands_of_ok img (bwUleb_ahead ahead leb short),
        inductionHypothesis (fun other member => lebs other (List.mem_cons_of_mem _ member))
          ahead.rest, State.advance_advance, List.flatten_cons, List.length_append]

/-! ### Extended opcodes -/

theorem bwOpcode_extended {regs : Regs} (ahead : Ahead img (0 :: ys) s.cur) :
    bwOpcode img prologue files regs s = bwExtended img prologue regs (s.advance 1) := by
  rw [bwOpcode, bind_of_ok (bwU8_ahead ahead), if_pos (show (0 : UInt8).toNat = 0 from rfl)]

/-- The bytes behind the zero of an extended opcode. -/
theorem ahead_extended {len payload : List UInt8} {x : UInt8}
    (ahead : Ahead img (0 :: (len ++ x :: payload) ++ ys) s.cur) :
    Ahead img (len ++ (x :: payload ++ ys)) (s.advance 1).cur := by
  have whole : Ahead img ([0] ++ (len ++ (x :: payload ++ ys))) s.cur := by
    rw [← List.append_assoc len]
    exact ahead
  exact whole.rest

theorem extended_length (len payload : List UInt8) (x : UInt8) :
    (0 :: (len ++ x :: payload)).length = 1 + (len.length + (1 + payload.length)) := by
  simp only [List.length_cons, List.length_append]
  omega

/-- The step to the end of an extended opcode, from wherever its operand was read
to. -/
theorem setP_extended (len payload : List UInt8) (x : UInt8) (n : Nat) :
    setP ((s.advance 1).cur.p + (len.length + (1 + payload.length))) ((s.advance 1).advance n) =
      .ok () (s.advance (0 :: (len ++ x :: payload)).length) := by
  rw [extended_length, ← State.advance_advance]
  rfl

/-- An extended opcode up to its operand. -/
theorem bwExtended_ahead {regs : Regs} {len payload : List UInt8} {x : UInt8}
    (ahead : Ahead img (len ++ (x :: payload ++ ys)) s.cur)
    (length : UnsignedOperand (1 + payload.length) len) :
    bwExtended img prologue regs s =
      (if x.toNat = bwLneEndSequence then do
        setP (s.cur.p + (len.length + (1 + payload.length)))
        pure Regs.init
      else if x.toNat = bwLneSetAddress then do
        let addr ← bwSetAddressOperand img prologue
        setP (s.cur.p + (len.length + (1 + payload.length)))
        pure { regs with address := img.size addr, opIndex := 0 }
      else do
        setP (s.cur.p + (len.length + (1 + payload.length)))
        pure regs) (s.advance (len.length + 1)) := by
  have rest := ahead.rest
  have whole : (x :: payload).length = 1 + payload.length := by
    rw [List.length_cons, Nat.add_comm]
  have fits := rest.fits
  have below := rest.below
  rw [List.length_append, whole] at fits
  have size : img.size (1 + payload.length) = (x :: payload).length := by
    rw [whole, Image.size, Nat.mod_eq_of_lt]
    simp only [Cur.advance_p] at fits
    omega
  have okay : bwCurOk img (s.advance len.length).cur (x :: payload).length = true := rest.okay
  have moved : img.ptrAdd (s.advance len.length).cur.p (x :: payload).length =
      s.cur.p + (len.length + (1 + payload.length)) := by
    rw [State.advance_cur, rest.ptrAdd, Cur.advance_p, whole, Nat.add_assoc]
  have first : Ahead img (x :: (payload ++ ys)) (s.advance len.length).cur := rest
  rw [bwExtended, bind_of_ok (bwUleb_operand ahead length),
    bind_of_ok (show getCur (s.advance len.length) = .ok (s.advance len.length).cur _ from rfl),
    if_neg (by omega), size, if_pos okay, moved]
  exact bind_of_ok ((bwU8_ahead first).trans (by rw [State.advance_advance]))

/-! ### The simulation -/

theorem codable_init : Codable LineRegs.init := ⟨by decide, by decide⟩

theorem Codable.step {regs : LineRegs} {op : LineOp} (header : ProgramHeader prologue)
    (codable : Codable regs) (sums : SumsFit (prologue.params img) regs op) :
    Codable ((prologue.params img).step regs op) := by
  cases op with
  | special opcode => exact Codable.advance header sums.2 _
  | copy => exact codable
  | advancePc n => exact Codable.advance header codable.line _
  | advanceLine d => exact ⟨sums, codable.opIndex⟩
  | setFile file => exact ⟨codable.line, codable.opIndex⟩
  | constAddPc => exact Codable.advance header codable.line _
  | fixedAdvancePc n => exact ⟨codable.line, by simp [LineParams.step]⟩
  | endSequence => exact codable_init
  | setAddress address => exact ⟨codable.line, by simp [LineParams.step]⟩
  | ignored => exact codable

/-- A standard opcode that the parser does not act on. -/
theorem bwOpcode_unknown {regs : Regs} {x : UInt8} {operands : List (List UInt8)}
    (header : ProgramHeader prologue) (nonzero : x ≠ 0) (below : x.toNat < prologue.opcodeBase)
    (unknown : x.toNat ∉ knownStandard) (count : operands.length = prologue.stdLen.cell x.toNat)
    (lebs : ∀ operand ∈ operands, IsLeb operand ∧ operand.length ≤ 10)
    (ahead : Ahead img (x :: operands.flatten ++ ys) s.cur) :
    bwOpcode img prologue files regs s =
      .ok regs (s.advance (x :: operands.flatten).length) := by
  have rest : Ahead img (operands.flatten ++ ys) (s.advance 1).cur :=
    (show Ahead img ([x] ++ (operands.flatten ++ ys)) s.cur from ahead).rest
  have opcode : x.toNat ≠ 0 := fun zero => nonzero (UInt8.toNat_inj.mp zero)
  have read : prologue.stdLen.read x.toNat (s.advance 1) = .ok operands.length (s.advance 1) := by
    have byte := x.toNat_lt
    have size := header.stdLen
    rw [read_of_lt (by omega), count]
  simp only [knownStandard, List.mem_cons, List.not_mem_nil, or_false, not_or] at unknown
  obtain ⟨notCopy, notAdvancePc, notAdvanceLine, notSetFile, notConst, notFixed⟩ := unknown
  rw [bwOpcode_standard ahead opcode below, bwStandard, if_neg notCopy, if_neg notAdvancePc,
    if_neg notAdvanceLine, if_neg notSetFile, if_neg notConst, if_neg notFixed,
    bind_of_ok read, bind_of_ok (bwSkipOperands_ahead lebs rest), State.advance_advance,
    List.length_cons, Nat.add_comm operands.flatten.length]
  rfl

theorem bwOpcode_setAddress {regs : Regs} {len operand : List UInt8}
    (stated : operand.length = prologue.addrSize)
    (width : prologue.addrSize = 4 ∨ prologue.addrSize = 8)
    (length : UnsignedOperand (1 + operand.length) len)
    (ahead : Ahead img (0 :: (len ++ 2 :: operand) ++ ys) s.cur) :
    bwOpcode img prologue files regs s =
      .ok { regs with address := img.size (leNat operand), opIndex := 0 }
        (s.advance (0 :: (len ++ 2 :: operand)).length) := by
  have rest := ahead_extended ahead
  have atOperand : Ahead img (operand ++ ys) ((s.advance 1).advance (len.length + 1)).cur := by
    rw [← State.advance_advance]
    exact (show Ahead img ([2] ++ (operand ++ ys)) _ from rest.rest).rest
  have read : bwSetAddressOperand img prologue ((s.advance 1).advance (len.length + 1)) =
      .ok (leNat operand) (((s.advance 1).advance (len.length + 1)).advance operand.length) := by
    rw [bwSetAddressOperand]
    rcases width with four | eight
    · rw [if_neg (by omega), if_pos four]
      exact stated.trans four ▸ bwUint_ahead atOperand (stated.trans four)
    · rw [if_pos eight]
      exact stated.trans eight ▸ bwUint_ahead atOperand (stated.trans eight)
  rw [bwOpcode_extended ahead, bwExtended_ahead rest length,
    if_neg (show ¬ (2 : UInt8).toNat = bwLneEndSequence by decide),
    if_pos (show (2 : UInt8).toNat = bwLneSetAddress from rfl), bind_of_ok read,
    State.advance_advance (s.advance 1)]
  exact bind_of_ok (setP_extended len operand 2 _)

/-- An operation that appends no row only changes the registers. -/
theorem bwOpcode_silent {regs : LineRegs} {op : LineOp} (header : ProgramHeader prologue)
    (codable : Codable regs) (sums : SumsFit (prologue.params img) regs op)
    (silent : op.appends = false) (encodes : Encodes prologue.coding op xs)
    (ahead : Ahead img (xs ++ ys) s.cur) :
    bwOpcode img prologue files (coded regs) s =
      .ok (coded ((prologue.params img).step regs op)) (s.advance xs.length) := by
  have opIndex := codable.opIndex
  cases encodes with
  | special isSpecial => cases silent
  | copy below => cases silent
  | @advancePc n operand below value =>
      have rest : Ahead img (operand ++ ys) (s.advance 1).cur :=
        (show Ahead img ([2] ++ (operand ++ ys)) s.cur from ahead).rest
      rw [bwOpcode_standard ahead (by decide) below, List.length_cons, Nat.add_comm operand.length,
        ← State.advance_advance]
      exact (bind_of_ok (bwUleb_operand rest value)).trans (bwAdvance_coded header sums)
  | @advanceLine d operand below value =>
      have rest : Ahead img (operand ++ ys) (s.advance 1).cur :=
        (show Ahead img ([3] ++ (operand ++ ys)) s.cur from ahead).rest
      have line : toI64 (coded regs).line = regs.line := toI64_ofI64 codable.line
      rw [bwOpcode_standard ahead (by decide) below, List.length_cons, Nat.add_comm operand.length,
        ← State.advance_advance]
      refine (bind_of_ok (bwSleb_operand rest value)).trans ?_
      rw [line]
      rfl
  | @setFile n operand below value =>
      have rest : Ahead img (operand ++ ys) (s.advance 1).cur :=
        (show Ahead img ([4] ++ (operand ++ ys)) s.cur from ahead).rest
      rw [bwOpcode_standard ahead (by decide) below, List.length_cons, Nat.add_comm operand.length,
        ← State.advance_advance]
      exact bind_of_ok (bwUleb_operand rest value)
  | constAddPc below =>
      have nonzero : prologue.lineRange ≠ 0 := by
        have := header.lineRange
        omega
      have quotient : cDiv (255 - prologue.opcodeBase) prologue.lineRange (s.advance 1) =
          .ok ((prologue.params img).opAdvance 255) (s.advance 1) := by
        rw [cDiv, if_neg nonzero]
        rfl
      have small : (prologue.params img).opAdvance 255 ≤ 255 :=
        (Nat.div_le_self _ _).trans (Nat.sub_le _ _)
      rw [bwOpcode_standard ahead (by decide) below]
      exact (bind_of_ok quotient).trans (bwAdvance_coded header (by omega))
  | @fixedAdvancePc operand below length =>
      have rest : Ahead img (operand ++ ys) (s.advance 1).cur :=
        (show Ahead img ([9] ++ (operand ++ ys)) s.cur from ahead).rest
      rw [bwOpcode_standard ahead (by decide) below, List.length_cons, length]
      exact bind_of_ok (bwUint_ahead rest length)
  | standard nonzero below unknown count lebs =>
      exact bwOpcode_unknown header nonzero below unknown count lebs ahead
  | @endSequence len length =>
      have rest : Ahead img (len ++ ([1] ++ ys)) (s.advance 1).cur := ahead_extended ahead
      rw [bwOpcode_extended ahead, bwExtended_ahead rest length,
        if_pos (show (1 : UInt8).toNat = bwLneEndSequence from rfl)]
      exact bind_of_ok (setP_extended len [] 1 _)
  | setAddress stated width length => exact bwOpcode_setAddress stated width length ahead
  | @extended x len payload notEnd notSet length =>
      have rest := ahead_extended ahead
      rw [bwOpcode_extended ahead, bwExtended_ahead rest length, if_neg notEnd, if_neg notSet]
      exact bind_of_ok (setP_extended len payload x _)

/-- The encoding of an operation makes the parser do it. -/
theorem bwOpcode_coded {regs : LineRegs} {op : LineOp} (header : ProgramHeader prologue)
    (codable : Codable regs) (sums : SumsFit (prologue.params img) regs op)
    (filesFit : files.nfile ≤ files.fileOff.size) (room : s.tab.nrow ≤ bwDwarfRowMax)
    (encodes : Encodes prologue.coding op xs) (ahead : Ahead img (xs ++ ys) s.cur) :
    ∃ t, bwOpcode img prologue files (coded regs) s =
        .ok (coded ((prologue.params img).step regs op)) t ∧
      Ran files s t xs.length ((prologue.params img).appended regs op) := by
  by_cases silent : op.appends = false
  · refine ⟨_, bwOpcode_silent header codable sums silent encodes ahead, ?_⟩
    rw [LineParams.appended, silent]
    exact Ran.advance files room _
  · cases encodes with
    | special isSpecial =>
        obtain ⟨t, ended, ran⟩ := @bwSpecial_coded img prologue files (s.advance 1) regs _ header
          codable sums filesFit room
        exact ⟨t, (bwOpcode_special ahead header isSpecial).trans ended,
          (Ran.advance files room 1).trans ran⟩
    | copy below =>
        obtain ⟨t, emitted, ran⟩ := @bwEmitRegs_coded files (s.advance 1) regs codable filesFit room
        exact ⟨t, (bwOpcode_standard ahead (by decide) below).trans (bind_of_ok emitted),
          (Ran.advance files room 1).trans ran⟩
    | _ => exact absurd rfl silent

theorem Encodes.nonempty {op : LineOp} (encodes : Encodes prologue.coding op xs) :
    0 < xs.length := by
  cases encodes <;> simp

/-- The opcode loop over a program that ends with the unit. -/
theorem bwOpcodeLoop_coded {program : List (Insn prologue.coding)} {regs : LineRegs} {fuel : Nat}
    (header : ProgramHeader prologue) (codable : Codable regs)
    (sums : AllSumsFit (prologue.params img) regs (program.map Insn.op))
    (filesFit : files.nfile ≤ files.fileOff.size) (room : s.tab.nrow ≤ bwDwarfRowMax)
    (ahead : Ahead img (insnBytes program ++ ys) s.cur)
    (ends : s.cur.p + (insnBytes program).length = prologue.unitEnd)
    (enough : (insnBytes program).length < fuel) :
    ∃ t, bwOpcodeLoop img prologue files fuel (coded regs) s = .ok .unitEnd t ∧
      Ran files s t (insnBytes program).length
        ((prologue.params img).rows regs (program.map Insn.op)) := by
  induction program generalizing regs s fuel with
  | nil =>
      obtain ⟨fuel, rfl⟩ : ∃ n, fuel = n + 1 := ⟨fuel - 1, by omega⟩
      exact ⟨s, bwOpcodeLoop_done _ _ _ (Nat.not_lt_of_le ends.ge), Ran.advance files room 0⟩
  | cons insn program inductionHypothesis =>
      obtain ⟨fuel, rfl⟩ : ∃ n, fuel = n + 1 := ⟨fuel - 1, by omega⟩
      have split : insnBytes (insn :: program) = insn.bytes ++ insnBytes program := rfl
      have nonempty := insn.encodes.nonempty
      rw [split, List.append_assoc] at ahead
      rw [split, List.length_append] at ends enough
      obtain ⟨t, ended, ran⟩ :=
        bwOpcode_coded header codable sums.1 filesFit room insn.encodes ahead
      have roomAfter : t.tab.nrow ≤ bwDwarfRowMax := by
        rw [ran.tab]
        exact Tab.withRows_nrow _ _
      have rest : Ahead img (insnBytes program ++ ys) t.cur := by
        rw [ran.cur]
        exact ahead.rest
      have restEnds : t.cur.p + (insnBytes program).length = prologue.unitEnd := by
        rw [ran.cur, Cur.advance_p]
        omega
      obtain ⟨u, loops, ran'⟩ := inductionHypothesis (codable.step header sums.1) sums.2
        roomAfter rest restEnds (show (insnBytes program).length < fuel by omega)
      refine ⟨u, ?_, ?_⟩
      · rw [bwOpcodeLoop_of_ok _ _ _ (by omega) ended]
        exact loops
      · rw [split, List.length_append]
        exact ran.trans ran'

end Steps

end Backwalk.DwarfLine
