import Mathlib.Algebra.Group.Nat.Defs

/-!
Owns the line-number state machine: its registers, what its operations do with
them, the rows it appends, and the sequences that its rows form.

An operation here is what an instruction means, not how it is written. Addresses
are reduced to the width of an address; nothing else is bounded.
-/

namespace Backwalk.Support

/-- The header fields that the machine works with. -/
structure LineParams where
  width : Nat
  minInst : Nat
  maxOps : Nat
  lineBase : Int
  lineRange : Nat
  opcodeBase : Nat
deriving DecidableEq, Repr

/-- The registers; a row is a copy of them. -/
structure LineRegs where
  address : Nat
  opIndex : Nat
  file : Nat
  line : Int
deriving DecidableEq, Repr

/-- The registers at the start of a sequence. -/
def LineRegs.init : LineRegs := ⟨0, 0, 1, 1⟩

/-- The operations; `ignored` stands for those that change no register. -/
inductive LineOp where
  | special (opcode : Nat)
  | copy
  | advancePc (advance : Nat)
  | advanceLine (advance : Int)
  | setFile (file : Nat)
  | constAddPc
  | fixedAdvancePc (advance : Nat)
  | endSequence
  | setAddress (address : Nat)
  | ignored
deriving DecidableEq, Repr

/-- The operation appends a row. -/
def LineOp.appends : LineOp → Bool
  | .special _ => true
  | .copy => true
  | _ => false

namespace LineParams

variable (p : LineParams)

/-- The operation advance of a special opcode. -/
def opAdvance (opcode : Nat) : Nat := (opcode - p.opcodeBase) / p.lineRange

/-- What a special opcode adds to `line_base`. -/
def lineAdvance (opcode : Nat) : Nat := (opcode - p.opcodeBase) % p.lineRange

/-- Advance the address and `op_index` by an operation advance. -/
def advance (regs : LineRegs) (n : Nat) : LineRegs :=
  { regs with
    address := (regs.address + p.minInst * ((regs.opIndex + n) / p.maxOps)) % 2 ^ p.width
    opIndex := (regs.opIndex + n) % p.maxOps }

/-- What an operation does with the registers. -/
def step (regs : LineRegs) : LineOp → LineRegs
  | .special opcode =>
      p.advance { regs with line := regs.line + p.lineBase + p.lineAdvance opcode }
        (p.opAdvance opcode)
  | .copy => regs
  | .advancePc n => p.advance regs n
  | .advanceLine d => { regs with line := regs.line + d }
  | .setFile file => { regs with file := file }
  | .constAddPc => p.advance regs (p.opAdvance 255)
  | .fixedAdvancePc n =>
      { regs with address := (regs.address + n) % 2 ^ p.width, opIndex := 0 }
  | .endSequence => LineRegs.init
  | .setAddress address => { regs with address := address % 2 ^ p.width, opIndex := 0 }
  | .ignored => regs

/-- The rows that one operation appends. -/
def appended (regs : LineRegs) (op : LineOp) : List LineRegs :=
  if op.appends then [p.step regs op] else []

/-- The rows of a program. -/
def rows : LineRegs → List LineOp → List LineRegs
  | _, [] => []
  | regs, op :: ops => p.appended regs op ++ rows (p.step regs op) ops

end LineParams

/-! ### Sequences -/

/-- The rows up to an end of sequence, and the address there. -/
structure LineSequence where
  rows : List LineRegs
  endAddress : Nat
deriving DecidableEq, Repr

namespace LineSequence

variable (sequence : LineSequence) (address : Nat)

/-- The address is one of those from the first row to the end. -/
def Covers : Prop :=
  (sequence.rows.head?.any fun row => row.address ≤ address) = true ∧ address < sequence.endAddress

instance : Decidable (sequence.Covers address) := inferInstanceAs (Decidable (_ ∧ _))

/-- The last row that is not above the address. -/
def rowAt : Option LineRegs := (sequence.rows.filter fun row => row.address ≤ address).getLast?

end LineSequence

namespace LineParams

variable (p : LineParams)

/-- The sequences that a program ends; `held` are the rows of the one that is
open. -/
def sequences : LineRegs → List LineRegs → List LineOp → List LineSequence
  | _, _, [] => []
  | regs, held, op :: ops =>
      if op = .endSequence then ⟨held, regs.address⟩ :: sequences (p.step regs op) [] ops
      else sequences (p.step regs op) (held ++ p.appended regs op) ops

end LineParams

end Backwalk.Support
