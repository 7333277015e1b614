import Backwalk.Elf.Inside
import Backwalk.Support.Handles

/-!
Contract: `bw_elf_sname` with the descriptor and the mapping that it works with.

Owns the calls of `open`, `fstat`, `mmap`, `close` and `munmap` in the order of the
source. Whatever they answer, the function returns, reads the mapping only while it
is there, holds afterwards what was held before, and answers as it does over the
file that it could map.

Does not own the kernel. Each call may fail, and another thread may hold descriptors
and mappings meanwhile.
-/

namespace Backwalk.Elf.OnKernel

open Backwalk.Support

/-- What the kernel gives out. -/
inductive Handle where
  | fd (n : Nat)
  | map (addr : Nat)
deriving DecidableEq, Repr

/-- The calls of the kernel. -/
structure Kernel (c : ElfClass) where
  /-- `open(path, O_RDONLY)`. -/
  openPath : List UInt8 → Giver Handle Unit
  /-- `fstat`: `st_size`, if it succeeds. -/
  stSize : Handle → Option Int
  /-- `mmap` of so many bytes of a file. -/
  mmap : Handle → (size : Nat) → Giver Handle {f : ElfFile c // f.size = size}

abbrev FileAction (α : Type) := HandleAction Handle Nat (List Read) α

section Sname

variable {c : ElfClass} (kernel : Kernel c)

/-- `(size_t)st.st_size`. -/
def fileSize (c : ElfClass) (size : Int) : Nat := (size % 2 ^ c.bits).toNat

/-- `bw_elf_sname` from `mmap` on. -/
def mapAndRead (fd : Handle) (size : Int) (bias ip : Nat) (out : List UInt8) :
    FileAction (Bool × List UInt8) := do
  let map ← acquire (kernel.mmap fd (fileSize c size))
  release fd
  match map with
  | none => pure (false, out)
  | some (map, f) => do
      let result ← during map (bwElfMapped f.1 bias ip out)
      release map
      pure result

/-- `bw_elf_sname`. -/
def bwElfSname (path : Option (List UInt8)) (bias ip : Nat) (out : List UInt8) :
    FileAction (Bool × List UInt8) :=
  if path.getD [] = [] ∨ out.length = 0 then pure (false, out)
  else do
    let fd ← acquire (kernel.openPath (path.getD []))
    match fd with
    | none => pure (false, out)
    | some (fd, _) => do
        let size ← enquire fd (kernel.stSize fd)
        match size with
        | none => do
            release fd
            pure (false, out)
        | some size =>
            if size ≤ 0 then do
              release fd
              pure (false, out)
            else mapAndRead kernel fd size bias ip out

/-- The file that can be mapped at a path, while these handles are held. -/
def Kernel.mapFile (held : Finset Handle) (path : List UInt8) : Option (ElfFile c) :=
  match (kernel.openPath path).gives held with
  | none => none
  | some (fd, _) =>
      match kernel.stSize fd with
      | none => none
      | some size =>
          if size ≤ 0 then none
          else ((kernel.mmap fd (fileSize c size)).gives (insert fd held)).map fun map => map.2.1

variable {kernel} {held : Finset Handle}

/-- The descriptor goes before the mapping does. -/
theorem mapAndRead_turns {fd : Handle} (fresh : fd ∉ held) (size : Int) (bias ip : Nat)
    (out : List UInt8) :
    Turns (insert fd held) held (mapAndRead kernel fd size bias ip out)
      (match ((kernel.mmap fd (fileSize c size)).gives (insert fd held)).map fun map => map.2.1 with
        | none => pure (false, out)
        | some f => bwElfMapped f bias ip out) := by
  unfold mapAndRead
  apply Turns.acquire
  · intro refused
    rw [refused]
    apply Turns.release (Finset.mem_insert_self _ _)
    rw [Finset.erase_insert fresh]
    exact Turns.pure _
  · intro map f gives freshMap
    rw [gives]
    have different : fd ≠ map := fun same => freshMap (same ▸ Finset.mem_insert_self _ _)
    have freshHeld : map ∉ held := fun member => freshMap (Finset.mem_insert_of_mem member)
    have left : (insert map (insert fd held)).erase fd = insert map held := by
      rw [Finset.erase_insert_of_ne different.symm, Finset.erase_insert fresh]
    apply Turns.release (Finset.mem_insert_of_mem (Finset.mem_insert_self _ _))
    rw [left]
    have reads := Turns.during (Finset.mem_insert_self map held) (bwElfMapped f.1 bias ip out)
    apply reads.finish
    intro result
    apply Turns.release (Finset.mem_insert_self _ _)
    rw [Finset.erase_insert freshHeld]
    exact Turns.pure _

theorem bwElfSname_turns (path : Option (List UInt8)) (bias ip : Nat) (out : List UInt8) :
    Turns held held (bwElfSname kernel path bias ip out)
      (Elf.bwElfSname (kernel.mapFile held) path bias ip out) := by
  unfold bwElfSname Elf.bwElfSname
  by_cases nothing : path.getD [] = [] ∨ out.length = 0
  · rw [if_pos nothing, if_pos nothing]
    exact Turns.pure _
  · rw [if_neg nothing, if_neg nothing]
    apply Turns.acquire
    · intro refused
      rw [Kernel.mapFile, refused]
      exact Turns.pure _
    · intro fd _ gives fresh
      rw [Kernel.mapFile, gives]
      apply Turns.enquire (Finset.mem_insert_self _ _)
      dsimp only
      cases kernel.stSize fd with
      | none =>
          apply Turns.release (Finset.mem_insert_self _ _)
          rw [Finset.erase_insert fresh]
          exact Turns.pure _
      | some size =>
          dsimp only
          by_cases empty : size ≤ 0
          · rw [if_pos empty, if_pos empty]
            apply Turns.release (Finset.mem_insert_self _ _)
            rw [Finset.erase_insert fresh]
            exact Turns.pure _
          · rw [if_neg empty, if_neg empty]
            exact mapAndRead_turns fresh size bias ip out

/-- Whatever the kernel answers, the function returns with the handles that it was
called with, and with the answer over the file that could be mapped. -/
theorem bwElfSname_gives_back (kernel : Kernel c) (held : Finset Handle)
    (path : Option (List UInt8)) (bias ip : Nat) (out : List UInt8) (log : List Read) :
    ∃ result seen, bwElfSname kernel path bias ip out ⟨held, log⟩ = .ok result ⟨held, log ++ seen⟩ ∧
      Elf.bwElfSname (kernel.mapFile held) path bias ip out log = .ok result (log ++ seen) := by
  have returns : ∃ result seen,
      Elf.bwElfSname (kernel.mapFile held) path bias ip out log = .ok result (log ++ seen) := by
    unfold Elf.bwElfSname
    by_cases nothing : path.getD [] = [] ∨ out.length = 0
    · rw [if_pos nothing]
      exact ⟨_, [], by rw [List.append_nil]; rfl⟩
    · rw [if_neg nothing]
      cases kernel.mapFile held (path.getD []) with
      | none => exact ⟨_, [], by rw [List.append_nil]; rfl⟩
      | some f =>
          have room : 0 < out.length := Nat.pos_of_ne_zero (not_or.mp nothing).2
          obtain ⟨seen, ran, -⟩ := answers_bwElfMapped (f := f) bias ip room log
          exact ⟨_, seen, ran⟩
  obtain ⟨result, seen, ran⟩ := returns
  exact ⟨result, seen, (bwElfSname_turns path bias ip out).ok ran, ran⟩

end Sname

end Backwalk.Elf.OnKernel
