import Backwalk.DwarfLine.Invariant

/-!
Contract: what the parser does in the directory and file tables of a unit, one
step after the other, and in which state.

Owns the steps and the visits of the tables of every version. A step fails at a
visit if its action fails in that state, and the tables fail where a step of them
does.
-/

namespace Backwalk.DwarfLine

open Backwalk.Support

/-! ### Steps of the tables -/

/-- What the parser does in the tables of a unit: read the length of an entry
format, a LEB128 number, a number of entries, an attribute of an entry, join a
file name with its directory; in the older tables look at the first byte of a
string, go over a string or over the end of a list. -/
inductive TableStep where
  | formatCount
  | leb
  | count (limit : Nat)
  | path (form offsetSize : Nat)
  | index (form : Nat)
  | skip (form offsetSize : Nat)
  | join (dirs : Dirs) (entry : FileEntry)
  | first
  | name
  | listEnd

/-- A number that must not be over a limit. -/
def limited (limit : Nat) (m : Parser Nat) : Parser Nat := do
  let n ← m
  if limit < n then stop .malformed else pure n

section Steps

variable (img : Image)

def TableStep.act : TableStep → Parser Unit
  | .formatCount => do
      let _ ← limited bwDwarfFmtMax (bwU8 img)
      pure ()
  | .leb => do
      let _ ← bwUleb img
      pure ()
  | .count limit => do
      let _ ← limited limit (bwUleb img)
      pure ()
  | .path form offsetSize => do
      let _ ← bwFormPath img form offsetSize
      pure ()
  | .index form => do
      let _ ← bwFormUdata img form
      pure ()
  | .skip form offsetSize => do
      let _ ← bwFormSkip img form offsetSize
      pure ()
  | .join dirs entry => do
      let _ ← bwAddFile dirs entry.haveDir entry.dirIdx entry.path
      pure ()
  | .first => do
      let c ← getCur
      let _ ← load img c.p
      pure ()
  | .name => do
      let c ← getCur
      let _ ← strlen img .line c.p fun n => img.ptrAdd c.p (n + 1)
      pure ()
  | .listEnd => do
      let _ ← bwSkip img 1
      pure ()

end Steps

/-! ### Where the tables stop -/

section Silent

variable {α : Type}

instance (array : ArrayName) (index : Nat) :
    StopsFor (fun why => ¬ Benign why) (stop (.fault (.index array index)) : Parser α) :=
  ⟨fun ended => by cases ended; exact id⟩

instance : StopsFor (fun why => ¬ Benign why) (stop (.fault .fuel) : Parser α) :=
  ⟨fun ended => by cases ended; exact id⟩

instance (p : Nat) : StopsFor (fun why => ¬ Benign why) (setP p) :=
  StopsFor.of_answers fun _ => ⟨_, _, rfl⟩

instance (array : ArrayName) (index size : Nat) :
    StopsFor (fun why => ¬ Benign why) (checkIndex array index size) := by
  unfold checkIndex
  infer_instance

instance (a : CArray α) (index : Nat) : StopsFor (fun why => ¬ Benign why) (a.read index) := by
  unfold CArray.read
  infer_instance

instance (a : CArray α) (index : Nat) (value : α) :
    StopsFor (fun why => ¬ Benign why) (a.write index value) := by
  unfold CArray.write
  infer_instance

instance (text : List UInt8) : StopsFor (fun why => ¬ Benign why) (bwAddStr text) := by
  refine ⟨fun {s _ _} ended => ?_⟩
  rw [bwAddStr_run] at ended
  split_ifs at ended
  cases ended
  exact id

end Silent

section Tables

variable {img : Image} {s : State} {α β : Type}

end Tables

end Backwalk.DwarfLine
