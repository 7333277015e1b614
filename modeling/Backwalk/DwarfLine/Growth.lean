import Backwalk.DwarfLine.Unit
import Backwalk.Support.Action
import Mathlib.Data.List.Infix
import Mathlib.Tactic.SplitIfs

/-!
Owns what every function of the line parser does to the state, whatever the
input. The readers move the cursor forward and change nothing else (`Reads`),
the tables add strings and leave the rows alone (`Collects`), the opcodes add
rows and leave the pool alone (`Runs`), and no function takes back a row, a byte
of the pool or a log entry (`Grown`). All four are instances, so that a later
proof about a `do` block gets them for free.

The readers also stop for harmless reasons only (`Benign`): never for an index
out of an array, a division by zero or a loop that went on for too long.
-/

namespace Backwalk.DwarfLine

open Backwalk.Support

/-! ### Relations between states -/

/-- `tab'` has the rows and strings of `tab`, and perhaps more of them. -/
structure Extends (tab tab' : Tab) : Prop where
  rows : tab.rows <+: tab'.rows
  nstr : tab.nstr ≤ tab'.nstr
  strs : ∀ index < tab.nstr, tab'.strs index = tab.strs index

theorem Extends.refl (tab : Tab) : Extends tab tab :=
  ⟨List.prefix_refl _, le_refl _, fun _ _ => rfl⟩

theorem Extends.trans {first second third : Tab} (one : Extends first second)
    (two : Extends second third) : Extends first third :=
  ⟨one.rows.trans two.rows, one.nstr.trans two.nstr, fun index below => by
    rw [two.strs index (lt_of_lt_of_le below one.nstr), one.strs index below]⟩

/-- The cursor stands inside its section. -/
def Inside (img : Image) (c : Cur) : Prop := c.p ≤ c.endp ∧ c.endp < 2 ^ img.bits

/-- The cursor may have moved forward in its section; nothing else has
changed. -/
structure Reads (img : Image) (s s' : State) : Prop where
  tab : s'.tab = s.tab
  scans : s'.scans = s.scans
  tabs : s'.tabs = s.tabs
  endp : s'.cur.endp = s.cur.endp
  forward : Inside img s.cur → s.cur.p ≤ s'.cur.p ∧ s'.cur.p ≤ s.cur.endp

instance (img : Image) : Std.Refl (Reads img) :=
  ⟨fun _ => ⟨rfl, rfl, rfl, rfl, fun inside => ⟨le_refl _, inside.1⟩⟩⟩

theorem Reads.inside {img : Image} {s s' : State} (reads : Reads img s s')
    (inside : Inside img s.cur) : Inside img s'.cur :=
  ⟨reads.endp ▸ (reads.forward inside).2, reads.endp ▸ inside.2⟩

instance (img : Image) : IsTrans State (Reads img) where
  trans _ _ _ one two :=
    { tab := two.tab.trans one.tab
      scans := two.scans.trans one.scans
      tabs := two.tabs.trans one.tabs
      endp := two.endp.trans one.endp
      forward := fun inside =>
        ⟨(one.forward inside).1.trans (two.forward (one.inside inside)).1,
          one.endp ▸ (two.forward (one.inside inside)).2⟩ }

/-- Rows may have been added and the cursor moved. The image is a parameter so
that a reader of it is found to be one of these too. -/
structure Runs (img : Image) (s s' : State) : Prop where
  rows : s.tab.rows <+: s'.tab.rows
  nstr : s'.tab.nstr = s.tab.nstr
  strs : s'.tab.strs = s.tab.strs
  scans : s'.scans = s.scans
  tabs : s.tabs <+: s'.tabs
  endp : s'.cur.endp = s.cur.endp

instance (img : Image) : Std.Refl (Runs img) :=
  ⟨fun _ => ⟨List.prefix_refl _, rfl, rfl, rfl, List.prefix_refl _, rfl⟩⟩

instance (img : Image) : IsTrans State (Runs img) :=
  ⟨fun _ _ _ one two => ⟨one.rows.trans two.rows, two.nstr.trans one.nstr,
    two.strs.trans one.strs, two.scans.trans one.scans, one.tabs.trans two.tabs,
    two.endp.trans one.endp⟩⟩

/-- Nothing was taken back. -/
structure Grown (img : Image) (s s' : State) : Prop where
  tab : Extends s.tab s'.tab
  scans : s.scans <+: s'.scans
  tabs : s.tabs <+: s'.tabs
  endp : s'.cur.endp = s.cur.endp

instance (img : Image) : Std.Refl (Grown img) :=
  ⟨fun _ => ⟨Extends.refl _, List.prefix_refl _, List.prefix_refl _, rfl⟩⟩

instance (img : Image) : IsTrans State (Grown img) :=
  ⟨fun _ _ _ one two => ⟨one.tab.trans two.tab, one.scans.trans two.scans,
    one.tabs.trans two.tabs, two.endp.trans one.endp⟩⟩

/-- Nothing was taken back, and no row was added. -/
structure Collects (img : Image) (s s' : State) : Prop extends Grown img s s' where
  rows : s'.tab.rows = s.tab.rows

instance (img : Image) : Std.Refl (Collects img) := ⟨fun s => ⟨refl_of (Grown img) s, rfl⟩⟩

instance (img : Image) : IsTrans State (Collects img) :=
  ⟨fun _ _ _ one two =>
    ⟨trans_of (Grown img) one.toGrown two.toGrown, two.rows.trans one.rows⟩⟩

theorem Reads.runs {img : Image} {s s' : State} (reads : Reads img s s') : Runs img s s' :=
  ⟨reads.tab ▸ List.prefix_refl _, by rw [reads.tab], by rw [reads.tab], reads.scans,
    reads.tabs ▸ List.prefix_refl _, reads.endp⟩

theorem Runs.grown {img : Image} {s s' : State} (runs : Runs img s s') : Grown img s s' :=
  ⟨⟨runs.rows, le_of_eq runs.nstr.symm, fun index _ => by rw [runs.strs]⟩,
    runs.scans ▸ List.prefix_refl _, runs.tabs, runs.endp⟩

theorem Reads.collects {img : Image} {s s' : State} (reads : Reads img s s') :
    Collects img s s' :=
  ⟨reads.runs.grown, by rw [reads.tab]⟩

instance (priority := low) runs_of_reads (img : Image) {α : Type} (m : Parser α)
    [reads : Develops (Reads img) m] : Develops (Runs img) m :=
  ⟨fun s => (reads.after s).runs⟩

instance (priority := low) grown_of_runs (img : Image) {α : Type} (m : Parser α)
    [runs : Develops (Runs img) m] : Develops (Grown img) m :=
  ⟨fun s => (runs.after s).grown⟩

instance (priority := low) collects_of_reads (img : Image) {α : Type} (m : Parser α)
    [reads : Develops (Reads img) m] : Develops (Collects img) m :=
  ⟨fun s => (reads.after s).collects⟩

instance (priority := low) grown_of_collects (img : Image) {α : Type} (m : Parser α)
    [collects : Develops (Collects img) m] : Develops (Grown img) m :=
  ⟨fun s => (collects.after s).toGrown⟩

/-- A reason to stop that is neither an access outside an array, nor a division
by zero, nor the bound of a loop. -/
def Benign : Stop → Prop
  | .fault (.segv _) => True
  | .fault _ => False
  | _ => True

/-- How an action is refused: for lack of bytes, or for a value. -/
def Refusal (why : Stop) : Prop := why = .short ∨ why = .malformed

theorem Benign.refusal_or_segv {why : Stop} (benign : Benign why) :
    Refusal why ∨ ∃ addr, why = .fault (.segv addr) := by
  cases why with
  | short => exact Or.inl (Or.inl rfl)
  | malformed => exact Or.inl (Or.inr rfl)
  | fault fault =>
      cases fault with
      | segv addr => exact Or.inr ⟨addr, rfl⟩
      | index array index => exact benign.elim
      | divZero => exact benign.elim
      | fuel => exact benign.elim

/-- A reader: it moves the cursor forward, changes nothing else and stops for a
harmless reason only. -/
class Reader (img : Image) {α : Type} (m : Parser α) : Prop where
  reads : Develops (Reads img) m
  benign : StopsFor Benign m

attribute [instance] Reader.reads

/-! ### Elementary effects -/

section Effects

variable (img : Image) {α β : Type}

instance (a : α) : Reader img (pure a : Parser α) := ⟨inferInstance, inferInstance⟩

instance Reader.bind (m : Parser α) (f : α → Parser β) [first : Reader img m]
    [next : ∀ a, Reader img (f a)] : Reader img (m >>= f) :=
  ⟨inferInstance, @StopsFor.bind _ _ _ _ _ m f first.benign fun a => (next a).benign⟩

instance {c : Prop} [Decidable c] (m₁ m₂ : Parser α) [Reader img m₁] [Reader img m₂] :
    Reader img (if c then m₁ else m₂) := by
  split <;> infer_instance

theorem reader_of_keeps {m : Parser α} (keeps : ∀ s, ∃ a, m s = .ok a s) : Reader img m where
  reads := ⟨fun s => by
    obtain ⟨a, ended⟩ := keeps s
    rw [stateAfter_of_ok ended]
    exact refl_of (Reads img) s⟩
  benign := ⟨fun {s _ _} ended => by
    obtain ⟨a, answered⟩ := keeps s
    cases answered.symm.trans ended⟩

instance : Reader img getCur := reader_of_keeps img fun s => ⟨s.cur, rfl⟩

instance : Reader img getTab := reader_of_keeps img fun s => ⟨s.tab, rfl⟩

instance (flag : Bool) : Reader img (setDwarf64 flag) :=
  ⟨⟨fun _ => ⟨rfl, rfl, rfl, rfl, fun inside => ⟨le_refl _, inside.1⟩⟩⟩,
    ⟨fun ended => nomatch ended⟩⟩

instance (why : Stop) : Develops (Reads img) (stop why : Parser α) :=
  ⟨fun s => refl_of (Reads img) s⟩

theorem reader_stop {why : Stop} (benign : Benign why) : Reader img (stop why : Parser α) :=
  ⟨inferInstance, ⟨fun ended => by cases ended; exact benign⟩⟩

instance : Reader img (stop .short : Parser α) := reader_stop img trivial
instance : Reader img (stop .malformed : Parser α) := reader_stop img trivial

instance (addr : Nat) : Reader img (stop (.fault (.segv addr)) : Parser α) :=
  reader_stop img trivial

instance (array : ArrayName) (index size : Nat) :
    Develops (Reads img) (checkIndex array index size) := by
  unfold checkIndex
  infer_instance

instance (a b : Nat) : Develops (Reads img) (cDiv a b) := by
  unfold cDiv
  infer_instance

instance (a b : Nat) : Develops (Reads img) (cMod a b) := by
  unfold cMod
  infer_instance

instance (a : CArray α) (index : Nat) : Develops (Reads img) (a.read index) := by
  unfold CArray.read
  infer_instance

instance (a : CArray α) (index : Nat) (value : α) :
    Develops (Reads img) (a.write index value) := by
  unfold CArray.write
  infer_instance

instance (p : Nat) : Develops (Runs img) (setP p) :=
  ⟨fun _ => ⟨List.prefix_refl _, rfl, rfl, rfl, List.prefix_refl _, rfl⟩⟩

instance collects_setP (p : Nat) : Develops (Collects img) (setP p) :=
  ⟨fun _ => ⟨⟨Extends.refl _, List.prefix_refl _, List.prefix_refl _, rfl⟩, rfl⟩⟩

instance (scan : Scan) : Develops (Collects img) (logScan scan) :=
  ⟨fun _ => ⟨⟨Extends.refl _, List.prefix_append _ _, List.prefix_refl _, rfl⟩, rfl⟩⟩

end Effects

/-! ### Local arrays -/

section Arrays

variable {α : Type} {array array' : CArray α} {i : Nat} {value : α} {s t : State}

theorem read_of_lt (inside : i < array.size) (s : State) :
    array.read i s = .ok (array.cell i) s := by
  rw [CArray.read, checkIndex, if_pos inside]
  rfl

theorem write_of_lt (inside : i < array.size) (value : α) (s : State) :
    array.write i value s =
      .ok { array with cell := fun other => if other = i then value else array.cell other } s := by
  rw [CArray.write, checkIndex, if_pos inside]
  rfl

theorem read_of_not_lt (outside : ¬ i < array.size) (s : State) :
    array.read i s = .error (.fault (.index array.name i)) s := by
  rw [CArray.read, checkIndex, if_neg outside]
  rfl

theorem read_eq_ok (ended : array.read i s = .ok value t) : value = array.cell i ∧ t = s := by
  by_cases inside : i < array.size
  · rw [read_of_lt inside] at ended
    cases ended
    exact ⟨rfl, rfl⟩
  · rw [read_of_not_lt inside] at ended
    cases ended

/-- A read stops at a wrong index only. -/
theorem read_eq_error {why : Stop} (ended : array.read i s = .error why t) :
    why = .fault (.index array.name i) := by
  by_cases inside : i < array.size
  · rw [read_of_lt inside] at ended
    cases ended
  · rw [read_of_not_lt inside] at ended
    cases ended
    rfl

end Arrays

/-! ### Readers -/

section Readers

variable (img : Image)

/-- The room in front of a cursor that stands inside its section. -/
theorem curRoom_of_inside {img : Image} {c : Cur} (inside : Inside img c) :
    curRoom img c = c.endp - c.p := by
  obtain ⟨before, below⟩ := inside
  rw [curRoom, show c.endp + 2 ^ img.bits - c.p = c.endp - c.p + 2 ^ img.bits by omega,
    Nat.add_mod_right, Nat.mod_eq_of_lt (by omega)]

/-- A checked step stays in the section. -/
theorem ptrAdd_of_inside {img : Image} {c : Cur} {n : Nat} (inside : Inside img c)
    (room : bwCurOk img c n = true) : img.ptrAdd c.p n = c.p + n ∧ c.p + n ≤ c.endp := by
  simp only [bwCurOk, ne_eq, Bool.and_eq_true, decide_eq_true_eq, curRoom_of_inside inside] at room
  obtain ⟨before, below⟩ := inside
  have fits : c.p + n ≤ c.endp := by omega
  exact ⟨Nat.mod_eq_of_lt (by omega), fits⟩

/-- The bytes `loadBytes` reads, or the address at which it faults. -/
def peek : Nat → Nat → Except Nat (List UInt8)
  | _, 0 => .ok []
  | addr, n + 1 =>
      match img.mem addr with
      | none => .error addr
      | some byte => (peek (img.ptrAdd addr 1) n).map (byte :: ·)

theorem load_run (addr : Nat) (s : State) :
    load img addr s = match img.mem addr with
      | some byte => .ok byte s
      | none => .error (.fault (.segv addr)) s := by
  unfold load
  cases img.mem addr <;> rfl

theorem loadBytes_run (addr n : Nat) (s : State) :
    loadBytes img addr n s = match peek img addr n with
      | .ok bytes => .ok bytes s
      | .error last => .error (.fault (.segv last)) s := by
  induction n generalizing addr with
  | zero => rfl
  | succ n inductionHypothesis =>
      rw [loadBytes, peek]
      cases byteThere : img.mem addr with
      | none =>
          have stopped : load img addr s = .error (.fault (.segv addr)) s := by
            rw [load_run, byteThere]
          exact bind_of_error stopped
      | some byte =>
          have answered : load img addr s = .ok byte s := by rw [load_run, byteThere]
          rw [bind_of_ok answered]
          have rest := inductionHypothesis (img.ptrAdd addr 1)
          cases peeked : peek img (img.ptrAdd addr 1) n with
          | ok bytes => rw [peeked] at rest; rw [bind_of_ok rest]; rfl
          | error last => rw [peeked] at rest; rw [bind_of_error rest]; rfl

/-- A fixed-size read in one equation. -/
theorem bwUint_run (n : Nat) (s : State) :
    bwUint img n s =
      if bwCurOk img s.cur n then
        match peek img s.cur.p n with
        | .ok bytes => .ok (leNat bytes) { s with cur := { s.cur with p := img.ptrAdd s.cur.p n } }
        | .error last => .error (.fault (.segv last)) s
      else .error .short s := by
  rw [bwUint, bind_of_ok (show getCur s = .ok s.cur s from rfl)]
  split_ifs with room
  · have loaded := loadBytes_run img s.cur.p n s
    cases peeked : peek img s.cur.p n with
    | ok bytes => rw [peeked] at loaded; rw [bind_of_ok loaded]; rfl
    | error last => rw [peeked] at loaded; rw [bind_of_error loaded]
  · rfl

/-- `bwSkip` in one equation. -/
theorem bwSkip_run (n : Nat) (s : State) :
    bwSkip img n s =
      if bwCurOk img s.cur n then
        .ok () { s with cur := { s.cur with p := img.ptrAdd s.cur.p n } }
      else .error .short s := by
  rw [bwSkip, bind_of_ok (show getCur s = .ok s.cur s from rfl)]
  split_ifs <;> rfl

/-- A checked step is a move of a reader. -/
theorem reads_of_room {img : Image} {n : Nat} {s : State} (room : bwCurOk img s.cur n = true) :
    Reads img s { s with cur := { s.cur with p := img.ptrAdd s.cur.p n } } := by
  refine ⟨rfl, rfl, rfl, rfl, fun inside => ?_⟩
  obtain ⟨moved, fits⟩ := ptrAdd_of_inside inside room
  exact ⟨by simp only [moved]; omega, by simp only [moved]; exact fits⟩

instance (addr : Nat) : Reader img (load img addr) := by
  unfold load
  split <;> infer_instance

instance (n : Nat) : Reader img (bwUint img n) where
  reads := ⟨fun s => by
    unfold stateAfter
    rw [bwUint_run]
    split_ifs with room
    · cases peek img s.cur.p n with
      | ok bytes => exact reads_of_room room
      | error last => exact refl_of (Reads img) s
    · exact refl_of (Reads img) s⟩
  benign := ⟨fun {s _ _} ended => by
    rw [bwUint_run] at ended
    split_ifs at ended
    · cases peeked : peek img s.cur.p n with
      | ok bytes => rw [peeked] at ended; cases ended
      | error last => rw [peeked] at ended; cases ended; exact trivial
    · cases ended
      exact trivial⟩

instance : Reader img (bwU8 img) := by unfold bwU8; infer_instance
instance : Reader img (bwU16 img) := by unfold bwU16; infer_instance
instance : Reader img (bwU32 img) := by unfold bwU32; infer_instance
instance : Reader img (bwU64 img) := by unfold bwU64; infer_instance

instance (n : Nat) : Reader img (bwSkip img n) where
  reads := ⟨fun s => by
    unfold stateAfter
    rw [bwSkip_run]
    split_ifs with room
    · exact reads_of_room room
    · exact refl_of (Reads img) s⟩
  benign := ⟨fun ended => by
    rw [bwSkip_run] at ended
    split_ifs at ended
    cases ended
    exact trivial⟩

/-! The loops carry a bound that is enough for every input, so that none of them
ends because of it. -/

instance reads_bwUlebFrom (fuel r shift : Nat) :
    Develops (Reads img) (bwUlebFrom img fuel r shift) := by
  induction fuel generalizing r shift with
  | zero => unfold bwUlebFrom; infer_instance
  | succ fuel inductionHypothesis => unfold bwUlebFrom; infer_instance

theorem bwUlebFrom_benign {fuel : Nat} (r : Nat) {shift : Nat} (low : shift < 64)
    (enough : 64 ≤ shift + 7 * fuel) : StopsFor Benign (bwUlebFrom img fuel r shift) := by
  induction fuel generalizing r shift with
  | zero => omega
  | succ fuel inductionHypothesis =>
      unfold bwUlebFrom
      refine @StopsFor.bind _ _ _ _ _ _ _ (Reader.benign img) fun b => ?_
      refine @StopsFor.ite _ _ _ _ _ _ _ _ inferInstance ?_
      by_cases long : 64 ≤ shift + 7
      · rw [if_pos long]
        exact Reader.benign img
      · rw [if_neg long]
        exact inductionHypothesis _ (by omega) (by omega)

instance : Reader img (bwUleb img) :=
  ⟨inferInstanceAs (Develops (Reads img) (bwUlebFrom img 10 0 0)),
    bwUlebFrom_benign img 0 (by omega) (by omega)⟩

instance reads_bwSlebFrom (fuel r shift : Nat) :
    Develops (Reads img) (bwSlebFrom img fuel r shift) := by
  induction fuel generalizing r shift with
  | zero => unfold bwSlebFrom; infer_instance
  | succ fuel inductionHypothesis => unfold bwSlebFrom; infer_instance

theorem bwSlebFrom_benign {fuel : Nat} (r : Nat) {shift : Nat} (low : shift < 71)
    (enough : 71 ≤ shift + 7 * fuel) : StopsFor Benign (bwSlebFrom img fuel r shift) := by
  induction fuel generalizing r shift with
  | zero => omega
  | succ fuel inductionHypothesis =>
      unfold bwSlebFrom
      by_cases long : 64 ≤ shift
      · rw [if_pos long]
        exact Reader.benign img
      · rw [if_neg long]
        refine @StopsFor.bind _ _ _ _ _ _ _ (Reader.benign img) fun b => ?_
        refine @StopsFor.ite _ _ _ _ _ _ _ _ ?_ ?_
        · exact inductionHypothesis _ (by omega) (by omega)
        · infer_instance

instance : Reader img (bwSleb img) :=
  ⟨inferInstanceAs (Develops (Reads img) (bwSlebFrom img 11 0 0)),
    bwSlebFrom_benign img 0 (by omega) (by omega)⟩

/-- The test of a byte under the cursor and the step over it are a `bwU8`. -/
theorem scanStep_eq {α : Type} (next : UInt8 → Parser α) :
    (do
      let c ← getCur
      if bwCurOk img c 1 then
        let byte ← load img c.p
        setP (img.ptrAdd c.p 1)
        next byte
      else stop .short) = bwU8 img >>= fun byte => next (UInt8.ofNat byte) := by
  funext s
  rw [bind_of_ok (show getCur s = .ok s.cur s from rfl)]
  have read : bwU8 img s = _ := bwUint_run img 1 s
  by_cases room : bwCurOk img s.cur 1 = true
  · rw [if_pos room] at read ⊢
    have loaded := load_run img s.cur.p s
    rw [peek] at read
    cases byteThere : img.mem s.cur.p with
    | none =>
        rw [byteThere] at read loaded
        rw [bind_of_error loaded]
        exact (bind_of_error read).symm
    | some byte =>
        rw [byteThere] at read loaded
        rw [bind_of_ok loaded]
        have value : UInt8.ofNat (leNat [byte]) = byte := by simp [leNat]
        refine Eq.trans ?_ (bind_of_ok read).symm
        rw [value]
        rfl
  · rw [if_neg room] at read ⊢
    exact (bind_of_error read).symm

theorem pathString_succ (fuel : Nat) :
    pathString img (fuel + 1) = bwU8 img >>= fun byte =>
      if UInt8.ofNat byte = 0 then pure []
      else pathString img fuel >>= fun rest => pure (UInt8.ofNat byte :: rest) :=
  scanStep_eq img fun byte =>
    if byte = 0 then pure [] else pathString img fuel >>= fun rest => pure (byte :: rest)

/-- Skipping a string is reading it and forgetting the text. -/
theorem skipString_eq (fuel : Nat) :
    skipString img fuel = pathString img fuel >>= fun _ => pure () := by
  induction fuel with
  | zero => rfl
  | succ fuel inductionHypothesis =>
      rw [pathString_succ, bind_assoc]
      refine (scanStep_eq img fun byte =>
        if byte = 0 then pure () else skipString img fuel).trans ?_
      congr 1
      funext byte
      split_ifs
      · rfl
      · rw [inductionHypothesis]
        simp only [bind_assoc, pure_bind]

instance reads_pathString (fuel : Nat) : Develops (Reads img) (pathString img fuel) := by
  induction fuel with
  | zero => unfold pathString; infer_instance
  | succ fuel inductionHypothesis => rw [pathString_succ]; infer_instance

theorem bwCurOk_nonzero {img : Image} {c : Cur} {n : Nat} (room : bwCurOk img c n = true) :
    c.p ≠ 0 := by
  simp only [bwCurOk, ne_eq, Bool.and_eq_true, decide_eq_true_eq] at room
  exact room.1.1

/-- After a read of one byte the cursor has moved by one. -/
theorem bwU8_moves {img : Image} {s s' : State} {byte : Nat} (ended : bwU8 img s = .ok byte s') :
    s.cur.p ≠ 0 ∧ s'.cur.p = (s.cur.p + 1) % 2 ^ img.bits := by
  rw [bwU8, bwUint_run] at ended
  split_ifs at ended with room
  cases peeked : peek img s.cur.p 1 with
  | error last => rw [peeked] at ended; cases ended
  | ok bytes =>
      rw [peeked] at ended
      cases ended
      exact ⟨bwCurOk_nonzero room, rfl⟩

/-- The bound of a scan is enough: the cursor is `NULL` before it is used up. -/
theorem pathString_benign {fuel : Nat} {s s' : State} {why : Stop}
    (enough : (s.cur.p = 0 ∧ 1 ≤ fuel) ∨
      (0 < s.cur.p ∧ s.cur.p < 2 ^ img.bits ∧ 2 ^ img.bits < s.cur.p + fuel) ∨
      (2 ^ img.bits ≤ s.cur.p ∧ 2 ^ img.bits < fuel))
    (ended : pathString img fuel s = .error why s') : Benign why := by
  induction fuel generalizing s with
  | zero =>
      have positive := Nat.two_pow_pos img.bits
      omega
  | succ fuel inductionHypothesis =>
      rw [pathString_succ] at ended
      rcases bind_eq_error.mp ended with early | ⟨byte, t, read, late⟩
      · exact (inferInstance : Reader img (bwU8 img)).benign.reason early
      · obtain ⟨nonzero, moved⟩ := bwU8_moves read
        split_ifs at late
        · cases late
        · rcases bind_eq_error.mp late with later | ⟨rest, u, -, last⟩
          · refine inductionHypothesis ?_ later
            have reduced : t.cur.p < 2 ^ img.bits := by
              rw [moved]
              exact Nat.mod_lt _ (Nat.two_pow_pos _)
            rcases Nat.lt_trichotomy (s.cur.p + 1) (2 ^ img.bits) with below | last | above
            · rw [Nat.mod_eq_of_lt below] at moved
              omega
            · rw [last, Nat.mod_self] at moved
              omega
            · omega
          · cases last

instance : Reader img (pathString img (scanFuel img)) where
  reads := inferInstance
  benign := ⟨fun ended => by
    refine pathString_benign img ?_ ended
    unfold scanFuel
    omega⟩

instance : Reader img (skipString img (scanFuel img)) := by
  rw [skipString_eq]
  infer_instance

/-- A string that was found ends here, or has its first character here and the rest
behind it. -/
theorem cstrIn_succ_eq_ok {mem : Nat → Option UInt8} {fuel addr : Nat} {bytes : List UInt8} :
    cstrIn mem (fuel + 1) addr = .ok bytes ↔
      (mem addr = some 0 ∧ bytes = []) ∨ ∃ byte tail, mem addr = some byte ∧ byte ≠ 0 ∧
        cstrIn mem fuel (addr + 1) = .ok tail ∧ bytes = byte :: tail := by
  rw [cstrIn]
  cases mem addr with
  | none => simp
  | some byte =>
      by_cases nul : byte = 0
      · simp [nul, eq_comm]
      · cases cstrIn mem fuel (addr + 1) with
        | error last => simp [nul, Except.map]
        | ok tail => simp [nul, Except.map, eq_comm]

/-- `strlen` in one equation. -/
theorem strlen_run (sec : SectionId) (addr : Nat) (after : Nat → Nat) (s : State) :
    strlen img sec addr after s = match cstrIn img.mem (2 ^ img.bits - addr) addr with
      | .ok bytes => .ok bytes { s with
          scans := s.scans ++ [⟨sec, addr, addr + bytes.length + 1, after bytes.length⟩] }
      | .error last => .error (.fault (.segv last)) { s with
          scans := s.scans ++ [⟨sec, addr, last + 1, last + 1⟩] } := by
  unfold strlen
  cases cstrIn img.mem (2 ^ img.bits - addr) addr <;> rfl

instance (sec : SectionId) (addr : Nat) (after : Nat → Nat) :
    Develops (Collects img) (strlen img sec addr after) := by
  unfold strlen
  split <;> infer_instance

instance (form offsetSize : Nat) : Reader img (bwFormSkip img form offsetSize) := by
  unfold bwFormSkip
  split <;> infer_instance

instance (offsetSize : Nat) : Reader img (bwOffset img offsetSize) := by
  unfold bwOffset
  infer_instance

instance (sec : SectionId) (offsetSize : Nat) :
    Develops (Collects img) (pathStrp img sec offsetSize) := by
  unfold pathStrp
  infer_instance

instance (form offsetSize : Nat) : Develops (Collects img) (bwFormPath img form offsetSize) := by
  unfold bwFormPath
  split <;> infer_instance

instance (form : Nat) : Reader img (bwFormUdata img form) := by
  unfold bwFormUdata
  split <;> infer_instance

instance (version : Nat) : Reader img (bwAddrSeg img version) := by
  unfold bwAddrSeg
  infer_instance

instance : Reader img (bwHeaderLength img) := by unfold bwHeaderLength; infer_instance

instance (version : Nat) : Reader img (bwMaxOps img version) := by
  unfold bwMaxOps
  infer_instance

instance (unitLen offsetSize : Nat) : Reader img (bwUnitEnd img unitLen offsetSize) := by
  unfold bwUnitEnd
  infer_instance

instance : Reader img (bwUnitLength img) := by unfold bwUnitLength; infer_instance

instance reads_bwStdLens (n op : Nat) (stdLen : CArray Nat) :
    Develops (Reads img) (bwStdLens img n op stdLen) := by
  induction n generalizing op stdLen with
  | zero => unfold bwStdLens; infer_instance
  | succ n inductionHypothesis => unfold bwStdLens; infer_instance

instance (unitEnd prog offsetSize version addrSize minInst maxOps : Nat) :
    Develops (Reads img)
      (bwOpcodeHeader img unitEnd prog offsetSize version addrSize minInst maxOps) := by
  unfold bwOpcodeHeader
  infer_instance

instance (unitEnd prog offsetSize version addrSize : Nat) :
    Develops (Reads img) (bwHeaderRest img unitEnd prog offsetSize version addrSize) := by
  unfold bwHeaderRest
  infer_instance

instance : Develops (Reads img) (bwPrologue img) := by unfold bwPrologue; infer_instance

instance reads_bwFormatPairs (n i : Nat) (lnct form : CArray Nat) :
    Develops (Reads img) (bwFormatPairs img n i lnct form) := by
  induction n generalizing i lnct form with
  | zero => unfold bwFormatPairs; infer_instance
  | succ n inductionHypothesis => unfold bwFormatPairs; infer_instance

instance (lnct form : CArray Nat) : Develops (Reads img) (bwFormats img lnct form) := by
  unfold bwFormats
  infer_instance

end Readers

/-! ### Tables -/

section Tables

variable (img : Image)

theorem writeBytes_below (strs : Nat → UInt8) {start index : Nat} (bytes : List UInt8)
    (below : index < start) : writeBytes strs start bytes index = strs index := by
  rw [writeBytes, if_neg (by omega)]

/-- `bwAddStr` in one equation. -/
theorem bwAddStr_run (text : List UInt8) (s : State) :
    bwAddStr text s =
      if bwDwarfStrMax < s.tab.nstr + 1 then .ok (-1) s
      else if s.tab.nstr + (addStrBytes s.tab.nstr text).length < bwDwarfStrMax then
        let tab : Tab := { s.tab with
          strs := writeBytes s.tab.strs s.tab.nstr (addStrBytes s.tab.nstr text ++ [0])
          nstr := s.tab.nstr + (addStrBytes s.tab.nstr text).length + 1 }
        .ok s.tab.nstr { s with tab := tab, tabs := s.tabs ++ [tab] }
      else .error
        (.fault (.index .strs (s.tab.nstr + (addStrBytes s.tab.nstr text).length))) s := by
  rw [bwAddStr, bind_of_ok (show getTab s = .ok s.tab s from rfl)]
  by_cases full : bwDwarfStrMax < s.tab.nstr + 1
  · rw [if_pos full, if_pos full]
    rfl
  · rw [if_neg full, if_neg full]
    by_cases inside : s.tab.nstr + (addStrBytes s.tab.nstr text).length < bwDwarfStrMax
    · rw [if_pos inside, checkIndex, if_pos inside]
      rfl
    · rw [if_neg inside, checkIndex, if_neg inside]
      rfl

/-- Interning touches the table only. -/
theorem bwAddStr_keeps {text : List UInt8} {off : Int} {s t : State}
    (ended : bwAddStr text s = .ok off t) : t.cur = s.cur ∧ t.scans = s.scans := by
  rw [bwAddStr_run] at ended
  split_ifs at ended <;> cases ended <;> exact ⟨rfl, rfl⟩

instance (text : List UInt8) : Develops (Collects img) (bwAddStr text) where
  after s := by
    unfold stateAfter
    rw [bwAddStr_run]
    split_ifs with full inside
    · exact refl_of (Collects img) s
    · refine ⟨⟨⟨List.prefix_refl _, by simp only; omega, fun index below => ?_⟩,
        List.prefix_refl _, List.prefix_append _ _, rfl⟩, rfl⟩
      exact writeBytes_below _ _ below
    · exact refl_of (Collects img) s

instance (off : Nat) : Develops (Reads img) (poolStr off) := by
  unfold poolStr
  refine @Develops.bind _ _ _ _ _ _ _ _ inferInstance fun tab => ?_
  split <;> infer_instance

instance (dirs : Dirs) (hasDir : Bool) (dirIdx : Nat) (path : List UInt8) :
    Develops (Collects img) (bwAddFile dirs hasDir dirIdx path) := by
  unfold bwAddFile
  infer_instance

instance collects_bwDirEntry (formats : Formats) (offsetSize n f : Nat) (path : List UInt8) :
    Develops (Collects img) (bwDirEntry img formats offsetSize n f path) := by
  induction n generalizing f path with
  | zero => unfold bwDirEntry; infer_instance
  | succ n inductionHypothesis => unfold bwDirEntry; infer_instance

instance collects_bwDirsV5 (formats : Formats) (offsetSize n : Nat) (dirs : Dirs) :
    Develops (Collects img) (bwDirsV5 img formats offsetSize n dirs) := by
  induction n generalizing dirs with
  | zero => unfold bwDirsV5; infer_instance
  | succ n inductionHypothesis => unfold bwDirsV5; infer_instance

instance collects_bwFileEntry (formats : Formats) (offsetSize n f : Nat) (entry : FileEntry) :
    Develops (Collects img) (bwFileEntry img formats offsetSize n f entry) := by
  induction n generalizing f entry with
  | zero => unfold bwFileEntry; infer_instance
  | succ n inductionHypothesis => unfold bwFileEntry; infer_instance

instance collects_bwFilesV5 (formats : Formats) (offsetSize : Nat) (dirs : Dirs) (n : Nat)
    (files : Files) : Develops (Collects img) (bwFilesV5 img formats offsetSize dirs n files) := by
  induction n generalizing files with
  | zero => unfold bwFilesV5; infer_instance
  | succ n inductionHypothesis => unfold bwFilesV5; infer_instance

instance (offsetSize : Nat) : Develops (Collects img) (bwTablesV5 img offsetSize) := by
  unfold bwTablesV5
  infer_instance

instance : Develops (Collects img) (bwDirV2 img) := by unfold bwDirV2; infer_instance

instance {α : Type} (list : α) : Reader img (bwListEnd img list) := by
  unfold bwListEnd
  infer_instance

instance collects_bwDirsV2 (fuel : Nat) (dirs : Dirs) :
    Develops (Collects img) (bwDirsV2 img fuel dirs) := by
  induction fuel generalizing dirs with
  | zero => unfold bwDirsV2; infer_instance
  | succ fuel inductionHypothesis => unfold bwDirsV2; infer_instance

instance (dirs : Dirs) : Develops (Collects img) (bwFileV2 img dirs) := by
  unfold bwFileV2
  infer_instance

instance collects_bwFilesV2 (dirs : Dirs) (fuel : Nat) (files : Files) :
    Develops (Collects img) (bwFilesV2 img dirs fuel files) := by
  induction fuel generalizing files with
  | zero => unfold bwFilesV2; infer_instance
  | succ fuel inductionHypothesis => unfold bwFilesV2; infer_instance

instance : Develops (Collects img) (bwTablesV2 img) := by unfold bwTablesV2; infer_instance

instance (prologue : Prologue) : Develops (Collects img) (bwTables img prologue) := by
  unfold bwTables
  infer_instance

end Tables

/-! ### Line program -/

section Program

variable (img : Image) (prologue : Prologue) (files : Files)

/-- `bwEmit` in one equation. -/
theorem bwEmit_run (addr : Nat) (fileOff : Int) (line : Nat) (s : State) :
    bwEmit addr fileOff line s =
      if bwDwarfRowMax ≤ s.tab.nrow || fileOff < 0 || addr = 0 || line = 0 || 0xffffffff < line
      then .ok () s
      else
        let tab : Tab := { s.tab with rows := s.tab.rows ++ [⟨addr, fileOff.toNat, line⟩] }
        .ok () { s with tab := tab, tabs := s.tabs ++ [tab] } := by
  rw [bwEmit, bind_of_ok (show getTab s = .ok s.tab s from rfl)]
  split_ifs with dropped
  · rfl
  · have room : s.tab.nrow < bwDwarfRowMax := by
      simp only [Bool.or_eq_true, decide_eq_true_eq, not_or] at dropped
      omega
    rw [checkIndex, if_pos room]
    rfl

instance (addr : Nat) (fileOff : Int) (line : Nat) :
    Develops (Runs img) (bwEmit addr fileOff line) where
  after s := by
    unfold stateAfter
    rw [bwEmit_run]
    split_ifs
    · exact refl_of (Runs img) s
    · exact ⟨List.prefix_append _ _, rfl, rfl, rfl, List.prefix_append _ _, rfl⟩

instance (regs : Regs) (opAdvance : Nat) :
    Develops (Reads img) (bwAdvance img prologue regs opAdvance) := by
  unfold bwAdvance
  infer_instance

instance (regs : Regs) : Develops (Runs img) (bwEmitRegs files regs) := by
  unfold bwEmitRegs
  infer_instance

instance (op : Nat) (regs : Regs) :
    Develops (Runs img) (bwSpecial img prologue files op regs) := by
  unfold bwSpecial
  infer_instance

instance : Reader img (bwSetAddressOperand img prologue) := by
  unfold bwSetAddressOperand
  infer_instance

instance (regs : Regs) : Develops (Runs img) (bwExtended img prologue regs) := by
  unfold bwExtended
  infer_instance

theorem bwSkipOperands_of_ok {n value : Nat} {s t : State} (read : bwUleb img s = .ok value t) :
    bwSkipOperands img (n + 1) s = bwSkipOperands img n t := by
  simp only [bwSkipOperands, read]

theorem bwSkipOperands_of_fault {n : Nat} {fault : Fault} {s t : State}
    (faulted : bwUleb img s = .error (.fault fault) t) :
    bwSkipOperands img (n + 1) s = .error (.fault fault) t := by
  simp only [bwSkipOperands, faulted]

theorem bwSkipOperands_of_refused {n : Nat} {why : Stop} {s t : State}
    (refused : bwUleb img s = .error why t) (noFault : ∀ fault, why ≠ .fault fault) :
    bwSkipOperands img (n + 1) s = .ok () t := by
  cases why with
  | short => simp only [bwSkipOperands, refused]
  | malformed => simp only [bwSkipOperands, refused]
  | fault fault => exact absurd rfl (noFault fault)

instance reader_bwSkipOperands (n : Nat) : Reader img (bwSkipOperands img n) := by
  induction n with
  | zero => unfold bwSkipOperands; infer_instance
  | succ n inductionHypothesis =>
      have operand : Reader img (bwUleb img) := inferInstance
      refine ⟨⟨fun s => ?_⟩, ⟨fun {s s' why} stopped => ?_⟩⟩
      · unfold stateAfter
        cases ended : bwUleb img s with
        | ok value t =>
            rw [bwSkipOperands_of_ok img ended]
            exact trans_of (Reads img) (Develops.ok ended) (inductionHypothesis.reads.after t)
        | error why t =>
            have reads : Reads img s t := Develops.error ended
            cases why with
            | fault fault => rw [bwSkipOperands_of_fault img ended]; exact reads
            | short => rw [bwSkipOperands_of_refused img ended nofun]; exact reads
            | malformed => rw [bwSkipOperands_of_refused img ended nofun]; exact reads
      · cases ended : bwUleb img s with
        | ok value t =>
            rw [bwSkipOperands_of_ok img ended] at stopped
            exact inductionHypothesis.benign.reason stopped
        | error first t =>
            cases first with
            | fault fault =>
                rw [bwSkipOperands_of_fault img ended] at stopped
                cases stopped
                exact operand.benign.reason ended
            | short => rw [bwSkipOperands_of_refused img ended nofun] at stopped; cases stopped
            | malformed => rw [bwSkipOperands_of_refused img ended nofun] at stopped; cases stopped

instance (op : Nat) (regs : Regs) :
    Develops (Runs img) (bwStandard img prologue files op regs) := by
  unfold bwStandard
  infer_instance

instance (regs : Regs) : Develops (Runs img) (bwOpcode img prologue files regs) := by
  unfold bwOpcode
  infer_instance

theorem bwOpcodeLoop_done {fuel : Nat} {regs : Regs} {s : State}
    (atEnd : ¬ s.cur.p < prologue.unitEnd) :
    bwOpcodeLoop img prologue files (fuel + 1) regs s = .ok .unitEnd s := by
  simp only [bwOpcodeLoop, if_neg atEnd]

theorem bwOpcodeLoop_of_ok {fuel : Nat} {regs regs' : Regs} {s t : State}
    (inUnit : s.cur.p < prologue.unitEnd)
    (ended : bwOpcode img prologue files regs s = .ok regs' t) :
    bwOpcodeLoop img prologue files (fuel + 1) regs s =
      bwOpcodeLoop img prologue files fuel regs' t := by
  simp only [bwOpcodeLoop, if_pos inUnit, ended]

theorem bwOpcodeLoop_of_error {fuel : Nat} {regs : Regs} {why : Stop} {s t : State}
    (inUnit : s.cur.p < prologue.unitEnd)
    (ended : bwOpcode img prologue files regs s = .error why t) :
    bwOpcodeLoop img prologue files (fuel + 1) regs s = match why with
      | .fault fault => .error (.fault fault) t
      | .short => .ok .short t
      | .malformed => .ok .malformed t := by
  cases why <;> simp only [bwOpcodeLoop, if_pos inUnit, ended]

instance runs_bwOpcodeLoop (fuel : Nat) (regs : Regs) :
    Develops (Runs img) (bwOpcodeLoop img prologue files fuel regs) := by
  induction fuel generalizing regs with
  | zero => unfold bwOpcodeLoop; infer_instance
  | succ fuel inductionHypothesis =>
      refine ⟨fun s => ?_⟩
      unfold stateAfter
      by_cases inUnit : s.cur.p < prologue.unitEnd
      · cases ended : bwOpcode img prologue files regs s with
        | ok regs' t =>
            rw [bwOpcodeLoop_of_ok img prologue files inUnit ended]
            exact trans_of (Runs img) (Develops.ok ended) ((inductionHypothesis regs').after t)
        | error why t =>
            have runs : Runs img s t := Develops.error ended
            rw [bwOpcodeLoop_of_error img prologue files inUnit ended]
            cases why <;> exact runs
      · rw [bwOpcodeLoop_done img prologue files inUnit]
        exact refl_of (Runs img) s

end Program

/-! ### Units -/

section Units

variable (img : Image)

instance (prologue : Prologue) : Develops (Grown img) (bwUnitBody img prologue) := by
  unfold bwUnitBody
  infer_instance

instance : Develops (Grown img) (bwParseUnit img) := by
  unfold bwParseUnit
  refine @Develops.bind _ _ _ _ _ _ _ _ inferInstance fun opening => ?_
  cases opening with
  | skip unitEnd headerEnd prog => exact inferInstanceAs (Develops _ (setP unitEnd >>= _))
  | go prologue => exact inferInstanceAs (Develops _ (bwUnitBody img prologue))

instance grown_bwUnits (fuel : Nat) : Develops (Grown img) (bwUnits img fuel) := by
  induction fuel with
  | zero => unfold bwUnits; infer_instance
  | succ fuel inductionHypothesis =>
      refine ⟨fun s => ?_⟩
      have first : Grown img s (stateAfter (bwParseUnit img) s) := Develops.after s
      unfold stateAfter at first ⊢
      unfold bwUnits
      split_ifs
      · cases ended : bwParseUnit img s with
        | ok exit t =>
            rw [ended] at first
            exact trans_of (Grown img) first (inductionHypothesis.after t)
        | error why t =>
            rw [ended] at first
            cases why <;> exact first
      · exact refl_of (Grown img) s

end Units

end Backwalk.DwarfLine
