import Backwalk.DwarfLine.Progress
import Backwalk.DwarfLine.Scans
import Backwalk.Support.Agreement

/-!
Contract: when `bw_dwarf_tab_parse` keeps to its sections.

Two things lead a parse out of them: a string without a NUL in its section, and a
program that begins before the section because `header_length` wrapped around. A
parse without either returns, and returns the same whatever lies around the
sections, nothing at all included.

Owns the judgement `Enclosed`: two actions that do the same in an image and in one
with other memory around the sections, and do not fault on the way.
-/

namespace Backwalk.DwarfLine

open Backwalk.Support

/-! ### Other memory around the sections -/

/-- Memory with the sections of the image. -/
def SameBytes (img : Image) (mem : Nat → Option UInt8) : Prop :=
  ∀ sec, (img.sec sec).ptr ≠ 0 → ∀ index < (img.sec sec).len,
    mem ((img.sec sec).ptr + index) = img.mem ((img.sec sec).ptr + index)

theorem Section.Placed.same {sec : Section} {bits : Nat} {mem mem' : Nat → Option UInt8}
    (placed : sec.Placed bits mem)
    (same : sec.ptr ≠ 0 → ∀ index < sec.len, mem' (sec.ptr + index) = mem (sec.ptr + index)) :
    sec.Placed bits mem' := by
  intro present
  obtain ⟨noWrap, mapped⟩ := placed present
  refine ⟨noWrap, fun index below => ?_⟩
  rw [same present index below]
  exact mapped index below

/-- The sections of an image in other memory. -/
def Image.around (img : Image) (mem : Nat → Option UInt8) (same : SameBytes img mem) : Image where
  bits := img.bits
  mem := mem
  line := img.line
  lineStr := img.lineStr
  debugStr := img.debugStr
  width := img.width
  linePlaced := img.linePlaced.same (same .line)
  lineStrPlaced := img.lineStrPlaced.same (same .lineStr)
  debugStrPlaced := img.debugStrPlaced.same (same .debugStr)

/-- An access to an address that is not mapped. -/
def Segv (why : Stop) : Prop := ∃ addr, why = .fault (.segv addr)

/-- The two actions do the same from a state in order, and do not fault, as long
as all strings end in their sections. -/
class Enclosed (img : Image) {α : Type} (m₁ m₂ : Parser α) : Prop where
  coincide : ∀ {s}, Tidy img s → Coincide (AllTerminated img) Segv (m₁ s) (m₂ s)

section Rules

variable {img : Image} {α β : Type}

theorem AllTerminated.before {s t : State} (grown : Grown img s t)
    (terminated : AllTerminated img t) :
    AllTerminated img s :=
  fun scan member => terminated scan (grown.scans.subset member)

theorem AllTerminated.of_scans {s t : State} (terminated : AllTerminated img s)
    (same : t.scans = s.scans) : AllTerminated img t :=
  fun scan member => terminated scan (same ▸ member)

/-- A sequence from a state in order. -/
theorem coincide_bind {m₁ m₂ : Parser α} {f₁ f₂ : α → Parser β} {s : State}
    [∀ a, Develops (Grown img) (f₁ a)] (first : Coincide (AllTerminated img) Segv (m₁ s) (m₂ s))
    (next : ∀ a t, m₁ s = .ok a t → Coincide (AllTerminated img) Segv (f₁ a t) (f₂ a t)) :
    Coincide (AllTerminated img) Segv ((m₁ >>= f₁) s) ((m₂ >>= f₂) s) :=
  Coincide.bind (R := Grown img) AllTerminated.before first next

instance Enclosed.bind (m₁ m₂ : Parser α) (f₁ f₂ : α → Parser β) [first : Enclosed img m₁ m₂]
    [next : ∀ a, Enclosed img (f₁ a) (f₂ a)] [Develops (TidyAfter img) m₁]
    [∀ a, Develops (Grown img) (f₁ a)] : Enclosed img (m₁ >>= f₁) (m₂ >>= f₂) :=
  ⟨fun tidy => coincide_bind (first.coincide tidy) fun a _ ended =>
    (next a).coincide (Develops.ok (R := TidyAfter img) ended tidy)⟩

instance {c : Prop} {dec₁ dec₂ : Decidable c} (m₁ m₂ n₁ n₂ : Parser α) [yes : Enclosed img m₁ m₂]
    [no : Enclosed img n₁ n₂] : Enclosed img (@ite _ c dec₁ m₁ n₁) (@ite _ c dec₂ m₂ n₂) := by
  by_cases holds : c
  · rw [if_pos holds, if_pos holds]
    exact yes
  · rw [if_neg holds, if_neg holds]
    exact no

end Rules

/-! ### Actions that look at no memory -/

section Blindfold

variable {img : Image} {α : Type}

/-- An action that reads no memory is the same action anywhere. -/
instance (priority := low) enclosed_same (m : Parser α) [StopsFor (fun why => ¬ Segv why) m] :
    Enclosed img m m :=
  ⟨fun _ => Coincide.same _⟩

theorem stopsFor_of_answers {m : Parser α} (answers : ∀ s, ∃ a t, m s = .ok a t) :
    StopsFor (fun why => ¬ Segv why) m :=
  ⟨fun {s _ _} ended => by
    obtain ⟨a, t, answered⟩ := answers s
    cases answered.symm.trans ended⟩

instance : StopsFor (fun why => ¬ Segv why) getCur := stopsFor_of_answers fun s => ⟨_, s, rfl⟩

instance : StopsFor (fun why => ¬ Segv why) getTab := stopsFor_of_answers fun s => ⟨_, s, rfl⟩

instance (p : Nat) : StopsFor (fun why => ¬ Segv why) (setP p) :=
  stopsFor_of_answers fun _ => ⟨_, _, rfl⟩

instance (flag : Bool) : StopsFor (fun why => ¬ Segv why) (setDwarf64 flag) :=
  stopsFor_of_answers fun _ => ⟨_, _, rfl⟩

instance (tab : Tab) : StopsFor (fun why => ¬ Segv why) (setTab tab) :=
  stopsFor_of_answers fun _ => ⟨_, _, rfl⟩

theorem stopsFor_stop {why : Stop} (noSegv : ∀ addr, why ≠ .fault (.segv addr)) :
    StopsFor (fun why => ¬ Segv why) (stop why : Parser α) :=
  ⟨fun ended => by
    cases ended
    rintro ⟨addr, isSegv⟩
    exact noSegv addr isSegv⟩

instance : StopsFor (fun why => ¬ Segv why) (stop .short : Parser α) := stopsFor_stop nofun

instance : StopsFor (fun why => ¬ Segv why) (stop .malformed : Parser α) := stopsFor_stop nofun

instance : StopsFor (fun why => ¬ Segv why) (stop (.fault .fuel) : Parser α) :=
  stopsFor_stop nofun

instance : StopsFor (fun why => ¬ Segv why) (stop (.fault .divZero) : Parser α) :=
  stopsFor_stop nofun

instance (array : ArrayName) (index : Nat) :
    StopsFor (fun why => ¬ Segv why) (stop (.fault (.index array index)) : Parser α) :=
  stopsFor_stop nofun

instance (array : ArrayName) (index size : Nat) :
    StopsFor (fun why => ¬ Segv why) (checkIndex array index size) := by
  unfold checkIndex
  infer_instance

instance (a b : Nat) : StopsFor (fun why => ¬ Segv why) (cDiv a b) := by
  unfold cDiv
  infer_instance

instance (a b : Nat) : StopsFor (fun why => ¬ Segv why) (cMod a b) := by
  unfold cMod
  infer_instance

instance (a : CArray α) (index : Nat) : StopsFor (fun why => ¬ Segv why) (a.read index) := by
  unfold CArray.read
  infer_instance

instance (a : CArray α) (index : Nat) (value : α) :
    StopsFor (fun why => ¬ Segv why) (a.write index value) := by
  unfold CArray.write
  infer_instance

instance (text : List UInt8) : StopsFor (fun why => ¬ Segv why) (bwAddStr text) := by
  unfold bwAddStr
  infer_instance

instance (off : Nat) : StopsFor (fun why => ¬ Segv why) (poolStr off) := by
  unfold poolStr
  refine @StopsFor.bind _ _ _ _ _ _ _ inferInstance fun tab => ?_
  split <;> infer_instance

instance (dirs : Dirs) (hasDir : Bool) (dirIdx : Nat) (path : List UInt8) :
    StopsFor (fun why => ¬ Segv why) (bwAddFile dirs hasDir dirIdx path) := by
  unfold bwAddFile
  infer_instance

instance (addr : Nat) (fileOff : Int) (line : Nat) :
    StopsFor (fun why => ¬ Segv why) (bwEmit addr fileOff line) := by
  unfold bwEmit
  infer_instance

instance (files : Files) (regs : Regs) :
    StopsFor (fun why => ¬ Segv why) (bwEmitRegs files regs) := by
  unfold bwEmitRegs
  infer_instance

instance (prologue : Prologue) (regs : Regs) (opAdvance : Nat) :
    StopsFor (fun why => ¬ Segv why) (bwAdvance img prologue regs opAdvance) := by
  unfold bwAdvance
  infer_instance

instance (prologue : Prologue) (files : Files) (op : Nat) (regs : Regs) :
    StopsFor (fun why => ¬ Segv why) (bwSpecial img prologue files op regs) := by
  unfold bwSpecial
  infer_instance

instance (n : Nat) : StopsFor (fun why => ¬ Segv why) (bwSkip img n) := by
  unfold bwSkip
  infer_instance

instance (unitLen offsetSize : Nat) :
    StopsFor (fun why => ¬ Segv why) (bwUnitEnd img unitLen offsetSize) := by
  unfold bwUnitEnd
  infer_instance

end Blindfold

/-! ### Readers -/

section Readers

variable {img : Image} {mem : Nat → Option UInt8} {same : SameBytes img mem}

theorem around_bwCurOk (c : Cur) (n : Nat) : bwCurOk (img.around mem same) c n = bwCurOk img c n :=
  rfl

theorem around_ptrAdd (p n : Nat) : (img.around mem same).ptrAdd p n = img.ptrAdd p n := rfl

theorem around_size (n : Nat) : (img.around mem same).size n = img.size n := rfl

theorem around_scanFuel : scanFuel (img.around mem same) = scanFuel img := rfl

theorem around_bwSkip (n : Nat) : bwSkip (img.around mem same) n = bwSkip img n := rfl

theorem around_bwUnitEnd (unitLen offsetSize : Nat) :
    bwUnitEnd (img.around mem same) unitLen offsetSize = bwUnitEnd img unitLen offsetSize :=
  rfl

theorem around_bwAdvance (prologue : Prologue) (regs : Regs) (opAdvance : Nat) :
    bwAdvance (img.around mem same) prologue regs opAdvance =
      bwAdvance img prologue regs opAdvance :=
  rfl

theorem around_bwSpecial (prologue : Prologue) (files : Files) (op : Nat) (regs : Regs) :
    bwSpecial (img.around mem same) prologue files op regs = bwSpecial img prologue files op regs :=
  rfl

/-- The bytes of a section are there, and the same in both memories. -/
theorem SameBytes.mem_sec (same : SameBytes img mem) (sec : SectionId) {addr : Nat}
    (present : (img.sec sec).ptr ≠ 0) (start : (img.sec sec).ptr ≤ addr)
    (below : addr < secEnd img sec) : (img.mem addr).isSome = true ∧ mem addr = img.mem addr := by
  unfold secEnd at below
  have isIndex : (img.sec sec).ptr + (addr - (img.sec sec).ptr) = addr := by omega
  have mapped := (img.placed sec present).2 (addr - (img.sec sec).ptr) (by omega)
  have equal := same sec present (addr - (img.sec sec).ptr) (by omega)
  rw [isIndex] at mapped equal
  exact ⟨mapped, equal⟩

theorem peek_around (sec : SectionId) (present : (img.sec sec).ptr ≠ 0) {addr n : Nat}
    (start : (img.sec sec).ptr ≤ addr) (fits : addr + n ≤ secEnd img sec) :
    ∃ bytes, peek img addr n = .ok bytes ∧ peek (img.around mem same) addr n = .ok bytes := by
  induction n generalizing addr with
  | zero => exact ⟨[], rfl, rfl⟩
  | succ n inductionHypothesis =>
      have noWrap : secEnd img sec < 2 ^ img.bits := (img.placed sec present).1
      obtain ⟨mapped, equal⟩ := same.mem_sec sec present start (by omega)
      obtain ⟨byte, there⟩ := Option.isSome_iff_exists.mp mapped
      obtain ⟨bytes, one, two⟩ :=
        inductionHypothesis (show (img.sec sec).ptr ≤ addr + 1 by omega) (by omega)
      have next : img.ptrAdd addr 1 = addr + 1 := Nat.mod_eq_of_lt (by omega)
      have thereToo : (img.around mem same).mem addr = some byte := equal.trans there
      refine ⟨byte :: bytes, ?_, ?_⟩
      · rw [peek, there, next]
        dsimp only
        rw [one]
        rfl
      · rw [peek, thereToo, around_ptrAdd, next]
        dsimp only
        rw [two]
        rfl

/-- A checked read from inside the section. -/
theorem Tidy.peek {s : State} (tidy : Tidy img s) (terminated : AllTerminated img s) {n : Nat}
    (room : bwCurOk img s.cur n = true) :
    ∃ bytes, peek img s.cur.p n = .ok bytes ∧ peek (img.around mem same) s.cur.p n = .ok bytes := by
  have fits := (ptrAdd_of_inside (tidy.inside terminated) room).2
  exact peek_around .line tidy.present (tidy.ranged terminated).1 (tidy.endp ▸ fits)

/-- What a run does from a state in order in which all strings have ended. -/
theorem coincide_of_terminated {α : Type} {m₁ m₂ : Parser α} {s : State}
    [grown : Develops (Grown img) m₁]
    (run : AllTerminated img s → m₂ s = m₁ s ∧ ∀ why t, m₁ s = .error why t → ¬ Segv why) :
    Coincide (AllTerminated img) Segv (m₁ s) (m₂ s) := by
  refine Coincide.intro (fun a t ended terminated => ?_) fun why t ended terminated => ?_
  · have more : Grown img s t := Develops.ok ended
    exact (run (terminated.before more)).1.trans ended
  · have more : Grown img s t := Develops.error ended
    obtain ⟨sameRun, free⟩ := run (terminated.before more)
    exact ⟨sameRun.trans ended, free why t ended⟩

/-- The same of an action that scans no string. -/
theorem Tidy.run {α : Type} {m₁ m₂ : Parser α} {s : State} [Develops (Runs img) m₁]
    [enclosed : Enclosed img m₁ m₂] (tidy : Tidy img s) (terminated : AllTerminated img s) :
    m₂ s = m₁ s ∧ ∀ why t, m₁ s = .error why t → ¬ Segv why := by
  have run := enclosed.coincide tidy
  have later : ∀ t, Runs img s t → AllTerminated img t :=
    fun t runs => terminated.of_scans runs.scans
  constructor
  · cases ended : m₁ s with
    | ok a t => exact run.ok ended (later t (Develops.ok ended))
    | error why t => exact (run.error ended (later t (Develops.error ended))).1
  · intro why t ended
    exact (run.error ended (later t (Develops.error ended))).2

theorem not_segv_short : ¬ Segv .short := by
  rintro ⟨addr, isSegv⟩
  cases isSegv

instance (n : Nat) : Enclosed img (bwUint img n) (bwUint (img.around mem same) n) where
  coincide {s} tidy := by
    refine coincide_of_terminated fun terminated => ?_
    rw [bwUint_run, bwUint_run, around_bwCurOk]
    by_cases room : bwCurOk img s.cur n = true
    · obtain ⟨bytes, one, two⟩ : ∃ bytes, peek img s.cur.p n = .ok bytes ∧
          peek (img.around mem same) s.cur.p n = .ok bytes := tidy.peek terminated room
      rw [if_pos room, if_pos room, one, two]
      exact ⟨rfl, nofun⟩
    · rw [if_neg room, if_neg room]
      refine ⟨rfl, fun why t ended => ?_⟩
      cases ended
      exact not_segv_short

instance : Enclosed img (bwU8 img) (bwU8 (img.around mem same)) := by unfold bwU8; infer_instance
instance : Enclosed img (bwU16 img) (bwU16 (img.around mem same)) := by
  unfold bwU16
  infer_instance
instance : Enclosed img (bwU32 img) (bwU32 (img.around mem same)) := by
  unfold bwU32
  infer_instance
instance : Enclosed img (bwU64 img) (bwU64 (img.around mem same)) := by
  unfold bwU64
  infer_instance

instance (n : Nat) : Enclosed img (bwSkip img n) (bwSkip (img.around mem same) n) := by
  rw [around_bwSkip]
  infer_instance

instance enclosed_bwUlebFrom (fuel r shift : Nat) :
    Enclosed img (bwUlebFrom img fuel r shift) (bwUlebFrom (img.around mem same) fuel r shift) := by
  induction fuel generalizing r shift with
  | zero => unfold bwUlebFrom; infer_instance
  | succ fuel inductionHypothesis => unfold bwUlebFrom; infer_instance

instance : Enclosed img (bwUleb img) (bwUleb (img.around mem same)) := by
  unfold bwUleb
  infer_instance

instance enclosed_bwSlebFrom (fuel r shift : Nat) :
    Enclosed img (bwSlebFrom img fuel r shift) (bwSlebFrom (img.around mem same) fuel r shift) := by
  induction fuel generalizing r shift with
  | zero => unfold bwSlebFrom; infer_instance
  | succ fuel inductionHypothesis => unfold bwSlebFrom; infer_instance

instance : Enclosed img (bwSleb img) (bwSleb (img.around mem same)) := by
  unfold bwSleb
  infer_instance

instance enclosed_pathString (fuel : Nat) :
    Enclosed img (pathString img fuel) (pathString (img.around mem same) fuel) := by
  induction fuel with
  | zero => unfold pathString; infer_instance
  | succ fuel inductionHypothesis =>
      rw [pathString_succ, pathString_succ]
      infer_instance

instance (fuel : Nat) :
    Enclosed img (skipString img fuel) (skipString (img.around mem same) fuel) := by
  rw [skipString_eq, skipString_eq]
  infer_instance

instance (form offsetSize : Nat) :
    Enclosed img (bwFormSkip img form offsetSize)
      (bwFormSkip (img.around mem same) form offsetSize) := by
  unfold bwFormSkip
  simp only [around_size, around_scanFuel]
  cases Form.ofCode form <;> infer_instance

instance (form : Nat) :
    Enclosed img (bwFormUdata img form) (bwFormUdata (img.around mem same) form) := by
  unfold bwFormUdata
  cases Form.ofCode form <;> infer_instance

instance (offsetSize : Nat) :
    Enclosed img (bwOffset img offsetSize) (bwOffset (img.around mem same) offsetSize) := by
  unfold bwOffset
  infer_instance

set_option synthInstance.maxSize 512 in
instance enclosed_bwFormatPairs (n i : Nat) (lnct form : CArray Nat) :
    Enclosed img (bwFormatPairs img n i lnct form)
      (bwFormatPairs (img.around mem same) n i lnct form) := by
  induction n generalizing i lnct form with
  | zero => unfold bwFormatPairs; infer_instance
  | succ n inductionHypothesis => unfold bwFormatPairs; infer_instance

instance (lnct form : CArray Nat) :
    Enclosed img (bwFormats img lnct form) (bwFormats (img.around mem same) lnct form) := by
  unfold bwFormats
  infer_instance

instance (version : Nat) :
    Enclosed img (bwAddrSeg img version) (bwAddrSeg (img.around mem same) version) := by
  unfold bwAddrSeg
  infer_instance

instance : Enclosed img (bwHeaderLength img) (bwHeaderLength (img.around mem same)) := by
  unfold bwHeaderLength
  infer_instance

instance (version : Nat) :
    Enclosed img (bwMaxOps img version) (bwMaxOps (img.around mem same) version) := by
  unfold bwMaxOps
  infer_instance

instance (unitLen offsetSize : Nat) :
    Enclosed img (bwUnitEnd img unitLen offsetSize)
      (bwUnitEnd (img.around mem same) unitLen offsetSize) := by
  rw [around_bwUnitEnd]
  infer_instance

set_option synthInstance.maxSize 512 in
instance : Enclosed img (bwUnitLength img) (bwUnitLength (img.around mem same)) := by
  unfold bwUnitLength
  infer_instance

instance enclosed_bwStdLens (n op : Nat) (stdLen : CArray Nat) :
    Enclosed img (bwStdLens img n op stdLen) (bwStdLens (img.around mem same) n op stdLen) := by
  induction n generalizing op stdLen with
  | zero => unfold bwStdLens; infer_instance
  | succ n inductionHypothesis => unfold bwStdLens; infer_instance

set_option synthInstance.maxSize 512 in
instance (unitEnd prog offsetSize version addrSize minInst maxOps : Nat) :
    Enclosed img (bwOpcodeHeader img unitEnd prog offsetSize version addrSize minInst maxOps)
      (bwOpcodeHeader (img.around mem same) unitEnd prog offsetSize version addrSize minInst
        maxOps) := by
  unfold bwOpcodeHeader
  infer_instance

instance (unitEnd prog offsetSize version addrSize : Nat) :
    Enclosed img (bwHeaderRest img unitEnd prog offsetSize version addrSize)
      (bwHeaderRest (img.around mem same) unitEnd prog offsetSize version addrSize) := by
  unfold bwHeaderRest
  infer_instance

set_option synthInstance.maxSize 512 in
instance : Enclosed img (bwPrologue img) (bwPrologue (img.around mem same)) := by
  unfold bwPrologue
  -- The program start is compared with the unit end alike.
  change Enclosed img _ (do
    let (unitEnd, offsetSize) ← bwUnitLength (img.around mem same)
    let version ← bwU16 (img.around mem same)
    let (addrSize, segSize) ← bwAddrSeg (img.around mem same) version
    if segSize ≠ 0 then
      let c ← getCur
      pure (.skip unitEnd c.p c.p)
    else
      let headerLen ← bwHeaderLength (img.around mem same)
      let c ← getCur
      let prog := img.ptrAdd c.p (img.size headerLen)
      if unitEnd < prog then stop .malformed
      else bwHeaderRest (img.around mem same) unitEnd prog offsetSize version addrSize)
  infer_instance

end Readers

/-! ### Strings -/

section Strings

variable {img : Image} {mem : Nat → Option UInt8} {same : SameBytes img mem} {s : State}

/-- A string that ends in its section is the same string in both memories. -/
theorem cstrIn_around {sec : SectionId} (same : SameBytes img mem)
    (present : (img.sec sec).ptr ≠ 0) {fuel addr : Nat} {bytes : List UInt8}
    (start : (img.sec sec).ptr ≤ addr) (ends : addr + bytes.length + 1 ≤ secEnd img sec)
    (found : cstrIn img.mem fuel addr = .ok bytes) : cstrIn mem fuel addr = .ok bytes := by
  induction fuel generalizing addr bytes with
  | zero => cases found
  | succ fuel inductionHypothesis =>
      rw [cstrIn_succ_eq_ok, (same.mem_sec sec present start (by omega)).2]
      obtain ⟨zero, rfl⟩ | ⟨byte, tail, byteThere, nonzero, rest, rfl⟩ :=
        cstrIn_succ_eq_ok.mp found
      · exact Or.inl ⟨zero, rfl⟩
      · rw [List.length_cons] at ends
        exact Or.inr ⟨byte, tail, byteThere, nonzero,
          inductionHypothesis (by omega) (by omega) rest, rfl⟩

/-- A `strlen` that is logged as terminated. -/
theorem strlen_coincide {sec : SectionId} {addr : Nat} {after : Nat → Nat}
    (present : (img.sec sec).ptr ≠ 0) (start : AllTerminated img s → (img.sec sec).ptr ≤ addr) :
    Coincide (AllTerminated img) Segv (strlen img sec addr after s)
      (strlen (img.around mem same) sec addr after s) := by
  have stays : ∀ scan : Scan, scan.sec = sec → scan.lo = addr →
      AllTerminated img { s with scans := s.scans ++ [scan] } →
      ∃ bytes, cstrIn img.mem (2 ^ img.bits - addr) addr = .ok bytes ∧
        cstrIn mem (2 ^ img.bits - addr) addr = .ok bytes := by
    intro scan ofSec fromAddr terminated
    have earlier : AllTerminated img s :=
      fun other member => terminated other (List.mem_append_left _ member)
    obtain ⟨index, further, below, zero⟩ :=
      terminated scan (List.mem_append_right _ (List.mem_singleton_self _))
    rw [ofSec] at below
    rw [fromAddr] at further
    obtain ⟨bytes, found, fits⟩ := cstrIn_confined present (start earlier) further below zero
    exact ⟨bytes, found, cstrIn_around same present (start earlier) fits found⟩
  rw [strlen_run, strlen_run]
  cases scanned : cstrIn img.mem (2 ^ img.bits - addr) addr with
  | ok bytes =>
      refine fun terminated => ?_
      obtain ⟨bytes', found, foundToo⟩ := stays _ rfl rfl terminated
      cases scanned.symm.trans found
      rw [show cstrIn (img.around mem same).mem (2 ^ (img.around mem same).bits - addr) addr =
        .ok bytes from foundToo]
  | error last =>
      refine fun terminated => ?_
      obtain ⟨bytes, found, -⟩ := stays _ rfl rfl terminated
      cases scanned.symm.trans found

theorem around_sec (sec : SectionId) : (img.around mem same).sec sec = img.sec sec := by
  cases sec <;> rfl

instance (sec : SectionId) (offsetSize : Nat) :
    Enclosed img (pathStrp img sec offsetSize) (pathStrp (img.around mem same) sec offsetSize) where
  coincide {s} tidy := by
    unfold pathStrp
    refine coincide_bind (Enclosed.coincide tidy) fun off t _ => ?_
    rw [around_sec]
    refine Coincide.ite (fun _ => Coincide.same t) fun inSection => ?_
    rw [not_or, Nat.not_le] at inSection
    rw [bind_of_ok (show getCur t = .ok t.cur t from rfl),
      bind_of_ok (show getCur t = .ok t.cur t from rfl)]
    exact strlen_coincide inSection.1 fun _ => Nat.le_add_right _ _

instance (form offsetSize : Nat) :
    Enclosed img (bwFormPath img form offsetSize)
      (bwFormPath (img.around mem same) form offsetSize) := by
  unfold bwFormPath
  simp only [around_scanFuel]
  cases Form.ofCode form <;> infer_instance

end Strings

/-! ### Tables -/

section Tables

variable {img : Image} {mem : Nat → Option UInt8} {same : SameBytes img mem} {s : State}

instance enclosed_bwDirEntry (formats : Formats) (offsetSize n f : Nat) (path : List UInt8) :
    Enclosed img (bwDirEntry img formats offsetSize n f path)
      (bwDirEntry (img.around mem same) formats offsetSize n f path) := by
  induction n generalizing f path with
  | zero => unfold bwDirEntry; infer_instance
  | succ n inductionHypothesis => unfold bwDirEntry; infer_instance

instance enclosed_bwDirsV5 (formats : Formats) (offsetSize n : Nat) (dirs : Dirs) :
    Enclosed img (bwDirsV5 img formats offsetSize n dirs)
      (bwDirsV5 (img.around mem same) formats offsetSize n dirs) := by
  induction n generalizing dirs with
  | zero => unfold bwDirsV5; infer_instance
  | succ n inductionHypothesis => unfold bwDirsV5; infer_instance

set_option synthInstance.maxSize 512 in
instance enclosed_bwFileEntry (formats : Formats) (offsetSize n f : Nat) (entry : FileEntry) :
    Enclosed img (bwFileEntry img formats offsetSize n f entry)
      (bwFileEntry (img.around mem same) formats offsetSize n f entry) := by
  induction n generalizing f entry with
  | zero => unfold bwFileEntry; infer_instance
  | succ n inductionHypothesis => unfold bwFileEntry; infer_instance

instance enclosed_bwFilesV5 (formats : Formats) (offsetSize : Nat) (dirs : Dirs) (n : Nat)
    (files : Files) :
    Enclosed img (bwFilesV5 img formats offsetSize dirs n files)
      (bwFilesV5 (img.around mem same) formats offsetSize dirs n files) := by
  induction n generalizing files with
  | zero => unfold bwFilesV5; infer_instance
  | succ n inductionHypothesis => unfold bwFilesV5; infer_instance

set_option synthInstance.maxSize 512 in
instance (offsetSize : Nat) :
    Enclosed img (bwTablesV5 img offsetSize) (bwTablesV5 (img.around mem same) offsetSize) := by
  unfold bwTablesV5
  infer_instance

instance : Enclosed img (bwDirV2 img) (bwDirV2 (img.around mem same)) where
  coincide {s} tidy := by
    rw [bwDirV2, bwDirV2, bind_of_ok (show getCur s = .ok s.cur s from rfl),
      bind_of_ok (show getCur s = .ok s.cur s from rfl)]
    refine coincide_bind (strlen_coincide tidy.present fun terminated =>
      (tidy.ranged terminated).1) fun name t _ => ?_
    exact Coincide.same t

instance {α : Type} (list : α) :
    Enclosed img (bwListEnd img list) (bwListEnd (img.around mem same) list) := by
  unfold bwListEnd
  infer_instance

theorem load_unmoved {addr : Nat} {byte : UInt8} {t : State}
    (loaded : load img addr s = .ok byte t) :
    t = s := by
  rw [load_run] at loaded
  cases there : img.mem addr with
  | none => rw [there] at loaded; cases loaded
  | some byte => rw [there] at loaded; cases loaded; rfl

/-- The head of the two string list loops. -/
theorem listHead_coincide {α : Type} (list : α) (more : UInt8 → Prop)
    [∀ byte, Decidable (more byte)] {one two : Parser α} [Develops (Grown img) one]
    (tidy : Tidy img s) (next : Coincide (AllTerminated img) Segv (one s) (two s)) :
    Coincide (AllTerminated img) Segv
      ((do
        let c ← getCur
        if bwCurOk img c 1 then
          let first ← load img c.p
          if more first then one else bwListEnd img list
        else bwListEnd img list) s)
      ((do
        let c ← getCur
        if bwCurOk (img.around mem same) c 1 then
          let first ← load (img.around mem same) c.p
          if more first then two else bwListEnd (img.around mem same) list
        else bwListEnd (img.around mem same) list) s) := by
  rw [bind_of_ok (show getCur s = .ok s.cur s from rfl),
    bind_of_ok (show getCur s = .ok s.cur s from rfl), around_bwCurOk]
  refine Coincide.ite (fun room => ?_) fun _ => Enclosed.coincide tidy
  refine coincide_bind (coincide_of_terminated fun terminated => ?_) fun first t loaded => ?_
  · have fits := (ptrAdd_of_inside (tidy.inside terminated) room).2
    obtain ⟨mapped, equal⟩ := same.mem_sec .line tidy.present (tidy.ranged terminated).1
      (tidy.endp ▸ fits)
    obtain ⟨byte, there⟩ := Option.isSome_iff_exists.mp mapped
    have thereToo : (img.around mem same).mem s.cur.p = some byte := equal.trans there
    rw [load_run, load_run, there, thereToo]
    exact ⟨rfl, nofun⟩
  · rw [load_unmoved loaded]
    exact Coincide.ite (fun _ => next) fun _ => Enclosed.coincide tidy

instance enclosed_bwDirsV2 (fuel : Nat) (dirs : Dirs) :
    Enclosed img (bwDirsV2 img fuel dirs) (bwDirsV2 (img.around mem same) fuel dirs) := by
  induction fuel generalizing dirs with
  | zero => unfold bwDirsV2; infer_instance
  | succ fuel inductionHypothesis =>
      exact ⟨fun tidy => listHead_coincide dirs
        (fun first => first ≠ 0 ∧ dirs.ndir < bwDwarfDirsMax) tidy (Enclosed.coincide tidy)⟩

instance (dirs : Dirs) :
    Enclosed img (bwFileV2 img dirs) (bwFileV2 (img.around mem same) dirs) where
  coincide {s} tidy := by
    rw [bwFileV2, bwFileV2, bind_of_ok (show getCur s = .ok s.cur s from rfl),
      bind_of_ok (show getCur s = .ok s.cur s from rfl)]
    refine coincide_bind (strlen_coincide tidy.present fun terminated =>
      (tidy.ranged terminated).1) fun name t scanned => ?_
    obtain ⟨tidyT, sameCur, ranged⟩ := (strlen_line_tidy tidy).ok scanned
    rw [around_ptrAdd,
      bind_of_ok (show setP (img.ptrAdd s.cur.p (name.length + 1)) t = .ok () _ from rfl),
      bind_of_ok (show setP (img.ptrAdd s.cur.p (name.length + 1)) t = .ok () _ from rfl)]
    exact Enclosed.coincide (tidyT.setP fun terminated => sameCur ▸ ranged terminated)

instance enclosed_bwFilesV2 (dirs : Dirs) (fuel : Nat) (files : Files) :
    Enclosed img (bwFilesV2 img dirs fuel files)
      (bwFilesV2 (img.around mem same) dirs fuel files) := by
  induction fuel generalizing files with
  | zero => unfold bwFilesV2; infer_instance
  | succ fuel inductionHypothesis =>
      exact ⟨fun tidy => listHead_coincide files
        (fun first => first ≠ 0 ∧ files.nfile < bwDwarfFilesMax) tidy (Enclosed.coincide tidy)⟩

set_option synthInstance.maxSize 512 in
instance : Enclosed img (bwTablesV2 img) (bwTablesV2 (img.around mem same)) := by
  unfold bwTablesV2
  infer_instance

instance (prologue : Prologue) :
    Enclosed img (bwTables img prologue) (bwTables (img.around mem same) prologue) := by
  unfold bwTables
  infer_instance

end Tables

/-! ### Line program -/

section Program

variable {img : Image} {mem : Nat → Option UInt8} {same : SameBytes img mem} {s : State}
  {prologue : Prologue} {files : Files}

instance (addr : Nat) (fileOff : Int) (line : Nat) :
    Develops (TidyAfter img) (bwEmit addr fileOff line) where
  after s := by
    intro tidy
    unfold stateAfter
    rw [bwEmit_run]
    split_ifs
    · exact tidy
    · exact ⟨⟨tidy.examined, tidy.confined⟩, tidy.present, tidy.endp, tidy.ranged⟩

instance (regs : Regs) : Develops (TidyAfter img) (bwEmitRegs files regs) := by
  unfold bwEmitRegs
  infer_instance

instance (op : Nat) (regs : Regs) :
    Develops (TidyAfter img) (bwSpecial img prologue files op regs) := by
  unfold bwSpecial
  infer_instance

/-- After an extended opcode the cursor is at an end that was checked. -/
instance (regs : Regs) : Develops (TidyAfter img) (bwExtended img prologue regs) := by
  refine develops_of_outcome img fun s tidy => ?_
  unfold bwExtended
  refine Outcome.bind (outcome_of_develops img tidy) fun insnLen t _ tidyT => ?_
  rw [bind_of_ok (show getCur t = .ok t.cur t from rfl)]
  refine Outcome.ite (fun _ => tidyT) fun _ => Outcome.ite (fun room => ?_) fun _ => tidyT
  have landed : ∀ u : State, Reads img t u →
      Tidy img { u with cur := { u.cur with p := img.ptrAdd t.cur.p (img.size insnLen) } } := by
    intro u reads
    refine (reads.tidy tidyT).setP fun terminated => ?_
    have earlier : AllTerminated img t := AllTerminated.of_scans terminated reads.scans.symm
    have start := (tidyT.ranged earlier).1
    obtain ⟨stepped, fits⟩ := ptrAdd_of_inside (tidyT.inside earlier) room
    rw [stepped, reads.endp]
    exact ⟨by omega, fits⟩
  refine Outcome.bind (outcome_of_develops img tidyT) fun ext u ended tidyU => ?_
  have readsU : Reads img t u := Develops.ok ended
  refine Outcome.ite (fun _ => landed u readsU) fun _ => Outcome.ite (fun _ => ?_) fun _ =>
    landed u readsU
  refine Outcome.bind (outcome_of_develops img tidyU) fun addr v ended' _ => ?_
  have readsV : Reads img u v := Develops.ok ended'
  exact landed v (trans_of (Reads img) readsU readsV)

instance (op : Nat) (regs : Regs) :
    Develops (TidyAfter img) (bwStandard img prologue files op regs) := by
  unfold bwStandard
  infer_instance

instance (regs : Regs) : Develops (TidyAfter img) (bwOpcode img prologue files regs) := by
  unfold bwOpcode
  infer_instance

instance : Enclosed img (bwSetAddressOperand img prologue)
    (bwSetAddressOperand (img.around mem same) prologue) := by
  unfold bwSetAddressOperand
  infer_instance

set_option synthInstance.maxSize 512 in
instance (regs : Regs) :
    Enclosed img (bwExtended img prologue regs)
      (bwExtended (img.around mem same) prologue regs) where
  coincide {s} tidy := by
    unfold bwExtended
    refine coincide_bind (Enclosed.coincide tidy) fun insnLen t ended => ?_
    have tidyT : Tidy img t := Develops.ok (R := TidyAfter img) ended tidy
    rw [bind_of_ok (show getCur t = .ok t.cur t from rfl),
      bind_of_ok (show getCur t = .ok t.cur t from rfl), around_bwCurOk, around_size, around_ptrAdd]
    refine Coincide.ite (fun _ => Coincide.same t) fun _ =>
      Coincide.ite (fun _ => ?_) fun _ => Coincide.same t
    simp only [around_size]
    exact Enclosed.coincide tidyT

instance enclosed_bwSkipOperands (n : Nat) :
    Enclosed img (bwSkipOperands img n) (bwSkipOperands (img.around mem same) n) := by
  induction n with
  | zero => unfold bwSkipOperands; infer_instance
  | succ n inductionHypothesis =>
      refine ⟨fun {s} tidy => coincide_of_terminated fun terminated => ?_⟩
      have read : bwUleb (img.around mem same) s = bwUleb img s ∧
          ∀ why t, bwUleb img s = .error why t → ¬ Segv why := tidy.run terminated
      obtain ⟨sameRead, free⟩ := read
      cases read : bwUleb img s with
      | ok value t =>
          have reads : Reads img s t := Develops.ok read
          rw [bwSkipOperands_of_ok img read, bwSkipOperands_of_ok _ (sameRead.trans read)]
          exact (reads.tidy tidy).run (terminated.of_scans reads.scans)
      | error why t =>
          -- No fault but that of an unmapped address is left.
          have noFault : ∀ fault, why ≠ .fault fault := by
            rintro fault rfl
            have benign := (inferInstance : Reader img (bwUleb img)).benign.reason read
            cases fault with
            | segv addr => exact free _ t read ⟨addr, rfl⟩
            | index array index => exact benign
            | divZero => exact benign
            | fuel => exact benign
          rw [bwSkipOperands_of_refused img read noFault,
            bwSkipOperands_of_refused _ (sameRead.trans read) noFault]
          exact ⟨rfl, nofun⟩

set_option synthInstance.maxSize 512 in
instance (op : Nat) (regs : Regs) :
    Enclosed img (bwStandard img prologue files op regs)
      (bwStandard (img.around mem same) prologue files op regs) := by
  unfold bwStandard
  simp only [around_bwAdvance, around_size]
  infer_instance

instance (regs : Regs) :
    Enclosed img (bwOpcode img prologue files regs)
      (bwOpcode (img.around mem same) prologue files regs) := by
  unfold bwOpcode
  simp only [around_bwSpecial]
  infer_instance

/-- The opcode loop, which scans no string. -/
theorem bwOpcodeLoop_enclosed {fuel : Nat} {regs : Regs} (same : SameBytes img mem)
    (tidy : Tidy img s) (terminated : AllTerminated img s) :
    bwOpcodeLoop (img.around mem same) prologue files fuel regs s =
        bwOpcodeLoop img prologue files fuel regs s ∧
      ∀ why t, bwOpcodeLoop img prologue files fuel regs s = .error why t → ¬ Segv why := by
  induction fuel generalizing s regs with
  | zero =>
      refine ⟨rfl, fun why t ended => ?_⟩
      cases ended
      rintro ⟨addr, isSegv⟩
      cases isSegv
  | succ fuel inductionHypothesis =>
      by_cases inUnit : s.cur.p < prologue.unitEnd
      · have run : bwOpcode (img.around mem same) prologue files regs s =
              bwOpcode img prologue files regs s ∧
            ∀ why t, bwOpcode img prologue files regs s = .error why t → ¬ Segv why :=
          tidy.run terminated
        obtain ⟨sameRun, free⟩ := run
        cases ended : bwOpcode img prologue files regs s with
        | ok regs' t =>
            have runs : Runs img s t := Develops.ok ended
            rw [bwOpcodeLoop_of_ok img prologue files inUnit ended,
              bwOpcodeLoop_of_ok _ prologue files inUnit (sameRun.trans ended)]
            exact inductionHypothesis (Develops.ok (R := TidyAfter img) ended tidy)
              (terminated.of_scans runs.scans)
        | error why t =>
            rw [bwOpcodeLoop_of_error img prologue files inUnit ended,
              bwOpcodeLoop_of_error _ prologue files inUnit (sameRun.trans ended)]
            cases why with
            | short => exact ⟨rfl, nofun⟩
            | malformed => exact ⟨rfl, nofun⟩
            | fault fault =>
                refine ⟨rfl, fun why t' stopped => ?_⟩
                cases stopped
                exact free _ t ended
      · rw [bwOpcodeLoop_done img prologue files inUnit,
          bwOpcodeLoop_done _ prologue files inUnit]
        exact ⟨rfl, nofun⟩

end Program

/-! ### Units -/

section Units

variable {img : Image} {mem : Nat → Option UInt8} {s : State} {tab : Tab}

theorem bwUnitBody_coincide {prologue : Prologue} (same : SameBytes img mem) (tidy : Tidy img s)
    (starts : ∀ files t, bwTables img prologue s = .ok files t → img.line.ptr ≤ prologue.prog)
    (within : AllTerminated img s → prologue.prog ≤ s.cur.endp) :
    Coincide (AllTerminated img) Segv (bwUnitBody img prologue s)
      (bwUnitBody (img.around mem same) prologue s) := by
  unfold bwUnitBody
  refine coincide_bind (Enclosed.coincide tidy) fun files t ended => ?_
  have grown : Grown img s t := Develops.ok ended
  have tidyT : Tidy img t := Develops.ok (R := TidyAfter img) ended tidy
  have entered : Tidy img { t with cur := { t.cur with p := prologue.prog } } :=
    tidyT.setP fun terminated =>
      ⟨starts files t ended, grown.endp ▸ within (AllTerminated.before grown terminated)⟩
  rw [bind_of_ok (show getCur t = .ok t.cur t from rfl),
    bind_of_ok (show getCur t = .ok t.cur t from rfl),
    bind_of_ok (show setP prologue.prog t = .ok () _ from rfl),
    bind_of_ok (show setP prologue.prog t = .ok () _ from rfl)]
  exact coincide_bind (coincide_of_terminated (bwOpcodeLoop_enclosed same entered))
    fun exit u _ => Coincide.same u

/-- A unit whose program does not begin before the section. -/
theorem bwParseUnit_coincide (same : SameBytes img mem) (ok : StateOk s) (tidy : Tidy img s)
    (starts : ∀ program, programOf img s = some program → img.line.ptr ≤ program.prologue.prog) :
    Coincide (AllTerminated img) Segv (bwParseUnit img s)
      (bwParseUnit (img.around mem same) s) := by
  unfold bwParseUnit
  refine @coincide_bind img _ _ _ _ _ _ _ (fun opening => ?_) (Enclosed.coincide tidy)
    fun opening t ended => ?_
  · cases opening with
    | skip unitEnd headerEnd prog => exact inferInstanceAs (Develops _ (setP unitEnd >>= _))
    | go prologue => exact inferInstanceAs (Develops _ (bwUnitBody img prologue))
  have reads : Reads img s t := Develops.ok ended
  cases opening with
  | skip unitEnd headerEnd prog => exact Coincide.same t
  | go prologue =>
      have beforeEnd := ((bwPrologue_safe ok).ok ended).2.2
      refine bwUnitBody_coincide same (reads.tidy tidy) (fun files u read => ?_)
        fun terminated => ?_
      · exact starts ⟨prologue, files, { u with cur := { u.cur with p := prologue.prog } }⟩
          (programOf_eq_some.mpr ⟨t, u, ended, read, rfl⟩)
      · have earlier : AllTerminated img s := AllTerminated.of_scans terminated reads.scans.symm
        have fits := (bwPrologue_ends (tidy.inside earlier) ended).2
        rw [reads.endp]
        exact beforeEnd.trans fits

/-- No program of the section begins before the section. -/
def ProgramsInside (img : Image) (tab : Tab) : Prop :=
  ∀ s, UnitHead img tab s → ∀ program, programOf img s = some program →
    img.line.ptr ≤ program.prologue.prog

theorem bwUnits_coincide {fuel : Nat} (same : SameBytes img mem) (ok : TabOk tab)
    (programs : ProgramsInside img tab) (head : UnitHead img tab s) (tidy : Tidy img s) :
    Coincide (AllTerminated img) Segv (bwUnits img fuel s)
      (bwUnits (img.around mem same) fuel s) := by
  induction fuel generalizing s with
  | zero => exact Coincide.same (m := stop (.fault .fuel)) s
  | succ fuel inductionHypothesis =>
      unfold bwUnits
      by_cases more : s.cur.p < s.cur.endp
      · rw [if_pos more, if_pos more]
        have unit := bwParseUnit_coincide same (head.safe ok).1 tidy (programs s head)
        cases parsed : bwParseUnit img s with
        | ok exit t =>
            have next := inductionHypothesis (head.next more parsed)
              ((bwParseUnit_tidy tidy).ok parsed)
            refine Coincide.intro (fun _ u rest terminated => ?_) fun why u rest terminated => ?_
            · have grown : Grown img t u := Develops.ok rest
              rw [unit.ok parsed (AllTerminated.before grown terminated)]
              exact next.ok rest terminated
            · have grown : Grown img t u := Develops.error rest
              rw [unit.ok parsed (AllTerminated.before grown terminated)]
              exact next.error rest terminated
        | error why t =>
            cases why with
            | short => exact fun terminated => by rw [(unit.error parsed terminated).1]
            | malformed => exact fun terminated => by rw [(unit.error parsed terminated).1]
            | fault fault =>
                refine fun terminated => ?_
                rw [(unit.error parsed terminated).1]
                exact ⟨rfl, (unit.error parsed terminated).2⟩
      · rw [if_neg more, if_neg more]
        exact fun _ => rfl

end Units

/-! ### Whole parses -/

theorem tidy_startState {img : Image} (tab : Tab) (present : img.line.ptr ≠ 0) :
    Tidy img (startState img tab) :=
  ⟨⟨(fun _ member => nomatch member), (fun _ _ member => nomatch member)⟩, present, rfl,
    fun _ => ⟨le_refl _, Nat.le_add_right _ _⟩⟩

theorem TabOk.parse_enclosed {img : Image} {tab : Tab} (ok : TabOk tab) (qsort : Qsort)
    (strings : ∀ scan ∈ parseScans img tab, scan.Terminated img)
    (programs : ProgramsInside img tab) :
    ∃ value tab', bwDwarfTabParse img qsort tab = .returned value tab' ∧
      ∀ mem (same : SameBytes img mem),
        bwDwarfTabParse (img.around mem same) qsort tab = .returned value tab' := by
  by_cases absent : img.line.ptr = 0 ∨ img.line.len = 0
  · exact ⟨false, tab, if_pos absent, fun mem same => if_pos absent⟩
  · have present : img.line.ptr ≠ 0 := fun isNull => absent (Or.inl isNull)
    rw [parseScans, if_neg absent] at strings
    have run : ∀ {mem} (same : SameBytes img mem), Coincide (AllTerminated img) Segv
        (bwParseUnits img tab) (bwParseUnits (img.around mem same) tab) := fun same =>
      bwUnits_coincide same ok programs
        (.start present fun isEmpty => absent (Or.inr isEmpty)) (tidy_startState tab present)
    have here : SameBytes img img.mem := fun _ _ _ _ => rfl
    unfold unitsEnd at strings
    cases ended : bwParseUnits img tab with
    | error why s =>
        rw [show stateAfter _ (startState img tab) = s from stateAfter_of_error ended] at strings
        have crashed : Call.crash tab (.parse img qsort) = some why := by
          rw [Call.crash, bwDwarfTabParse, if_neg absent, ended]
        exact absurd (Call.crash_segv ok crashed) ((run here).error ended strings).2
    | ok _ s =>
        rw [show stateAfter _ (startState img tab) = s from stateAfter_of_ok ended] at strings
        have answer : ∀ other : Image, other.line = img.line → bwParseUnits other tab = .ok () s →
            bwDwarfTabParse other qsort tab =
              if s.tab.nrow = 0 then .returned false s.tab
              else .returned true { s.tab with rows := qsort.sort s.tab.rows } := by
          intro other sameLine parsed
          rw [bwDwarfTabParse, sameLine, if_neg absent, parsed]
        have elsewhere := fun mem (same : SameBytes img mem) =>
          answer (img.around mem same) rfl ((run same).ok ended strings)
        rw [answer img rfl ended]
        simp only [elsewhere]
        split_ifs
        · exact ⟨_, _, rfl, fun _ _ => rfl⟩
        · exact ⟨_, _, rfl, fun _ _ => rfl⟩

/-- A parse into a table that calls have left, of whose strings each ends in its
section and of whose programs none begins before the section, returns. What lies
around the sections makes no difference to what it returns and leaves. -/
theorem bwDwarfTabParse_enclosed (img : Image) (qsort : Qsort) (earlier : List Call) (tab : Tab)
    (left : afterCalls earlier Tab.zeroed = some tab)
    (strings : ∀ scan ∈ parseScans img tab, scan.Terminated img)
    (programs : ProgramsInside img tab) :
    ∃ value tab', bwDwarfTabParse img qsort tab = .returned value tab' ∧
      ∀ mem (same : SameBytes img mem),
        bwDwarfTabParse (img.around mem same) qsort tab = .returned value tab' :=
  (afterCalls_ok tabOk_zeroed left).parse_enclosed qsort strings programs

/-- The heads of a section that is one unit and less than another. -/
theorem UnitHead.of_one {img : Image} {tab : Tab} {s : State} (head : UnitHead img tab s)
    (last : ∀ exit t, (stateAfter (bwParseUnit img) (startState img tab)).cur.p <
        (stateAfter (bwParseUnit img) (startState img tab)).cur.endp →
      bwParseUnit img (stateAfter (bwParseUnit img) (startState img tab)) ≠ .ok exit t) :
    s = startState img tab ∨ s = stateAfter (bwParseUnit img) (startState img tab) := by
  induction head with
  | start _ _ => exact Or.inl rfl
  | @next s t exit _ more parsed inductionHypothesis =>
      rcases inductionHypothesis with rfl | rfl
      · exact Or.inr (stateAfter_of_ok parsed).symm
      · exact absurd parsed (last exit t more)

/-- The one string of `unitV2` ends in it, and its program begins in it. -/
theorem unitV2_enclosed : ∃ value tab',
    bwDwarfTabParse (lineImage unitV2) stableQsort Tab.zeroed = .returned value tab' ∧
      ∀ mem (same : SameBytes (lineImage unitV2) mem),
        bwDwarfTabParse ((lineImage unitV2).around mem same) stableQsort Tab.zeroed =
          .returned value tab' := by
  refine bwDwarfTabParse_enclosed (lineImage unitV2) stableQsort [] Tab.zeroed rfl ?_ ?_
  · have scans : parseScans (lineImage unitV2) Tab.zeroed =
        [⟨.line, 0x10013, 0x10015, 0x10015⟩] := by
      decide +kernel
    intro scan member
    rw [scans, List.mem_singleton] at member
    subst member
    exact ⟨0x10014, by decide, by decide, by decide⟩
  · have ends : ¬ (stateAfter (bwParseUnit (lineImage unitV2))
          (startState (lineImage unitV2) Tab.zeroed)).cur.p <
        (stateAfter (bwParseUnit (lineImage unitV2))
          (startState (lineImage unitV2) Tab.zeroed)).cur.endp := by
      decide +kernel
    have place : (programOf (lineImage unitV2) (startState (lineImage unitV2) Tab.zeroed)).map
        (·.prologue.prog) = some 0x10019 := by
      decide +kernel
    have none : (programOf (lineImage unitV2) (stateAfter (bwParseUnit (lineImage unitV2))
        (startState (lineImage unitV2) Tab.zeroed))).isNone = true := by
      decide +kernel
    intro s head program entered
    rcases head.of_one fun _ _ more => absurd more ends with isFirst | isNext
    · rw [← isFirst, entered] at place
      have begins : program.prologue.prog = 0x10019 := Option.some_inj.mp place
      rw [begins]
      decide
    · rw [← isNext, entered] at none
      cases none

end Backwalk.DwarfLine
