import Backwalk.DwarfLine.Growth
import Mathlib.Tactic.Linarith

/-!
Contract: the table invariant, kept by every function of `src/dwarf_line.c` on
every input, together with the absence of the faults that do not depend on
memory: no index outside an array, no zero divisor, no loop without end.

Owns `TabOk`, the facts about the local arrays that carry it through a unit
(`DirsOk`, `FilesOk`, `PrologueOk`), and one lemma per function. Does not own
the string scans: a `strlen` may still leave its section and fault.
-/

namespace Backwalk.DwarfLine

open Backwalk.Support

/-! ### The invariant -/

/-- A NUL byte at or after `off`, in the used part of the pool. -/
def OffOk (tab : Tab) (off : Nat) : Prop :=
  ∃ index, off ≤ index ∧ index < tab.nstr ∧ tab.strs index = 0

theorem OffOk.mono {tab tab' : Tab} {off : Nat} (more : Extends tab tab') (ok : OffOk tab off) :
    OffOk tab' off := by
  obtain ⟨index, after, below, zero⟩ := ok
  exact ⟨index, after, lt_of_lt_of_le below more.nstr, (more.strs index below).trans zero⟩

/-- An offset as the arrays hold it: `-1`, or one that denotes a string. -/
def SlotOk (tab : Tab) (off : Int) : Prop := 0 ≤ off → OffOk tab off.toNat

theorem SlotOk.mono {tab tab' : Tab} {off : Int} (more : Extends tab tab') (ok : SlotOk tab off) :
    SlotOk tab' off :=
  fun present => (ok present).mono more

structure RowOk (tab : Tab) (row : Row) : Prop where
  addr : row.addr ≠ 0
  line : 1 ≤ row.line
  lineWidth : row.line ≤ 0xffffffff
  name : OffOk tab row.nameOff

theorem RowOk.mono {tab tab' : Tab} {row : Row} (more : Extends tab tab') (ok : RowOk tab row) :
    RowOk tab' row :=
  ⟨ok.addr, ok.line, ok.lineWidth, ok.name.mono more⟩

/-- The table invariant. -/
structure TabOk (tab : Tab) : Prop where
  nrow : tab.nrow ≤ bwDwarfRowMax
  nstr : tab.nstr ≤ bwDwarfStrMax
  rows : ∀ row ∈ tab.rows, RowOk tab row

theorem tabOk_zeroed : TabOk Tab.zeroed :=
  ⟨Nat.zero_le _, Nat.zero_le _, fun _ member => nomatch member⟩

/-- The invariant along a run: it holds of the table and of each logged one, and
every logged table is extended by all that come later. -/
structure StateOk (s : State) : Prop where
  tab : TabOk s.tab
  tabs : ∀ tab ∈ s.tabs, TabOk tab
  later : ∀ tab ∈ s.tabs, Extends tab s.tab
  chain : s.tabs.Pairwise Extends

theorem StateOk.of_reads {img : Image} {s s' : State} (ok : StateOk s) (reads : Reads img s s') :
    StateOk s' := by
  obtain ⟨sameTab, -, sameTabs, -, -⟩ := reads
  exact ⟨sameTab ▸ ok.tab, sameTabs ▸ ok.tabs, sameTab ▸ sameTabs ▸ ok.later,
    sameTabs ▸ ok.chain⟩

/-- A change that extends the table and keeps its invariant keeps the state's. -/
theorem StateOk.setTab {s : State} {tab : Tab} (ok : StateOk s) (more : Extends s.tab tab)
    (tabOk : TabOk tab) : StateOk { s with tab := tab, tabs := s.tabs ++ [tab] } where
  tab := tabOk
  tabs := fun logged member => by
    rcases List.mem_append.mp member with earlier | last
    · exact ok.tabs logged earlier
    · rw [List.mem_singleton.mp last]
      exact tabOk
  later := fun logged member => by
    rcases List.mem_append.mp member with earlier | last
    · exact (ok.later logged earlier).trans more
    · rw [List.mem_singleton.mp last]
      exact Extends.refl tab
  chain := by
    refine List.pairwise_append.mpr ⟨ok.chain, List.pairwise_singleton _ _, ?_⟩
    intro logged member last isLast
    rw [List.mem_singleton.mp isLast]
    exact (ok.later logged member).trans more

/-! ### Safe runs -/

/-- A run that keeps the invariant, answers with `post` and stops for harmless
reasons only. -/
def Safe {α : Type} (post : α → State → Prop) : EStateM.Result Stop State α → Prop :=
  Outcome (fun a s => StateOk s ∧ post a s) fun why s => StateOk s ∧ Benign why

namespace Safe

variable {α β : Type} {s : State} {post : α → State → Prop}

theorem bind {m : Parser α} {f : α → Parser β} {mid : α → State → Prop}
    {final : β → State → Prop} (first : Safe mid (m s))
    (next : ∀ a t, m s = .ok a t → StateOk t → mid a t → Safe final (f a t)) :
    Safe final ((m >>= f) s) :=
  Outcome.bind first fun a t ended answered => next a t ended answered.1 answered.2

theorem mono {result : EStateM.Result Stop State α} {post' : α → State → Prop}
    (safe : Safe post result) (weaker : ∀ a t, result = .ok a t → post a t → post' a t) :
    Safe post' result :=
  Outcome.mono safe (fun a t ended answered => ⟨answered.1, weaker a t ended answered.2⟩)
    fun _ _ _ stopped => stopped

/-- Every reader is safe. -/
theorem ofReader (img : Image) {m : Parser α} [reader : Reader img m] (ok : StateOk s) :
    Safe (fun _ t => Reads img s t) (m s) := by
  refine Outcome.intro (fun a t ended => ?_) fun why t ended => ?_
  · have reads : Reads img s t := Develops.ok ended
    exact ⟨ok.of_reads reads, reads⟩
  · have reads : Reads img s t := Develops.error ended
    exact ⟨ok.of_reads reads, reader.benign.reason ended⟩

end Safe

/-! ### Elementary effects -/

section Effects

variable {α : Type} {s : State}

theorem checkIndex_safe {array : ArrayName} {index size : Nat} (ok : StateOk s)
    (below : index < size) : Safe (fun _ t => t = s) (checkIndex array index size s) := by
  rw [checkIndex, if_pos below]
  exact ⟨ok, rfl⟩

theorem read_safe {a : CArray α} {index : Nat} (ok : StateOk s) (below : index < a.size) :
    Safe (fun value t => value = a.cell index ∧ t = s) (a.read index s) := by
  rw [read_of_lt below]
  exact ⟨ok, rfl, rfl⟩

theorem write_safe {a : CArray α} {index : Nat} {value : α} (ok : StateOk s)
    (below : index < a.size) :
    Safe (fun b t => t = s ∧ b.size = a.size ∧ b.cell index = value ∧
      ∀ other ≠ index, b.cell other = a.cell other) (a.write index value s) := by
  rw [write_of_lt below]
  exact ⟨ok, rfl, rfl, if_pos rfl, fun other differs => if_neg differs⟩

theorem cDiv_safe {a b : Nat} (ok : StateOk s) (nonzero : b ≠ 0) :
    Safe (fun q t => q = a / b ∧ t = s) (cDiv a b s) := by
  rw [cDiv, if_neg nonzero]
  exact ⟨ok, rfl, rfl⟩

theorem cMod_safe {a b : Nat} (ok : StateOk s) (nonzero : b ≠ 0) :
    Safe (fun r t => r = a % b ∧ t = s) (cMod a b s) := by
  rw [cMod, if_neg nonzero]
  exact ⟨ok, rfl, rfl⟩

theorem strlen_safe {img : Image} {sec : SectionId} {addr : Nat} {after : Nat → Nat}
    (ok : StateOk s) : Safe (fun _ t => t.tab = s.tab) (strlen img sec addr after s) := by
  have logged : ∀ scan, StateOk { s with scans := s.scans ++ [scan] } :=
    fun scan => ⟨ok.tab, ok.tabs, ok.later, ok.chain⟩
  rw [strlen_run]
  cases cstrIn img.mem (2 ^ img.bits - addr) addr with
  | ok bytes => exact ⟨logged _, rfl⟩
  | error last => exact ⟨logged _, trivial⟩

end Effects

/-! ### Strings -/

section Strings

variable {s : State}

theorem addStrBytes_length (nstr : Nat) (text : List UInt8) (room : nstr + 1 ≤ bwDwarfStrMax) :
    nstr + (addStrBytes nstr text).length < bwDwarfStrMax := by
  have cut : ∀ n, ((text.take n).takeWhile fun byte => decide (byte ≠ 0)).length ≤ n :=
    fun n => (List.takeWhile_sublist _).length_le.trans (List.length_take_le n text)
  have short := cut (bwDwarfStrMax - nstr - 1)
  have whole := cut text.length
  unfold addStrBytes
  dsimp only
  split_ifs <;> omega

theorem writeBytes_end (strs : Nat → UInt8) (start : Nat) (bytes : List UInt8) :
    writeBytes strs start (bytes ++ [0]) (start + bytes.length) = 0 := by
  simp [writeBytes]

/-- Interning keeps the invariant and never leaves the pool. -/
theorem bwAddStr_safe (text : List UInt8) (ok : StateOk s) :
    Safe (fun off t => SlotOk t.tab off ∧ t.cur = s.cur) (bwAddStr text s) := by
  rw [bwAddStr_run]
  by_cases full : bwDwarfStrMax < s.tab.nstr + 1
  · rw [if_pos full]
    exact ⟨ok, fun present => absurd present (by decide), rfl⟩
  · have inside := addStrBytes_length s.tab.nstr text (by omega)
    rw [if_neg full, if_pos inside]
    have more : Extends s.tab { s.tab with
        strs := writeBytes s.tab.strs s.tab.nstr (addStrBytes s.tab.nstr text ++ [0])
        nstr := s.tab.nstr + (addStrBytes s.tab.nstr text).length + 1 } :=
      ⟨List.prefix_refl _, by simp only; omega, fun index below => writeBytes_below _ _ below⟩
    refine ⟨ok.setTab more ⟨ok.tab.nrow, by simp only; omega, fun row member => ?_⟩, ?_, rfl⟩
    · exact (ok.tab.rows row member).mono more
    · intro _
      exact ⟨s.tab.nstr + (addStrBytes s.tab.nstr text).length, by simp, by simp only; omega,
        writeBytes_end _ _ _⟩

/-- A NUL in range ends the string there or before. -/
theorem cstrFrom_isSome {strs : Nat → UInt8} (fuel : Nat) {off index : Nat} (after : off ≤ index)
    (below : index < off + fuel) (zero : strs index = 0) :
    ∃ text, cstrFrom strs fuel off = some text := by
  induction fuel generalizing off with
  | zero => omega
  | succ fuel inductionHypothesis =>
      rw [cstrFrom]
      split_ifs with here
      · exact ⟨[], rfl⟩
      · have further : off ≠ index := fun same => here (same ▸ zero)
        obtain ⟨text, found⟩ := inductionHypothesis (show off + 1 ≤ index by omega) (by omega)
        exact ⟨strs off :: text, by rw [found]; rfl⟩

/-- A string depends on its own bytes only, wherever they stand. -/
theorem cstrFrom_moved {strs strs' : Nat → UInt8} {fuel fuel' off off' : Nat} (dist : Nat)
    (same : ∀ k ≤ dist, strs' (off' + k) = strs (off + k)) (zero : strs (off + dist) = 0)
    (enough : dist < fuel) (enough' : dist < fuel') :
    cstrFrom strs' fuel' off' = cstrFrom strs fuel off := by
  induction fuel generalizing fuel' off off' dist with
  | zero => omega
  | succ fuel inductionHypothesis =>
      obtain ⟨fuel', rfl⟩ : ∃ n, fuel' = n + 1 := ⟨fuel' - 1, by omega⟩
      have here : strs' off' = strs off := same 0 (Nat.zero_le _)
      rw [cstrFrom, cstrFrom, here]
      split_ifs with ends
      · rfl
      · have further : dist ≠ 0 := fun atOnce => ends (by rwa [atOnce] at zero)
        obtain ⟨dist, rfl⟩ : ∃ n, dist = n + 1 := ⟨dist - 1, by omega⟩
        have moved : ∀ k ≤ dist, strs' (off' + 1 + k) = strs (off + 1 + k) := fun k within => by
          rw [Nat.add_assoc, Nat.add_assoc, Nat.add_comm 1 k]
          exact same (k + 1) (by omega)
        have last : strs (off + 1 + dist) = 0 := by rwa [Nat.add_assoc, Nat.add_comm 1 dist]
        rw [inductionHypothesis dist moved last (by omega) (by omega)]

theorem cstr_of_offOk {tab : Tab} {off : Nat} (present : OffOk tab off)
    (limit : tab.nstr ≤ bwDwarfStrMax) : tab.cstr off = some (tab.text off) := by
  obtain ⟨index, after, below, zero⟩ := present
  obtain ⟨text, found⟩ := cstrFrom_isSome (bwDwarfStrMax - off) after (by omega) zero
  rw [Tab.text, Tab.cstr, found]
  rfl

/-- An offset that is in order is read as the text it denotes. -/
theorem poolStr_of_offOk {off : Nat} (present : OffOk s.tab off)
    (limit : s.tab.nstr ≤ bwDwarfStrMax) : poolStr off s = .ok (s.tab.text off) s := by
  rw [poolStr, bind_of_ok (show getTab s = .ok s.tab s from rfl), cstr_of_offOk present limit]
  rfl

theorem poolStr_safe {off : Nat} (ok : StateOk s) (present : OffOk s.tab off) :
    Safe (fun _ t => t = s) (poolStr off s) := by
  rw [poolStr_of_offOk present ok.tab.nstr]
  exact ⟨ok, rfl⟩

theorem joinCopy_length {dstLen : Nat} (src dst : List UInt8) (room : dst.length < dstLen) :
    (joinCopy dstLen dst src).length < dstLen := by
  induction src generalizing dst with
  | nil => exact room
  | cons c rest inductionHypothesis =>
      rw [joinCopy]
      split_ifs with fits
      · exact inductionHypothesis _ (by simpa using fits)
      · exact room

theorem bwJoinPath_length {dstLen : Nat} (dir file : List UInt8) (room : 0 < dstLen) :
    (bwJoinPath dstLen dir file).length < dstLen := by
  unfold bwJoinPath
  refine joinCopy_length file _ ?_
  split_ifs with joins
  · have copied : (joinCopy dstLen [] dir).length < dstLen := joinCopy_length dir [] room
    dsimp only
    split
    · split_ifs with adds
      · simp only [Bool.and_eq_true, decide_eq_true_eq] at adds
        simpa using adds.2
      · exact copied
    · exact copied
  · exact room

end Strings

/-! ### Directory and file tables -/

/-- The first `count` cells of an offset array of `max` cells are filled. -/
structure SlotsOk (tab : Tab) (slots : CArray Int) (count max : Nat) : Prop where
  size : slots.size = max
  fits : count ≤ max
  slot : ∀ index < count, SlotOk tab (slots.cell index)

theorem SlotsOk.mono {tab tab' : Tab} {slots : CArray Int} {count max : Nat}
    (more : Extends tab tab') (ok : SlotsOk tab slots count max) : SlotsOk tab' slots count max :=
  ⟨ok.size, ok.fits, fun index below => (ok.slot index below).mono more⟩

def DirsOk (tab : Tab) (dirs : Dirs) : Prop :=
  SlotsOk tab dirs.dirOff dirs.ndir bwDwarfDirsMax

def FilesOk (tab : Tab) (files : Files) : Prop :=
  SlotsOk tab files.fileOff files.nfile bwDwarfFilesMax

structure FormatsOk (formats : Formats) : Prop where
  count : formats.count ≤ bwDwarfFmtMax
  lnct : formats.lnct.size = bwDwarfFmtMax
  form : formats.form.size = bwDwarfFmtMax

section Tables

variable {img : Image} {s : State}

/-- The next offset goes into the next cell. -/
theorem writeSlot_safe {slots : CArray Int} {count max : Nat} {off : Int} (ok : StateOk s)
    (filled : SlotsOk s.tab slots count max) (room : count < max) (slot : SlotOk s.tab off) :
    Safe (fun slots' t => t = s ∧ SlotsOk s.tab slots' (count + 1) max)
      (slots.write count off s) := by
  refine (write_safe ok (by rw [filled.size]; exact room)).mono fun slots' t _ written => ?_
  obtain ⟨same, size, last, others⟩ := written
  refine ⟨same, size.trans filled.size, room, fun index below => ?_⟩
  rcases Nat.lt_succ_iff_lt_or_eq.mp below with earlier | isLast
  · rw [others index (by omega)]
    exact filled.slot index earlier
  · rw [isLast, last]
    exact slot

theorem bwAddFile_safe {dirs : Dirs} {hasDir : Bool} {dirIdx : Nat} {path : List UInt8}
    (ok : StateOk s) (dirsOk : DirsOk s.tab dirs) :
    Safe (fun off t => SlotOk t.tab off ∧ t.cur = s.cur)
      (bwAddFile dirs hasDir dirIdx path s) := by
  unfold bwAddFile
  refine Outcome.ite (fun named => ?_) fun _ => bwAddStr_safe path ok
  refine Safe.bind (read_safe ok (by rw [dirsOk.size]; exact named.2.trans_le dirsOk.fits)) ?_
  rintro off t - - ⟨rfl, rfl⟩
  refine Outcome.ite (fun present => ?_) fun _ => bwAddStr_safe path ok
  refine Safe.bind (poolStr_safe ok (dirsOk.slot dirIdx named.2 present)) ?_
  rintro dir t - - rfl
  refine Safe.bind (checkIndex_safe ok (bwJoinPath_length dir path (by decide))) ?_
  rintro _ t - - rfl
  exact Outcome.ite (fun _ => ⟨ok, trivial⟩) fun _ => bwAddStr_safe _ ok

theorem bwFormatPairs_safe {n i : Nat} {lnct form : CArray Nat} (ok : StateOk s)
    (lnctSize : lnct.size = bwDwarfFmtMax) (formSize : form.size = bwDwarfFmtMax)
    (fits : i + n ≤ bwDwarfFmtMax) :
    Safe (fun arrays _ => arrays.1.size = bwDwarfFmtMax ∧ arrays.2.size = bwDwarfFmtMax)
      (bwFormatPairs img n i lnct form s) := by
  induction n generalizing s i lnct form with
  | zero => exact ⟨ok, lnctSize, formSize⟩
  | succ n inductionHypothesis =>
      unfold bwFormatPairs
      refine Safe.bind (Safe.ofReader img ok) fun contentType t _ okT _ => ?_
      refine Safe.bind (write_safe okT (by omega)) ?_
      rintro lnct' t - - ⟨rfl, lnctSize', -, -⟩
      refine Safe.bind (Safe.ofReader img okT) fun code u _ okU _ => ?_
      refine Safe.bind (write_safe okU (by omega)) ?_
      rintro form' u - - ⟨rfl, formSize', -, -⟩
      exact inductionHypothesis okU (lnctSize'.trans lnctSize) (formSize'.trans formSize) (by omega)

theorem bwFormats_safe {lnct form : CArray Nat} (ok : StateOk s)
    (lnctSize : lnct.size = bwDwarfFmtMax) (formSize : form.size = bwDwarfFmtMax) :
    Safe (fun formats _ => FormatsOk formats) (bwFormats img lnct form s) := by
  unfold bwFormats
  refine Safe.bind (Safe.ofReader img ok) fun count t _ okT _ => ?_
  refine Outcome.ite (fun _ => ⟨okT, trivial⟩) fun fits => ?_
  refine Safe.bind (bwFormatPairs_safe okT lnctSize formSize (by omega)) ?_
  rintro ⟨lnct', form'⟩ u - okU ⟨lnctSize', formSize'⟩
  exact ⟨okU, by simp only; omega, lnctSize', formSize'⟩

theorem pathStrp_safe {sec : SectionId} {offsetSize : Nat} (ok : StateOk s) :
    Safe (fun _ _ => True) (pathStrp img sec offsetSize s) := by
  unfold pathStrp
  refine Safe.bind (Safe.ofReader img ok) fun off t _ okT _ => ?_
  refine Outcome.ite (fun _ => ⟨okT, trivial⟩) fun _ => ?_
  refine Safe.bind (Safe.ofReader img okT) fun c u _ okU _ => ?_
  exact (strlen_safe okU).mono fun _ _ _ _ => trivial

theorem bwFormPath_safe {form offsetSize : Nat} (ok : StateOk s) :
    Safe (fun _ _ => True) (bwFormPath img form offsetSize s) := by
  unfold bwFormPath
  cases Form.ofCode form
  case string => exact (Safe.ofReader img ok).mono fun _ _ _ _ => trivial
  case lineStrp => exact pathStrp_safe ok
  case strp => exact pathStrp_safe ok
  all_goals
    refine Safe.bind (Safe.ofReader img ok) fun _ t _ okT _ => ?_
    exact ⟨okT, trivial⟩

theorem bwDirEntry_safe {formats : Formats} {offsetSize n f : Nat} {path : List UInt8}
    (ok : StateOk s) (formatsOk : FormatsOk formats) (fits : f + n ≤ formats.count) :
    Safe (fun _ _ => True) (bwDirEntry img formats offsetSize n f path s) := by
  induction n generalizing s f path with
  | zero => exact ⟨ok, trivial⟩
  | succ n inductionHypothesis =>
      have below : f < bwDwarfFmtMax := lt_of_lt_of_le (by omega) formatsOk.count
      unfold bwDirEntry
      refine Safe.bind (read_safe ok (by rw [formatsOk.lnct]; exact below)) ?_
      rintro contentType t - - ⟨-, rfl⟩
      refine Safe.bind (read_safe ok (by rw [formatsOk.form]; exact below)) ?_
      rintro code t - - ⟨-, rfl⟩
      refine Outcome.ite (fun _ => ?_) fun _ => ?_
      · refine Safe.bind (bwFormPath_safe ok) fun path' u _ okU _ => ?_
        exact inductionHypothesis okU (by omega)
      · refine Safe.bind (Safe.ofReader img ok) fun _ u _ okU _ => ?_
        exact inductionHypothesis okU (by omega)

theorem bwDirsV5_safe {formats : Formats} {offsetSize n : Nat} {dirs : Dirs} (ok : StateOk s)
    (formatsOk : FormatsOk formats) (dirsOk : DirsOk s.tab dirs)
    (fits : dirs.ndir + n ≤ bwDwarfDirsMax) :
    Safe (fun dirs' t => DirsOk t.tab dirs') (bwDirsV5 img formats offsetSize n dirs s) := by
  induction n generalizing s dirs with
  | zero => exact ⟨ok, dirsOk⟩
  | succ n inductionHypothesis =>
      unfold bwDirsV5
      refine Safe.bind (bwDirEntry_safe ok formatsOk (by omega)) fun path t ended okT _ => ?_
      have grownT : Grown img s t := Develops.ok ended
      refine Safe.bind (bwAddStr_safe path okT) fun off u ended' okU slot => ?_
      have grownU : Grown img t u := Develops.ok ended'
      have kept := (dirsOk.mono grownT.tab).mono grownU.tab
      refine Safe.bind (writeSlot_safe okU kept (by omega) slot.1) ?_
      rintro dirOff v - - ⟨rfl, filled⟩
      exact inductionHypothesis okU filled (by simp only; omega)

theorem bwFileEntry_safe {formats : Formats} {offsetSize n f : Nat} {entry : FileEntry}
    (ok : StateOk s) (formatsOk : FormatsOk formats) (fits : f + n ≤ formats.count) :
    Safe (fun _ _ => True) (bwFileEntry img formats offsetSize n f entry s) := by
  induction n generalizing s f entry with
  | zero => exact ⟨ok, trivial⟩
  | succ n inductionHypothesis =>
      have below : f < bwDwarfFmtMax := lt_of_lt_of_le (by omega) formatsOk.count
      unfold bwFileEntry
      refine Safe.bind (read_safe ok (by rw [formatsOk.lnct]; exact below)) ?_
      rintro contentType t - - ⟨-, rfl⟩
      refine Safe.bind (read_safe ok (by rw [formatsOk.form]; exact below)) ?_
      rintro code t - - ⟨-, rfl⟩
      refine Outcome.ite (fun _ => ?_) fun _ => Outcome.ite (fun _ => ?_) fun _ => ?_
      · refine Safe.bind (bwFormPath_safe ok) fun path u _ okU _ => ?_
        exact inductionHypothesis okU (by omega)
      · refine Safe.bind (Safe.ofReader img ok) fun dirIdx u _ okU _ => ?_
        exact inductionHypothesis okU (by omega)
      · refine Safe.bind (Safe.ofReader img ok) fun _ u _ okU _ => ?_
        exact inductionHypothesis okU (by omega)

theorem bwFilesV5_safe {formats : Formats} {offsetSize n : Nat} {dirs : Dirs} {files : Files}
    (ok : StateOk s) (formatsOk : FormatsOk formats) (dirsOk : DirsOk s.tab dirs)
    (filesOk : FilesOk s.tab files) (fits : files.nfile + n ≤ bwDwarfFilesMax) :
    Safe (fun files' t => FilesOk t.tab files')
      (bwFilesV5 img formats offsetSize dirs n files s) := by
  induction n generalizing s files with
  | zero => exact ⟨ok, filesOk⟩
  | succ n inductionHypothesis =>
      unfold bwFilesV5
      refine Safe.bind (bwFileEntry_safe ok formatsOk (by omega)) fun entry t ended okT _ => ?_
      have grownT : Grown img s t := Develops.ok ended
      refine Safe.bind (bwAddFile_safe okT (dirsOk.mono grownT.tab)) fun off u ended' okU slot => ?_
      have grownU : Grown img t u := Develops.ok ended'
      have more := grownT.tab.trans grownU.tab
      refine Safe.bind (writeSlot_safe okU (filesOk.mono more) (by omega) slot.1) ?_
      rintro fileOff v - - ⟨rfl, filled⟩
      exact inductionHypothesis okU (dirsOk.mono more) filled (by simp only; omega)

theorem bwTablesV5_safe {offsetSize : Nat} (ok : StateOk s) :
    Safe (fun files t => FilesOk t.tab files) (bwTablesV5 img offsetSize s) := by
  unfold bwTablesV5
  refine Safe.bind (bwFormats_safe ok rfl rfl) fun dirFormats t _ okT dirFormatsOk => ?_
  refine Safe.bind (Safe.ofReader img okT) fun dirCount u _ okU _ => ?_
  refine Outcome.ite (fun _ => ⟨okU, trivial⟩) fun dirFits => ?_
  have noDirs : DirsOk u.tab ⟨dirOffInit, 0⟩ := ⟨rfl, Nat.zero_le _, fun _ below => nomatch below⟩
  refine Safe.bind (bwDirsV5_safe okU dirFormatsOk noDirs (by simp only; omega))
    fun dirs v _ okV dirsOk => ?_
  refine Safe.bind (bwFormats_safe okV dirFormatsOk.lnct dirFormatsOk.form)
    fun fileFormats w ended okW fileFormatsOk => ?_
  have grownW : Grown img v w := Develops.ok ended
  refine Safe.bind (Safe.ofReader img okW) fun fileCount x ended' okX _ => ?_
  have grownX : Grown img w x := Develops.ok ended'
  refine Outcome.ite (fun _ => ⟨okX, trivial⟩) fun fileFits => ?_
  exact bwFilesV5_safe okX fileFormatsOk ((dirsOk.mono grownW.tab).mono grownX.tab)
    ⟨rfl, Nat.zero_le _, fun _ below => nomatch below⟩ (by simp only; omega)

theorem setP_safe {p : Nat} (ok : StateOk s) : Safe (fun _ t => t.tab = s.tab) (setP p s) :=
  ⟨⟨ok.tab, ok.tabs, ok.later, ok.chain⟩, rfl⟩

theorem bwDirV2_safe (ok : StateOk s) : Safe (fun off t => SlotOk t.tab off) (bwDirV2 img s) := by
  unfold bwDirV2
  refine Safe.bind (Safe.ofReader img ok) fun c t _ okT _ => ?_
  refine Safe.bind (strlen_safe okT) fun name u _ okU _ => ?_
  refine Safe.bind (bwAddStr_safe name okU) fun off v _ okV slot => ?_
  refine Safe.bind (setP_safe okV) fun _ w _ okW same => ?_
  exact ⟨okW, by simpa only [same] using slot.1⟩

theorem bwListEnd_safe {α : Type} {list : α} (ok : StateOk s) :
    Safe (fun list' t => list' = list ∧ t.tab = s.tab) (bwListEnd img list s) := by
  unfold bwListEnd
  refine Safe.bind (Safe.ofReader img ok) fun _ t _ okT readsT => ?_
  exact ⟨okT, rfl, readsT.tab⟩

theorem bwDirsV2_safe {fuel : Nat} {dirs : Dirs} (ok : StateOk s) (dirsOk : DirsOk s.tab dirs)
    (enough : bwDwarfDirsMax < dirs.ndir + fuel) :
    Safe (fun dirs' t => DirsOk t.tab dirs') (bwDirsV2 img fuel dirs s) := by
  induction fuel generalizing s dirs with
  | zero => exact absurd dirsOk.fits (by omega)
  | succ fuel inductionHypothesis =>
      unfold bwDirsV2
      refine Safe.bind (Safe.ofReader img ok) fun c t _ okT readsT => ?_
      have keptT := readsT.tab ▸ dirsOk
      refine Outcome.ite (fun _ => ?_) fun _ => (bwListEnd_safe okT).mono fun _ v _ same => by
        rw [same.1, same.2]
        exact keptT
      refine Safe.bind (Safe.ofReader img okT) fun first u _ okU readsU => ?_
      have keptU := readsU.tab ▸ keptT
      refine Outcome.ite (fun more => ?_) fun _ => (bwListEnd_safe okU).mono fun _ v _ same => by
        rw [same.1, same.2]
        exact keptU
      refine Safe.bind (bwDirV2_safe okU) fun off v ended okV slot => ?_
      have grownV : Grown img u v := Develops.ok ended
      refine Safe.bind (writeSlot_safe okV (keptU.mono grownV.tab) more.2 slot) ?_
      rintro dirOff w - - ⟨rfl, filled⟩
      exact inductionHypothesis okV filled (by simp only; omega)

theorem bwFileV2_safe {dirs : Dirs} (ok : StateOk s) (dirsOk : DirsOk s.tab dirs) :
    Safe (fun off t => SlotOk t.tab off) (bwFileV2 img dirs s) := by
  unfold bwFileV2
  refine Safe.bind (Safe.ofReader img ok) fun c t _ okT readsT => ?_
  refine Safe.bind (strlen_safe okT) fun name u _ okU sameU => ?_
  refine Safe.bind (setP_safe okU) fun _ v _ okV sameV => ?_
  refine Safe.bind (Safe.ofReader img okV) fun dirIdx w _ okW readsW => ?_
  refine Safe.bind (Safe.ofReader img okW) fun _ x _ okX readsX => ?_
  refine Safe.bind (Safe.ofReader img okX) fun _ y _ okY readsY => ?_
  have same : y.tab = s.tab := by
    rw [readsY.tab, readsX.tab, readsW.tab, sameV, sameU, readsT.tab]
  exact (bwAddFile_safe okY (same ▸ dirsOk)).mono fun _ _ _ slot => slot.1

theorem bwFilesV2_safe {dirs : Dirs} {fuel : Nat} {files : Files} (ok : StateOk s)
    (dirsOk : DirsOk s.tab dirs) (filesOk : FilesOk s.tab files)
    (enough : bwDwarfFilesMax < files.nfile + fuel) :
    Safe (fun files' t => FilesOk t.tab files') (bwFilesV2 img dirs fuel files s) := by
  induction fuel generalizing s files with
  | zero => exact absurd filesOk.fits (by omega)
  | succ fuel inductionHypothesis =>
      unfold bwFilesV2
      refine Safe.bind (Safe.ofReader img ok) fun c t _ okT readsT => ?_
      have keptT := readsT.tab ▸ filesOk
      refine Outcome.ite (fun _ => ?_) fun _ => (bwListEnd_safe okT).mono fun _ v _ same => by
        rw [same.1, same.2]
        exact keptT
      refine Safe.bind (Safe.ofReader img okT) fun first u _ okU readsU => ?_
      have keptU := readsU.tab ▸ keptT
      refine Outcome.ite (fun more => ?_) fun _ => (bwListEnd_safe okU).mono fun _ v _ same => by
        rw [same.1, same.2]
        exact keptU
      have dirsU : DirsOk u.tab dirs := by
        rw [readsU.tab, readsT.tab]
        exact dirsOk
      refine Safe.bind (bwFileV2_safe okU dirsU) fun off v ended okV slot => ?_
      have grownV : Grown img u v := Develops.ok ended
      refine Safe.bind (writeSlot_safe okV (keptU.mono grownV.tab) more.2 slot) ?_
      rintro fileOff w - - ⟨rfl, filled⟩
      exact inductionHypothesis okV (dirsU.mono grownV.tab) filled (by simp only; omega)

theorem bwTablesV2_safe (ok : StateOk s) :
    Safe (fun files t => FilesOk t.tab files) (bwTablesV2 img s) := by
  unfold bwTablesV2
  refine Safe.bind (bwAddStr_safe [] ok) fun off t _ okT slot => ?_
  have noDirs : SlotsOk t.tab dirOffInit 0 bwDwarfDirsMax :=
    ⟨rfl, Nat.zero_le _, fun _ below => nomatch below⟩
  refine Safe.bind (writeSlot_safe okT noDirs (by decide) slot.1) ?_
  rintro dirOff u - - ⟨rfl, filled⟩
  refine Safe.bind (bwDirsV2_safe okT filled (by simp only; omega)) fun dirs v _ okV dirsOk => ?_
  have noFiles : SlotsOk v.tab fileOffInit 0 bwDwarfFilesMax :=
    ⟨rfl, Nat.zero_le _, fun _ below => nomatch below⟩
  refine Safe.bind (writeSlot_safe okV noFiles (by decide) fun present => by omega) ?_
  rintro fileOff w - - ⟨rfl, filledFiles⟩
  exact bwFilesV2_safe okV dirsOk filledFiles (by simp only; omega)

theorem bwTables_safe {prologue : Prologue} (ok : StateOk s) :
    Safe (fun files t => FilesOk t.tab files) (bwTables img prologue s) :=
  Outcome.ite (fun _ => bwTablesV5_safe ok) fun _ => bwTablesV2_safe ok

end Tables

/-! ### Header -/

/-- What the tables and the program rely on in a header. -/
structure PrologueOk (prologue : Prologue) : Prop where
  maxOps : prologue.maxOps ≠ 0
  lineRange : prologue.lineRange ≠ 0
  stdLen : prologue.stdLen.size = 256

section Header

variable {img : Image} {s : State}

theorem leNat_lt (bytes : List UInt8) : leNat bytes < 256 ^ bytes.length := by
  induction bytes with
  | nil => decide
  | cons byte rest inductionHypothesis =>
      have small := byte.toNat_lt
      rw [leNat, List.length_cons, Nat.pow_succ]
      omega

theorem peek_length {addr n : Nat} {bytes : List UInt8} (peeked : peek img addr n = .ok bytes) :
    bytes.length = n := by
  induction n generalizing addr bytes with
  | zero => cases peeked; rfl
  | succ n inductionHypothesis =>
      rw [peek] at peeked
      cases byteThere : img.mem addr with
      | none => rw [byteThere] at peeked; cases peeked
      | some byte =>
          rw [byteThere] at peeked
          cases rest : peek img (img.ptrAdd addr 1) n with
          | error last => rw [rest] at peeked; cases peeked
          | ok tail =>
              rw [rest] at peeked
              cases peeked
              rw [List.length_cons, inductionHypothesis rest]

theorem bwUint_lt {n value : Nat} {t : State} (ended : bwUint img n s = .ok value t) :
    value < 256 ^ n := by
  rw [bwUint_run] at ended
  split_ifs at ended
  cases peeked : peek img s.cur.p n with
  | error last => rw [peeked] at ended; cases ended
  | ok bytes =>
      rw [peeked] at ended
      cases ended
      exact peek_length peeked ▸ leNat_lt bytes

theorem bwStdLens_safe {n op : Nat} {stdLen : CArray Nat} (ok : StateOk s)
    (size : stdLen.size = 256) (fits : op + n ≤ 256) :
    Safe (fun stdLen' _ => stdLen'.size = 256) (bwStdLens img n op stdLen s) := by
  induction n generalizing s op stdLen with
  | zero => exact ⟨ok, size⟩
  | succ n inductionHypothesis =>
      unfold bwStdLens
      refine Safe.bind (Safe.ofReader img ok) fun len t _ okT _ => ?_
      refine Safe.bind (write_safe okT (by omega)) ?_
      rintro stdLen' u - - ⟨rfl, sameSize, -, -⟩
      exact inductionHypothesis okT (sameSize.trans size) (by omega)

theorem bwOpcodeHeader_safe {unitEnd prog offsetSize version addrSize minInst maxOps : Nat}
    (ok : StateOk s) (nonzero : maxOps ≠ 0) :
    Safe (fun prologue _ => PrologueOk prologue)
      (bwOpcodeHeader img unitEnd prog offsetSize version addrSize minInst maxOps s) := by
  unfold bwOpcodeHeader
  refine Safe.bind (Safe.ofReader img ok) fun _ t _ okT _ => ?_
  refine Safe.bind (Safe.ofReader img okT) fun lb u _ okU _ => ?_
  refine Safe.bind (Safe.ofReader img okU) fun lineRange v _ okV _ => ?_
  refine Outcome.ite (fun _ => ⟨okV, trivial⟩) fun rangeNonzero => ?_
  refine Safe.bind (Safe.ofReader img okV) fun opcodeBase w ended okW _ => ?_
  refine Outcome.ite (fun _ => ⟨okW, trivial⟩) fun baseNonzero => ?_
  have byte : opcodeBase < 256 ^ 1 := bwUint_lt ended
  refine Safe.bind (bwStdLens_safe okW rfl (by omega)) fun stdLen x _ okX size => ?_
  exact ⟨okX, nonzero, rangeNonzero, size⟩

/-- The header keeps the places it was given. -/
theorem bwOpcodeHeader_places {unitEnd prog offsetSize version addrSize minInst maxOps : Nat}
    {prologue : Prologue} {t : State}
    (ended : bwOpcodeHeader img unitEnd prog offsetSize version addrSize minInst maxOps s =
      .ok prologue t) : prologue.unitEnd = unitEnd ∧ prologue.prog = prog := by
  obtain ⟨_, _, -, rest⟩ := bind_eq_ok.mp ended
  obtain ⟨_, _, -, rest⟩ := bind_eq_ok.mp rest
  obtain ⟨_, _, -, rest⟩ := bind_eq_ok.mp rest
  split_ifs at rest
  · cases rest
  · obtain ⟨_, _, -, rest⟩ := bind_eq_ok.mp rest
    split_ifs at rest
    · cases rest
    · obtain ⟨_, _, -, rest⟩ := bind_eq_ok.mp rest
      cases rest
      exact ⟨rfl, rfl⟩

/-- A fixed-size read from inside the section moves the cursor by its size. -/
theorem bwUint_moves {n value : Nat} {t : State} (inside : Inside img s.cur)
    (ended : bwUint img n s = .ok value t) : t.cur.p = s.cur.p + n := by
  rw [bwUint_run] at ended
  split_ifs at ended with room
  cases peeked : peek img s.cur.p n with
  | error last => rw [peeked] at ended; cases ended
  | ok bytes =>
      rw [peeked] at ended
      cases ended
      exact (ptrAdd_of_inside inside room).1

theorem bwUnitEnd_ends {unitLen offsetSize : Nat} {ends : Nat × Nat} {t : State}
    (inside : Inside img s.cur) (ended : bwUnitEnd img unitLen offsetSize s = .ok ends t) :
    s.cur.p ≤ ends.1 ∧ ends.1 ≤ s.cur.endp := by
  rw [bwUnitEnd, bind_of_ok (show getCur s = .ok s.cur s from rfl)] at ended
  split_ifs at ended with tiny room
  · cases ended
  · cases ended
    obtain ⟨same, fits⟩ := ptrAdd_of_inside inside room
    exact ⟨by simp only [same]; omega, by simp only [same]; exact fits⟩
  · cases ended

/-- The unit end is past the start of the unit and in the section. -/
theorem bwUnitLength_ends {ends : Nat × Nat} {t : State} (inside : Inside img s.cur)
    (ended : bwUnitLength img s = .ok ends t) : s.cur.p < ends.1 ∧ ends.1 ≤ s.cur.endp := by
  obtain ⟨unit32, u, read, rest⟩ := bind_eq_ok.mp ended
  have moved := bwUint_moves inside read
  have readsU : Reads img s u := Develops.ok read
  have insideU := readsU.inside inside
  split_ifs at rest
  · obtain ⟨unitLen, v, readLen, rest⟩ := bind_eq_ok.mp rest
    have readsV : Reads img u v := Develops.ok readLen
    obtain ⟨_, w, flagged, rest⟩ := bind_eq_ok.mp rest
    have readsW : Reads img v w := Develops.ok flagged
    have insideV := readsV.inside insideU
    obtain ⟨below, above⟩ := bwUnitEnd_ends (readsW.inside insideV) rest
    have stepV := (readsV.forward insideU).1
    have stepW := (readsW.forward insideV).1
    rw [readsW.endp, readsV.endp, readsU.endp] at above
    exact ⟨by omega, above⟩
  · obtain ⟨_, w, flagged, rest⟩ := bind_eq_ok.mp rest
    have readsW : Reads img u w := Develops.ok flagged
    obtain ⟨below, above⟩ := bwUnitEnd_ends (readsW.inside insideU) rest
    have stepW := (readsW.forward insideU).1
    rw [readsW.endp, readsU.endp] at above
    exact ⟨by omega, above⟩

/-- What the opening of a unit says about its end. -/
def Opening.unitEnd : Opening → Nat
  | .skip unitEnd _ _ => unitEnd
  | .go prologue => prologue.unitEnd

/-- What a unit relies on in its opening. -/
def OpeningOk : Opening → Prop
  | .skip _ _ _ => True
  | .go prologue => PrologueOk prologue ∧ prologue.prog ≤ prologue.unitEnd

/-- The two ways in which the rest of a header is accepted. -/
theorem bwHeaderRest_eq_ok {unitEnd prog offsetSize version addrSize : Nat} {opening : Opening}
    {t : State}
    (ended : bwHeaderRest img unitEnd prog offsetSize version addrSize s = .ok opening t) :
    opening = .skip unitEnd t.cur.p prog ∨
      ∃ prologue, opening = .go prologue ∧ prologue.unitEnd = unitEnd ∧ prologue.prog = prog := by
  obtain ⟨_, _, -, rest⟩ := bind_eq_ok.mp ended
  obtain ⟨_, _, -, rest⟩ := bind_eq_ok.mp rest
  split_ifs at rest
  · obtain ⟨_, _, cursor, rest⟩ := bind_eq_ok.mp rest
    cases cursor
    cases rest
    exact Or.inl rfl
  · obtain ⟨prologue, _, header, rest⟩ := bind_eq_ok.mp rest
    cases rest
    exact Or.inr ⟨prologue, rfl, bwOpcodeHeader_places header⟩

theorem bwHeaderRest_unitEnd {unitEnd prog offsetSize version addrSize : Nat} {opening : Opening}
    {t : State}
    (ended : bwHeaderRest img unitEnd prog offsetSize version addrSize s = .ok opening t) :
    opening.unitEnd = unitEnd := by
  rcases bwHeaderRest_eq_ok ended with rfl | ⟨prologue, rfl, sameEnd, -⟩
  · rfl
  · exact sameEnd

/-- The two ways in which a header is accepted: by its first fields, and with the
rest of it. -/
theorem bwPrologue_eq_ok {opening : Opening} {t : State}
    (ended : bwPrologue img s = .ok opening t) :
    ∃ unitEnd offsetSize u, bwUnitLength img s = .ok (unitEnd, offsetSize) u ∧
      (opening = .skip unitEnd t.cur.p t.cur.p ∨
        ∃ prog version addrSize v,
          bwHeaderRest img unitEnd prog offsetSize version addrSize v = .ok opening t) := by
  obtain ⟨⟨unitEnd, offsetSize⟩, u, length, rest⟩ := bind_eq_ok.mp ended
  refine ⟨unitEnd, offsetSize, u, length, ?_⟩
  obtain ⟨_, _, -, rest⟩ := bind_eq_ok.mp rest
  obtain ⟨⟨addrSize, segSize⟩, _, -, rest⟩ := bind_eq_ok.mp rest
  dsimp only at rest
  split_ifs at rest
  · obtain ⟨_, _, cursor, rest⟩ := bind_eq_ok.mp rest
    cases cursor
    cases rest
    exact Or.inl rfl
  · obtain ⟨_, _, -, rest⟩ := bind_eq_ok.mp rest
    obtain ⟨_, _, -, rest⟩ := bind_eq_ok.mp rest
    split_ifs at rest
    · cases rest
    · exact Or.inr ⟨_, _, _, _, rest⟩

/-- The end that a prologue states is past the start of the unit and in the
section. -/
theorem bwPrologue_ends {opening : Opening} {t : State} (inside : Inside img s.cur)
    (ended : bwPrologue img s = .ok opening t) :
    s.cur.p < opening.unitEnd ∧ opening.unitEnd ≤ s.cur.endp := by
  obtain ⟨unitEnd, offsetSize, u, length, early | ⟨prog, version, addrSize, v, rest⟩⟩ :=
    bwPrologue_eq_ok ended
  · rw [early]
    exact bwUnitLength_ends inside length
  · rw [bwHeaderRest_unitEnd rest]
    exact bwUnitLength_ends inside length

theorem bwHeaderRest_safe {unitEnd prog offsetSize version addrSize : Nat} (ok : StateOk s)
    (before : prog ≤ unitEnd) :
    Safe (fun opening _ => OpeningOk opening)
      (bwHeaderRest img unitEnd prog offsetSize version addrSize s) := by
  unfold bwHeaderRest
  refine Safe.bind (Safe.ofReader img ok) fun minInst t _ okT _ => ?_
  refine Safe.bind (Safe.ofReader img okT) fun maxOps u _ okU _ => ?_
  refine Outcome.ite (fun _ => ?_) fun nonzero => ?_
  · exact ⟨okU, trivial⟩
  · refine Safe.bind (bwOpcodeHeader_safe okU (by tauto)) fun prologue v ended okV headerOk => ?_
    obtain ⟨sameEnd, sameProg⟩ := bwOpcodeHeader_places ended
    exact ⟨okV, headerOk, by rw [sameEnd, sameProg]; exact before⟩

theorem bwPrologue_safe (ok : StateOk s) :
    Safe (fun opening _ => OpeningOk opening) (bwPrologue img s) := by
  unfold bwPrologue
  refine Safe.bind (Safe.ofReader img ok) ?_
  rintro ⟨unitEnd, offsetSize⟩ t - okT -
  refine Safe.bind (Safe.ofReader img okT) fun version u _ okU _ => ?_
  refine Safe.bind (Safe.ofReader img okU) ?_
  rintro ⟨addrSize, segSize⟩ v - okV -
  refine Outcome.ite (fun _ => ⟨okV, trivial⟩) fun _ => ?_
  refine Safe.bind (Safe.ofReader img okV) fun headerLen w _ okW _ => ?_
  refine Safe.bind (Safe.ofReader img okW) fun c x _ okX _ => ?_
  refine Outcome.ite (fun _ => ⟨okX, trivial⟩) fun before => ?_
  exact bwHeaderRest_safe okX (Nat.le_of_not_lt before)

end Header

/-! ### Line program -/

section Program

variable {img : Image} {prologue : Prologue} {files : Files} {s : State}

theorem StateOk.setP {p : Nat} (ok : StateOk s) :
    StateOk { s with cur := { s.cur with p := p } } :=
  ⟨ok.tab, ok.tabs, ok.later, ok.chain⟩

theorem bwAdvance_safe {regs : Regs} {opAdvance : Nat} (ok : StateOk s)
    (prologueOk : PrologueOk prologue) :
    Safe (fun _ t => t = s) (bwAdvance img prologue regs opAdvance s) := by
  unfold bwAdvance
  refine Safe.bind (cDiv_safe ok prologueOk.maxOps) ?_
  rintro _ t - - ⟨-, rfl⟩
  refine Safe.bind (cMod_safe ok prologueOk.maxOps) ?_
  rintro _ t - - ⟨-, rfl⟩
  exact ⟨ok, rfl⟩

/-- A row that passes the filter of `bwEmit` is a good one. -/
theorem bwEmit_safe {addr line : Nat} {fileOff : Int} (ok : StateOk s)
    (slot : SlotOk s.tab fileOff) :
    Safe (fun _ t => t.cur = s.cur) (bwEmit addr fileOff line s) := by
  rw [bwEmit_run]
  split_ifs with dropped
  · exact ⟨ok, rfl⟩
  · simp only [Bool.or_eq_true, decide_eq_true_eq, not_or] at dropped
    obtain ⟨⟨⟨⟨room, present⟩, addrOk⟩, lineOk⟩, width⟩ := dropped
    have more : Extends s.tab { s.tab with
        rows := s.tab.rows ++ [⟨addr, fileOff.toNat, line⟩] } :=
      ⟨List.prefix_append _ _, le_refl _, fun _ _ => rfl⟩
    refine ⟨ok.setTab more ⟨?_, ok.tab.nstr, fun row member => ?_⟩, rfl⟩
    · simp only [Tab.nrow, List.length_append, List.length_singleton] at room ⊢
      omega
    · rcases List.mem_append.mp member with earlier | last
      · exact (ok.tab.rows row earlier).mono more
      · rw [List.mem_singleton.mp last]
        exact ⟨addrOk, Nat.pos_of_ne_zero lineOk, Nat.le_of_not_lt width,
          (slot (Int.not_lt.mp present)).mono more⟩

theorem bwEmitRegs_safe {regs : Regs} (ok : StateOk s) (filesOk : FilesOk s.tab files) :
    Safe (fun _ t => t.cur = s.cur) (bwEmitRegs files regs s) := by
  unfold bwEmitRegs
  refine Outcome.ite (fun known => ?_) fun _ => ⟨ok, rfl⟩
  refine Safe.bind (read_safe ok (by rw [filesOk.size]; exact known.trans_le filesOk.fits)) ?_
  rintro off t - - ⟨rfl, rfl⟩
  exact bwEmit_safe ok (filesOk.slot _ known)

theorem bwSpecial_safe {op : Nat} {regs : Regs} (ok : StateOk s) (prologueOk : PrologueOk prologue)
    (filesOk : FilesOk s.tab files) :
    Safe (fun _ t => t.cur = s.cur) (bwSpecial img prologue files op regs s) := by
  unfold bwSpecial
  refine Safe.bind (cDiv_safe ok prologueOk.lineRange) ?_
  rintro opAdvance t - - ⟨-, rfl⟩
  refine Safe.bind (cMod_safe ok prologueOk.lineRange) ?_
  rintro lineAdvance t - - ⟨-, rfl⟩
  refine Safe.bind (bwAdvance_safe ok prologueOk) ?_
  rintro regs' t - - rfl
  refine Safe.bind (bwEmitRegs_safe ok filesOk) fun _ u _ okU same => ?_
  exact ⟨okU, same⟩

/-- What an opcode does to the cursor, from inside the section: it does not go
back, and it stays inside. -/
def Onward (img : Image) (s t : State) : Prop := s.cur.p ≤ t.cur.p ∧ Inside img t.cur

theorem Reads.onward {t : State} (reads : Reads img s t) (inside : Inside img s.cur) :
    Onward img s t :=
  ⟨(reads.forward inside).1, reads.inside inside⟩

theorem Onward.of_cur {t : State} (inside : Inside img s.cur) (same : t.cur = s.cur) :
    Onward img s t := by
  unfold Onward
  rw [same]
  exact ⟨le_refl _, inside⟩

theorem bwExtended_safe {regs : Regs} (ok : StateOk s) (inside : Inside img s.cur) :
    Safe (fun _ t => Onward img s t) (bwExtended img prologue regs s) := by
  unfold bwExtended
  refine Safe.bind (Safe.ofReader img ok) fun insnLen t _ okT readsT => ?_
  have insideT := readsT.inside inside
  refine Safe.bind (show Safe (fun c t' => c = t.cur ∧ t' = t) (getCur t) from
    ⟨okT, rfl, rfl⟩) ?_
  rintro c t' - - ⟨rfl, rfl⟩
  refine Outcome.ite (fun _ => ⟨okT, trivial⟩) fun _ => ?_
  refine Outcome.ite (fun room => ?_) fun _ => ⟨okT, trivial⟩
  obtain ⟨stepped, fits⟩ := ptrAdd_of_inside insideT room
  -- All three continuations end by putting the cursor at the stated end.
  have landed : ∀ u : State, u.cur.endp = t'.cur.endp →
      Onward img s
        { u with cur := { u.cur with p := img.ptrAdd t'.cur.p (img.size insnLen) } } := by
    intro u sameEnd
    have before := (readsT.forward inside).1
    refine ⟨by simp only [stepped]; omega, ?_, ?_⟩
    · simp only [stepped, sameEnd]
      exact fits
    · simp only [sameEnd]
      exact insideT.2
  refine Safe.bind (Safe.ofReader img okT) fun ext u _ okU readsU => ?_
  refine Outcome.ite (fun _ => ?_) fun _ => Outcome.ite (fun _ => ?_) fun _ => ?_
  · exact ⟨okU.setP, landed u readsU.endp⟩
  · refine Safe.bind (Safe.ofReader img okU) fun addr v _ okV readsV => ?_
    exact ⟨okV.setP, landed v (readsV.endp.trans readsU.endp)⟩
  · exact ⟨okU.setP, landed u readsU.endp⟩

theorem bwStandard_safe {op : Nat} {regs : Regs} (ok : StateOk s) (inside : Inside img s.cur)
    (prologueOk : PrologueOk prologue) (filesOk : FilesOk s.tab files) (byte : op < 256) :
    Safe (fun _ t => Onward img s t) (bwStandard img prologue files op regs s) := by
  unfold bwStandard
  refine Outcome.ite (fun _ => ?_) fun _ => Outcome.ite (fun _ => ?_) fun _ =>
    Outcome.ite (fun _ => ?_) fun _ => Outcome.ite (fun _ => ?_) fun _ =>
    Outcome.ite (fun _ => ?_) fun _ => Outcome.ite (fun _ => ?_) fun _ => ?_
  case refine_1 =>
    refine Safe.bind (bwEmitRegs_safe ok filesOk) fun _ t _ okT same => ?_
    exact ⟨okT, .of_cur inside same⟩
  case refine_2 =>
    refine Safe.bind (Safe.ofReader img ok) fun opAdvance t _ okT readsT => ?_
    refine (bwAdvance_safe okT prologueOk).mono fun _ u _ same => ?_
    exact same ▸ readsT.onward inside
  case refine_5 =>
    refine Safe.bind (cDiv_safe ok prologueOk.lineRange) ?_
    rintro opAdvance t - - ⟨-, rfl⟩
    refine (bwAdvance_safe ok prologueOk).mono fun _ u _ same => ?_
    exact .of_cur inside (same ▸ rfl)
  case refine_7 =>
    refine Safe.bind (read_safe ok (by rw [prologueOk.stdLen]; exact byte)) ?_
    rintro count t - - ⟨-, rfl⟩
    refine Safe.bind (Safe.ofReader img ok) fun _ u _ okU readsU => ?_
    exact ⟨okU, readsU.onward inside⟩
  all_goals
    refine Safe.bind (Safe.ofReader img ok) fun operand t _ okT readsT => ?_
    exact ⟨okT, readsT.onward inside⟩

/-- One opcode moves the cursor by at least a byte. -/
theorem bwOpcode_safe {regs : Regs} (ok : StateOk s) (inside : Inside img s.cur)
    (prologueOk : PrologueOk prologue) (filesOk : FilesOk s.tab files) :
    Safe (fun _ t => s.cur.p < t.cur.p ∧ Inside img t.cur)
      (bwOpcode img prologue files regs s) := by
  unfold bwOpcode
  refine Safe.bind (Safe.ofReader img ok) fun op t ended okT readsT => ?_
  have moved : t.cur.p = s.cur.p + 1 := bwUint_moves inside ended
  have byte : op < 256 ^ 1 := bwUint_lt ended
  have insideT := readsT.inside inside
  have filesT : FilesOk t.tab files := by rw [readsT.tab]; exact filesOk
  have past : ∀ u : State, Onward img t u → s.cur.p < u.cur.p ∧ Inside img u.cur :=
    fun u onward => ⟨by have := onward.1; omega, onward.2⟩
  refine Outcome.ite (fun _ => ?_) fun _ => Outcome.ite (fun _ => ?_) fun _ => ?_
  · exact (bwExtended_safe okT insideT).mono fun _ u _ onward => past u onward
  · exact (bwSpecial_safe okT prologueOk filesT).mono fun _ u _ same =>
      past u (.of_cur insideT same)
  · exact (bwStandard_safe okT insideT prologueOk filesT (by omega)).mono fun _ u _ onward =>
      past u onward

/-- The opcode loop: each opcode brings the cursor closer to the unit end. -/
theorem bwOpcodeLoop_safe {fuel : Nat} {regs : Regs} (ok : StateOk s)
    (prologueOk : PrologueOk prologue) (filesOk : FilesOk s.tab files)
    (endInside : prologue.unitEnd ≤ s.cur.endp) (below : s.cur.endp < 2 ^ img.bits)
    (enough : prologue.unitEnd < s.cur.p + fuel) (positive : 0 < fuel) :
    Safe (fun _ _ => True) (bwOpcodeLoop img prologue files fuel regs s) := by
  induction fuel generalizing s regs with
  | zero => omega
  | succ fuel inductionHypothesis =>
      by_cases inUnit : s.cur.p < prologue.unitEnd
      · have inside : Inside img s.cur := ⟨by omega, below⟩
        cases ended : bwOpcode img prologue files regs s with
        | ok regs' t =>
            obtain ⟨okT, further, insideT⟩ := (bwOpcode_safe ok inside prologueOk filesOk).ok ended
            have runs : Runs img s t := Develops.ok ended
            rw [bwOpcodeLoop_of_ok img prologue files inUnit ended]
            refine inductionHypothesis okT (filesOk.mono runs.grown.tab) ?_ ?_ ?_ ?_
            · rw [runs.endp]
              exact endInside
            · rw [runs.endp]
              exact below
            · omega
            · omega
        | error why t =>
            obtain ⟨okT, benign⟩ := (bwOpcode_safe ok inside prologueOk filesOk).error ended
            rw [bwOpcodeLoop_of_error img prologue files inUnit ended]
            cases why with
            | short => exact ⟨okT, trivial⟩
            | malformed => exact ⟨okT, trivial⟩
            | fault fault => exact ⟨okT, benign⟩
      · rw [bwOpcodeLoop_done img prologue files inUnit]
        exact ⟨ok, trivial⟩

end Program

/-! ### Units -/

section Units

variable {img : Image} {s : State}

theorem bwUnitBody_safe {prologue : Prologue} (ok : StateOk s) (prologueOk : PrologueOk prologue)
    (before : prologue.prog ≤ prologue.unitEnd) (endInside : prologue.unitEnd ≤ s.cur.endp)
    (below : s.cur.endp < 2 ^ img.bits) :
    Safe (fun _ t => t.cur.p = prologue.unitEnd) (bwUnitBody img prologue s) := by
  unfold bwUnitBody
  refine Safe.bind (bwTables_safe ok) fun files t ended okT filesOk => ?_
  have grownT : Grown img s t := Develops.ok ended
  refine Safe.bind (Safe.ofReader img okT) fun c u _ okU readsU => ?_
  have sameEnd : u.cur.endp = s.cur.endp := readsU.endp.trans grownT.endp
  refine Safe.bind (show Safe (fun _ v => v = { u with cur := { u.cur with p := prologue.prog } })
    (setP prologue.prog u) from ⟨okU.setP, rfl⟩) ?_
  rintro _ v - - rfl
  refine Safe.bind (bwOpcodeLoop_safe okU.setP prologueOk ?_ ?_ ?_ ?_ ?_)
    fun exit w _ okW _ => ?_
  · simp only [readsU.tab]
    exact filesOk
  · simp only [sameEnd]
    exact endInside
  · simp only [sameEnd]
    exact below
  · simp only
    omega
  · omega
  · exact ⟨okW.setP, rfl⟩

/-- A unit that is accepted leaves the cursor further on in the section. -/
theorem bwParseUnit_safe (ok : StateOk s) (inside : Inside img s.cur) :
    Safe (fun _ t => s.cur.p < t.cur.p ∧ Inside img t.cur) (bwParseUnit img s) := by
  have landed : ∀ (unitEnd : Nat) (t : State), t.cur.endp = s.cur.endp → s.cur.p < unitEnd →
      unitEnd ≤ s.cur.endp → t.cur.p = unitEnd → s.cur.p < t.cur.p ∧ Inside img t.cur := by
    intro unitEnd t sameEnd after fits atEnd
    exact ⟨atEnd ▸ after, by rw [atEnd, sameEnd]; exact fits, by rw [sameEnd]; exact inside.2⟩
  unfold bwParseUnit
  refine Safe.bind (bwPrologue_safe ok) fun opening t ended okT openingOk => ?_
  obtain ⟨after, fits⟩ := bwPrologue_ends inside ended
  have readsT : Reads img s t := Develops.ok ended
  cases opening with
  | skip unitEnd headerEnd prog =>
      exact ⟨okT.setP, landed unitEnd _ readsT.endp after fits rfl⟩
  | go prologue =>
      refine (bwUnitBody_safe okT openingOk.1 openingOk.2 (readsT.endp ▸ fits)
        (readsT.endp ▸ inside.2)).mono fun exit u ended' atEnd => ?_
      have grownU : Grown img t u := Develops.ok ended'
      exact landed prologue.unitEnd u (grownU.endp.trans readsT.endp) after fits atEnd

theorem bwUnits_safe {fuel : Nat} (ok : StateOk s) (inside : Inside img s.cur)
    (enough : s.cur.endp < s.cur.p + fuel) : Safe (fun _ _ => True) (bwUnits img fuel s) := by
  induction fuel generalizing s with
  | zero => exact absurd inside.1 (by omega)
  | succ fuel inductionHypothesis =>
      unfold bwUnits
      split_ifs with more
      · have unit := bwParseUnit_safe ok inside
        cases ended : bwParseUnit img s with
        | ok exit t =>
            obtain ⟨okT, further, insideT⟩ := unit.ok ended
            have grown : Grown img s t := Develops.ok ended
            exact inductionHypothesis okT insideT (by rw [grown.endp]; omega)
        | error why t =>
            obtain ⟨okT, benign⟩ := unit.error ended
            cases why with
            | short => exact ⟨okT, trivial⟩
            | malformed => exact ⟨okT, trivial⟩
            | fault fault => exact ⟨okT, benign⟩
      · exact ⟨ok, trivial⟩

theorem inside_startState (img : Image) (tab : Tab) (present : img.line.ptr ≠ 0) :
    Inside img (startState img tab).cur :=
  ⟨Nat.le_add_right _ _, (img.linePlaced present).1⟩

theorem stateOk_startState {tab : Tab} (ok : TabOk tab) : StateOk (startState img tab) where
  tab := ok
  tabs := fun _ member => List.mem_singleton.mp member ▸ ok
  later := fun _ member => List.mem_singleton.mp member ▸ Extends.refl tab
  chain := List.pairwise_singleton _ _

/-- The unit loop over a whole section keeps the invariant. -/
theorem bwParseUnits_safe {tab : Tab} (ok : TabOk tab) (present : img.line.ptr ≠ 0) :
    Safe (fun _ _ => True) (bwParseUnits img tab) :=
  bwUnits_safe (stateOk_startState ok) (inside_startState img tab present)
    (by simp only [startState]; omega)

end Units

end Backwalk.DwarfLine
