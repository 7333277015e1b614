import Backwalk.DwarfLine.Invariant

/-!
Contract: a unit does the same in a section of its own as it does anywhere in
another section, up to relocation, as long as it keeps to its own bytes.

Owns the relation `Moved` between a run on the unit alone and a run on it inside
another section, at another address and over a table that already has rows and
strings, and its preservation by every function of the unit parser. Two things
are not followed: a run that was refused a byte at the end of its own section,
which the other section may have, and a run that faulted.

Does not own what is concluded from it about sections.
-/

namespace Backwalk.DwarfLine

open Backwalk.Support

/-! ### Placements -/

/-- The C strings of a section are the same in both images. -/
structure SameStrings (one two : Image) (sec : SectionId) : Prop where
  absent : (two.sec sec).ptr = 0 ↔ (one.sec sec).ptr = 0
  len : (two.sec sec).len = (one.sec sec).len
  text : ∀ off < (one.sec sec).len, ∀ bytes,
    cstrIn one.mem (2 ^ one.bits - ((one.sec sec).ptr + off)) ((one.sec sec).ptr + off) =
      .ok bytes →
    cstrIn two.mem (2 ^ two.bits - ((two.sec sec).ptr + off)) ((two.sec sec).ptr + off) = .ok bytes

/-- The same `len` bytes in two images: at `src` in a section that ends with
them, and at `dst` in one that goes on to `lim`. The second table has the rows
`base` and `shift` bytes of strings before. -/
structure Placement where
  one : Image
  two : Image
  src : Nat
  dst : Nat
  len : Nat
  lim : Nat
  base : List Row
  shift : Nat
  bits : two.bits = one.bits
  srcPos : 0 < src
  dstPos : 0 < dst
  srcFits : src + len < 2 ^ one.bits
  dstFits : dst + len ≤ lim
  limFits : lim < 2 ^ one.bits
  bytes : ∀ k < len, two.mem (dst + k) = one.mem (src + k)
  mapped : ∀ addr, dst ≤ addr → addr < lim → (two.mem addr).isSome = true
  strings : ∀ sec, sec ≠ .line → SameStrings one two sec

namespace Placement

variable (w : Placement)

/-- Where an address of the unit is in the other image. -/
def move (addr : Nat) : Nat := addr + w.dst - w.src

/-- A string offset in the other table; `-1` stays. -/
def shiftOff (off : Int) : Int := if off < 0 then off else off + w.shift

def shiftRow (row : Row) : Row := { row with nameOff := row.nameOff + w.shift }

/-- The second run is where the first is. -/
structure Moved (s t : State) : Prop where
  ok : StateOk s
  endp : s.cur.endp = w.src + w.len
  start : w.src ≤ s.cur.p
  within : s.cur.p ≤ w.src + w.len
  cur : t.cur = ⟨w.move s.cur.p, w.lim, s.cur.dwarf64⟩
  rows : t.tab.rows = w.base ++ s.tab.rows.map w.shiftRow
  nstr : t.tab.nstr = s.tab.nstr + w.shift
  strs : ∀ index < s.tab.nstr, t.tab.strs (index + w.shift) = s.tab.strs index

/-- The first run is one that the other table has room for, and has scanned no
line string past the end of its section. -/
structure Fits (s : State) : Prop where
  strs : w.shift = 0 ∨ s.tab.nstr + w.shift ≤ bwDwarfStrMax
  rows : w.base = [] ∨ w.base.length + s.tab.nrow ≤ bwDwarfRowMax
  scans : ∀ scan ∈ s.scans, scan.sec = .line → scan.hi ≤ w.src + w.len

theorem Fits.before {w : Placement} {s s' : State} (grown : Grown w.one s s') (fits : w.Fits s') :
    w.Fits s where
  strs := fits.strs.imp_right fun room => by
    have := grown.tab.nstr
    omega
  rows := fits.rows.imp_right fun room => by
    have := grown.tab.rows.length_le
    unfold Tab.nrow at room ⊢
    omega
  scans := fun scan member => fits.scans scan (grown.scans.subset member)

/-- The reasons for which the first run is not followed. -/
def Excused (why : Stop) : Prop := why ≠ .malformed

theorem excused_short : Excused .short := by simp [Excused]

theorem excused_fault (fault : Fault) : Excused (.fault fault) := by simp [Excused]

def pairing : Pairing Stop State State (Grown w.one) where
  Rel := w.Moved
  Fits := w.Fits
  Excused := Excused
  fits_before := fun grown fits => fits.before grown

/-- The second action gives the same answers. -/
class Tracks {α : Type} (m₁ m₂ : Parser α) : Prop where
  follows : ∀ {s t}, w.Moved s t → Follows w.pairing (fun a b _ _ => b = a) (m₁ s) (m₂ t)

end Placement

/-! ### Elementary effects -/

section Effects

variable {w : Placement} {α β : Type}

open Placement

instance (a : α) : w.Tracks (pure a : Parser α) (pure a) :=
  ⟨fun related => Follows.pure related rfl⟩

instance Placement.Tracks.bind (m₁ m₂ : Parser α) (f₁ f₂ : α → Parser β) [first : w.Tracks m₁ m₂]
    [next : ∀ a, w.Tracks (f₁ a) (f₂ a)] [∀ a, Develops (Grown w.one) (f₁ a)] :
    w.Tracks (m₁ >>= f₁) (m₂ >>= f₂) :=
  ⟨fun related => Follows.bind (first.follows related) fun a b s t _ _ relatedMid same => by
    subst same
    exact (next b).follows relatedMid⟩

instance {c : Prop} {dec₁ dec₂ : Decidable c} (m₁ m₂ n₁ n₂ : Parser α) [yes : w.Tracks m₁ m₂]
    [no : w.Tracks n₁ n₂] : w.Tracks (@ite _ c dec₁ m₁ n₁) (@ite _ c dec₂ m₂ n₂) := by
  by_cases holds : c
  · rw [if_pos holds, if_pos holds]
    exact yes
  · rw [if_neg holds, if_neg holds]
    exact no

/-- Actions that stop for the same reason. -/
instance (why : Stop) : w.Tracks (stop why : Parser α) (stop why) :=
  ⟨fun related => Follows.intro (fun _ _ ended => nomatch ended) fun _ _ ended _ _ => by
    cases ended
    exact ⟨_, rfl, related⟩⟩

/-- Stopping for the same reason, whatever the answers would have been. -/
theorem stop_follows {why : Stop} {post : α → β → State → State → Prop} {s t : State}
    (related : w.Moved s t) :
    Follows w.pairing post ((stop why : Parser α) s) ((stop why : Parser β) t) :=
  fun _ _ => ⟨t, rfl, related⟩

instance (array : ArrayName) (index size : Nat) :
    w.Tracks (checkIndex array index size) (checkIndex array index size) := by
  unfold checkIndex
  infer_instance

instance (a b : Nat) : w.Tracks (cDiv a b) (cDiv a b) := by unfold cDiv; infer_instance

instance (a b : Nat) : w.Tracks (cMod a b) (cMod a b) := by unfold cMod; infer_instance

instance (a : CArray α) (index : Nat) : w.Tracks (a.read index) (a.read index) := by
  unfold CArray.read
  infer_instance

instance (a : CArray α) (index : Nat) (value : α) :
    w.Tracks (a.write index value) (a.write index value) := by
  unfold CArray.write
  infer_instance

end Effects

/-! ### Readers -/

section Readers

variable {w : Placement} {s t : State}

open Placement

theorem Placement.move_add {addr : Nat} (start : w.src ≤ addr) (n : Nat) :
    w.move (addr + n) = w.move addr + n := by
  unfold move
  omega

theorem Placement.Moved.inside (related : w.Moved s t) : Inside w.one s.cur :=
  ⟨related.endp ▸ related.within, related.endp ▸ w.srcFits⟩

theorem Placement.Moved.inside_two (related : w.Moved s t) : Inside w.two t.cur := by
  have fits := w.dstFits
  have within := related.within
  have start := related.start
  rw [related.cur]
  refine ⟨?_, w.bits ▸ w.limFits⟩
  simp only [move]
  omega

/-- Room in the unit is room in the section. -/
theorem Placement.Moved.room {n : Nat} (related : w.Moved s t)
    (room : bwCurOk w.one s.cur n = true) :
    s.cur.p + n ≤ w.src + w.len ∧ bwCurOk w.two t.cur n = true := by
  have fits := (ptrAdd_of_inside related.inside room).2
  rw [related.endp] at fits
  refine ⟨fits, ?_⟩
  have inside := related.inside_two
  have dstFits := w.dstFits
  have dstPos := w.dstPos
  have start := related.start
  simp only [bwCurOk, ne_eq, Bool.and_eq_true, decide_eq_true_eq, curRoom_of_inside inside]
  rw [related.cur]
  simp only [move]
  omega

/-- A step inside the unit. -/
theorem Placement.Moved.step {n : Nat} (related : w.Moved s t)
    (fits : s.cur.p + n ≤ w.src + w.len) :
    w.Moved { s with cur := { s.cur with p := w.one.ptrAdd s.cur.p n } }
      { t with cur := { t.cur with p := w.two.ptrAdd t.cur.p n } } := by
  have start := related.start
  have srcFits := w.srcFits
  have dstFits := w.dstFits
  have limFits := w.limFits
  have stepOne : w.one.ptrAdd s.cur.p n = s.cur.p + n := Nat.mod_eq_of_lt (by omega)
  have stepTwo : w.two.ptrAdd t.cur.p n = w.move (s.cur.p + n) := by
    rw [move_add start, related.cur, Image.ptrAdd, w.bits]
    exact Nat.mod_eq_of_lt (by simp only [move]; omega)
  refine ⟨related.ok.setP, related.endp, ?_, ?_, ?_, related.rows, related.nstr, related.strs⟩
  · simp only [stepOne]
    omega
  · simp only [stepOne]
    exact fits
  · simp only [stepOne, stepTwo]
    rw [related.cur]

/-- The bytes of the unit are the same in both images. -/
theorem Placement.mem_move {addr : Nat} (start : w.src ≤ addr) (below : addr < w.src + w.len) :
    w.two.mem (w.move addr) = w.one.mem addr := by
  have same := w.bytes (addr - w.src) (by omega)
  rwa [show w.dst + (addr - w.src) = w.move addr by unfold move; omega,
    show w.src + (addr - w.src) = addr by omega] at same

theorem Placement.peek_move {addr n : Nat} {bytes : List UInt8} (start : w.src ≤ addr)
    (fits : addr + n ≤ w.src + w.len) (peeked : peek w.one addr n = .ok bytes) :
    peek w.two (w.move addr) n = .ok bytes := by
  induction n generalizing addr bytes with
  | zero => exact peeked
  | succ n inductionHypothesis =>
      have srcFits := w.srcFits
      have dstFits := w.dstFits
      have limFits := w.limFits
      have stepOne : w.one.ptrAdd addr 1 = addr + 1 := Nat.mod_eq_of_lt (by omega)
      have stepTwo : w.two.ptrAdd (w.move addr) 1 = w.move (addr + 1) := by
        rw [move_add start, Image.ptrAdd, w.bits]
        exact Nat.mod_eq_of_lt (by unfold move; omega)
      rw [peek, stepOne] at peeked
      rw [peek, mem_move start (by omega), stepTwo]
      cases byteThere : w.one.mem addr with
      | none => rw [byteThere] at peeked; cases peeked
      | some byte =>
          rw [byteThere] at peeked
          cases rest : peek w.one (addr + 1) n with
          | error last => rw [rest] at peeked; cases peeked
          | ok tail =>
              rw [rest] at peeked
              simp only [inductionHypothesis (by omega) (by omega) rest]
              exact peeked

instance (n : Nat) : w.Tracks (bwUint w.one n) (bwUint w.two n) where
  follows {s t} related := by
    rw [bwUint_run, bwUint_run]
    by_cases room : bwCurOk w.one s.cur n = true
    · obtain ⟨fits, roomTwo⟩ := related.room room
      rw [if_pos room, if_pos roomTwo]
      cases peeked : peek w.one s.cur.p n with
      | ok bytes =>
          have same : peek w.two t.cur.p n = .ok bytes := by
            rw [related.cur]
            exact peek_move related.start fits peeked
          rw [same]
          exact fun _ => ⟨_, _, rfl, related.step fits, rfl⟩
      | error last => exact Follows.excused rfl (excused_fault _)
    · rw [if_neg room]
      exact Follows.excused rfl excused_short

instance : w.Tracks (bwU8 w.one) (bwU8 w.two) := by unfold bwU8; infer_instance
instance : w.Tracks (bwU16 w.one) (bwU16 w.two) := by unfold bwU16; infer_instance
instance : w.Tracks (bwU32 w.one) (bwU32 w.two) := by unfold bwU32; infer_instance
instance : w.Tracks (bwU64 w.one) (bwU64 w.two) := by unfold bwU64; infer_instance

instance (n : Nat) : w.Tracks (bwSkip w.one n) (bwSkip w.two n) where
  follows {s t} related := by
    rw [bwSkip_run, bwSkip_run]
    by_cases room : bwCurOk w.one s.cur n = true
    · obtain ⟨fits, roomTwo⟩ := related.room room
      rw [if_pos room, if_pos roomTwo]
      exact fun _ => ⟨_, _, rfl, related.step fits, rfl⟩
    · rw [if_neg room]
      exact Follows.excused rfl excused_short

instance tracks_bwUlebFrom (fuel r shift : Nat) :
    w.Tracks (bwUlebFrom w.one fuel r shift) (bwUlebFrom w.two fuel r shift) := by
  induction fuel generalizing r shift with
  | zero => unfold bwUlebFrom; infer_instance
  | succ fuel inductionHypothesis => unfold bwUlebFrom; infer_instance

instance : w.Tracks (bwUleb w.one) (bwUleb w.two) := by unfold bwUleb; infer_instance

instance tracks_bwSlebFrom (fuel r shift : Nat) :
    w.Tracks (bwSlebFrom w.one fuel r shift) (bwSlebFrom w.two fuel r shift) := by
  induction fuel generalizing r shift with
  | zero => unfold bwSlebFrom; infer_instance
  | succ fuel inductionHypothesis => unfold bwSlebFrom; infer_instance

instance : w.Tracks (bwSleb w.one) (bwSleb w.two) := by unfold bwSleb; infer_instance

instance tracks_pathString (fuel : Nat) :
    w.Tracks (pathString w.one fuel) (pathString w.two fuel) := by
  induction fuel with
  | zero => unfold pathString; infer_instance
  | succ fuel inductionHypothesis =>
      rw [pathString_succ, pathString_succ]
      infer_instance

instance (fuel : Nat) : w.Tracks (skipString w.one fuel) (skipString w.two fuel) := by
  rw [skipString_eq, skipString_eq]
  infer_instance

theorem Placement.size_two (w : Placement) (n : Nat) : w.two.size n = w.one.size n := by
  rw [Image.size, Image.size, w.bits]

theorem Placement.scanFuel_two (w : Placement) : scanFuel w.two = scanFuel w.one := by
  rw [scanFuel, scanFuel, w.bits]

instance (form offsetSize : Nat) :
    w.Tracks (bwFormSkip w.one form offsetSize) (bwFormSkip w.two form offsetSize) := by
  unfold bwFormSkip
  simp only [size_two, scanFuel_two]
  cases Form.ofCode form <;> infer_instance

instance (form : Nat) : w.Tracks (bwFormUdata w.one form) (bwFormUdata w.two form) := by
  unfold bwFormUdata
  cases Form.ofCode form <;> infer_instance

instance (offsetSize : Nat) : w.Tracks (bwOffset w.one offsetSize) (bwOffset w.two offsetSize) := by
  unfold bwOffset
  infer_instance

/-- What is logged does not matter. -/
theorem Placement.Moved.log {scan scan' : Scan} (related : w.Moved s t) :
    w.Moved { s with scans := s.scans ++ [scan] } { t with scans := t.scans ++ [scan'] } :=
  ⟨⟨related.ok.tab, related.ok.tabs, related.ok.later, related.ok.chain⟩, related.endp,
    related.start, related.within, related.cur, related.rows, related.nstr, related.strs⟩

theorem tracks_pathStrp {sec : SectionId} (other : sec ≠ .line) (offsetSize : Nat) :
    w.Tracks (pathStrp w.one sec offsetSize) (pathStrp w.two sec offsetSize) where
  follows {s t} related := by
    have strings := w.strings sec other
    unfold pathStrp
    refine Follows.bind (Tracks.follows related) fun _ off s' t' _ _ related' same => ?_
    subst same
    by_cases outside : (w.one.sec sec).ptr = 0 ∨ (w.one.sec sec).len ≤ off
    · rw [if_pos outside, if_pos (by rwa [strings.absent, strings.len])]
      exact Follows.pure related' rfl
    · rw [if_neg outside, if_neg (by rwa [strings.absent, strings.len])]
      rw [bind_of_ok (show getCur s' = .ok s'.cur s' from rfl),
        bind_of_ok (show getCur t' = .ok t'.cur t' from rfl), strlen_run, strlen_run]
      rw [not_or, Nat.not_le] at outside
      cases scanned : cstrIn w.one.mem (2 ^ w.one.bits - ((w.one.sec sec).ptr + off))
          ((w.one.sec sec).ptr + off) with
      | error last => exact Follows.excused rfl (excused_fault _)
      | ok bytes =>
          rw [strings.text off outside.2 bytes scanned]
          exact fun _ => ⟨bytes, _, rfl, related'.log, rfl⟩

instance (form offsetSize : Nat) :
    w.Tracks (bwFormPath w.one form offsetSize) (bwFormPath w.two form offsetSize) := by
  have lineStrp : w.Tracks (pathStrp w.one .lineStr offsetSize)
    (pathStrp w.two .lineStr offsetSize) := tracks_pathStrp (by decide) offsetSize
  have strp : w.Tracks (pathStrp w.one .debugStr offsetSize)
    (pathStrp w.two .debugStr offsetSize) := tracks_pathStrp (by decide) offsetSize
  unfold bwFormPath
  simp only [scanFuel_two]
  cases Form.ofCode form <;> infer_instance

instance tracks_bwFormatPairs (n i : Nat) (lnct form : CArray Nat) :
    w.Tracks (bwFormatPairs w.one n i lnct form) (bwFormatPairs w.two n i lnct form) := by
  induction n generalizing i lnct form with
  | zero => unfold bwFormatPairs; infer_instance
  | succ n inductionHypothesis => unfold bwFormatPairs; infer_instance

instance (lnct form : CArray Nat) :
    w.Tracks (bwFormats w.one lnct form) (bwFormats w.two lnct form) := by
  unfold bwFormats
  infer_instance

instance tracks_bwDirEntry (formats : Formats) (offsetSize n f : Nat) (path : List UInt8) :
    w.Tracks (bwDirEntry w.one formats offsetSize n f path)
      (bwDirEntry w.two formats offsetSize n f path) := by
  induction n generalizing f path with
  | zero => unfold bwDirEntry; infer_instance
  | succ n inductionHypothesis => unfold bwDirEntry; infer_instance

set_option synthInstance.maxSize 512 in
instance tracks_bwFileEntry (formats : Formats) (offsetSize n f : Nat) (entry : FileEntry) :
    w.Tracks (bwFileEntry w.one formats offsetSize n f entry)
      (bwFileEntry w.two formats offsetSize n f entry) := by
  induction n generalizing f entry with
  | zero => unfold bwFileEntry; infer_instance
  | succ n inductionHypothesis => unfold bwFileEntry; infer_instance

end Readers

/-! ### The string pool -/

section Pool

variable {w : Placement} {s t : State}

open Placement

/-- What `bw_add_str` copies, without the two places where it cuts. -/
theorem addStrBytes_eq (nstr : Nat) (text : List UInt8) :
    addStrBytes nstr text = (text.takeWhile (· ≠ 0)).take (bwDwarfStrMax - nstr - 1) := by
  have whole : (text.takeWhile (· ≠ 0)).length ≤ text.length :=
    (List.takeWhile_sublist _).length_le
  unfold addStrBytes
  dsimp only
  rw [← List.take_takeWhile]
  split_ifs
  · rfl
  · rw [List.take_of_length_le whole, List.take_of_length_le (by omega)]

/-- Interning without a cut is the same in both pools. -/
theorem addStrBytes_shift {nstr : Nat} {text : List UInt8}
    (room : w.shift = 0 ∨
      nstr + (addStrBytes nstr text).length + 1 + w.shift ≤ bwDwarfStrMax) :
    addStrBytes (nstr + w.shift) text = addStrBytes nstr text := by
  rcases room with none | room
  · rw [none, Nat.add_zero]
  · rw [addStrBytes_eq] at room
    rw [addStrBytes_eq, addStrBytes_eq]
    rw [List.length_take] at room
    rcases Nat.eq_zero_or_pos w.shift with zero | positive
    · rw [zero, Nat.add_zero]
    · rw [List.take_of_length_le (by omega), List.take_of_length_le (by omega)]

theorem bwAddStr_follows (text : List UInt8) (related : w.Moved s t) :
    Follows w.pairing (fun off off' _ _ => off' = w.shiftOff off) (bwAddStr text s)
      (bwAddStr text t) := by
  have safe := bwAddStr_safe text related.ok
  refine Follows.intro (fun off s' ended fits => ?_) fun why s' ended _ held => ?_
  · have okAfter := (safe.ok ended).1
    rw [bwAddStr_run] at ended ⊢
    split_ifs at ended with full inside
    · cases ended
      have none : w.shift = 0 := by
        rcases fits.strs with none | room
        · exact none
        · omega
      rw [if_pos (by rw [related.nstr]; omega)]
      exact ⟨_, _, rfl, related, rfl⟩
    · cases ended
      have same := addStrBytes_shift fits.strs
      have limit : ¬ bwDwarfStrMax < t.tab.nstr + 1 := by
        rw [related.nstr]
        rcases fits.strs with none | room
        · omega
        · simp only at room
          omega
      have insideTwo : t.tab.nstr + (addStrBytes t.tab.nstr text).length < bwDwarfStrMax := by
        rw [related.nstr, same]
        rcases fits.strs with none | room
        · omega
        · simp only at room
          omega
      rw [if_neg limit, if_pos insideTwo]
      refine ⟨_, _, rfl, ⟨okAfter, related.endp, related.start, related.within, related.cur,
        related.rows, ?_, ?_⟩, ?_⟩
      · simp only [related.nstr, same]
        omega
      · intro index below
        simp only [related.nstr, same, writeBytes]
        simp only at below
        by_cases fresh : s.tab.nstr ≤ index
        · rw [if_pos (by omega), if_pos fresh,
            show index + w.shift - (s.tab.nstr + w.shift) = index - s.tab.nstr by omega,
            List.getElem?_eq_getElem (by simp; omega)]
          rfl
        · rw [if_neg (by omega), if_neg fresh]
          exact related.strs index (by omega)
      · simp only [shiftOff, related.nstr]
        rw [if_neg (by omega)]
        push_cast
        rfl
  · -- Interning never stops for a malformed value.
    rw [bwAddStr_run] at ended
    split_ifs at ended
    cases ended
    exact absurd (excused_fault _) held

/-- A string of the first table is the same string in the second. -/
theorem Placement.Moved.cstr {off : Nat} (related : w.Moved s t) (present : OffOk s.tab off)
    (limit : t.tab.nstr ≤ bwDwarfStrMax) : t.tab.cstr (off + w.shift) = s.tab.cstr off := by
  obtain ⟨index, after, below, zero⟩ := present
  have nstr := related.nstr
  refine cstrFrom_moved (index - off) (fun k within => ?_) ?_ (by omega) (by omega)
  · rw [Nat.add_right_comm]
    exact related.strs (off + k) (by omega)
  · rwa [show off + (index - off) = index by omega]

theorem poolStr_follows {off : Nat} (related : w.Moved s t) (present : OffOk s.tab off) :
    Follows w.pairing (fun text text' _ _ => text' = text) (poolStr off s)
      (poolStr (off + w.shift) t) := by
  have limit := related.ok.tab.nstr
  rw [poolStr_of_offOk present limit]
  intro fits
  have room : t.tab.nstr ≤ bwDwarfStrMax := by
    rw [related.nstr]
    rcases fits.strs with none | room
    · omega
    · exact room
  refine ⟨s.tab.text off, t, ?_, related, rfl⟩
  rw [poolStr, bind_of_ok (show getTab t = .ok t.tab t from rfl), related.cstr present room,
    cstr_of_offOk present limit]
  rfl

end Pool

/-! ### Directory and file tables -/

namespace Placement

variable (w : Placement)

def shiftArray (slots : CArray Int) : CArray Int :=
  { slots with cell := fun index => w.shiftOff (slots.cell index) }

def shiftDirs (dirs : Dirs) : Dirs := ⟨w.shiftArray dirs.dirOff, dirs.ndir⟩

def shiftFiles (files : Files) : Files := ⟨w.shiftArray files.fileOff, files.nfile⟩

end Placement

section Tables

variable {w : Placement} {s t : State}

open Placement

theorem Placement.shiftOff_nonneg {off : Int} : 0 ≤ w.shiftOff off ↔ 0 ≤ off := by
  unfold shiftOff
  split_ifs <;> omega

theorem Placement.shiftOff_toNat {off : Int} (present : 0 ≤ off) :
    (w.shiftOff off).toNat = off.toNat + w.shift := by
  unfold shiftOff
  rw [if_neg (by omega)]
  omega

theorem writeSlot_follows {slots : CArray Int} {index : Nat} {off : Int} (related : w.Moved s t) :
    Follows w.pairing (fun slots' slots'' s' t' => slots'' = w.shiftArray slots' ∧ s' = s ∧ t' = t)
      (slots.write index off s) ((w.shiftArray slots).write index (w.shiftOff off) t) := by
  unfold CArray.write checkIndex
  by_cases below : index < slots.size
  · rw [if_pos below, if_pos (show index < (w.shiftArray slots).size from below)]
    refine fun _ => ⟨_, t, rfl, related, ?_, rfl, rfl⟩
    simp only [shiftArray, CArray.mk.injEq, true_and]
    funext other
    split_ifs <;> rfl
  · rw [if_neg below]
    exact Follows.excused rfl (excused_fault _)

theorem bwAddFile_follows {dirs : Dirs} {hasDir : Bool} {dirIdx : Nat} {path : List UInt8}
    (related : w.Moved s t) (dirsOk : DirsOk s.tab dirs) :
    Follows w.pairing (fun off off' _ _ => off' = w.shiftOff off)
      (bwAddFile dirs hasDir dirIdx path s)
      (bwAddFile (w.shiftDirs dirs) hasDir dirIdx path t) := by
  unfold bwAddFile
  by_cases named : hasDir = true ∧ dirIdx < dirs.ndir
  · rw [if_pos named, if_pos (show hasDir = true ∧ dirIdx < (w.shiftDirs dirs).ndir from named)]
    have below : dirIdx < dirs.dirOff.size := by
      rw [dirsOk.size]
      exact named.2.trans_le dirsOk.fits
    have readOne := read_of_lt below s
    have readTwo : (w.shiftDirs dirs).dirOff.read dirIdx t =
        .ok (w.shiftOff (dirs.dirOff.cell dirIdx)) t :=
      read_of_lt (show dirIdx < (w.shiftDirs dirs).dirOff.size from below) t
    rw [bind_of_ok readOne, bind_of_ok readTwo]
    by_cases present : 0 ≤ dirs.dirOff.cell dirIdx
    · rw [if_pos present, if_pos (shiftOff_nonneg.mpr present), shiftOff_toNat present]
      refine Follows.bind (poolStr_follows related (dirsOk.slot dirIdx named.2 present))
        fun _ dir s' t' _ _ related' same => ?_
      subst same
      refine Follows.bind (Tracks.follows related') fun _ _ s'' t'' _ _ related'' _ => ?_
      split_ifs
      · exact stop_follows related''
      · exact bwAddStr_follows _ related''
    · rw [if_neg present, if_neg (mt shiftOff_nonneg.mp present)]
      exact bwAddStr_follows path related
  · rw [if_neg named, if_neg (show ¬ (hasDir = true ∧ dirIdx < (w.shiftDirs dirs).ndir) from named)]
    exact bwAddStr_follows path related

theorem bwDirsV5_follows {formats : Formats} {offsetSize n : Nat} {dirs : Dirs}
    (related : w.Moved s t) :
    Follows w.pairing (fun dirs' dirs'' _ _ => dirs'' = w.shiftDirs dirs')
      (bwDirsV5 w.one formats offsetSize n dirs s)
      (bwDirsV5 w.two formats offsetSize n (w.shiftDirs dirs) t) := by
  induction n generalizing s t dirs with
  | zero => exact Follows.pure related rfl
  | succ n inductionHypothesis =>
      unfold bwDirsV5
      refine Follows.bind (Tracks.follows related) fun _ path s₁ t₁ _ _ related₁ same => ?_
      subst same
      refine Follows.bind (bwAddStr_follows path related₁) fun _ off s₂ t₂ _ _ related₂ same => ?_
      subst same
      refine Follows.bind (writeSlot_follows related₂) ?_
      rintro slots slots' s₃ t₃ - - related₃ ⟨rfl, -, -⟩
      exact inductionHypothesis related₃

theorem bwFilesV5_follows {formats : Formats} {offsetSize n : Nat} {dirs : Dirs} {files : Files}
    (related : w.Moved s t) (dirsOk : DirsOk s.tab dirs) :
    Follows w.pairing (fun files' files'' _ _ => files'' = w.shiftFiles files')
      (bwFilesV5 w.one formats offsetSize dirs n files s)
      (bwFilesV5 w.two formats offsetSize (w.shiftDirs dirs) n (w.shiftFiles files) t) := by
  induction n generalizing s t files with
  | zero => exact Follows.pure related rfl
  | succ n inductionHypothesis =>
      unfold bwFilesV5
      refine Follows.bind (Tracks.follows related) fun _ entry s₁ t₁ ended _ related₁ same => ?_
      subst same
      have grown₁ : Grown w.one s s₁ := Develops.ok ended
      have dirs₁ := dirsOk.mono grown₁.tab
      refine Follows.bind (bwAddFile_follows related₁ dirs₁)
        fun _ off s₂ t₂ ended' _ related₂ same => ?_
      subst same
      have grown₂ : Grown w.one s₁ s₂ := Develops.ok ended'
      refine Follows.bind (writeSlot_follows related₂) ?_
      rintro slots slots' s₃ t₃ - - related₃ ⟨rfl, rfl, -⟩
      exact inductionHypothesis related₃ (dirs₁.mono grown₂.tab)

theorem Placement.shiftArray_init {slots : CArray Int} (empty : ∀ index, slots.cell index = -1) :
    w.shiftArray slots = slots := by
  simp only [shiftArray, empty]
  cases slots
  simp only [CArray.mk.injEq, true_and]
  funext index
  exact (empty index).symm

theorem bwTablesV5_follows {offsetSize : Nat} (related : w.Moved s t) :
    Follows w.pairing (fun files files' _ _ => files' = w.shiftFiles files)
      (bwTablesV5 w.one offsetSize s) (bwTablesV5 w.two offsetSize t) := by
  have noDirs : w.shiftDirs ⟨dirOffInit, 0⟩ = ⟨dirOffInit, 0⟩ := by
    rw [shiftDirs, shiftArray_init fun _ => rfl]
  have noFiles : w.shiftFiles ⟨fileOffInit, 0⟩ = ⟨fileOffInit, 0⟩ := by
    rw [shiftFiles, shiftArray_init fun _ => rfl]
  unfold bwTablesV5
  refine Follows.bind (Tracks.follows related) fun _ dirFormats s₁ t₁ ended₁ _ related₁ same => ?_
  subst same
  have dirFormatsOk := ((bwFormats_safe related.ok rfl rfl).ok ended₁).2
  refine Follows.bind (Tracks.follows related₁) fun _ dirCount s₂ t₂ _ _ related₂ same => ?_
  subst same
  split_ifs with tooMany
  · exact stop_follows related₂
  have startDirs : DirsOk s₂.tab ⟨dirOffInit, 0⟩ :=
    ⟨rfl, Nat.zero_le _, fun _ below => nomatch below⟩
  refine Follows.bind (noDirs ▸ bwDirsV5_follows related₂)
    fun _ dirs s₃ t₃ ended₃ _ related₃ same => ?_
  subst same
  have dirsOk := ((bwDirsV5_safe related₂.ok dirFormatsOk startDirs
    (by simp only; omega)).ok ended₃).2
  refine Follows.bind (Tracks.follows related₃) fun _ fileFormats s₄ t₄ ended₄ _ related₄ same => ?_
  subst same
  have grown₄ : Grown w.one s₃ s₄ := Develops.ok ended₄
  refine Follows.bind (Tracks.follows related₄) fun _ fileCount s₅ t₅ ended₅ _ related₅ same => ?_
  subst same
  have grown₅ : Grown w.one s₄ s₅ := Develops.ok ended₅
  split_ifs
  · exact stop_follows related₅
  · exact noFiles ▸ bwFilesV5_follows related₅ ((dirsOk.mono grown₄.tab).mono grown₅.tab)

/-- A string inside the unit is the same string in the other image. -/
theorem Placement.cstrIn_move {fuel fuel' addr : Nat} {bytes : List UInt8} (start : w.src ≤ addr)
    (fits : addr + bytes.length + 1 ≤ w.src + w.len) (enough : bytes.length < fuel')
    (found : cstrIn w.one.mem fuel addr = .ok bytes) :
    cstrIn w.two.mem fuel' (w.move addr) = .ok bytes := by
  induction fuel generalizing fuel' addr bytes with
  | zero => cases found
  | succ fuel inductionHypothesis =>
      obtain ⟨fuel', rfl⟩ : ∃ n, fuel' = n + 1 := ⟨fuel' - 1, by omega⟩
      rw [cstrIn_succ_eq_ok, mem_move start (by omega)]
      obtain ⟨zero, rfl⟩ | ⟨byte, tail, byteThere, nonzero, rest, rfl⟩ :=
        cstrIn_succ_eq_ok.mp found
      · exact Or.inl ⟨zero, rfl⟩
      · simp only [List.length_cons] at fits enough
        have moved := inductionHypothesis (by omega) (by omega) (show tail.length < fuel' by omega)
          rest
        rw [move_add start] at moved
        exact Or.inr ⟨byte, tail, byteThere, nonzero, moved, rfl⟩

/-- `strlen` at the cursor. -/
theorem strlen_follows {after after' : Nat → Nat} (related : w.Moved s t) :
    Follows w.pairing (fun bytes bytes' s' t' => bytes' = bytes ∧ s'.cur = s.cur ∧
        t'.cur = t.cur ∧ s.cur.p + (bytes.length + 1) ≤ w.src + w.len)
      (strlen w.one .line s.cur.p after s) (strlen w.two .line t.cur.p after' t) := by
  rw [strlen_run, strlen_run]
  cases scanned : cstrIn w.one.mem (2 ^ w.one.bits - s.cur.p) s.cur.p with
  | error last => exact Follows.excused rfl (excused_fault _)
  | ok bytes =>
      intro fits
      have inUnit : s.cur.p + bytes.length + 1 ≤ w.src + w.len :=
        fits.scans _ (List.mem_append_right _ (List.mem_singleton_self _)) rfl
      have start := related.start
      have dstFits := w.dstFits
      have limFits := w.limFits
      have found : cstrIn w.two.mem (2 ^ w.two.bits - t.cur.p) t.cur.p = .ok bytes := by
        rw [related.cur, w.bits]
        refine cstrIn_move start inUnit ?_ scanned
        simp only [move]
        omega
      rw [found]
      exact ⟨bytes, _, rfl, related.log, rfl, rfl, rfl, by omega⟩

theorem bwDirV2_follows (related : w.Moved s t) :
    Follows w.pairing (fun off off' _ _ => off' = w.shiftOff off) (bwDirV2 w.one s)
      (bwDirV2 w.two t) := by
  rw [bwDirV2, bwDirV2, bind_of_ok (show getCur s = .ok s.cur s from rfl),
    bind_of_ok (show getCur t = .ok t.cur t from rfl)]
  refine Follows.bind (strlen_follows related) ?_
  rintro name name' s₁ t₁ - - related₁ ⟨rfl, curOne, curTwo, inUnit⟩
  refine Follows.bind (bwAddStr_follows name' related₁)
    fun off off' s₂ t₂ ended ended' related₂ same => ?_
  have moved := related₂.step (n := name'.length + 1) (by
    rw [(bwAddStr_keeps ended).1, curOne]
    exact inUnit)
  rw [(bwAddStr_keeps ended).1, (bwAddStr_keeps ended').1, curOne, curTwo] at moved
  refine fun _ => ⟨off', _, rfl, ?_, same⟩
  simp only [(bwAddStr_keeps ended).1, (bwAddStr_keeps ended').1, curOne, curTwo]
  exact moved

theorem bwListEnd_follows {α : Type} (list list' : α) (related : w.Moved s t) :
    Follows w.pairing (fun a b _ _ => a = list ∧ b = list') (bwListEnd w.one list s)
      (bwListEnd w.two list' t) := by
  unfold bwListEnd
  refine Follows.bind (Tracks.follows related) fun _ _ s₁ t₁ _ _ related₁ _ => ?_
  exact Follows.pure related₁ ⟨rfl, rfl⟩

/-- The head of the two string list loops: a list that is cut off by the end of
the unit is not followed, any other looks at the same byte. -/
theorem listHead_follows {α : Type} (list list' : α) (more : UInt8 → Prop)
    [∀ byte, Decidable (more byte)] {one two : Parser α} {post : α → α → State → State → Prop}
    (related : w.Moved s t) (next : Follows w.pairing post (one s) (two t))
    (last : ∀ s' t', post list list' s' t') :
    Follows w.pairing post
      ((do
        let c ← getCur
        if bwCurOk w.one c 1 then
          let first ← load w.one c.p
          if more first then one else bwListEnd w.one list
        else bwListEnd w.one list) s)
      ((do
        let c ← getCur
        if bwCurOk w.two c 1 then
          let first ← load w.two c.p
          if more first then two else bwListEnd w.two list'
        else bwListEnd w.two list') t) := by
  rw [bind_of_ok (show getCur s = .ok s.cur s from rfl),
    bind_of_ok (show getCur t = .ok t.cur t from rfl)]
  by_cases room : bwCurOk w.one s.cur 1 = true
  · obtain ⟨fits, roomTwo⟩ := related.room room
    rw [if_pos room, if_pos roomTwo]
    have sameByte : w.two.mem t.cur.p = w.one.mem s.cur.p := by
      rw [related.cur]
      exact mem_move related.start fits
    cases byteThere : w.one.mem s.cur.p with
    | none =>
        have faulted : load w.one s.cur.p s = .error (.fault (.segv s.cur.p)) s := by
          rw [load_run, byteThere]
        exact Follows.excused (bind_of_error faulted) (excused_fault _)
    | some first =>
        have readOne : load w.one s.cur.p s = .ok first s := by rw [load_run, byteThere]
        have readTwo : load w.two t.cur.p t = .ok first t := by rw [load_run, sameByte, byteThere]
        rw [bind_of_ok readOne, bind_of_ok readTwo]
        split_ifs
        · exact next
        · exact (bwListEnd_follows list list' related).mono
            fun a b s' t' _ _ same => same.1 ▸ same.2 ▸ last s' t'
  · rw [if_neg room]
    have refused : bwListEnd w.one list s = .error .short s := by
      rw [bwListEnd, bind_of_error (show bwSkip w.one 1 s = .error .short s by
        rw [bwSkip_run, if_neg room])]
    exact Follows.excused refused excused_short

theorem bwDirsV2_follows {fuel : Nat} {dirs : Dirs} (related : w.Moved s t) :
    Follows w.pairing (fun dirs' dirs'' _ _ => dirs'' = w.shiftDirs dirs')
      (bwDirsV2 w.one fuel dirs s) (bwDirsV2 w.two fuel (w.shiftDirs dirs) t) := by
  induction fuel generalizing s t dirs with
  | zero => exact Follows.excused rfl (excused_fault _)
  | succ fuel inductionHypothesis =>
      refine listHead_follows dirs (w.shiftDirs dirs)
        (fun first => first ≠ 0 ∧ dirs.ndir < bwDwarfDirsMax) related ?_ fun _ _ => rfl
      refine Follows.bind (bwDirV2_follows related) fun _ off s₁ t₁ _ _ related₁ same => ?_
      subst same
      refine Follows.bind (writeSlot_follows related₁) ?_
      rintro slots slots' s₂ t₂ - - related₂ ⟨rfl, -, -⟩
      exact inductionHypothesis related₂

theorem bwFileV2_follows {dirs : Dirs} (related : w.Moved s t) (dirsOk : DirsOk s.tab dirs) :
    Follows w.pairing (fun off off' _ _ => off' = w.shiftOff off) (bwFileV2 w.one dirs s)
      (bwFileV2 w.two (w.shiftDirs dirs) t) := by
  rw [bwFileV2, bwFileV2, bind_of_ok (show getCur s = .ok s.cur s from rfl),
    bind_of_ok (show getCur t = .ok t.cur t from rfl)]
  refine Follows.bind (strlen_follows related) ?_
  rintro name name' s₁ t₁ ended₁ - related₁ ⟨rfl, curOne, curTwo, inUnit⟩
  have moved := related₁.step (n := name'.length + 1) (curOne ▸ inUnit)
  rw [curOne, curTwo] at moved
  rw [bind_of_ok (show setP (w.one.ptrAdd s.cur.p (name'.length + 1)) s₁ = .ok () _ from rfl),
    bind_of_ok (show setP (w.two.ptrAdd t.cur.p (name'.length + 1)) t₁ = .ok () _ from rfl),
    curOne, curTwo]
  refine Follows.bind (Tracks.follows moved) fun _ dirIdx s₂ t₂ ended₂ _ related₂ same => ?_
  subst same
  refine Follows.bind (Tracks.follows related₂) fun _ _ s₃ t₃ ended₃ _ related₃ _ => ?_
  refine Follows.bind (Tracks.follows related₃) fun _ _ s₄ t₄ ended₄ _ related₄ _ => ?_
  refine bwAddFile_follows related₄ (dirsOk.mono ?_)
  have grown₁ : Grown w.one s s₁ := Develops.ok ended₁
  have grown₂ : Grown w.one _ s₂ := Develops.ok ended₂
  have grown₃ : Grown w.one s₂ s₃ := Develops.ok ended₃
  have grown₄ : Grown w.one s₃ s₄ := Develops.ok ended₄
  exact ((grown₁.tab.trans grown₂.tab).trans grown₃.tab).trans grown₄.tab

theorem bwFilesV2_follows {dirs : Dirs} {fuel : Nat} {files : Files} (related : w.Moved s t)
    (dirsOk : DirsOk s.tab dirs) :
    Follows w.pairing (fun files' files'' _ _ => files'' = w.shiftFiles files')
      (bwFilesV2 w.one dirs fuel files s)
      (bwFilesV2 w.two (w.shiftDirs dirs) fuel (w.shiftFiles files) t) := by
  induction fuel generalizing s t files with
  | zero => exact Follows.excused rfl (excused_fault _)
  | succ fuel inductionHypothesis =>
      refine listHead_follows files (w.shiftFiles files)
        (fun first => first ≠ 0 ∧ files.nfile < bwDwarfFilesMax) related ?_ fun _ _ => rfl
      refine Follows.bind (bwFileV2_follows related dirsOk)
        fun _ off s₁ t₁ ended₁ _ related₁ same => ?_
      subst same
      have grown₁ : Grown w.one s s₁ := Develops.ok ended₁
      refine Follows.bind (writeSlot_follows related₁) ?_
      rintro slots slots' s₂ t₂ - - related₂ ⟨rfl, rfl, -⟩
      exact inductionHypothesis related₂ (dirsOk.mono grown₁.tab)

theorem bwTablesV2_follows (related : w.Moved s t) :
    Follows w.pairing (fun files files' _ _ => files' = w.shiftFiles files) (bwTablesV2 w.one s)
      (bwTablesV2 w.two t) := by
  unfold bwTablesV2
  refine Follows.bind (bwAddStr_follows [] related) fun _ off s₁ t₁ ended₁ _ related₁ same => ?_
  subst same
  have slot := ((bwAddStr_safe [] related.ok).ok ended₁).2.1
  have noDirs : SlotsOk s₁.tab dirOffInit 0 bwDwarfDirsMax :=
    ⟨rfl, Nat.zero_le _, fun _ below => nomatch below⟩
  have initDirs : w.shiftArray dirOffInit = dirOffInit := shiftArray_init fun _ => rfl
  refine Follows.bind (initDirs ▸ writeSlot_follows related₁) ?_
  rintro slots slots' s₂ t₂ ended₂ - related₂ ⟨rfl, rfl, -⟩
  have filled := ((writeSlot_safe related₁.ok noDirs (by decide) slot).ok ended₂).2.2
  have dirsFollow : Follows w.pairing _ (bwDirsV2 w.one bwDwarfDirsMax ⟨slots, 1⟩ s₂)
      (bwDirsV2 w.two bwDwarfDirsMax (w.shiftDirs ⟨slots, 1⟩) t₂) := bwDirsV2_follows related₂
  refine Follows.bind dirsFollow
    fun _ dirs s₃ t₃ ended₃ _ related₃ same => ?_
  subst same
  have dirsOk := ((bwDirsV2_safe related₂.ok (show DirsOk s₂.tab ⟨slots, 1⟩ from filled)
    (by simp only; omega)).ok ended₃).2
  have initFiles : w.shiftArray fileOffInit = fileOffInit := shiftArray_init fun _ => rfl
  have hole : w.shiftOff (-1) = -1 := rfl
  refine Follows.bind (initFiles ▸ hole ▸ writeSlot_follows related₃) ?_
  rintro slots₂ slots₂' s₄ t₄ - - related₄ ⟨rfl, rfl, -⟩
  exact @bwFilesV2_follows _ _ _ _ _ ⟨slots₂, 1⟩ related₄ dirsOk

theorem bwTables_follows {prologue prologue' : Prologue} (related : w.Moved s t)
    (version : prologue'.version = prologue.version)
    (offsetSize : prologue'.offsetSize = prologue.offsetSize) :
    Follows w.pairing (fun files files' _ _ => files' = w.shiftFiles files)
      (bwTables w.one prologue s) (bwTables w.two prologue' t) := by
  unfold bwTables
  rw [version, offsetSize]
  split_ifs
  · exact bwTablesV5_follows related
  · exact bwTablesV2_follows related

end Tables

end Backwalk.DwarfLine
