import Backwalk.DwarfLine.LebNumbers
import Backwalk.DwarfLine.StaleBytes

/-!
Contract: the three readers of a form take the same bytes.

`bw_form_path` and `bw_form_udata` take what `bw_form_skip` steps over, so the size
of an entry does not depend on which of its values are understood. Where they
answer, the skip does; the other way round there is one exception: for a string
offset `bw_form_path` looks at the string itself, and does not come back where
memory ends before the string does.
-/

namespace Backwalk.DwarfLine

open Backwalk.Support

/-! ### Strings that are referred to -/

/-- The section that the offset of a form is for. -/
def Form.sec : Form → Option SectionId
  | .lineStrp => some .lineStr
  | .strp => some .debugStr
  | _ => none

/-- The value in front of the bytes refers to a string at this address. -/
structure RefersTo (img : Image) (form offsetSize : Nat) (bytes : List UInt8) (sec : SectionId)
    (addr : Nat) : Prop where
  refers : (Form.ofCode form).sec = some sec
  enough : offsetSize ≤ bytes.length
  present : (img.sec sec).ptr ≠ 0
  inside : leNat (bytes.take offsetSize) < (img.sec sec).len
  stands : addr = (img.sec sec).ptr + leNat (bytes.take offsetSize)

/-- From this address on there are mapped bytes up to a NUL. -/
def NulAhead (img : Image) (addr : Nat) : Prop :=
  ∃ index, addr ≤ index ∧ index < 2 ^ img.bits ∧ img.mem index = some 0 ∧
    ∀ other, addr ≤ other → other < index → (img.mem other).isSome = true

theorem nulAhead_iff {img : Image} {addr : Nat} :
    (∃ text, cstrIn img.mem (2 ^ img.bits - addr) addr = .ok text) ↔ NulAhead img addr := by
  constructor
  · rintro ⟨text, found⟩
    obtain ⟨short, mapped⟩ := cstrIn_mapped found
    exact ⟨addr + text.length, Nat.le_add_right _ _, by omega, cstrIn_ok found, mapped⟩
  · rintro ⟨index, after, below, zero, mapped⟩
    obtain ⟨text, found, -⟩ := cstrIn_stops (2 ^ img.bits - addr) after (by omega) zero mapped
    exact ⟨text, found⟩

section FormSizes

variable {img : Image} {form offsetSize : Nat} {bytes : List UInt8} {s : State}

/-! ### One form -/

variable (img offsetSize) in
theorem bwFormPath_sec {sec : SectionId} (refers : (Form.ofCode form).sec = some sec) :
    bwFormPath img form offsetSize = pathStrp img sec offsetSize ∧
      bwFormSkip img form offsetSize = bwSkip img offsetSize := by
  unfold bwFormPath bwFormSkip
  cases isForm : Form.ofCode form <;> rw [isForm] at refers <;> cases refers
  · exact ⟨rfl, rfl⟩
  · exact ⟨rfl, rfl⟩

/-- Without a reference, skipping is reading and forgetting the text. -/
theorem bwFormSkip_plain (plain : (Form.ofCode form).sec = none) :
    bwFormSkip img form offsetSize = bwFormPath img form offsetSize >>= fun _ => pure () := by
  unfold bwFormPath
  cases isForm : Form.ofCode form <;> rw [isForm] at plain <;> dsimp only
  case string =>
    rw [bwFormSkip, isForm]
    exact skipString_eq img (scanFuel img)
  case strp => cases plain
  case lineStrp => cases plain
  all_goals
    rw [bind_assoc]
    exact (bind_pure _).symm

/-- A number that is read is one that may be skipped. -/
theorem bwSkip_of_bwUint {n value : Nat} {t : State} (read : bwUint img n s = .ok value t) :
    bwSkip img n s = .ok () t := by
  rw [bwUint_run] at read
  split_ifs at read with room
  cases peeked : peek img s.cur.p n with
  | error last =>
      rw [peeked] at read
      cases read
  | ok bytes =>
      rw [peeked] at read
      cases read
      rw [bwSkip_run, if_pos room]

theorem bwSkip_of_bwOffset {off : Nat} {t : State} (width : offsetSize = 4 ∨ offsetSize = 8)
    (read : bwOffset img offsetSize s = .ok off t) : bwSkip img offsetSize s = .ok () t := by
  rcases width with rfl | rfl
  · exact bwSkip_of_bwUint read
  · exact bwSkip_of_bwUint read

theorem alike_refl (tab : Tab) : Alike tab tab := ⟨rfl, rfl, fun _ _ => rfl⟩

theorem alikeStates_refl (s : State) : AlikeStates s s := ⟨rfl, alike_refl s.tab⟩

theorem AlikeStates.symm {s t : State} (alike : AlikeStates s t) : AlikeStates t s := by
  obtain ⟨sameCur, sameTab⟩ := alike
  refine ⟨sameCur.symm, sameTab.rows.symm, sameTab.nstr.symm, ?_⟩
  intro index below
  exact (sameTab.strs index (sameTab.nstr ▸ below)).symm

theorem AlikeStates.trans {s t u : State} (one : AlikeStates s t) (two : AlikeStates t u) :
    AlikeStates s u := by
  refine ⟨two.cur.trans one.cur, two.tab.rows.trans one.tab.rows,
    two.tab.nstr.trans one.tab.nstr, ?_⟩
  intro index below
  exact (two.tab.strs index (one.tab.nstr ▸ below)).trans (one.tab.strs index below)

/-- Only the log of scans tells whether a string was looked at. -/
theorem strlen_alike {sec : SectionId} {addr : Nat} {after : Nat → Nat} {text : List UInt8}
    {t : State} (counted : strlen img sec addr after s = .ok text t) :
    cstrIn img.mem (2 ^ img.bits - addr) addr = .ok text ∧ AlikeStates s t := by
  rw [strlen_run] at counted
  cases found : cstrIn img.mem (2 ^ img.bits - addr) addr with
  | error last =>
      rw [found] at counted
      cases counted
  | ok text' =>
      rw [found] at counted
      cases counted
      exact ⟨rfl, rfl, alike_refl _⟩

/-- A path that is read may be skipped, and the cursor comes to the same place. -/
theorem bwFormSkip_of_path {text : List UInt8} {t : State} (width : offsetSize = 4 ∨ offsetSize = 8)
    (read : bwFormPath img form offsetSize s = .ok text t) :
    ∃ u, bwFormSkip img form offsetSize s = .ok () u ∧ AlikeStates t u := by
  cases refers : (Form.ofCode form).sec with
  | none =>
      rw [bwFormSkip_plain refers, bind_of_ok read]
      exact ⟨t, rfl, alikeStates_refl t⟩
  | some sec =>
      obtain ⟨isPath, isSkip⟩ := bwFormPath_sec img offsetSize refers
      rw [isPath, pathStrp] at read
      obtain ⟨off, u, offset, read⟩ := bind_eq_ok.mp read
      refine ⟨u, isSkip ▸ bwSkip_of_bwOffset width offset, ?_⟩
      split_ifs at read
      · cases read
        exact alikeStates_refl t
      · rw [bind_of_ok (show getCur u = .ok u.cur u from rfl)] at read
        exact (strlen_alike read).2.symm

theorem bwFormSkip_of_udata {n : Nat} {t : State} (read : bwFormUdata img form s = .ok n t) :
    bwFormSkip img form offsetSize s = .ok () t := by
  unfold bwFormUdata at read
  unfold bwFormSkip
  cases isForm : Form.ofCode form <;> rw [isForm] at read
  case udata => exact bind_of_ok read
  case data1 => exact bwSkip_of_bwUint read
  case data2 => exact bwSkip_of_bwUint read
  case data4 => exact bwSkip_of_bwUint read
  all_goals cases read

/-! ### References -/

theorem Remaining.skips_iff {n : Nat} (remaining : Remaining img bytes s.cur) :
    (∃ u, bwSkip img n s = .ok () u) ↔ n ≤ bytes.length := by
  have whole := remaining.whole
  have started := remaining.ahead.started
  rw [bwSkip_run]
  simp only [bwCurOk, ne_eq, Bool.and_eq_true, decide_eq_true_eq,
    curRoom_of_inside remaining.ahead.inside]
  constructor
  · rintro ⟨u, skipped⟩
    split_ifs at skipped
    omega
  · intro enough
    rw [if_pos (by omega)]
    exact ⟨_, rfl⟩

theorem Remaining.bwOffset (remaining : Remaining img bytes s.cur)
    (width : offsetSize = 4 ∨ offsetSize = 8) (enough : offsetSize ≤ bytes.length) :
    DwarfLine.bwOffset img offsetSize s =
      .ok (leNat (bytes.take offsetSize)) (s.advance offsetSize) := by
  have split : Ahead img (bytes.take offsetSize ++ bytes.drop offsetSize) s.cur := by
    rw [List.take_append_drop]
    exact remaining.ahead
  have length : (bytes.take offsetSize).length = offsetSize := List.length_take_of_le enough
  rcases width with rfl | rfl
  · exact bwUint_ahead split length
  · exact bwUint_ahead split length

/-- With all of its bytes there, a reference is read exactly if its string ends. -/
theorem pathStrp_ok_iff {sec : SectionId} (remaining : Remaining img bytes s.cur)
    (width : offsetSize = 4 ∨ offsetSize = 8) (refers : (Form.ofCode form).sec = some sec)
    (enough : offsetSize ≤ bytes.length) :
    (∃ text t, pathStrp img sec offsetSize s = .ok text t) ↔
      ∀ sec addr, RefersTo img form offsetSize bytes sec addr → NulAhead img addr := by
  rw [pathStrp, bind_of_ok (remaining.bwOffset width enough)]
  by_cases outside : (img.sec sec).ptr = 0 ∨ (img.sec sec).len ≤ leNat (bytes.take offsetSize)
  · rw [if_pos outside]
    refine iff_of_true ⟨[], _, rfl⟩ ?_
    intro sec' addr refersTo
    cases refers.symm.trans refersTo.refers
    rcases outside with absent | beyond
    · exact absurd absent refersTo.present
    · exact absurd refersTo.inside (Nat.not_lt_of_le beyond)
  · rw [if_neg outside, bind_of_ok (show getCur (s.advance offsetSize) = .ok _ _ from rfl)]
    rw [not_or, Nat.not_le] at outside
    constructor
    · rintro ⟨text, t, read⟩ sec' addr refersTo
      cases refers.symm.trans refersTo.refers
      rw [refersTo.stands]
      exact nulAhead_iff.mp ⟨text, (strlen_alike read).1⟩
    · intro ends
      obtain ⟨text, found⟩ := nulAhead_iff.mpr
        (ends sec _ ⟨refers, enough, outside.1, outside.2, rfl⟩)
      rw [strlen_run, found]
      exact ⟨text, _, rfl⟩

/-- Reading and skipping succeed together exactly if the string that is referred to
ends. -/
theorem bwFormPath_ok_iff (remaining : Remaining img bytes s.cur)
    (width : offsetSize = 4 ∨ offsetSize = 8) :
    ((∃ text t, bwFormPath img form offsetSize s = .ok text t) ↔
        ∃ u, bwFormSkip img form offsetSize s = .ok () u) ↔
      ∀ sec addr, RefersTo img form offsetSize bytes sec addr → NulAhead img addr := by
  cases refers : (Form.ofCode form).sec with
  | none =>
      refine iff_of_true ?_ fun sec addr refersTo => by cases refers.symm.trans refersTo.refers
      constructor
      · rintro ⟨text, t, read⟩
        obtain ⟨u, skipped, -⟩ := bwFormSkip_of_path width read
        exact ⟨u, skipped⟩
      · rintro ⟨u, skipped⟩
        rw [bwFormSkip_plain refers] at skipped
        obtain ⟨text, t, read, -⟩ := bind_eq_ok.mp skipped
        exact ⟨text, t, read⟩
  | some sec =>
      obtain ⟨isPath, isSkip⟩ := bwFormPath_sec img offsetSize refers
      rw [isPath, isSkip, remaining.skips_iff]
      by_cases enough : offsetSize ≤ bytes.length
      · rw [iff_true_right enough]
        exact pathStrp_ok_iff remaining width refers enough
      · refine iff_of_true ?_ fun sec addr refersTo => absurd refersTo.enough enough
        refine iff_of_false ?_ enough
        rintro ⟨text, t, read⟩
        obtain ⟨u, skipped, -⟩ := bwFormSkip_of_path width (isPath ▸ read)
        exact enough (remaining.skips_iff.mp ⟨u, isSkip ▸ skipped⟩)

/-! ### Entries -/

variable (img)

/-- An entry whose values are all skipped, from format pair `f` on. -/
def skipEntry (formats : Formats) (offsetSize : Nat) : Nat → Nat → Parser Unit
  | 0, _ => pure ()
  | n + 1, f => do
      let _ ← formats.lnct.read f
      let code ← formats.form.read f
      bwFormSkip img code offsetSize
      skipEntry formats offsetSize n (f + 1)

instance blind_skipEntry (formats : Formats) (offsetSize n f : Nat) :
    StaleBlind (skipEntry img formats offsetSize n f) := by
  induction n generalizing f with
  | zero =>
      unfold skipEntry
      infer_instance
  | succ n inductionHypothesis =>
      unfold skipEntry
      infer_instance

variable {img}

/-- One value of an entry, and the rest of it from a state that looks the same. -/
theorem skipEntry_step {formats : Formats} {n f contentType code : Nat} {s₁ s₂ t₁ t u₁ v : State}
    (readType : formats.lnct.read f s = .ok contentType s₁)
    (readForm : formats.form.read f s₁ = .ok code s₂)
    (skipped : bwFormSkip img code offsetSize s₂ = .ok () u₁) (alike : AlikeStates t₁ u₁)
    (later : skipEntry img formats offsetSize n (f + 1) t₁ = .ok () v) (ended : AlikeStates t v) :
    ∃ u, skipEntry img formats offsetSize (n + 1) f s = .ok () u ∧ AlikeStates t u := by
  have agree := (blind_skipEntry img formats offsetSize n (f + 1)).agree alike
  obtain ⟨u, fromHere, related⟩ := agree.ok later
  refine ⟨u, ?_, ended.trans related⟩
  rw [skipEntry, bind_of_ok readType, bind_of_ok readForm, bind_of_ok skipped]
  exact fromHere

/-- A directory entry that is read may be skipped instead. -/
theorem skipEntry_of_dir {formats : Formats} {n f : Nat} {path path' : List UInt8} {t : State}
    (width : offsetSize = 4 ∨ offsetSize = 8)
    (read : bwDirEntry img formats offsetSize n f path s = .ok path' t) :
    ∃ u, skipEntry img formats offsetSize n f s = .ok () u ∧ AlikeStates t u := by
  induction n generalizing f path s with
  | zero =>
      cases read
      exact ⟨t, rfl, alikeStates_refl t⟩
  | succ n inductionHypothesis =>
      rw [bwDirEntry] at read
      obtain ⟨contentType, s₁, readType, read⟩ := bind_eq_ok.mp read
      obtain ⟨code, s₂, readForm, read⟩ := bind_eq_ok.mp read
      split_ifs at read with isPath
      · obtain ⟨text, t₁, value, read⟩ := bind_eq_ok.mp read
        obtain ⟨u₁, skipped, alike⟩ := bwFormSkip_of_path width value
        obtain ⟨v, later, ended⟩ := inductionHypothesis read
        exact skipEntry_step readType readForm skipped alike later ended
      · obtain ⟨_, t₁, value, read⟩ := bind_eq_ok.mp read
        obtain ⟨v, later, ended⟩ := inductionHypothesis read
        exact skipEntry_step readType readForm value (alikeStates_refl t₁) later ended

/-- So may a file entry. -/
theorem skipEntry_of_file {formats : Formats} {n f : Nat} {entry entry' : FileEntry} {t : State}
    (width : offsetSize = 4 ∨ offsetSize = 8)
    (read : bwFileEntry img formats offsetSize n f entry s = .ok entry' t) :
    ∃ u, skipEntry img formats offsetSize n f s = .ok () u ∧ AlikeStates t u := by
  induction n generalizing f entry s with
  | zero =>
      cases read
      exact ⟨t, rfl, alikeStates_refl t⟩
  | succ n inductionHypothesis =>
      rw [bwFileEntry] at read
      obtain ⟨contentType, s₁, readType, read⟩ := bind_eq_ok.mp read
      obtain ⟨code, s₂, readForm, read⟩ := bind_eq_ok.mp read
      split_ifs at read with isPath isIndex
      · obtain ⟨text, t₁, value, read⟩ := bind_eq_ok.mp read
        obtain ⟨u₁, skipped, alike⟩ := bwFormSkip_of_path width value
        obtain ⟨v, later, ended⟩ := inductionHypothesis read
        exact skipEntry_step readType readForm skipped alike later ended
      · obtain ⟨dirIdx, t₁, value, read⟩ := bind_eq_ok.mp read
        obtain ⟨v, later, ended⟩ := inductionHypothesis read
        exact skipEntry_step readType readForm (bwFormSkip_of_udata value)
          (alikeStates_refl t₁) later ended
      · obtain ⟨_, t₁, value, read⟩ := bind_eq_ok.mp read
        obtain ⟨v, later, ended⟩ := inductionHypothesis read
        exact skipEntry_step readType readForm value (alikeStates_refl t₁) later ended

/-! ### All of it -/

/-- What the three readers of a form should have in common, from this state on. -/
structure SameSizes (img : Image) (form offsetSize : Nat) (s : State) : Prop where
  together : (∃ text t, bwFormPath img form offsetSize s = .ok text t) ↔
    ∃ u, bwFormSkip img form offsetSize s = .ok () u
  path : ∀ text t u, bwFormPath img form offsetSize s = .ok text t →
    bwFormSkip img form offsetSize s = .ok () u → t.cur = u.cur
  udata : ∀ n t, bwFormUdata img form s = .ok n t →
    ∃ u, bwFormSkip img form offsetSize s = .ok () u ∧ t.cur = u.cur
  dirEntry : ∀ formats n path path' t, bwDirEntry img formats offsetSize n 0 path s = .ok path' t →
    ∃ u, skipEntry img formats offsetSize n 0 s = .ok () u ∧ t.cur = u.cur
  fileEntry : ∀ formats n entry entry' t,
    bwFileEntry img formats offsetSize n 0 entry s = .ok entry' t →
      ∃ u, skipEntry img formats offsetSize n 0 s = .ok () u ∧ t.cur = u.cur

/-- The readers of a form take the same bytes exactly if the string that the form
refers to, if it refers to one, ends in mapped memory. -/
theorem sameSizes_iff (width : offsetSize = 4 ∨ offsetSize = 8)
    (remaining : Remaining img bytes s.cur) :
    SameSizes img form offsetSize s ↔
      ∀ sec addr, RefersTo img form offsetSize bytes sec addr → NulAhead img addr := by
  constructor
  · intro same
    exact (bwFormPath_ok_iff remaining width).mp same.together
  · intro ends
    refine ⟨(bwFormPath_ok_iff remaining width).mpr ends, ?_, ?_, ?_, ?_⟩
    · intro text t u read skipped
      obtain ⟨u', skipped', alike⟩ := bwFormSkip_of_path width read
      cases skipped.symm.trans skipped'
      exact alike.cur.symm
    · intro n t read
      exact ⟨t, bwFormSkip_of_udata read, rfl⟩
    · intro formats n path path' t read
      obtain ⟨u, skipped, alike⟩ := skipEntry_of_dir width read
      exact ⟨u, skipped, alike.cur.symm⟩
    · intro formats n entry entry' t read
      obtain ⟨u, skipped, alike⟩ := skipEntry_of_file width read
      exact ⟨u, skipped, alike.cur.symm⟩

end FormSizes

/-- A part of a few bytes at `0x1000` lies in memory. -/
theorem memAt_part_placed {bytes : List UInt8} {off len : Nat} (fits : off + len ≤ bytes.length)
    (few : bytes.length < 16) : (Section.mk (0x1000 + off) len).Placed 64 (memAt 0x1000 bytes) := by
  intro _
  refine ⟨by dsimp only; omega, ?_⟩
  intro index below
  dsimp only at below
  have inside : 0x1000 + off + index - 0x1000 < bytes.length := by omega
  have above : 0x1000 ≤ 0x1000 + off + index := by omega
  simp only [memAt, if_pos above, List.getElem?_eq_getElem inside, Option.isSome_some]

/-- The offset 0, and behind it the section that it is for. -/
def offsetImage (str : List UInt8) (few : ([0, 0, 0, 0] ++ str).length < 16) : Image where
  bits := 64
  mem := memAt 0x1000 ([0, 0, 0, 0] ++ str)
  line := ⟨0x1000 + 0, 4⟩
  lineStr := ⟨0x1000 + 4, str.length⟩
  debugStr := ⟨0, 0⟩
  width := wide
  linePlaced := memAt_part_placed (by simp) few
  lineStrPlaced := memAt_part_placed (by rw [List.length_append]; exact le_refl _) few
  debugStrPlaced := absent_placed _ _

theorem offset_remaining (str : List UInt8) (few : ([0, 0, 0, 0] ++ str).length < 16) :
    Remaining (offsetImage str few) [0, 0, 0, 0]
      (startState (offsetImage str few) Tab.zeroed).cur := by
  refine ⟨⟨Nat.succ_pos _, le_refl _, ?_, ?_⟩, rfl⟩
  · show 0x1000 + 4 < 2 ^ 64
    decide
  · intro i inside
    have front : ([0, 0, 0, 0] ++ str)[i]? = [0, 0, 0, 0][i]? := List.getElem?_append_left inside
    show memAt 0x1000 ([0, 0, 0, 0] ++ str) (0x1000 + i) = _
    rw [memAt, if_pos (Nat.le_add_right _ _), Nat.add_sub_cancel_left, front,
      List.getElem?_eq_getElem inside]
    rfl

theorem few_ended : ([0, 0, 0, 0] ++ [(0x61 : UInt8), 0]).length < 16 := by decide

theorem few_unended : ([0, 0, 0, 0] ++ [(0x61 : UInt8)]).length < 16 := by decide

/-- A string with its NUL. -/
theorem ended_sameSizes :
    SameSizes (offsetImage [0x61, 0] few_ended) 0x1f 4
      (startState (offsetImage [0x61, 0] few_ended) Tab.zeroed) := by
  apply (sameSizes_iff (Or.inl rfl) (offset_remaining _ few_ended)).mpr
  intro sec addr refersTo
  cases refersTo.refers
  rw [refersTo.stands]
  refine ⟨0x1005, by decide, by decide, by decide, ?_⟩
  intro other from' before
  have here : other = 0x1004 := by
    have low : 0x1004 ≤ other := from'
    omega
  rw [here]
  decide

/-- A string section of one byte, without a NUL: the offset is skipped, but the path
is looked for where there is no memory. -/
theorem unended_not_sameSizes :
    (∃ t, bwFormSkip (offsetImage [0x61] few_unended) 0x1f 4
      (startState (offsetImage [0x61] few_unended) Tab.zeroed) = .ok () t) ∧
    (∃ t, bwFormPath (offsetImage [0x61] few_unended) 0x1f 4
      (startState (offsetImage [0x61] few_unended) Tab.zeroed) =
        .error (.fault (.segv 0x1005)) t) ∧
    ¬ SameSizes (offsetImage [0x61] few_unended) 0x1f 4
      (startState (offsetImage [0x61] few_unended) Tab.zeroed) := by
  have skipped : bwFormSkip (offsetImage [0x61] few_unended) 0x1f 4
      (startState (offsetImage [0x61] few_unended) Tab.zeroed) = .ok () _ := rfl
  have missed : bwFormPath (offsetImage [0x61] few_unended) 0x1f 4
      (startState (offsetImage [0x61] few_unended) Tab.zeroed) =
        .error (.fault (.segv 0x1005)) _ := rfl
  refine ⟨⟨_, skipped⟩, ⟨_, missed⟩, ?_⟩
  intro same
  obtain ⟨text, t, read⟩ := same.together.mpr ⟨_, skipped⟩
  cases missed.symm.trans read

end Backwalk.DwarfLine
