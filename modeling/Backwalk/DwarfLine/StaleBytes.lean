import Backwalk.DwarfLine.Invariant
import Backwalk.Support.Agreement

/-!
Contract: what an earlier parse left in the string pool has no influence.

Owns `Alike`, the relation between tables that differ at most in bytes of the
pool that are not in use, and its preservation by every function of the parser:
runs from alike states end alike, in the same way and with the same answer. Only
the functions that read the pool need the invariant of the table for that.
-/

namespace Backwalk.DwarfLine

open Backwalk.Support

/-- The tables differ at most in pool bytes that are not in use. -/
structure Alike (tab tab' : Tab) : Prop where
  rows : tab'.rows = tab.rows
  nstr : tab'.nstr = tab.nstr
  strs : ∀ index < tab.nstr, tab'.strs index = tab.strs index

/-- The states differ at most in stale bytes of the pool and in the logs. -/
structure AlikeStates (s t : State) : Prop where
  cur : t.cur = s.cur
  tab : Alike s.tab t.tab

/-- An action that stale bytes have no influence on. -/
abbrev StaleBlind {α : Type} (m : Parser α) : Prop := Blind AlikeStates m

/-! ### Elementary effects -/

section Effects

variable {α : Type} {s t : State}

instance : StaleBlind getCur :=
  ⟨fun related => ⟨related.cur.symm, related⟩⟩

instance (p : Nat) : StaleBlind (setP p) :=
  ⟨fun related => ⟨rfl, by rw [related.cur], related.tab⟩⟩

instance (flag : Bool) : StaleBlind (setDwarf64 flag) :=
  ⟨fun related => ⟨rfl, by rw [related.cur], related.tab⟩⟩

instance (scan : Scan) : StaleBlind (logScan scan) :=
  ⟨fun related => ⟨rfl, related.cur, related.tab⟩⟩

instance (why : Stop) : StaleBlind (stop why : Parser α) := ⟨fun related => ⟨rfl, related⟩⟩

instance (array : ArrayName) (index size : Nat) : StaleBlind (checkIndex array index size) := by
  unfold checkIndex
  infer_instance

instance (a b : Nat) : StaleBlind (cDiv a b) := by unfold cDiv; infer_instance

instance (a b : Nat) : StaleBlind (cMod a b) := by unfold cMod; infer_instance

instance (a : CArray α) (index : Nat) : StaleBlind (a.read index) := by
  unfold CArray.read
  infer_instance

instance (a : CArray α) (index : Nat) (value : α) : StaleBlind (a.write index value) := by
  unfold CArray.write
  infer_instance

end Effects

/-! ### Readers -/

section Readers

variable (img : Image)

instance (addr : Nat) : StaleBlind (load img addr) := by
  unfold load
  split <;> infer_instance

instance blind_loadBytes (addr n : Nat) : StaleBlind (loadBytes img addr n) := by
  induction n generalizing addr with
  | zero => unfold loadBytes; infer_instance
  | succ n inductionHypothesis => unfold loadBytes; infer_instance

instance (n : Nat) : StaleBlind (bwUint img n) := by unfold bwUint; infer_instance

instance : StaleBlind (bwU8 img) := by unfold bwU8; infer_instance
instance : StaleBlind (bwU16 img) := by unfold bwU16; infer_instance
instance : StaleBlind (bwU32 img) := by unfold bwU32; infer_instance
instance : StaleBlind (bwU64 img) := by unfold bwU64; infer_instance

instance (n : Nat) : StaleBlind (bwSkip img n) := by unfold bwSkip; infer_instance

instance blind_bwUlebFrom (fuel r shift : Nat) : StaleBlind (bwUlebFrom img fuel r shift) := by
  induction fuel generalizing r shift with
  | zero => unfold bwUlebFrom; infer_instance
  | succ fuel inductionHypothesis => unfold bwUlebFrom; infer_instance

instance : StaleBlind (bwUleb img) := by unfold bwUleb; infer_instance

instance blind_bwSlebFrom (fuel r shift : Nat) : StaleBlind (bwSlebFrom img fuel r shift) := by
  induction fuel generalizing r shift with
  | zero => unfold bwSlebFrom; infer_instance
  | succ fuel inductionHypothesis => unfold bwSlebFrom; infer_instance

instance : StaleBlind (bwSleb img) := by unfold bwSleb; infer_instance

instance (sec : SectionId) (addr : Nat) (after : Nat → Nat) :
    StaleBlind (strlen img sec addr after) := by
  unfold strlen
  split <;> infer_instance

instance blind_skipString (fuel : Nat) : StaleBlind (skipString img fuel) := by
  induction fuel with
  | zero => unfold skipString; infer_instance
  | succ fuel inductionHypothesis => unfold skipString; infer_instance

instance blind_pathString (fuel : Nat) : StaleBlind (pathString img fuel) := by
  induction fuel with
  | zero => unfold pathString; infer_instance
  | succ fuel inductionHypothesis => unfold pathString; infer_instance

instance (form offsetSize : Nat) : StaleBlind (bwFormSkip img form offsetSize) := by
  unfold bwFormSkip
  split <;> infer_instance

instance (offsetSize : Nat) : StaleBlind (bwOffset img offsetSize) := by
  unfold bwOffset
  infer_instance

instance (sec : SectionId) (offsetSize : Nat) : StaleBlind (pathStrp img sec offsetSize) := by
  unfold pathStrp
  infer_instance

instance (form offsetSize : Nat) : StaleBlind (bwFormPath img form offsetSize) := by
  unfold bwFormPath
  split <;> infer_instance

instance (form : Nat) : StaleBlind (bwFormUdata img form) := by
  unfold bwFormUdata
  split <;> infer_instance

instance (version : Nat) : StaleBlind (bwAddrSeg img version) := by
  unfold bwAddrSeg
  infer_instance

instance : StaleBlind (bwHeaderLength img) := by unfold bwHeaderLength; infer_instance

instance (version : Nat) : StaleBlind (bwMaxOps img version) := by
  unfold bwMaxOps
  infer_instance

instance (unitLen offsetSize : Nat) : StaleBlind (bwUnitEnd img unitLen offsetSize) := by
  unfold bwUnitEnd
  infer_instance

instance : StaleBlind (bwUnitLength img) := by unfold bwUnitLength; infer_instance

instance blind_bwStdLens (n op : Nat) (stdLen : CArray Nat) :
    StaleBlind (bwStdLens img n op stdLen) := by
  induction n generalizing op stdLen with
  | zero => unfold bwStdLens; infer_instance
  | succ n inductionHypothesis => unfold bwStdLens; infer_instance

instance (unitEnd prog offsetSize version addrSize minInst maxOps : Nat) :
    StaleBlind (bwOpcodeHeader img unitEnd prog offsetSize version addrSize minInst maxOps) := by
  unfold bwOpcodeHeader
  infer_instance

instance (unitEnd prog offsetSize version addrSize : Nat) :
    StaleBlind (bwHeaderRest img unitEnd prog offsetSize version addrSize) := by
  unfold bwHeaderRest
  infer_instance

instance : StaleBlind (bwPrologue img) := by unfold bwPrologue; infer_instance

instance blind_bwFormatPairs (n i : Nat) (lnct form : CArray Nat) :
    StaleBlind (bwFormatPairs img n i lnct form) := by
  induction n generalizing i lnct form with
  | zero => unfold bwFormatPairs; infer_instance
  | succ n inductionHypothesis => unfold bwFormatPairs; infer_instance

instance (lnct form : CArray Nat) : StaleBlind (bwFormats img lnct form) := by
  unfold bwFormats
  infer_instance

instance blind_bwDirEntry (formats : Formats) (offsetSize n f : Nat) (path : List UInt8) :
    StaleBlind (bwDirEntry img formats offsetSize n f path) := by
  induction n generalizing f path with
  | zero => unfold bwDirEntry; infer_instance
  | succ n inductionHypothesis => unfold bwDirEntry; infer_instance

instance blind_bwFileEntry (formats : Formats) (offsetSize n f : Nat) (entry : FileEntry) :
    StaleBlind (bwFileEntry img formats offsetSize n f entry) := by
  induction n generalizing f entry with
  | zero => unfold bwFileEntry; infer_instance
  | succ n inductionHypothesis => unfold bwFileEntry; infer_instance

instance {β : Type} (list : β) : StaleBlind (bwListEnd img list) := by
  unfold bwListEnd
  infer_instance

end Readers

/-! ### The string pool -/

section Pool

variable {s t : State}

/-- What is written goes behind what is in use. -/
instance (text : List UInt8) : StaleBlind (bwAddStr text) where
  agree {s t} related := by
    rw [bwAddStr_run, bwAddStr_run, related.tab.nstr]
    split_ifs
    · exact ⟨rfl, related⟩
    · refine ⟨rfl, related.cur, related.tab.rows, rfl, fun index below => ?_⟩
      simp only at below
      simp only [writeBytes]
      split_ifs with fresh
      · rw [List.getElem?_eq_getElem (by simp; omega)]
        rfl
      · exact related.tab.strs index (by omega)
    · exact ⟨rfl, related⟩

theorem Alike.cstr {tab tab' : Tab} (alike : Alike tab tab') {off : Nat} (present : OffOk tab off)
    (limit : tab.nstr ≤ bwDwarfStrMax) : tab'.cstr off = tab.cstr off := by
  obtain ⟨index, after, below, zero⟩ := present
  have last : tab.strs (off + (index - off)) = 0 := by
    rwa [show off + (index - off) = index by omega]
  rw [Tab.cstr, Tab.cstr]
  exact cstrFrom_moved (index - off) (fun k within => alike.strs (off + k) (by omega)) last
    (by omega) (by omega)

theorem poolStr_agree {off : Nat} (ok : StateOk s) (related : AlikeStates s t)
    (present : OffOk s.tab off) : Agree AlikeStates (poolStr off s) (poolStr off t) := by
  have same := related.tab.cstr present ok.tab.nstr
  rw [poolStr, bind_of_ok (show getTab s = .ok s.tab s from rfl),
    bind_of_ok (show getTab t = .ok t.tab t from rfl), same]
  cases s.tab.cstr off with
  | none => exact ⟨rfl, related⟩
  | some text => exact ⟨rfl, related⟩

end Pool

/-! ### Directory and file tables -/

section Tables

variable {img : Image} {s t : State}

theorem bwAddFile_agree {dirs : Dirs} {hasDir : Bool} {dirIdx : Nat} {path : List UInt8}
    (ok : StateOk s) (related : AlikeStates s t) (dirsOk : DirsOk s.tab dirs) :
    Agree AlikeStates (bwAddFile dirs hasDir dirIdx path s)
      (bwAddFile dirs hasDir dirIdx path t) := by
  unfold bwAddFile
  refine Agree.ite (fun named => ?_) fun _ => Blind.agree related
  have below : dirIdx < dirs.dirOff.size := by
    rw [dirsOk.size]
    exact named.2.trans_le dirsOk.fits
  refine Agree.bind (Blind.agree related) fun off s₁ t₁ ended related₁ => ?_
  obtain ⟨ok₁, rfl, rfl⟩ := (read_safe ok below).ok ended
  refine Agree.ite (fun present => ?_) fun _ => Blind.agree related₁
  refine Agree.bind (poolStr_agree ok₁ related₁ (dirsOk.slot dirIdx named.2 present))
    fun dir s₂ t₂ _ related₂ => ?_
  exact Blind.agree related₂

instance blind_bwDirsV5 (formats : Formats) (offsetSize n : Nat) (dirs : Dirs) :
    StaleBlind (bwDirsV5 img formats offsetSize n dirs) := by
  induction n generalizing dirs with
  | zero => unfold bwDirsV5; infer_instance
  | succ n inductionHypothesis => unfold bwDirsV5; infer_instance

instance : StaleBlind (bwDirV2 img) := by unfold bwDirV2; infer_instance

instance blind_bwDirsV2 (fuel : Nat) (dirs : Dirs) : StaleBlind (bwDirsV2 img fuel dirs) := by
  induction fuel generalizing dirs with
  | zero => unfold bwDirsV2; infer_instance
  | succ fuel inductionHypothesis => unfold bwDirsV2; infer_instance

/-- A file slot is written in one run as in the other, and its text is kept. -/
theorem bwFilesV5_agree {formats : Formats} {offsetSize n : Nat} {dirs : Dirs} {files : Files}
    (ok : StateOk s) (related : AlikeStates s t) (formatsOk : FormatsOk formats)
    (dirsOk : DirsOk s.tab dirs) :
    Agree AlikeStates (bwFilesV5 img formats offsetSize dirs n files s)
      (bwFilesV5 img formats offsetSize dirs n files t) := by
  induction n generalizing s t files with
  | zero => exact ⟨rfl, related⟩
  | succ n inductionHypothesis =>
      unfold bwFilesV5
      refine Agree.bind (Blind.agree related) fun entry s₁ t₁ ended related₁ => ?_
      have ok₁ := ((bwFileEntry_safe ok formatsOk (by omega)).ok ended).1
      have grown₁ : Grown img s s₁ := Develops.ok ended
      have dirs₁ := dirsOk.mono grown₁.tab
      refine Agree.bind (bwAddFile_agree ok₁ related₁ dirs₁) fun off s₂ t₂ ended' related₂ => ?_
      have ok₂ := ((bwAddFile_safe ok₁ dirs₁).ok ended').1
      have grown₂ : Grown img s₁ s₂ := Develops.ok ended'
      refine Agree.bind (Blind.agree related₂) fun fileOff s₃ t₃ ended'' related₃ => ?_
      have reads₃ : Reads img s₂ s₃ := Develops.ok ended''
      have dirs₃ : DirsOk s₃.tab dirs := by
        rw [reads₃.tab]
        exact dirs₁.mono grown₂.tab
      exact inductionHypothesis (ok₂.of_reads reads₃) related₃ dirs₃

/-- An action that keeps the table keeps all that is known of it. -/
theorem agree_keeping {α β : Type} {m : Parser α} {f : α → Parser β} [blind : StaleBlind m]
    (safe : Safe (fun _ s' => s'.tab = s.tab) (m s)) (related : AlikeStates s t)
    (next : ∀ a s' t', StateOk s' → s'.tab = s.tab → AlikeStates s' t' →
      Agree AlikeStates (f a s') (f a t')) :
    Agree AlikeStates ((m >>= f) s) ((m >>= f) t) := by
  refine Agree.bind (blind.agree related) fun a s' t' ended related' => ?_
  obtain ⟨ok', same⟩ := safe.ok ended
  exact next a s' t' ok' same related'

theorem reader_safe (img : Image) {α : Type} {m : Parser α} [Reader img m] (ok : StateOk s) :
    Safe (fun _ s' => s'.tab = s.tab) (m s) :=
  (Safe.ofReader img ok).mono fun _ _ _ reads => reads.tab

theorem bwFileV2_agree {dirs : Dirs} (ok : StateOk s) (related : AlikeStates s t)
    (dirsOk : DirsOk s.tab dirs) :
    Agree AlikeStates (bwFileV2 img dirs s) (bwFileV2 img dirs t) := by
  unfold bwFileV2
  refine agree_keeping (reader_safe img ok) related fun c s₁ t₁ ok₁ same₁ related₁ => ?_
  refine agree_keeping (strlen_safe ok₁) related₁ fun name s₂ t₂ ok₂ same₂ related₂ => ?_
  refine agree_keeping (setP_safe ok₂) related₂ fun _ s₃ t₃ ok₃ same₃ related₃ => ?_
  refine agree_keeping (reader_safe img ok₃) related₃
    fun dirIdx s₄ t₄ ok₄ same₄ related₄ => ?_
  refine agree_keeping (reader_safe img ok₄) related₄ fun _ s₅ t₅ ok₅ same₅ related₅ => ?_
  refine agree_keeping (reader_safe img ok₅) related₅ fun _ s₆ t₆ ok₆ same₆ related₆ => ?_
  refine bwAddFile_agree ok₆ related₆ ?_
  rw [same₆, same₅, same₄, same₃, same₂, same₁]
  exact dirsOk

theorem bwFilesV2_agree {dirs : Dirs} {fuel : Nat} {files : Files} (ok : StateOk s)
    (related : AlikeStates s t) (dirsOk : DirsOk s.tab dirs) :
    Agree AlikeStates (bwFilesV2 img dirs fuel files s) (bwFilesV2 img dirs fuel files t) := by
  induction fuel generalizing s t files with
  | zero => exact ⟨rfl, related⟩
  | succ fuel inductionHypothesis =>
      unfold bwFilesV2
      refine agree_keeping (reader_safe img ok) related
        fun c s₁ t₁ ok₁ same₁ related₁ => ?_
      refine Agree.ite (fun _ => ?_) fun _ => Blind.agree related₁
      refine agree_keeping (reader_safe img ok₁) related₁
        fun first s₂ t₂ ok₂ same₂ related₂ => ?_
      refine Agree.ite (fun _ => ?_) fun _ => Blind.agree related₂
      have dirs₂ : DirsOk s₂.tab dirs := by
        rw [same₂, same₁]
        exact dirsOk
      refine Agree.bind (bwFileV2_agree ok₂ related₂ dirs₂) fun off s₃ t₃ ended related₃ => ?_
      have ok₃ := ((bwFileV2_safe ok₂ dirs₂).ok ended).1
      have grown₃ : Grown img s₂ s₃ := Develops.ok ended
      refine Agree.bind (Blind.agree related₃) fun fileOff s₄ t₄ ended' related₄ => ?_
      have reads₄ : Reads img s₃ s₄ := Develops.ok ended'
      have dirs₄ : DirsOk s₄.tab dirs := by
        rw [reads₄.tab]
        exact dirs₂.mono grown₃.tab
      exact inductionHypothesis (ok₃.of_reads reads₄) related₄ dirs₄

theorem bwTablesV5_agree {offsetSize : Nat} (ok : StateOk s) (related : AlikeStates s t) :
    Agree AlikeStates (bwTablesV5 img offsetSize s) (bwTablesV5 img offsetSize t) := by
  unfold bwTablesV5
  refine Agree.bind (Blind.agree related) fun dirFormats s₁ t₁ ended₁ related₁ => ?_
  obtain ⟨ok₁, dirFormatsOk⟩ := (bwFormats_safe ok rfl rfl).ok ended₁
  refine agree_keeping (reader_safe img ok₁) related₁
    fun dirCount s₂ t₂ ok₂ _ related₂ => ?_
  refine Agree.ite (fun _ => Blind.agree related₂) fun dirFits => ?_
  have noDirs : DirsOk s₂.tab ⟨dirOffInit, 0⟩ := ⟨rfl, Nat.zero_le _, fun _ below => nomatch below⟩
  refine Agree.bind (Blind.agree related₂) fun dirs s₃ t₃ ended₃ related₃ => ?_
  obtain ⟨ok₃, dirsOk⟩ := (bwDirsV5_safe ok₂ dirFormatsOk noDirs (by simp only; omega)).ok ended₃
  refine Agree.bind (Blind.agree related₃) fun fileFormats s₄ t₄ ended₄ related₄ => ?_
  obtain ⟨ok₄, fileFormatsOk⟩ := (bwFormats_safe ok₃ dirFormatsOk.lnct dirFormatsOk.form).ok ended₄
  have grown₄ : Grown img s₃ s₄ := Develops.ok ended₄
  refine agree_keeping (reader_safe img ok₄) related₄
    fun fileCount s₅ t₅ ok₅ same₅ related₅ => ?_
  refine Agree.ite (fun _ => Blind.agree related₅) fun _ => ?_
  refine bwFilesV5_agree ok₅ related₅ fileFormatsOk ?_
  rw [same₅]
  exact dirsOk.mono grown₄.tab

theorem bwTablesV2_agree (ok : StateOk s) (related : AlikeStates s t) :
    Agree AlikeStates (bwTablesV2 img s) (bwTablesV2 img t) := by
  unfold bwTablesV2
  refine Agree.bind (Blind.agree related) fun off s₁ t₁ ended₁ related₁ => ?_
  obtain ⟨ok₁, slot, -⟩ := (bwAddStr_safe [] ok).ok ended₁
  have noDirs : SlotsOk s₁.tab dirOffInit 0 bwDwarfDirsMax :=
    ⟨rfl, Nat.zero_le _, fun _ below => nomatch below⟩
  refine Agree.bind (Blind.agree related₁) fun dirOff s₂ t₂ ended₂ related₂ => ?_
  obtain ⟨ok₂, rfl, filled⟩ := (writeSlot_safe ok₁ noDirs (by decide) slot).ok ended₂
  have firstDir : DirsOk s₂.tab ⟨dirOff, 1⟩ := filled
  refine Agree.bind (Blind.agree related₂) fun dirs s₃ t₃ ended₃ related₃ => ?_
  obtain ⟨ok₃, dirsOk⟩ := (bwDirsV2_safe ok₂ firstDir (by simp only; omega)).ok ended₃
  refine Agree.bind (Blind.agree related₃) fun fileOff s₄ t₄ ended₄ related₄ => ?_
  have reads₄ : Reads img s₃ s₄ := Develops.ok ended₄
  exact bwFilesV2_agree (ok₃.of_reads reads₄) related₄ (reads₄.tab ▸ dirsOk)

theorem bwTables_agree {prologue : Prologue} (ok : StateOk s) (related : AlikeStates s t) :
    Agree AlikeStates (bwTables img prologue s) (bwTables img prologue t) :=
  Agree.ite (fun _ => bwTablesV5_agree ok related) fun _ => bwTablesV2_agree ok related

end Tables

/-! ### Line program -/

section Program

variable (img : Image) (prologue : Prologue) (files : Files)

instance (addr : Nat) (fileOff : Int) (line : Nat) : StaleBlind (bwEmit addr fileOff line) where
  agree {s t} related := by
    have sameRows : t.tab.nrow = s.tab.nrow := by rw [Tab.nrow, Tab.nrow, related.tab.rows]
    rw [bwEmit_run, bwEmit_run, sameRows, related.tab.rows]
    split_ifs
    · exact ⟨rfl, related⟩
    · exact ⟨rfl, related.cur, rfl, related.tab.nstr, related.tab.strs⟩

instance (regs : Regs) (opAdvance : Nat) : StaleBlind (bwAdvance img prologue regs opAdvance) := by
  unfold bwAdvance
  infer_instance

instance (regs : Regs) : StaleBlind (bwEmitRegs files regs) := by
  unfold bwEmitRegs
  infer_instance

instance (op : Nat) (regs : Regs) : StaleBlind (bwSpecial img prologue files op regs) := by
  unfold bwSpecial
  infer_instance

instance : StaleBlind (bwSetAddressOperand img prologue) := by
  unfold bwSetAddressOperand
  infer_instance

instance (regs : Regs) : StaleBlind (bwExtended img prologue regs) := by
  unfold bwExtended
  infer_instance

instance blind_bwSkipOperands (n : Nat) : StaleBlind (bwSkipOperands img n) := by
  induction n with
  | zero => unfold bwSkipOperands; infer_instance
  | succ n inductionHypothesis =>
      refine ⟨fun {s t} related => ?_⟩
      have operand : Agree AlikeStates (bwUleb img s) (bwUleb img t) := Blind.agree related
      cases ended : bwUleb img s with
      | ok value s' =>
          obtain ⟨t', ended₂, related'⟩ := operand.ok ended
          rw [bwSkipOperands_of_ok img ended, bwSkipOperands_of_ok img ended₂]
          exact inductionHypothesis.agree related'
      | error why s' =>
          obtain ⟨t', ended₂, related'⟩ := operand.error ended
          simp only [bwSkipOperands, ended, ended₂]
          cases why <;> exact ⟨rfl, related'⟩

instance (op : Nat) (regs : Regs) : StaleBlind (bwStandard img prologue files op regs) := by
  unfold bwStandard
  infer_instance

instance (regs : Regs) : StaleBlind (bwOpcode img prologue files regs) := by
  unfold bwOpcode
  infer_instance

instance blind_bwOpcodeLoop (fuel : Nat) (regs : Regs) :
    StaleBlind (bwOpcodeLoop img prologue files fuel regs) := by
  induction fuel generalizing regs with
  | zero => unfold bwOpcodeLoop; infer_instance
  | succ fuel inductionHypothesis =>
      refine ⟨fun {s t} related => ?_⟩
      have opcode : Agree AlikeStates (bwOpcode img prologue files regs s)
        (bwOpcode img prologue files regs t) := Blind.agree related
      rw [bwOpcodeLoop]
      simp only [related.cur]
      split_ifs
      · cases ended : bwOpcode img prologue files regs s with
        | ok regs' s' =>
            obtain ⟨t', ended₂, related'⟩ := opcode.ok ended
            rw [ended₂]
            exact (inductionHypothesis regs').agree related'
        | error why s' =>
            obtain ⟨t', ended₂, related'⟩ := opcode.error ended
            rw [ended₂]
            cases why <;> exact ⟨rfl, related'⟩
      · exact ⟨rfl, related⟩

end Program

/-! ### Units and sections -/

section Units

variable {img : Image} {s t : State}

theorem bwUnitBody_agree {prologue : Prologue} (ok : StateOk s) (related : AlikeStates s t) :
    Agree AlikeStates (bwUnitBody img prologue s) (bwUnitBody img prologue t) := by
  unfold bwUnitBody
  refine Agree.bind (bwTables_agree ok related) fun files s₁ t₁ _ related₁ => ?_
  exact Blind.agree related₁

theorem bwParseUnit_agree (ok : StateOk s) (related : AlikeStates s t) :
    Agree AlikeStates (bwParseUnit img s) (bwParseUnit img t) := by
  unfold bwParseUnit
  refine Agree.bind (Blind.agree related) fun opening s₁ t₁ ended related₁ => ?_
  have reads : Reads img s s₁ := Develops.ok ended
  cases opening with
  | skip unitEnd headerEnd prog => exact Blind.agree related₁
  | go prologue => exact bwUnitBody_agree (ok.of_reads reads) related₁

theorem bwUnits_agree {fuel : Nat} (ok : StateOk s) (inside : Inside img s.cur)
    (related : AlikeStates s t) : Agree AlikeStates (bwUnits img fuel s) (bwUnits img fuel t) := by
  induction fuel generalizing s t with
  | zero => exact ⟨rfl, related⟩
  | succ fuel inductionHypothesis =>
      have unit : Agree AlikeStates (bwParseUnit img s) (bwParseUnit img t) :=
        bwParseUnit_agree ok related
      unfold bwUnits
      simp only [related.cur]
      split_ifs
      · cases ended : bwParseUnit img s with
        | ok exit s' =>
            obtain ⟨t', ended₂, related'⟩ := unit.ok ended
            obtain ⟨ok', -, inside'⟩ := (bwParseUnit_safe ok inside).ok ended
            rw [ended₂]
            exact inductionHypothesis ok' inside' related'
        | error why s' =>
            obtain ⟨t', ended₂, related'⟩ := unit.error ended
            rw [ended₂]
            cases why <;> exact ⟨rfl, related'⟩
      · exact ⟨rfl, related⟩

/-- The same end of a call, with tables that differ at most in stale bytes. -/
def ParseResult.Alike : ParseResult → ParseResult → Prop
  | .returned value tab, .returned value' tab' => value' = value ∧ DwarfLine.Alike tab tab'
  | .crashed why tab, .crashed why' tab' => why' = why ∧ DwarfLine.Alike tab tab'
  | _, _ => False

/-- A parse does not depend on what an earlier one left in the pool. -/
theorem bwDwarfTabParse_alike (img : Image) (qsort : Qsort) {tab tab' : Tab} (ok : TabOk tab)
    (alike : Alike tab tab') :
    (bwDwarfTabParse img qsort tab).Alike (bwDwarfTabParse img qsort tab') := by
  unfold bwDwarfTabParse
  split_ifs with absent
  · exact ⟨rfl, alike⟩
  · have present : img.line.ptr ≠ 0 := fun none => absent (Or.inl none)
    have start : AlikeStates (startState img tab) (startState img tab') := ⟨rfl, alike⟩
    have units : Agree AlikeStates (bwParseUnits img tab) (bwParseUnits img tab') :=
      bwUnits_agree (stateOk_startState ok) (inside_startState img tab present) start
    cases ended : bwParseUnits img tab with
    | ok _ s =>
        obtain ⟨t, ended₂, related⟩ := units.ok ended
        have sameRows : t.tab.nrow = s.tab.nrow := by rw [Tab.nrow, Tab.nrow, related.tab.rows]
        rw [ended₂]
        simp only [sameRows, related.tab.rows]
        split_ifs
        · exact ⟨rfl, related.tab⟩
        · exact ⟨rfl, rfl, related.tab.nstr, related.tab.strs⟩
    | error why s =>
        obtain ⟨t, ended₂, related⟩ := units.error ended
        rw [ended₂]
        exact ⟨rfl, related.tab⟩

/-- A lookup reads only what is in use. -/
theorem bwDwarfTabLookup_alike {tab tab' : Tab} (ok : TabOk tab) (alike : Alike tab tab')
    (addr : Nat) : bwDwarfTabLookup tab' addr = bwDwarfTabLookup tab addr := by
  have sameRows : tab'.nrow = tab.nrow := by rw [Tab.nrow, Tab.nrow, alike.rows]
  rw [bwDwarfTabLookup, bwDwarfTabLookup, sameRows, alike.rows]
  cases lookupLoop tab.rows addr tab.nrow 0 tab.nrow none with
  | none => rfl
  | some best =>
      dsimp only
      cases there : tab.rows[best]? with
      | none => rfl
      | some row =>
          have rowOk := ok.rows row (List.mem_of_getElem? there)
          rw [Option.map_some, Option.map_some, Tab.text, Tab.text, alike.cstr rowOk.name ok.nstr]

end Units

end Backwalk.DwarfLine
