import Backwalk.DwarfLine.FileTables

/-!
Contract: the version 5 directory and file tables as what they encode.

Owns entry formats, attributes and entries as data, with their bytes under a
format, and what the parser makes of them: it reads every entry, stops behind
the last one, and resolves file numbers to the encoded names.
-/

namespace Backwalk.DwarfLine

open Backwalk.Support

/-! ### Formats and entries as data -/

/-- A pair of an entry format. -/
structure FormatPair where
  contentType : Nat
  form : Nat
  typeBytes : List UInt8
  formBytes : List UInt8
  typeValue : IndexValue .udata contentType typeBytes
  formValue : IndexValue .udata form formBytes

/-- What an attribute says about its entry. -/
inductive Attr where
  | path (text : List UInt8)
  | dirIndex (n : Nat)
  | other
deriving DecidableEq, Repr

/-- The encodings of an attribute under a pair of the format. -/
def Attr.Encoded (img : Image) (offsetSize : Nat) (pair : FormatPair) (bytes : List UInt8) :
    Attr → Prop
  | path text => pair.contentType = bwLnctPath ∧
      PathValue img offsetSize (Form.ofCode pair.form) text bytes
  | dirIndex n => pair.contentType = bwLnctDirectoryIndex ∧
      IndexValue (Form.ofCode pair.form) n bytes
  | other => pair.contentType ≠ bwLnctPath ∧ pair.contentType ≠ bwLnctDirectoryIndex ∧
      FormValue offsetSize (Form.ofCode pair.form) bytes

/-- The last path among attributes. -/
def lastPath (attrs : List (Attr × List UInt8)) : Option (List UInt8) :=
  (attrs.filterMap fun attr => match attr.1 with
    | .path text => some text
    | _ => none).getLast?

/-- The last directory index among attributes. -/
def lastIndex (attrs : List (Attr × List UInt8)) : Option Nat :=
  (attrs.filterMap fun attr => match attr.1 with
    | .dirIndex n => some n
    | _ => none).getLast?

def FormatPair.bytes (pair : FormatPair) : List UInt8 := pair.typeBytes ++ pair.formBytes

/-- An entry format: the number of its pairs, and the pairs. -/
def formatBytes (formats : List FormatPair) : List UInt8 :=
  UInt8.ofNat formats.length :: formats.flatMap FormatPair.bytes

/-- An entry under a format. -/
structure EntryV5 (img : Image) (offsetSize : Nat) (formats : List FormatPair) where
  attrs : List (Attr × List UInt8)
  encoded : List.Forall₂ (fun pair attr => attr.1.Encoded img offsetSize pair attr.2) formats attrs

def attrBytes (attrs : List (Attr × List UInt8)) : List UInt8 := attrs.flatMap Prod.snd

namespace EntryV5

variable {img : Image} {offsetSize : Nat} {formats : List FormatPair}

def bytes (entry : EntryV5 img offsetSize formats) : List UInt8 := attrBytes entry.attrs

def path (entry : EntryV5 img offsetSize formats) : List UInt8 := (lastPath entry.attrs).getD []

def dirIndex (entry : EntryV5 img offsetSize formats) : Option Nat := lastIndex entry.attrs

end EntryV5

/-- The version 5 tables: directories and files, each under a format. -/
structure TablesV5 (img : Image) (offsetSize : Nat) where
  dirFormats : List FormatPair
  dirs : List (EntryV5 img offsetSize dirFormats)
  dirCountBytes : List UInt8
  fileFormats : List FormatPair
  files : List (EntryV5 img offsetSize fileFormats)
  fileCountBytes : List UInt8
  dirFormatsFit : dirFormats.length ≤ bwDwarfFmtMax
  dirsFit : dirs.length ≤ bwDwarfDirsMax
  dirCount : IndexValue .udata dirs.length dirCountBytes
  fileFormatsFit : fileFormats.length ≤ bwDwarfFmtMax
  filesFit : files.length ≤ bwDwarfFilesMax
  fileCount : IndexValue .udata files.length fileCountBytes

def entryBytes {img : Image} {offsetSize : Nat} {formats : List FormatPair}
    (entries : List (EntryV5 img offsetSize formats)) : List UInt8 :=
  entries.flatMap EntryV5.bytes

namespace TablesV5

variable {img : Image} {offsetSize : Nat} (tables : TablesV5 img offsetSize)

def bytes : List UInt8 :=
  formatBytes tables.dirFormats ++ (tables.dirCountBytes ++ (entryBytes tables.dirs ++
    (formatBytes tables.fileFormats ++ (tables.fileCountBytes ++ entryBytes tables.files))))

def dirTable : List (List UInt8) := tables.dirs.map EntryV5.path

/-- The names of the files, in order. -/
def names : List (List UInt8) :=
  tables.files.map fun file => fileName tables.dirTable file.dirIndex file.path

/-- The pool bytes that the tables take. -/
def pool : Nat := poolBytes tables.dirTable + poolBytes tables.names

/-- No path that is joined with its directory is empty. -/
def Joins : Prop :=
  ∀ file ∈ tables.files, ∀ dir, (file.dirIndex.bind fun i => tables.dirTable[i]?) = some dir →
    bwJoinPath bwJoinedLen dir file.path ≠ []

end TablesV5

/-! ### Reading a format -/

section Reading

variable {img : Image} {offsetSize : Nat} {s : State} {ys : List UInt8}

/-- The arrays hold these pairs. -/
structure FormatsHeld (lnct form : CArray Nat) (pairs : List FormatPair) : Prop where
  lnctSize : lnct.size = bwDwarfFmtMax
  formSize : form.size = bwDwarfFmtMax
  lnct : ∀ (i : Nat) (pair : FormatPair), pairs[i]? = some pair → lnct.cell i = pair.contentType
  form : ∀ (i : Nat) (pair : FormatPair), pairs[i]? = some pair → form.cell i = pair.form

theorem bwUleb_index {xs : List UInt8} {n : Nat} (ahead : Ahead img (xs ++ ys) s.cur)
    (value : IndexValue .udata n xs) : bwUleb img s = .ok n (s.advance xs.length) := by
  obtain ⟨leb, short, rfl, small⟩ := value
  have read := bwUleb_ahead ahead leb short
  rwa [Nat.mod_eq_of_lt small] at read

theorem FormatsHeld.push {lnct form : CArray Nat} {pairs : List FormatPair}
    (held : FormatsHeld lnct form pairs) (pair : FormatPair) :
    FormatsHeld
      { lnct with cell := fun other => if other = pairs.length then pair.contentType
          else lnct.cell other }
      { form with cell := fun other => if other = pairs.length then pair.form
          else form.cell other }
      (pairs ++ [pair]) := by
  have found : ∀ i found, (pairs ++ [pair])[i]? = some found →
      (i = pairs.length ∧ found = pair) ∨ (i ≠ pairs.length ∧ pairs[i]? = some found) := by
    intro i found there
    rw [List.getElem?_append] at there
    split_ifs at there with before
    · exact Or.inr ⟨Nat.ne_of_lt before, there⟩
    · rw [List.getElem?_singleton] at there
      split_ifs at there with last
      exact Or.inl ⟨by omega, (Option.some_inj.mp there).symm⟩
  refine ⟨held.lnctSize, held.formSize, fun i other there => ?_, fun i other there => ?_⟩
  · rcases found i other there with ⟨rfl, rfl⟩ | ⟨before, there⟩
    · exact if_pos rfl
    · exact (if_neg before).trans (held.lnct i other there)
  · rcases found i other there with ⟨rfl, rfl⟩ | ⟨before, there⟩
    · exact if_pos rfl
    · exact (if_neg before).trans (held.form i other there)

/-- The pairs that are left go behind those that were read. -/
theorem bwFormatPairs_ahead {before pairs : List FormatPair} {lnct form : CArray Nat}
    (ahead : Ahead img (pairs.flatMap FormatPair.bytes ++ ys) s.cur)
    (held : FormatsHeld lnct form before) (fits : before.length + pairs.length ≤ bwDwarfFmtMax) :
    ∃ lnct' form', bwFormatPairs img pairs.length before.length lnct form s =
        .ok (lnct', form') (s.advance (pairs.flatMap FormatPair.bytes).length) ∧
      FormatsHeld lnct' form' (before ++ pairs) := by
  induction pairs generalizing before lnct form s with
  | nil =>
      rw [List.append_nil]
      exact ⟨lnct, form, rfl, held⟩
  | cons pair pairs inductionHypothesis =>
      rw [List.length_cons] at fits
      have whole : (pair :: pairs).flatMap FormatPair.bytes =
          pair.typeBytes ++ (pair.formBytes ++ pairs.flatMap FormatPair.bytes) := by
        rw [List.flatMap_cons, FormatPair.bytes, List.append_assoc]
      rw [whole, List.append_assoc, List.append_assoc] at ahead
      have readType := bwUleb_index ahead pair.typeValue
      have readForm := bwUleb_index (s := s.advance _) ahead.rest pair.formValue
      have inType : before.length < lnct.size := by rw [held.lnctSize]; omega
      have inForm : before.length < form.size := by rw [held.formSize]; omega
      have next : (before ++ [pair]).length = before.length + 1 := List.length_append
      obtain ⟨lnct', form', reads, held'⟩ := inductionHypothesis
        (s := (s.advance pair.typeBytes.length).advance pair.formBytes.length) ahead.rest.rest
        (held.push pair) (by rw [next]; omega)
      refine ⟨lnct', form', ?_, ?_⟩
      · rw [next] at reads
        rw [List.length_cons, bwFormatPairs, bind_of_ok readType,
          bind_of_ok (write_of_lt inType _ _), bind_of_ok readForm,
          bind_of_ok (write_of_lt inForm _ _), reads]
        simp only [State.advance_advance, whole, List.length_append, Nat.add_assoc]
      · rw [List.append_cons]
        exact held'

/-- The formats that are read are those that are encoded. -/
theorem bwFormats_ahead {pairs : List FormatPair} {lnct form : CArray Nat}
    (ahead : Ahead img (formatBytes pairs ++ ys) s.cur) (lnctSize : lnct.size = bwDwarfFmtMax)
    (formSize : form.size = bwDwarfFmtMax) (fits : pairs.length ≤ bwDwarfFmtMax) :
    ∃ formats, bwFormats img lnct form s = .ok formats (s.advance (formatBytes pairs).length) ∧
      formats.count = pairs.length ∧ FormatsHeld formats.lnct formats.form pairs := by
  have small : (UInt8.ofNat pairs.length).toNat = pairs.length := by
    have max : bwDwarfFmtMax = 16 := rfl
    rw [UInt8.toNat_ofNat']
    omega
  have readCount := bwU8_ahead (show Ahead img (_ :: (pairs.flatMap FormatPair.bytes ++ ys)) s.cur
    from ahead)
  rw [small] at readCount
  have split : Ahead img ([UInt8.ofNat pairs.length] ++ (pairs.flatMap FormatPair.bytes ++ ys))
    s.cur := ahead
  have nothing : FormatsHeld lnct form [] := ⟨lnctSize, formSize, nofun, nofun⟩
  obtain ⟨lnct', form', reads, held⟩ := bwFormatPairs_ahead (s := s.advance 1) split.rest nothing
    (by rw [List.length_nil, Nat.zero_add]; exact fits)
  rw [List.length_nil] at reads
  refine ⟨⟨pairs.length, lnct', form'⟩, ?_, rfl, held⟩
  rw [bwFormats, bind_of_ok readCount, if_neg (Nat.not_lt_of_le fits), bind_of_ok reads,
    State.advance_advance, Nat.add_comm 1]
  rfl

/-! ### Reading an entry -/

/-- An index is a value that can be stepped over. -/
theorem IndexValue.formValue {form : Form} {n : Nat} {bytes : List UInt8}
    (value : IndexValue form n bytes) : FormValue offsetSize form bytes := by
  cases form
  case udata => exact ⟨value.1, value.2.1⟩
  case data1 => exact value.1
  case data2 => exact value.1
  case data4 => exact value.1
  all_goals exact value.elim

theorem attrBytes_cons (attr : Attr × List UInt8) (attrs : List (Attr × List UInt8)) :
    attrBytes (attr :: attrs) = attr.2 ++ attrBytes attrs :=
  List.flatMap_cons

/-- The pair behind those that were dealt with. -/
theorem FormatsHeld.read {lnct form : CArray Nat} {before pairs : List FormatPair}
    {pair : FormatPair} (held : FormatsHeld lnct form (before ++ pair :: pairs))
    (fits : (before ++ pair :: pairs).length ≤ bwDwarfFmtMax) (s : State) :
    lnct.read before.length s = .ok pair.contentType s ∧
      form.read before.length s = .ok pair.form s := by
  have there : (before ++ pair :: pairs)[before.length]? = some pair := by
    rw [List.getElem?_append_right (le_refl _), Nat.sub_self]
    rfl
  rw [List.length_append, List.length_cons] at fits
  have inType : before.length < lnct.size := by rw [held.lnctSize]; omega
  have inForm : before.length < form.size := by rw [held.formSize]; omega
  rw [read_of_lt inType, read_of_lt inForm, held.lnct _ _ there, held.form _ _ there]
  exact ⟨rfl, rfl⟩

theorem lastPath_path (text bytes : List UInt8) (attrs : List (Attr × List UInt8)) :
    lastPath ((.path text, bytes) :: attrs) = some ((lastPath attrs).getD text) :=
  List.getLast?_cons

theorem lastIndex_dirIndex (n : Nat) (bytes : List UInt8) (attrs : List (Attr × List UInt8)) :
    lastIndex ((.dirIndex n, bytes) :: attrs) = some ((lastIndex attrs).getD n) :=
  List.getLast?_cons

/-- The attributes of a directory that are left may override its path. -/
theorem bwDirEntry_ahead {formats : Formats} {before pairs : List FormatPair}
    {attrs : List (Attr × List UInt8)} {path : List UInt8}
    (ahead : Ahead img (attrBytes attrs ++ ys) s.cur) (width : offsetSize = 4 ∨ offsetSize = 8)
    (held : FormatsHeld formats.lnct formats.form (before ++ pairs))
    (fits : (before ++ pairs).length ≤ bwDwarfFmtMax)
    (encoded : List.Forall₂ (fun pair attr => attr.1.Encoded img offsetSize pair attr.2) pairs
      attrs) :
    ∃ t, bwDirEntry img formats offsetSize pairs.length before.length path s =
        .ok ((lastPath attrs).getD path) t ∧
      Advanced s t (attrBytes attrs).length := by
  induction encoded generalizing before s path with
  | nil => exact ⟨s, rfl, Advanced.advance s 0⟩
  | @cons pair attr pairs attrs first later inductionHypothesis =>
      obtain ⟨attr, bytes⟩ := attr
      obtain ⟨readType, readForm⟩ := held.read fits s
      rw [attrBytes_cons, List.append_assoc] at ahead
      rw [List.append_cons] at held fits
      have next : (before ++ [pair]).length = before.length + 1 := List.length_append
      -- what is left of the entry, from behind this attribute
      have rest : ∀ {u : State} {path' : List UInt8}, Advanced s u bytes.length →
          ∃ t, bwDirEntry img formats offsetSize pairs.length (before.length + 1) path' u =
              .ok ((lastPath attrs).getD path') t ∧
            Advanced s t (attrBytes ((attr, bytes) :: attrs)).length := by
        intro u path' moved
        have ahead' : Ahead img (attrBytes attrs ++ ys) u.cur := by
          rw [moved.cur]
          exact ahead.rest
        obtain ⟨t, reads, advanced⟩ := @inductionHypothesis u _ path' ahead' held fits
        rw [next] at reads
        refine ⟨t, reads, ?_, advanced.tab.trans moved.tab⟩
        rw [advanced.cur, moved.cur, Cur.advance_advance, attrBytes_cons, List.length_append]
      rw [List.length_cons, bwDirEntry, bind_of_ok readType, bind_of_ok readForm]
      cases attr with
      | path text =>
          obtain ⟨isPath, value⟩ := first
          obtain ⟨u, read, moved⟩ := bwFormPath_ahead ahead width value
          rw [if_pos isPath, bind_of_ok read, lastPath_path]
          exact rest moved
      | dirIndex n =>
          obtain ⟨isIndex, value⟩ := first
          have notPath : ¬ pair.contentType = bwLnctPath := by
            rw [show pair.contentType = 2 from isIndex]
            decide
          rw [if_neg notPath, bind_of_ok (bwFormSkip_ahead ahead value.formValue)]
          exact rest (Advanced.advance s _)
      | other =>
          obtain ⟨notPath, -, value⟩ := first
          rw [if_neg notPath, bind_of_ok (bwFormSkip_ahead ahead value)]
          exact rest (Advanced.advance s _)

/-- A file entry with what attributes say about it. -/
def FileEntry.updated (entry : FileEntry) (attrs : List (Attr × List UInt8)) : FileEntry :=
  ⟨(lastPath attrs).getD entry.path, (lastIndex attrs).getD entry.dirIdx,
    (lastIndex attrs).isSome || entry.haveDir⟩

/-- The attributes of a file that are left may override what is known of it. -/
theorem bwFileEntry_ahead {formats : Formats} {before pairs : List FormatPair}
    {attrs : List (Attr × List UInt8)} {entry : FileEntry}
    (ahead : Ahead img (attrBytes attrs ++ ys) s.cur) (width : offsetSize = 4 ∨ offsetSize = 8)
    (held : FormatsHeld formats.lnct formats.form (before ++ pairs))
    (fits : (before ++ pairs).length ≤ bwDwarfFmtMax)
    (encoded : List.Forall₂ (fun pair attr => attr.1.Encoded img offsetSize pair attr.2) pairs
      attrs) :
    ∃ t, bwFileEntry img formats offsetSize pairs.length before.length entry s =
        .ok (entry.updated attrs) t ∧
      Advanced s t (attrBytes attrs).length := by
  induction encoded generalizing before s entry with
  | nil => exact ⟨s, rfl, Advanced.advance s 0⟩
  | @cons pair attr pairs attrs first later inductionHypothesis =>
      obtain ⟨attr, bytes⟩ := attr
      obtain ⟨readType, readForm⟩ := held.read fits s
      rw [attrBytes_cons, List.append_assoc] at ahead
      rw [List.append_cons] at held fits
      have next : (before ++ [pair]).length = before.length + 1 := List.length_append
      -- what is left of the entry, from behind this attribute
      have rest : ∀ {u : State} {entry' : FileEntry}, Advanced s u bytes.length →
          ∃ t, bwFileEntry img formats offsetSize pairs.length (before.length + 1) entry' u =
              .ok (entry'.updated attrs) t ∧
            Advanced s t (attrBytes ((attr, bytes) :: attrs)).length := by
        intro u entry' moved
        have ahead' : Ahead img (attrBytes attrs ++ ys) u.cur := by
          rw [moved.cur]
          exact ahead.rest
        obtain ⟨t, reads, advanced⟩ := @inductionHypothesis u _ entry' ahead' held fits
        rw [next] at reads
        refine ⟨t, reads, ?_, advanced.tab.trans moved.tab⟩
        rw [advanced.cur, moved.cur, Cur.advance_advance, attrBytes_cons, List.length_append]
      rw [List.length_cons, bwFileEntry, bind_of_ok readType, bind_of_ok readForm]
      cases attr with
      | path text =>
          obtain ⟨isPath, value⟩ := first
          obtain ⟨u, read, moved⟩ := bwFormPath_ahead ahead width value
          have updated : entry.updated ((.path text, bytes) :: attrs) =
              { entry with path := text }.updated attrs := by
            rw [FileEntry.updated, lastPath_path]
            rfl
          rw [if_pos isPath, bind_of_ok read, updated]
          exact rest moved
      | dirIndex n =>
          obtain ⟨isIndex, value⟩ := first
          have notPath : ¬ pair.contentType = bwLnctPath := by
            rw [show pair.contentType = 2 from isIndex]
            decide
          have updated : entry.updated ((.dirIndex n, bytes) :: attrs) =
              { entry with dirIdx := n, haveDir := true }.updated attrs := by
            rw [FileEntry.updated, FileEntry.updated, lastIndex_dirIndex, Bool.or_true]
            rfl
          rw [if_neg notPath, if_pos isIndex, bind_of_ok (bwFormUdata_ahead ahead value), updated]
          exact rest (Advanced.advance s _)
      | other =>
          obtain ⟨notPath, notIndex, value⟩ := first
          rw [if_neg notPath, if_neg notIndex, bind_of_ok (bwFormSkip_ahead ahead value)]
          exact rest (Advanced.advance s _)

/-! ### Reading the tables -/

theorem entryBytes_cons {formats : List FormatPair} (entry : EntryV5 img offsetSize formats)
    (entries : List (EntryV5 img offsetSize formats)) :
    entryBytes (entry :: entries) = entry.bytes ++ entryBytes entries :=
  List.flatMap_cons

theorem PathValue.noNul {form : Form} {text bytes : List UInt8}
    (value : PathValue img offsetSize form text bytes) : NoNul text := by
  cases form
  case string => exact value.1
  case lineStrp => exact value.2.noNul
  case strp => exact value.2.noNul
  all_goals exact value.elim

theorem lastPath_noNul {pairs : List FormatPair} {attrs : List (Attr × List UInt8)}
    {path : List UInt8} (noNul : NoNul path)
    (encoded : List.Forall₂ (fun pair attr => attr.1.Encoded img offsetSize pair attr.2) pairs
      attrs) : NoNul ((lastPath attrs).getD path) := by
  induction encoded generalizing path with
  | nil => exact noNul
  | @cons pair attr pairs attrs first later inductionHypothesis =>
      obtain ⟨attr, bytes⟩ := attr
      cases attr with
      | path text =>
          rw [lastPath_path]
          exact inductionHypothesis first.2.noNul
      | dirIndex n => exact inductionHypothesis noNul
      | other => exact inductionHypothesis noNul

theorem EntryV5.noNul {formats : List FormatPair} (entry : EntryV5 img offsetSize formats) :
    NoNul entry.path :=
  lastPath_noNul (by decide) entry.encoded

theorem EntryV5.readDir {formats : Formats} {pairs : List FormatPair}
    (entry : EntryV5 img offsetSize pairs) (ahead : Ahead img (entry.bytes ++ ys) s.cur)
    (width : offsetSize = 4 ∨ offsetSize = 8) (count : formats.count = pairs.length)
    (held : FormatsHeld formats.lnct formats.form pairs) (fits : pairs.length ≤ bwDwarfFmtMax) :
    ∃ t, bwDirEntry img formats offsetSize formats.count 0 [] s = .ok entry.path t ∧
      Advanced s t entry.bytes.length := by
  have heldAll : FormatsHeld formats.lnct formats.form ([] ++ pairs) := held
  rw [count]
  exact bwDirEntry_ahead ahead width heldAll fits entry.encoded

theorem EntryV5.readFile {formats : Formats} {pairs : List FormatPair}
    (entry : EntryV5 img offsetSize pairs) (ahead : Ahead img (entry.bytes ++ ys) s.cur)
    (width : offsetSize = 4 ∨ offsetSize = 8) (count : formats.count = pairs.length)
    (held : FormatsHeld formats.lnct formats.form pairs) (fits : pairs.length ≤ bwDwarfFmtMax) :
    ∃ t, bwFileEntry img formats offsetSize formats.count 0 ⟨[], 0, false⟩ s =
        .ok ⟨entry.path, entry.dirIndex.getD 0, entry.dirIndex.isSome⟩ t ∧
      Advanced s t entry.bytes.length := by
  have heldAll : FormatsHeld formats.lnct formats.form ([] ++ pairs) := held
  have updated : FileEntry.updated ⟨[], 0, false⟩ entry.attrs =
      ⟨entry.path, entry.dirIndex.getD 0, entry.dirIndex.isSome⟩ := by
    rw [FileEntry.updated, Bool.or_false]
    rfl
  rw [count, ← updated]
  exact bwFileEntry_ahead ahead width heldAll fits entry.encoded

/-- The directories that are left go behind those that were read. -/
theorem bwDirsV5_ahead {formats : Formats} {pairs : List FormatPair} {dirs : Dirs}
    {names : List (List UInt8)} {entries : List (EntryV5 img offsetSize pairs)}
    (ahead : Ahead img (entryBytes entries ++ ys) s.cur) (width : offsetSize = 4 ∨ offsetSize = 8)
    (count : formats.count = pairs.length)
    (formatsHeld : FormatsHeld formats.lnct formats.form pairs)
    (fits : pairs.length ≤ bwDwarfFmtMax) (held : DirsNamed s.tab dirs names)
    (room : names.length + entries.length ≤ bwDwarfDirsMax)
    (pool : s.tab.nstr + poolBytes (entries.map EntryV5.path) ≤ bwDwarfStrMax) :
    ∃ dirs' t, bwDirsV5 img formats offsetSize entries.length dirs s = .ok dirs' t ∧
      Grew s t (entryBytes entries).length (poolBytes (entries.map EntryV5.path)) ∧
      DirsNamed t.tab dirs' (names ++ entries.map EntryV5.path) := by
  induction entries generalizing s dirs names with
  | nil =>
      rw [List.map_nil, List.append_nil]
      exact ⟨dirs, s, rfl, (Advanced.advance s 0).grew, held⟩
  | cons entry entries inductionHypothesis =>
      rw [entryBytes_cons] at ahead ⊢
      rw [List.append_assoc] at ahead
      rw [List.map_cons, poolBytes_cons] at pool ⊢
      rw [List.length_cons] at room
      have length := held.length
      rw [List.length_map] at length
      obtain ⟨t, read, moved⟩ := entry.readDir ahead width count formatsHeld fits
      obtain ⟨off, u, added, grew, named⟩ := bwAddStr_named (s := t) entry.noNul
        (by rw [moved.tab]; omega)
      have grown := moved.grew.trans grew
      rw [Nat.add_zero, Nat.zero_add] at grown
      have heldU := held.mono grown.tab (by omega)
      obtain ⟨dirOff, written, heldV⟩ := heldU.write (by omega) (some entry.path)
        (fun text same => Option.some_inj.mp same ▸ named) nofun
      have later : Ahead img (entryBytes entries ++ ys) u.cur := by
        rw [grown.cur]
        exact ahead.rest
      have heldW : DirsNamed u.tab ⟨dirOff, dirs.ndir + 1⟩ (names ++ [entry.path]) := by
        rw [DirsNamed, List.map_append]
        exact heldV
      obtain ⟨dirs', v, loops, grew', held'⟩ := inductionHypothesis later heldW
        (by rw [List.length_append, List.length_singleton]; omega) (by rw [grown.nstr]; omega)
      refine ⟨dirs', v, ?_, ?_, ?_⟩
      · rw [List.length_cons, bwDirsV5, bind_of_ok read, bind_of_ok added, bind_of_ok written]
        exact loops
      · rw [List.length_append]
        exact grown.trans grew'
      · rw [List.append_cons]
        exact held'

/-- The files that are left go behind those that were read. -/
theorem bwFilesV5_ahead {formats : Formats} {pairs : List FormatPair} {dirs : Dirs} {files : Files}
    {dirNames names : List (List UInt8)} {entries : List (EntryV5 img offsetSize pairs)}
    (ahead : Ahead img (entryBytes entries ++ ys) s.cur) (width : offsetSize = 4 ∨ offsetSize = 8)
    (count : formats.count = pairs.length)
    (formatsHeld : FormatsHeld formats.lnct formats.form pairs)
    (fits : pairs.length ≤ bwDwarfFmtMax) (heldDirs : DirsNamed s.tab dirs dirNames)
    (noNulDirs : ∀ dir ∈ dirNames, NoNul dir) (held : FilesNamed s.tab files (names.map some))
    (joins : ∀ entry ∈ entries, ∀ dir, (entry.dirIndex.bind fun i => dirNames[i]?) = some dir →
      bwJoinPath bwJoinedLen dir entry.path ≠ [])
    (room : names.length + entries.length ≤ bwDwarfFilesMax)
    (pool : s.tab.nstr + poolBytes (entries.map fun entry =>
      fileName dirNames entry.dirIndex entry.path) ≤ bwDwarfStrMax) :
    ∃ files' t, bwFilesV5 img formats offsetSize dirs entries.length files s = .ok files' t ∧
      Grew s t (entryBytes entries).length (poolBytes (entries.map fun entry =>
        fileName dirNames entry.dirIndex entry.path)) ∧
      FilesNamed t.tab files' ((names ++ entries.map fun entry =>
        fileName dirNames entry.dirIndex entry.path).map some) := by
  induction entries generalizing s files names with
  | nil =>
      rw [List.map_nil, List.append_nil]
      exact ⟨files, s, rfl, (Advanced.advance s 0).grew, held⟩
  | cons entry entries inductionHypothesis =>
      rw [entryBytes_cons] at ahead ⊢
      rw [List.append_assoc] at ahead
      rw [List.map_cons, poolBytes_cons] at pool ⊢
      rw [List.length_cons] at room
      have length := held.length
      rw [List.length_map] at length
      obtain ⟨t, read, moved⟩ := entry.readFile ahead width count formatsHeld fits
      have added : ∃ off u, bwAddFile dirs entry.dirIndex.isSome (entry.dirIndex.getD 0) entry.path
            t = .ok off u ∧
          Grew t u 0 ((fileName dirNames entry.dirIndex entry.path).length + 1) ∧
          Named u.tab off (fileName dirNames entry.dirIndex entry.path) :=
        bwAddFile_named (by rw [moved.tab]; exact heldDirs) noNulDirs entry.noNul
          (joins entry List.mem_cons_self) (by rw [moved.tab]; omega)
      obtain ⟨off, u, added, grew, named⟩ := added
      have grown := moved.grew.trans grew
      rw [Nat.add_zero, Nat.zero_add] at grown
      have heldU := held.mono grown.tab (by omega)
      obtain ⟨fileOff, written, heldV⟩ := heldU.write (by omega)
        (some (fileName dirNames entry.dirIndex entry.path))
        (fun text same => Option.some_inj.mp same ▸ named) nofun
      have later : Ahead img (entryBytes entries ++ ys) u.cur := by
        rw [grown.cur]
        exact ahead.rest
      have heldW : FilesNamed u.tab ⟨fileOff, files.nfile + 1⟩
          ((names ++ [fileName dirNames entry.dirIndex entry.path]).map some) := by
        rw [List.map_append]
        exact heldV
      obtain ⟨files', v, loops, grew', held'⟩ := inductionHypothesis later
        (heldDirs.mono grown.tab (by omega)) heldW
        (fun other member => joins other (List.mem_cons_of_mem _ member))
        (by rw [List.length_append, List.length_singleton]; omega) (by rw [grown.nstr]; omega)
      refine ⟨files', v, ?_, ?_, ?_⟩
      · rw [List.length_cons, bwFilesV5, bind_of_ok read, bind_of_ok added, bind_of_ok written]
        exact loops
      · rw [List.length_append]
        exact grown.trans grew'
      · rw [List.append_cons]
        exact held'

/-- A format and the number of entries behind it. -/
theorem bwFormats_counted (lnct form : CArray Nat) {pairs : List FormatPair}
    {countBytes : List UInt8} {n : Nat}
    (ahead : Ahead img (formatBytes pairs ++ (countBytes ++ ys)) s.cur)
    (lnctSize : lnct.size = bwDwarfFmtMax) (formSize : form.size = bwDwarfFmtMax)
    (fits : pairs.length ≤ bwDwarfFmtMax) (value : IndexValue .udata n countBytes) :
    ∃ formats t u, bwFormats img lnct form s = .ok formats t ∧ bwUleb img t = .ok n u ∧
      Grew s u ((formatBytes pairs).length + countBytes.length) 0 ∧
      formats.count = pairs.length ∧ FormatsHeld formats.lnct formats.form pairs := by
  obtain ⟨formats, read, count, held⟩ := bwFormats_ahead ahead lnctSize formSize fits
  have readCount := bwUleb_index (s := s.advance (formatBytes pairs).length) ahead.rest value
  rw [State.advance_advance] at readCount
  exact ⟨formats, _, _, read, readCount, (Advanced.advance s _).grew, count, held⟩

/-- The tables are read to their end, file numbers resolve to the encoded names,
and the pool grows by what these take. -/
theorem TablesV5.read {prologue : Prologue} {rest : List UInt8}
    (tables : TablesV5 img prologue.offsetSize) (recent : 5 ≤ prologue.version)
    (width : prologue.offsetSize = 4 ∨ prologue.offsetSize = 8)
    (ahead : Ahead img (tables.bytes ++ rest) s.cur) (joins : tables.Joins)
    (pool : s.tab.nstr + tables.pool ≤ bwDwarfStrMax) :
    ∃ files t, bwTables img prologue s = .ok files t ∧
      t.cur = s.cur.advance tables.bytes.length ∧ t.tab.nstr = s.tab.nstr + tables.pool ∧
      ∀ i, files.name t.tab i = tables.names[i]? := by
  have split : Ahead img (formatBytes tables.dirFormats ++ (tables.dirCountBytes ++
      (entryBytes tables.dirs ++ (formatBytes tables.fileFormats ++ (tables.fileCountBytes ++
        (entryBytes tables.files ++ rest)))))) s.cur := by
    rw [TablesV5.bytes] at ahead
    simpa only [List.append_assoc] using ahead
  rw [TablesV5.pool] at pool ⊢
  have noNulDirs : ∀ dir ∈ tables.dirTable, NoNul dir := by
    intro dir member
    obtain ⟨entry, -, rfl⟩ := List.mem_map.mp member
    exact entry.noNul
  obtain ⟨dirFormats, s₁, s₂, readDirFormats, readDirCount, grew₂, dirCount, heldDirFormats⟩ :=
    bwFormats_counted ⟨.lnct, bwDwarfFmtMax, fun _ => 0⟩ ⟨.form, bwDwarfFmtMax, fun _ => 0⟩ split
      rfl rfl tables.dirFormatsFit tables.dirCount
  have aheadDirs : Ahead img (entryBytes tables.dirs ++ (formatBytes tables.fileFormats ++
      (tables.fileCountBytes ++ (entryBytes tables.files ++ rest)))) s₂.cur := by
    rw [grew₂.cur, ← Cur.advance_advance]
    exact split.rest.rest
  have noDirs : DirsNamed s₂.tab ⟨dirOffInit, 0⟩ [] := ⟨rfl, rfl, by decide, nofun, nofun⟩
  have pool₂ := grew₂.nstr
  obtain ⟨dirs, s₃, readDirs, grew₃, heldDirs⟩ := bwDirsV5_ahead aheadDirs width dirCount
    heldDirFormats tables.dirFormatsFit noDirs
    (by rw [List.length_nil, Nat.zero_add]; exact tables.dirsFit)
    (show s₂.tab.nstr + poolBytes tables.dirTable ≤ _ by omega)
  have aheadFormats : Ahead img (formatBytes tables.fileFormats ++ (tables.fileCountBytes ++
      (entryBytes tables.files ++ rest))) s₃.cur := by
    rw [grew₃.cur]
    exact aheadDirs.rest
  have pool₃ : s₃.tab.nstr = s₂.tab.nstr + poolBytes tables.dirTable := grew₃.nstr
  obtain ⟨fileFormats, s₄, s₅, readFileFormats, readFileCount, grew₅, fileCount,
    heldFileFormats⟩ := bwFormats_counted dirFormats.lnct dirFormats.form
      aheadFormats heldDirFormats.lnctSize heldDirFormats.formSize tables.fileFormatsFit
      tables.fileCount
  have aheadFiles : Ahead img (entryBytes tables.files ++ rest) s₅.cur := by
    rw [grew₅.cur, ← Cur.advance_advance]
    exact aheadFormats.rest.rest
  have pool₅ := grew₅.nstr
  have noFiles : FilesNamed s₅.tab ⟨fileOffInit, 0⟩ [] := ⟨rfl, rfl, by decide, nofun, nofun⟩
  have heldDirs₅ : DirsNamed s₅.tab dirs tables.dirTable :=
    heldDirs.mono grew₅.tab (by omega)
  obtain ⟨files, t, readFiles, grew₆, held⟩ := bwFilesV5_ahead aheadFiles width fileCount
    heldFileFormats tables.fileFormatsFit heldDirs₅ noNulDirs noFiles joins
    (by rw [List.length_nil, Nat.zero_add]; exact tables.filesFit)
    (show s₅.tab.nstr + poolBytes tables.names ≤ _ by omega)
  refine ⟨files, t, ?_, ?_, ?_, ?_⟩
  · rw [bwTables, if_pos recent, bwTablesV5, bind_of_ok readDirFormats, bind_of_ok readDirCount,
      if_neg (Nat.not_lt_of_le tables.dirsFit), bind_of_ok readDirs, bind_of_ok readFileFormats,
      bind_of_ok readFileCount, if_neg (Nat.not_lt_of_le tables.filesFit)]
    exact readFiles
  · rw [grew₆.cur, grew₅.cur, grew₃.cur, grew₂.cur]
    simp only [Cur.advance_advance, TablesV5.bytes, List.length_append, Nat.add_assoc]
  · have pool₆ : t.tab.nstr = s₅.tab.nstr + poolBytes tables.names := grew₆.nstr
    omega
  · intro i
    rw [held.name, List.nil_append, List.getElem?_map]
    show (tables.names[i]?.map some).join = _
    cases tables.names[i]? <;> rfl

/-- The tables are read to their end, and file numbers resolve to the encoded
names. -/
theorem bwTables_named {prologue : Prologue} {rest : List UInt8}
    (tables : TablesV5 img prologue.offsetSize) (recent : 5 ≤ prologue.version)
    (width : prologue.offsetSize = 4 ∨ prologue.offsetSize = 8)
    (ahead : Ahead img (tables.bytes ++ rest) s.cur) (joins : tables.Joins)
    (pool : s.tab.nstr + tables.pool ≤ bwDwarfStrMax) :
    ∃ files t, bwTables img prologue s = .ok files t ∧
      t.cur = s.cur.advance tables.bytes.length ∧
      ∀ i, files.name t.tab i = tables.names[i]? := by
  obtain ⟨files, t, ended, cur, -, names⟩ := tables.read recent width ahead joins pool
  exact ⟨files, t, ended, cur, names⟩

/-- A directory `d` and a file `a.c` in it; the file has an index of one byte, a
time stamp, and its path last. -/
def entryTables : List UInt8 :=
  [1, 1, 0x08, 1, 0x64, 0, 3, 2, 0x0b, 3, 0x0f, 1, 0x08, 1, 0, 0x2a, 0x61, 0x2e, 0x63, 0]

def smallPair (contentType form : UInt8) (smallType : contentType.toNat < 128)
    (smallForm : form.toNat < 128) : FormatPair where
  contentType := contentType.toNat
  form := form.toNat
  typeBytes := [contentType]
  formBytes := [form]
  typeValue := indexValue_small smallType
  formValue := indexValue_small smallForm

/-- The format of one inline path. -/
def pathFormat : List FormatPair := [smallPair 1 0x08 (Nat.le_of_ble_eq_true rfl)
  (Nat.le_of_ble_eq_true rfl)]

/-- The format of a directory index, a flag and an inline path. -/
def indexedFormat : List FormatPair :=
  [smallPair 2 0x0b (Nat.le_of_ble_eq_true rfl) (Nat.le_of_ble_eq_true rfl),
    smallPair 3 0x0f (Nat.le_of_ble_eq_true rfl) (Nat.le_of_ble_eq_true rfl),
    smallPair 1 0x08 (Nat.le_of_ble_eq_true rfl) (Nat.le_of_ble_eq_true rfl)]

def entryDirAttrs : List (Attr × List UInt8) := [(.path [0x64], [0x64, 0])]

def entryFileAttrs : List (Attr × List UInt8) :=
  [(.dirIndex 0, [0]), (.other, [0x2a]), (.path [0x61, 0x2e, 0x63], [0x61, 0x2e, 0x63, 0])]

theorem entryDirAttrs_encoded :
    List.Forall₂ (fun pair attr => attr.1.Encoded (lineImage entryTables) 4 pair attr.2) pathFormat
      entryDirAttrs :=
  .cons ⟨rfl, by decide, rfl⟩ .nil

theorem entryFileAttrs_encoded :
    List.Forall₂ (fun pair attr => attr.1.Encoded (lineImage entryTables) 4 pair attr.2)
      indexedFormat entryFileAttrs :=
  .cons ⟨rfl, rfl, rfl⟩ (.cons ⟨by decide, by decide, by decide, by decide⟩
    (.cons ⟨rfl, by decide, rfl⟩ .nil))

theorem oneEntry_count : IndexValue .udata 1 [1] := indexValue_small (by decide)

theorem fewPairs : pathFormat.length ≤ bwDwarfFmtMax ∧ indexedFormat.length ≤ bwDwarfFmtMax := by
  decide

theorem fewEntries : 1 ≤ bwDwarfDirsMax ∧ 1 ≤ bwDwarfFilesMax := by decide

def entryTablesV5 : TablesV5 (lineImage entryTables) 4 where
  dirFormats := pathFormat
  dirs := [⟨entryDirAttrs, entryDirAttrs_encoded⟩]
  dirCountBytes := [1]
  fileFormats := indexedFormat
  files := [⟨entryFileAttrs, entryFileAttrs_encoded⟩]
  fileCountBytes := [1]
  dirFormatsFit := fewPairs.1
  dirsFit := fewEntries.1
  dirCount := oneEntry_count
  fileFormatsFit := fewPairs.2
  filesFit := fewEntries.2
  fileCount := oneEntry_count

def entryPrologue : Prologue := ⟨0, 0, 4, 5, 8, 1, 1, 0, 1, 1, stdLenInit⟩

theorem entryTables_name_file : ∃ files t,
    bwTables (lineImage entryTables) entryPrologue (startState (lineImage entryTables) Tab.zeroed) =
        .ok files t ∧
      t.cur.p = t.cur.endp ∧ files.name t.tab 0 = some [0x64, 0x2f, 0x61, 0x2e, 0x63] := by
  have ahead : Ahead (lineImage entryTables) (entryTablesV5.bytes ++ [])
      (startState (lineImage entryTables) Tab.zeroed).cur := by
    have bytes : entryTablesV5.bytes ++ [] = entryTables := by decide
    rw [bytes]
    exact ahead_lineImage Tab.zeroed (by decide)
  have joins : entryTablesV5.Joins := by
    intro file member dir _
    rw [List.mem_singleton.mp member]
    exact bwJoinPath_ne_nil dir (by decide) (by decide)
  obtain ⟨files, t, ended, cur, names⟩ := @bwTables_named (lineImage entryTables)
    (startState (lineImage entryTables) Tab.zeroed) entryPrologue [] entryTablesV5 (by decide)
    (Or.inl rfl) ahead joins (by decide)
  refine ⟨files, t, ended, ?_, (names 0).trans (by decide)⟩
  rw [cur]
  decide

end Reading

end Backwalk.DwarfLine
