import Backwalk.DwarfLine.Decoding
import Backwalk.DwarfLine.Relocation
import Mathlib.Data.List.TakeWhile

/-!
Contract: the directory and file tables of a header as what they encode.

Owns the names that a file number resolves to, the interning of texts, and for
each of the two layouts the tables as data, their bytes, and the names that the
parser reads from these. Both directions of the layout of versions 2 to 4 meet
at the number of directories: the parser has room for 255, and a list that is
longer is not read to its end.
-/

namespace Backwalk.DwarfLine

open Backwalk.Support

/-! ### Names of files -/

/-- The text that a row for file number `k` is given, if it is given one. -/
def Files.name (files : Files) (tab : Tab) (k : Nat) : Option (List UInt8) :=
  if k < files.nfile ∧ 0 ≤ files.fileOff.cell k then some (tab.text (files.fileOff.cell k).toNat)
  else none

/-- The name of a file entry: `index` is its directory index, if it has one. -/
def fileName (dirs : List (List UInt8)) (index : Option Nat) (path : List UInt8) : List UInt8 :=
  match index.bind fun i => dirs[i]? with
  | some dir => bwJoinPath bwJoinedLen dir path
  | none => path

/-- The offset is that of the text in the pool. -/
structure Named (tab : Tab) (off : Int) (text : List UInt8) : Prop where
  nonneg : 0 ≤ off
  inPool : OffOk tab off.toNat
  text : tab.text off.toNat = text

theorem Named.mono {tab tab' : Tab} {off : Int} {text : List UInt8} (more : Extends tab tab')
    (limit : tab.nstr ≤ bwDwarfStrMax) (named : Named tab off text) : Named tab' off text :=
  ⟨named.nonneg, named.inPool.mono more, (text_of_extends more limit named.inPool).trans named.text⟩

/-- The cursor has moved by `moved`, and `pool` bytes were interned. -/
structure Grew (s t : State) (moved pool : Nat) : Prop where
  cur : t.cur = s.cur.advance moved
  tab : Extends s.tab t.tab
  nstr : t.tab.nstr = s.tab.nstr + pool

theorem Advanced.grew {s t : State} {n : Nat} (advanced : Advanced s t n) : Grew s t n 0 :=
  ⟨advanced.cur, advanced.tab ▸ Extends.refl _, by rw [advanced.tab, Nat.add_zero]⟩

theorem Grew.trans {s t u : State} {moved moved' pool pool' : Nat} (one : Grew s t moved pool)
    (two : Grew t u moved' pool') : Grew s u (moved + moved') (pool + pool') :=
  ⟨by rw [two.cur, one.cur, Cur.advance_advance], one.tab.trans two.tab,
    by rw [two.nstr, one.nstr, Nat.add_assoc]⟩

section Interning

variable {s t : State} {text : List UInt8}

theorem cstrFrom_text {strs : Nat → UInt8} {fuel off : Nat}
    (bytes : ∀ i, (inside : i < text.length) → strs (off + i) = text.get ⟨i, inside⟩)
    (nul : strs (off + text.length) = 0) (noNul : NoNul text) (enough : text.length < fuel) :
    cstrFrom strs fuel off = some text := by
  induction text generalizing fuel off with
  | nil =>
      obtain ⟨fuel, rfl⟩ : ∃ n, fuel = n + 1 := ⟨fuel - 1, by omega⟩
      exact if_pos nul
  | cons x text inductionHypothesis =>
      obtain ⟨fuel, rfl⟩ : ∃ n, fuel = n + 1 := ⟨fuel - 1, by omega⟩
      obtain ⟨nonzero, noNul⟩ := noNul.cons
      have first : strs off = x := bytes 0 (by simp)
      have later : cstrFrom strs fuel (off + 1) = some text := by
        refine inductionHypothesis ?_ ?_ noNul (by simpa using enough)
        · intro i inside
          have there := bytes (i + 1) (by simpa using inside)
          rw [show off + 1 + i = off + (i + 1) by omega, there]
          rfl
        · rw [show off + 1 + text.length = off + (text.length + 1) by omega]
          exact nul
      rw [cstrFrom, first, if_neg nonzero, later]
      rfl

theorem writeBytes_at (strs : Nat → UInt8) (start : Nat) (bytes : List UInt8) {i : Nat}
    (inside : i < bytes.length) :
    writeBytes strs start bytes (start + i) = bytes.get ⟨i, inside⟩ := by
  simp [writeBytes, inside]

/-- What is interned is the text, cut to the room that is left with a NUL. -/
theorem bwAddStr_kept (noNul : NoNul text) (room : s.tab.nstr < bwDwarfStrMax) :
    ∃ t, bwAddStr text s = .ok s.tab.nstr t ∧
      Grew s t 0 ((text.take (bwDwarfStrMax - s.tab.nstr - 1)).length + 1) ∧
      OffOk t.tab s.tab.nstr ∧
      t.tab.cstr s.tab.nstr = some (text.take (bwDwarfStrMax - s.tab.nstr - 1)) := by
  obtain ⟨kept, isKept⟩ : ∃ kept, kept = text.take (bwDwarfStrMax - s.tab.nstr - 1) := ⟨_, rfl⟩
  have whole : text.takeWhile (fun byte => decide (byte ≠ 0)) = text := by
    rw [List.takeWhile_eq_self_iff]
    intro byte member
    exact decide_eq_true fun zero => noNul (zero ▸ member)
  have noNulKept : NoNul kept := by
    rw [isKept]
    exact fun member => noNul (List.mem_of_mem_take member)
  have short : kept.length ≤ bwDwarfStrMax - s.tab.nstr - 1 := isKept ▸ List.length_take_le _ _
  have added : bwAddStr text s = _ := bwAddStr_run text s
  rw [addStrBytes_eq, whole, ← isKept, if_neg (by omega), if_pos (by omega)] at added
  have more : Extends s.tab { s.tab with
      strs := writeBytes s.tab.strs s.tab.nstr (kept ++ [0])
      nstr := s.tab.nstr + kept.length + 1 } :=
    ⟨List.prefix_refl _, by simp only; omega, fun index below => writeBytes_below _ _ below⟩
  rw [← isKept]
  refine ⟨_, added, ⟨rfl, more, by simp only; omega⟩, ?_, ?_⟩
  · exact ⟨s.tab.nstr + kept.length, by simp, by simp only; omega, writeBytes_end _ _ _⟩
  · have found : cstrFrom (writeBytes s.tab.strs s.tab.nstr (kept ++ [0]))
        (bwDwarfStrMax - s.tab.nstr) s.tab.nstr = some kept := by
      refine cstrFrom_text ?_ (writeBytes_end _ _ _) noNulKept (by omega)
      intro i inside
      rw [writeBytes_at _ _ _ (by simp; omega)]
      simp [List.getElem_append_left inside]
    exact found

/-- A text that fits is interned whole. -/
theorem bwAddStr_named (noNul : NoNul text) (room : s.tab.nstr + text.length + 1 ≤ bwDwarfStrMax) :
    ∃ off t, bwAddStr text s = .ok off t ∧ Grew s t 0 (text.length + 1) ∧ Named t.tab off text := by
  obtain ⟨t, added, grew, inPool, found⟩ := bwAddStr_kept noNul (show s.tab.nstr < _ by omega)
  rw [List.take_of_length_le (show text.length ≤ bwDwarfStrMax - s.tab.nstr - 1 by omega)]
    at grew found
  refine ⟨_, t, added, grew, Int.natCast_nonneg _, inPool, ?_⟩
  rw [Tab.text, Int.toNat_natCast, found]
  rfl

theorem poolStr_named {off : Int} (named : Named s.tab off text)
    (limit : s.tab.nstr ≤ bwDwarfStrMax) :
    poolStr off.toNat s = .ok text s := by
  rw [poolStr_of_offOk named.inPool limit, named.text]

end Interning

/-! ### Joined paths -/

theorem joinCopy_noNul {dstLen : Nat} {src dst : List UInt8} (noNul : NoNul src)
    (before : NoNul dst) : NoNul (joinCopy dstLen dst src) := by
  induction src generalizing dst with
  | nil => exact before
  | cons c rest inductionHypothesis =>
      obtain ⟨nonzero, noNul⟩ := noNul.cons
      rw [joinCopy]
      split_ifs
      · refine inductionHypothesis noNul ?_
        rw [NoNul, List.mem_append, not_or]
        exact ⟨before, by simpa using fun same : (0 : UInt8) = c => nonzero same.symm⟩
      · exact before

theorem bwJoinPath_noNul {dstLen : Nat} {dir file : List UInt8} (noNulDir : NoNul dir)
    (noNul : NoNul file) : NoNul (bwJoinPath dstLen dir file) := by
  have nothing : NoNul [] := by simp [NoNul]
  have copied : NoNul (joinCopy dstLen [] dir) := joinCopy_noNul noNulDir nothing
  unfold bwJoinPath
  refine joinCopy_noNul noNul ?_
  split_ifs
  · dsimp only
    split
    · split_ifs
      · rw [NoNul, List.mem_append, not_or]
        exact ⟨copied, by decide⟩
      · exact copied
    · exact copied
  · exact nothing

theorem fileName_noNul {dirs : List (List UInt8)} {index : Option Nat} {path : List UInt8}
    (noNulDirs : ∀ dir ∈ dirs, NoNul dir) (noNul : NoNul path) :
    NoNul (fileName dirs index path) := by
  unfold fileName
  split
  · rename_i dir found
    obtain ⟨i, -, there⟩ := Option.bind_eq_some_iff.mp found
    exact bwJoinPath_noNul (noNulDirs dir (List.mem_of_getElem? there)) noNul
  · exact noNul

theorem fileName_length (dirs : List (List UInt8)) (index : Option Nat) (path : List UInt8) :
    (fileName dirs index path).length ≤ max path.length bwJoinedLen := by
  unfold fileName
  split
  · exact le_max_of_le_right (bwJoinPath_length _ _ (by decide)).le
  · exact le_max_left _ _

/-- A name that is too long for a join is the path. -/
theorem fileName_long {dirs : List (List UInt8)} {index : Option Nat} {path text : List UInt8}
    (named : fileName dirs index path = text) (long : bwJoinedLen ≤ text.length) : path = text := by
  unfold fileName at named
  split at named
  · rename_i dir _
    have short : (bwJoinPath bwJoinedLen dir path).length < bwJoinedLen :=
      bwJoinPath_length dir path (by decide)
    rw [named] at short
    omega
  · exact named

theorem joinCopy_extends {dstLen : Nat} (src dst : List UInt8) :
    dst <+: joinCopy dstLen dst src := by
  induction src generalizing dst with
  | nil => exact List.prefix_refl _
  | cons c rest inductionHypothesis =>
      rw [joinCopy]
      split_ifs
      · exact (List.prefix_append _ _).trans (inductionHypothesis _)
      · exact List.prefix_refl _

/-- A path that is joined is not empty unless the file is. -/
theorem bwJoinPath_ne_nil {dstLen : Nat} (dir : List UInt8) {file : List UInt8} (room : 1 < dstLen)
    (nonempty : file ≠ []) : bwJoinPath dstLen dir file ≠ [] := by
  obtain ⟨c, rest, rfl⟩ := List.exists_cons_of_ne_nil nonempty
  have copied : ∀ dst, joinCopy dstLen dst (c :: rest) ≠ [] := by
    intro dst
    cases dst with
    | nil =>
        rw [joinCopy, if_pos (by simpa using room)]
        exact List.IsPrefix.ne_nil (joinCopy_extends rest ([] ++ [c])) (by simp)
    | cons first others => exact List.IsPrefix.ne_nil (joinCopy_extends (c :: rest) _) (by simp)
  unfold bwJoinPath
  exact copied _

/-! ### Tables of offsets -/

/-- The first cells of an offset array hold the offsets of these names; a slot
without a name holds a negative number. -/
structure SlotsNamed (tab : Tab) (slots : CArray Int) (count max : Nat)
    (names : List (Option (List UInt8))) : Prop where
  size : slots.size = max
  length : count = names.length
  fits : count ≤ max
  named : ∀ (i : Nat) (name : List UInt8), names[i]? = some (some name) →
    Named tab (slots.cell i) name
  unnamed : ∀ i : Nat, names[i]? = some none → slots.cell i < 0

section Slots

variable {s t : State} {tab tab' : Tab} {slots : CArray Int} {count max : Nat}
  {names : List (Option (List UInt8))}

theorem SlotsNamed.mono (more : Extends tab tab') (limit : tab.nstr ≤ bwDwarfStrMax)
    (held : SlotsNamed tab slots count max names) : SlotsNamed tab' slots count max names :=
  ⟨held.size, held.length, held.fits, fun i name there => (held.named i name there).mono more limit,
    held.unnamed⟩

/-- The next name goes into the next cell. -/
theorem SlotsNamed.write {off : Int} (held : SlotsNamed s.tab slots count max names)
    (room : count < max) (name : Option (List UInt8))
    (named : ∀ text, name = some text → Named s.tab off text) (unnamed : name = none → off < 0) :
    ∃ slots', slots.write count off s = .ok slots' s ∧
      SlotsNamed s.tab slots' (count + 1) max (names ++ [name]) := by
  have inside : count < slots.size := by rw [held.size]; exact room
  refine ⟨{ slots with cell := fun other => if other = count then off else slots.cell other },
    ?_, ?_⟩
  · exact write_of_lt inside off s
  · have last : ∀ i found,
        (names ++ [name])[i]? = some found → i ≠ count → names[i]? = some found := by
      intro i found there differs
      rw [List.getElem?_append] at there
      split_ifs at there with before
      · exact there
      · have isLast := (List.getElem?_eq_some_iff.mp there).1
        simp only [List.length_singleton] at isLast
        have := held.length
        omega
    have isLast : (names ++ [name])[count]? = some name := by
      rw [held.length, List.getElem?_concat_length]
    refine ⟨held.size, by rw [List.length_append, ← held.length]; rfl, room, ?_, ?_⟩
    · intro i found there
      dsimp only
      split_ifs with here
      · rw [here, isLast] at there
        exact named found (Option.some_inj.mp there)
      · exact held.named i found (last i _ there here)
    · intro i there
      dsimp only
      split_ifs with here
      · rw [here, isLast] at there
        exact unnamed (Option.some_inj.mp there)
      · exact held.unnamed i (last i _ there here)

/-- What file numbers resolve to in a table of these names. -/
theorem SlotsNamed.name {files : Files}
    (held : SlotsNamed tab files.fileOff files.nfile max names) (k : Nat) :
    files.name tab k = (names[k]?).join := by
  unfold Files.name
  cases there : names[k]? with
  | none =>
      have outside := List.getElem?_eq_none_iff.mp there
      rw [if_neg fun both => by have := held.length; omega]
      rfl
  | some name =>
      have inside : k < files.nfile := by
        rw [held.length]
        exact (List.getElem?_eq_some_iff.mp there).1
      cases name with
      | none =>
          have negative := held.unnamed k there
          rw [if_neg fun both => by omega]
          rfl
      | some text =>
          have named := held.named k text there
          rw [if_pos ⟨inside, named.nonneg⟩, named.text]
          rfl

end Slots

/-- The names of a directory table. -/
abbrev DirsNamed (tab : Tab) (dirs : Dirs) (names : List (List UInt8)) : Prop :=
  SlotsNamed tab dirs.dirOff dirs.ndir bwDwarfDirsMax (names.map some)

/-- The names of a file table. -/
abbrev FilesNamed (tab : Tab) (files : Files) (names : List (Option (List UInt8))) : Prop :=
  SlotsNamed tab files.fileOff files.nfile bwDwarfFilesMax names

/-- A file entry is interned under its name. -/
theorem bwAddFile_named {s : State} {dirs : Dirs} {names : List (List UInt8)} {index : Option Nat}
    {path : List UInt8} (held : DirsNamed s.tab dirs names) (noNulDirs : ∀ dir ∈ names, NoNul dir)
    (noNul : NoNul path)
    (joins : ∀ dir, (index.bind fun i => names[i]?) = some dir →
      bwJoinPath bwJoinedLen dir path ≠ [])
    (room : s.tab.nstr + (fileName names index path).length + 1 ≤ bwDwarfStrMax) :
    ∃ off t, bwAddFile dirs index.isSome (index.getD 0) path s = .ok off t ∧
      Grew s t 0 ((fileName names index path).length + 1) ∧
      Named t.tab off (fileName names index path) := by
  have added := bwAddStr_named (s := s) (fileName_noNul noNulDirs noNul) room
  have limit : s.tab.nstr ≤ bwDwarfStrMax := by omega
  cases found : index.bind fun i => names[i]? with
  | none =>
      have bare : fileName names index path = path := by rw [fileName, found]
      have outside : ¬ (index.isSome = true ∧ index.getD 0 < dirs.ndir) := by
        rintro ⟨present, below⟩
        obtain ⟨i, rfl⟩ := Option.isSome_iff_exists.mp present
        have length := held.length
        rw [List.length_map] at length
        rw [Option.bind_some, List.getElem?_eq_none_iff] at found
        simp only [Option.getD_some] at below
        omega
      rw [bare] at added ⊢
      rw [bwAddFile, if_neg outside]
      exact added
  | some dir =>
      have joined : fileName names index path = bwJoinPath bwJoinedLen dir path := by
        rw [fileName, found]
      obtain ⟨i, rfl, there⟩ := Option.bind_eq_some_iff.mp found
      have below : i < names.length := (List.getElem?_eq_some_iff.mp there).1
      have length := held.length
      rw [List.length_map] at length
      have named := held.named i dir (by rw [List.getElem?_map, there]; rfl)
      have fits := held.fits
      have read : dirs.dirOff.read i s = .ok (dirs.dirOff.cell i) s :=
        read_of_lt (by rw [held.size]; omega) s
      have short : (bwJoinPath bwJoinedLen dir path).length < bwJoinedLen :=
        bwJoinPath_length dir path (by decide)
      have nonempty : (bwJoinPath bwJoinedLen dir path).isEmpty = false := by
        rw [List.isEmpty_eq_false_iff]
        exact joins dir found
      rw [joined] at added ⊢
      rw [bwAddFile, if_pos ⟨rfl, by simp only [Option.getD_some]; omega⟩]
      simp only [Option.getD_some]
      rw [bind_of_ok read, if_pos named.nonneg, bind_of_ok (poolStr_named named limit)]
      simp only [checkIndex, if_pos short, nonempty]
      exact added

/-! ### Versions 2 to 4 -/

section Version2

variable {img : Image} {s t : State} {ys : List UInt8}

/-- An entry of `file_names`. -/
structure FileV2 where
  name : List UInt8
  dirIdx : Nat
  dirBytes : List UInt8
  mtime : List UInt8
  length : List UInt8
  nonempty : name ≠ []
  noNul : NoNul name
  dirValue : IndexValue .udata dirIdx dirBytes
  mtimeValue : FormValue 4 .udata mtime
  lengthValue : FormValue 4 .udata length

def FileV2.bytes (file : FileV2) : List UInt8 :=
  file.name ++ 0 :: (file.dirBytes ++ (file.mtime ++ file.length))

/-- Strings one after the other, each with its NUL. -/
def stringBytes (names : List (List UInt8)) : List UInt8 := names.flatMap (· ++ [0])

/-- The pool bytes that names take. -/
def poolBytes (names : List (List UInt8)) : Nat := (names.map fun name => name.length + 1).sum

theorem bwDirV2_named {name : List UInt8} (ahead : Ahead img (name ++ 0 :: ys) s.cur)
    (noNul : NoNul name) (room : s.tab.nstr + name.length + 1 ≤ bwDwarfStrMax) :
    ∃ off t, bwDirV2 img s = .ok off t ∧ Grew s t (name.length + 1) (name.length + 1) ∧
      Named t.tab off name := by
  have split : Ahead img ((name ++ [0]) ++ ys) s.cur := by
    rw [List.append_assoc]
    exact ahead
  have moved := split.ptrAdd
  rw [List.length_append, List.length_singleton] at moved
  obtain ⟨s₁, scanned, advanced⟩ := strlen_ahead (fun n => img.ptrAdd s.cur.p (n + 1)) ahead noNul
  have sameCur : s₁.cur = s.cur := advanced.cur
  obtain ⟨off, t, added, grew, named⟩ := bwAddStr_named (s := s₁) noNul (by rwa [advanced.tab])
  have tabAfter := advanced.grew.trans grew
  refine ⟨off, { t with cur := { t.cur with p := img.ptrAdd s.cur.p (name.length + 1) } }, ?_,
    ⟨?_, tabAfter.tab, ?_⟩, named⟩
  · rw [bwDirV2, bind_of_ok (show getCur s = .ok s.cur s from rfl), bind_of_ok scanned,
      bind_of_ok added]
    rfl
  · simp only [grew.cur, sameCur, moved]
    rfl
  · rw [tabAfter.nstr, Nat.zero_add]

theorem stringBytes_cons (name : List UInt8) (names : List (List UInt8)) :
    stringBytes (name :: names) ++ ys = name ++ 0 :: (stringBytes names ++ ys) := by
  simp [stringBytes]

theorem stringBytes_cons_length (name : List UInt8) (names : List (List UInt8)) :
    (stringBytes (name :: names)).length = name.length + 1 + (stringBytes names).length := by
  rw [stringBytes, List.flatMap_cons, List.length_append, List.length_append]
  rfl

theorem poolBytes_cons (name : List UInt8) (names : List (List UInt8)) :
    poolBytes (name :: names) = name.length + 1 + poolBytes names :=
  rfl

/-- One more directory, if there is room for it. -/
theorem bwDirsV2_more {fuel : Nat} {dirs : Dirs} {x : UInt8} {off : Int} {dirOff : CArray Int}
    (ahead : Ahead img (x :: ys) s.cur) (nonzero : x ≠ 0) (room : dirs.ndir < bwDwarfDirsMax)
    (read : bwDirV2 img s = .ok off t)
    (written : dirs.dirOff.write dirs.ndir off t = .ok dirOff t) :
    bwDirsV2 img (fuel + 1) dirs s = bwDirsV2 img fuel ⟨dirOff, dirs.ndir + 1⟩ t := by
  have okay : bwCurOk img s.cur 1 = true := (show Ahead img ([x] ++ ys) s.cur from ahead).okay
  rw [bwDirsV2, bind_of_ok (show getCur s = .ok s.cur s from rfl), if_pos okay,
    bind_of_ok (load_ahead ahead), if_pos ⟨nonzero, room⟩, bind_of_ok read, bind_of_ok written]

theorem bwListEnd_ahead {α : Type} {x : UInt8} (list : α) (ahead : Ahead img (x :: ys) s.cur) :
    bwListEnd img list s = .ok list (s.advance 1) := by
  have stepped : bwSkip img 1 s = .ok () (s.advance 1) :=
    bwSkip_ahead (show Ahead img ([x] ++ ys) s.cur from ahead) rfl
  rw [bwListEnd, bind_of_ok stepped]
  rfl

theorem not_more {x : UInt8} {n max : Nat} (closes : x = 0 ∨ max ≤ n) : ¬ (x ≠ 0 ∧ n < max) := by
  rintro ⟨nonzero, room⟩
  rcases closes with zero | full
  · exact nonzero zero
  · exact Nat.not_lt_of_le full room

/-- The list is over, or the table is full: one byte is stepped over. -/
theorem bwDirsV2_ends {fuel : Nat} {dirs : Dirs} {x : UInt8} (ahead : Ahead img (x :: ys) s.cur)
    (closes : x = 0 ∨ bwDwarfDirsMax ≤ dirs.ndir) :
    bwDirsV2 img (fuel + 1) dirs s = .ok dirs (s.advance 1) := by
  have okay : bwCurOk img s.cur 1 = true := (show Ahead img ([x] ++ ys) s.cur from ahead).okay
  rw [bwDirsV2, bind_of_ok (show getCur s = .ok s.cur s from rfl), if_pos okay,
    bind_of_ok (load_ahead ahead), if_neg (not_more closes), bwListEnd_ahead dirs ahead]

/-- The first directories of a list, while there is room for them. -/
theorem bwDirsV2_front (fuel : Nat) {dirs : Dirs} {names front : List (List UInt8)}
    (ahead : Ahead img (stringBytes front ++ ys) s.cur) (held : DirsNamed s.tab dirs names)
    (valid : ∀ name ∈ front, name ≠ [] ∧ NoNul name)
    (room : names.length + front.length ≤ bwDwarfDirsMax)
    (pool : s.tab.nstr + poolBytes front ≤ bwDwarfStrMax) :
    ∃ dirs' t, bwDirsV2 img (fuel + front.length) dirs s = bwDirsV2 img fuel dirs' t ∧
      Grew s t (stringBytes front).length (poolBytes front) ∧
      DirsNamed t.tab dirs' (names ++ front) := by
  induction front generalizing s dirs names with
  | nil =>
      rw [List.append_nil]
      exact ⟨dirs, s, rfl, (Advanced.advance s 0).grew, held⟩
  | cons name front inductionHypothesis =>
      obtain ⟨nonempty, noNul⟩ := valid name List.mem_cons_self
      obtain ⟨x, tail, rfl⟩ := List.exists_cons_of_ne_nil nonempty
      rw [stringBytes_cons] at ahead
      rw [poolBytes_cons] at pool ⊢
      rw [List.length_cons] at room
      have length := held.length
      rw [List.length_map] at length
      obtain ⟨off, t, read, grew, named⟩ := bwDirV2_named ahead noNul (by omega)
      have heldT := held.mono grew.tab (by omega)
      obtain ⟨dirOff, written, heldU⟩ := heldT.write (by omega) (some (x :: tail))
        (fun text same => Option.some_inj.mp same ▸ named) nofun
      have later : Ahead img (stringBytes front ++ ys) t.cur := by
        have split : Ahead img (((x :: tail) ++ [0]) ++ (stringBytes front ++ ys)) s.cur := by
          rw [List.append_assoc]
          exact ahead
        have rest := split.rest
        rw [List.length_append, List.length_singleton] at rest
        rw [grew.cur]
        exact rest
      have heldV : DirsNamed t.tab ⟨dirOff, dirs.ndir + 1⟩ (names ++ [x :: tail]) := by
        rw [DirsNamed, List.map_append]
        exact heldU
      obtain ⟨dirs', u, loops, grew', held'⟩ := inductionHypothesis later heldV
        (fun other member => valid other (List.mem_cons_of_mem _ member))
        (by rw [List.length_append, List.length_singleton]; omega) (by rw [grew.nstr]; omega)
      refine ⟨dirs', u, ?_, ?_, ?_⟩
      · rw [List.length_cons, ← Nat.add_assoc, ← loops]
        exact bwDirsV2_more ahead noNul.cons.1 (by omega) read written
      · rw [stringBytes_cons_length]
        exact grew.trans grew'
      · rw [List.append_cons]
        exact held'

/-- The name that an entry of `file_names` denotes. -/
def FileV2.fullName (dirs : List (List UInt8)) (file : FileV2) : List UInt8 :=
  fileName dirs (some file.dirIdx) file.name

theorem bwFileV2_named {dirs : Dirs} {names : List (List UInt8)} (file : FileV2)
    (ahead : Ahead img (file.bytes ++ ys) s.cur) (held : DirsNamed s.tab dirs names)
    (noNulDirs : ∀ dir ∈ names, NoNul dir)
    (room : s.tab.nstr + (file.fullName names).length + 1 ≤ bwDwarfStrMax) :
    ∃ off t, bwFileV2 img dirs s = .ok off t ∧
      Grew s t file.bytes.length ((file.fullName names).length + 1) ∧
      Named t.tab off (file.fullName names) := by
  have start : Ahead img (file.name ++ 0 :: (file.dirBytes ++ (file.mtime ++ (file.length ++ ys))))
      s.cur := by
    rw [FileV2.bytes] at ahead
    simpa using ahead
  have split : Ahead img ((file.name ++ [0]) ++
      (file.dirBytes ++ (file.mtime ++ (file.length ++ ys)))) s.cur := by
    rw [List.append_assoc]
    exact start
  have moved := split.ptrAdd
  have afterName := split.rest
  rw [List.length_append, List.length_singleton] at moved afterName
  obtain ⟨s₁, scanned, advanced⟩ := strlen_ahead (fun n => img.ptrAdd s.cur.p (n + 1)) start
    file.noNul
  have sameCur : s₁.cur = s.cur := advanced.cur
  have placed : setP (img.ptrAdd s.cur.p (file.name.length + 1)) s₁ =
      .ok () (s₁.advance (file.name.length + 1)) := by
    rw [moved, ← sameCur]
    rfl
  have cur₂ : (s₁.advance (file.name.length + 1)).cur = s.cur.advance (file.name.length + 1) := by
    rw [State.advance_cur, sameCur]
  rw [← cur₂] at afterName
  obtain ⟨leb, short, value, small⟩ := file.dirValue
  have readDir := bwUleb_ahead afterName leb short
  rw [value, Nat.mod_eq_of_lt small] at readDir
  have afterDir := afterName.rest
  have readMtime := bwUleb_ahead (s := (s₁.advance (file.name.length + 1)).advance
    file.dirBytes.length) afterDir file.mtimeValue.1 file.mtimeValue.2
  have readLength := bwUleb_ahead (s := ((s₁.advance (file.name.length + 1)).advance
    file.dirBytes.length).advance file.mtime.length) afterDir.rest file.lengthValue.1
    file.lengthValue.2
  have last : (((s₁.advance (file.name.length + 1)).advance file.dirBytes.length).advance
      file.mtime.length).advance file.length.length = s₁.advance file.bytes.length := by
    simp only [State.advance_advance, FileV2.bytes, List.length_append, List.length_cons]
    congr 1
    omega
  rw [last] at readLength
  have sameTab : (s₁.advance file.bytes.length).tab = s.tab := advanced.tab
  have added : ∃ off t, bwAddFile dirs true file.dirIdx file.name
        (s₁.advance file.bytes.length) = .ok off t ∧
      Grew (s₁.advance file.bytes.length) t 0 ((file.fullName names).length + 1) ∧
      Named t.tab off (file.fullName names) :=
    bwAddFile_named (by rw [sameTab]; exact held) noNulDirs file.noNul
      (fun dir _ => bwJoinPath_ne_nil dir (by decide) file.nonempty) (by rw [sameTab]; exact room)
  obtain ⟨off, t, added, grew, named⟩ := added
  refine ⟨off, t, ?_, ⟨?_, ?_, ?_⟩, named⟩
  · rw [bwFileV2, bind_of_ok (show getCur s = .ok s.cur s from rfl), bind_of_ok scanned,
      bind_of_ok placed, bind_of_ok readDir, bind_of_ok readMtime, bind_of_ok readLength]
    exact added
  · rw [grew.cur, State.advance_cur, sameCur]
    rfl
  · rw [← sameTab]
    exact grew.tab
  · rw [grew.nstr, sameTab]

/-- One more file, if there is room for it. -/
theorem bwFilesV2_more {fuel : Nat} {dirs : Dirs} {files : Files} {x : UInt8} {off : Int}
    {fileOff : CArray Int} (ahead : Ahead img (x :: ys) s.cur) (nonzero : x ≠ 0)
    (room : files.nfile < bwDwarfFilesMax) (read : bwFileV2 img dirs s = .ok off t)
    (written : files.fileOff.write files.nfile off t = .ok fileOff t) :
    bwFilesV2 img dirs (fuel + 1) files s =
      bwFilesV2 img dirs fuel ⟨fileOff, files.nfile + 1⟩ t := by
  have okay : bwCurOk img s.cur 1 = true := (show Ahead img ([x] ++ ys) s.cur from ahead).okay
  rw [bwFilesV2, bind_of_ok (show getCur s = .ok s.cur s from rfl), if_pos okay,
    bind_of_ok (load_ahead ahead), if_pos ⟨nonzero, room⟩, bind_of_ok read, bind_of_ok written]

theorem bwFilesV2_ends {fuel : Nat} {dirs : Dirs} {files : Files} {x : UInt8}
    (ahead : Ahead img (x :: ys) s.cur) (closes : x = 0 ∨ bwDwarfFilesMax ≤ files.nfile) :
    bwFilesV2 img dirs (fuel + 1) files s = .ok files (s.advance 1) := by
  have okay : bwCurOk img s.cur 1 = true := (show Ahead img ([x] ++ ys) s.cur from ahead).okay
  rw [bwFilesV2, bind_of_ok (show getCur s = .ok s.cur s from rfl), if_pos okay,
    bind_of_ok (load_ahead ahead), if_neg (not_more closes), bwListEnd_ahead files ahead]

def fileBytes (files : List FileV2) : List UInt8 := files.flatMap FileV2.bytes

theorem fileBytes_cons (file : FileV2) (files : List FileV2) :
    fileBytes (file :: files) = file.bytes ++ fileBytes files :=
  List.flatMap_cons

/-- The first files of a list, while there is room for them. -/
theorem bwFilesV2_front (fuel : Nat) {dirs : Dirs} {files : Files} {dirNames : List (List UInt8)}
    {names : List (Option (List UInt8))} {front : List FileV2}
    (ahead : Ahead img (fileBytes front ++ ys) s.cur) (heldDirs : DirsNamed s.tab dirs dirNames)
    (noNulDirs : ∀ dir ∈ dirNames, NoNul dir) (held : FilesNamed s.tab files names)
    (room : names.length + front.length ≤ bwDwarfFilesMax)
    (pool : s.tab.nstr + poolBytes (front.map (FileV2.fullName dirNames)) ≤ bwDwarfStrMax) :
    ∃ files' t, bwFilesV2 img dirs (fuel + front.length) files s =
        bwFilesV2 img dirs fuel files' t ∧
      Grew s t (fileBytes front).length (poolBytes (front.map (FileV2.fullName dirNames))) ∧
      FilesNamed t.tab files' (names ++ front.map fun file => some (file.fullName dirNames)) := by
  induction front generalizing s files names with
  | nil =>
      have same : names ++ [].map (fun file => some (FileV2.fullName dirNames file)) = names :=
        List.append_nil names
      rw [same]
      exact ⟨files, s, rfl, (Advanced.advance s 0).grew, held⟩
  | cons file front inductionHypothesis =>
      rw [fileBytes_cons] at ahead ⊢
      rw [List.append_assoc] at ahead
      rw [List.map_cons, poolBytes_cons] at pool ⊢
      rw [List.length_cons] at room
      have length := held.length
      obtain ⟨off, t, read, grew, named⟩ := bwFileV2_named file ahead heldDirs noNulDirs (by omega)
      have heldT := held.mono grew.tab (by omega)
      obtain ⟨fileOff, written, heldU⟩ := heldT.write (by omega) (some (file.fullName dirNames))
        (fun text same => Option.some_inj.mp same ▸ named) nofun
      have later : Ahead img (fileBytes front ++ ys) t.cur := by
        rw [grew.cur]
        exact ahead.rest
      have heldV : FilesNamed t.tab ⟨fileOff, files.nfile + 1⟩
          (names ++ [some (file.fullName dirNames)]) := heldU
      obtain ⟨files', u, loops, grew', held'⟩ := inductionHypothesis later
        (heldDirs.mono grew.tab (by omega)) heldV
        (by rw [List.length_append, List.length_singleton]; omega) (by rw [grew.nstr]; omega)
      obtain ⟨x, tail, name⟩ := List.exists_cons_of_ne_nil file.nonempty
      have first : file.bytes ++ (fileBytes front ++ ys) = x :: (tail ++ 0 :: (file.dirBytes ++
          (file.mtime ++ file.length)) ++ (fileBytes front ++ ys)) := by
        rw [FileV2.bytes, name]
        rfl
      have nonzero : x ≠ 0 := (name ▸ file.noNul).cons.1
      refine ⟨files', u, ?_, ?_, ?_⟩
      · rw [List.length_cons, ← Nat.add_assoc, ← loops]
        exact bwFilesV2_more (first ▸ ahead) nonzero (by omega) read written
      · rw [List.length_append]
        exact grew.trans grew'
      · rw [List.map_cons, List.append_cons]
        exact held'

/-- The directories of the tables, as far as there is room for them: what follows
is read as files. -/
theorem bwTablesV2_files {x : UInt8} {front : List (List UInt8)}
    (ahead : Ahead img (stringBytes front ++ x :: ys) s.cur)
    (valid : ∀ name ∈ front, name ≠ [] ∧ NoNul name) (short : front.length < bwDwarfDirsMax)
    (closes : x = 0 ∨ front.length + 1 = bwDwarfDirsMax)
    (room : s.tab.nstr + (1 + poolBytes front) ≤ bwDwarfStrMax) :
    ∃ dirs files u, bwTablesV2 img s = bwFilesV2 img dirs bwDwarfFilesMax files u ∧
      Grew s u ((stringBytes front).length + 1) (1 + poolBytes front) ∧
      DirsNamed u.tab dirs ([] :: front) ∧ FilesNamed u.tab files [none] := by
  have nothing : NoNul [] := by simp [NoNul]
  obtain ⟨off, s₁, added, grew₁, named⟩ := bwAddStr_named (s := s) nothing
    (by simp only [List.length_nil]; omega)
  have empty : DirsNamed s₁.tab ⟨dirOffInit, 0⟩ [] := ⟨rfl, rfl, by decide, (by simp), (by simp)⟩
  obtain ⟨dirOff, written, held₁⟩ := empty.write (by decide) (some [])
    (fun text same => Option.some_inj.mp same ▸ named) (by simp)
  have sameCur : s₁.cur = s.cur := grew₁.cur
  have pool₁ : s₁.tab.nstr = s.tab.nstr + 1 := grew₁.nstr
  rw [← sameCur] at ahead
  have compilation : DirsNamed s₁.tab ⟨dirOff, 1⟩ [[]] := held₁
  obtain ⟨fuel, enough⟩ : ∃ fuel, bwDwarfDirsMax = fuel + 1 + front.length :=
    ⟨bwDwarfDirsMax - front.length - 1, by omega⟩
  obtain ⟨dirs, s₂, loops, grew₂, held₂⟩ := bwDirsV2_front (fuel + 1) ahead compilation
    valid (by simp only [List.length_singleton]; omega) (by omega)
  have atEnd : Ahead img (x :: ys) s₂.cur := by
    rw [grew₂.cur]
    exact ahead.rest
  have isOver : x = 0 ∨ bwDwarfDirsMax ≤ dirs.ndir := by
    have length := held₂.length
    simp only [List.length_map, List.length_append, List.length_singleton] at length
    rcases closes with zero | full
    · exact Or.inl zero
    · exact Or.inr (by omega)
  have stopped : bwDirsV2 img bwDwarfDirsMax ⟨dirOff, 1⟩ s₁ = .ok dirs (s₂.advance 1) := by
    rw [enough, loops]
    exact bwDirsV2_ends atEnd isOver
  have none' : FilesNamed (s₂.advance 1).tab ⟨fileOffInit, 0⟩ [] :=
    ⟨rfl, rfl, by decide, (by simp), (by simp)⟩
  obtain ⟨fileOff, written', heldFiles⟩ :=
    none'.write (s := s₂.advance 1) (by decide) none (by simp)
    (fun _ => show (-1 : Int) < 0 by decide)
  refine ⟨dirs, ⟨fileOff, 1⟩, s₂.advance 1, ?_, ?_, held₂, heldFiles⟩
  · rw [bwTablesV2, bind_of_ok added, bind_of_ok written, bind_of_ok stopped, bind_of_ok written']
  · have grew := (grew₁.trans grew₂).trans (Advanced.advance s₂ 1).grew
    rw [List.length_nil, Nat.zero_add, Nat.zero_add] at grew
    exact grew

theorem Ahead.after {xs : List UInt8} {x : UInt8} {c : Cur} (ahead : Ahead img (xs ++ x :: ys) c) :
    Ahead img ys (c.advance (xs.length + 1)) := by
  have split : Ahead img ((xs ++ [x]) ++ ys) c := by
    rw [List.append_assoc]
    exact ahead
  have rest := split.rest
  rw [List.length_append, List.length_singleton] at rest
  exact rest

/-- The tables of a version 2-4 header. -/
structure TablesV2 where
  dirs : List (List UInt8)
  files : List FileV2
  valid : ∀ name ∈ dirs, name ≠ [] ∧ NoNul name

namespace TablesV2

variable (tables : TablesV2)

def bytes : List UInt8 := stringBytes tables.dirs ++ 0 :: (fileBytes tables.files ++ [0])

/-- The directories by their indices; number 0 is the unnamed one of the
compilation. There is none above 255. -/
def dirTable : List (List UInt8) := ([] :: tables.dirs).take bwDwarfDirsMax

/-- What a file number denotes. There is no file above 511. -/
def name (k : Nat) : Option (List UInt8) :=
  if 1 ≤ k ∧ k < bwDwarfFilesMax then
    (tables.files[k - 1]?).map (FileV2.fullName tables.dirTable)
  else none

/-- The pool bytes that the tables take. -/
def pool : Nat :=
  1 + poolBytes tables.dirs +
    poolBytes ((tables.files.take (bwDwarfFilesMax - 1)).map (FileV2.fullName tables.dirTable))

theorem noNul {name : List UInt8} (member : name ∈ [] :: tables.dirs) : NoNul name := by
  rcases List.mem_cons.mp member with rfl | listed
  · simp [NoNul]
  · exact (tables.valid name listed).2

/-- What follows the files that there is room for: the end of the list, or one
more file. -/
theorem files_cut (rest : List UInt8) : ∃ x zs, fileBytes tables.files ++ ([0] ++ rest) =
    fileBytes (tables.files.take (bwDwarfFilesMax - 1)) ++ x :: zs ∧
      (x = 0 ∨ bwDwarfFilesMax ≤ 1 + (tables.files.take (bwDwarfFilesMax - 1)).length) := by
  have cut : fileBytes tables.files = fileBytes (tables.files.take (bwDwarfFilesMax - 1)) ++
      fileBytes (tables.files.drop (bwDwarfFilesMax - 1)) := by
    rw [fileBytes, fileBytes, fileBytes, ← List.flatMap_append, List.take_append_drop]
  rw [cut, List.append_assoc]
  cases later : tables.files.drop (bwDwarfFilesMax - 1) with
  | nil => exact ⟨0, rest, rfl, Or.inl rfl⟩
  | cons file others =>
      obtain ⟨x, tail, name⟩ := List.exists_cons_of_ne_nil file.nonempty
      have long := congrArg List.length later
      rw [List.length_drop, List.length_cons] at long
      rw [fileBytes_cons, FileV2.bytes, name]
      refine ⟨x, _, rfl, Or.inr ?_⟩
      rw [List.length_take]
      omega

/-- The names of the files that there is room for, by file number. -/
theorem names_cut {dirs : List (List UInt8)} (whole : tables.dirTable = dirs) (k : Nat) :
    (([none] ++ (tables.files.take (bwDwarfFilesMax - 1)).map fun file =>
      some (file.fullName dirs))[k]?).join = tables.name k := by
  rw [name, whole]
  cases k with
  | zero => rfl
  | succ k =>
      rw [List.singleton_append, List.getElem?_cons_succ, List.getElem?_map, List.getElem?_take,
        Nat.add_sub_cancel]
      by_cases below : k < bwDwarfFilesMax - 1
      · rw [if_pos below, if_pos ⟨by omega, by omega⟩]
        cases tables.files[k]? <;> rfl
      · rw [if_neg below, if_neg (by omega)]
        rfl

/-- With few directories, file numbers resolve to the names that the tables
denote, and the pool grows by what these take. -/
theorem read (few : tables.dirs.length < bwDwarfDirsMax) {rest : List UInt8}
    (ahead : Ahead img (tables.bytes ++ rest) s.cur)
    (room : s.tab.nstr + tables.pool ≤ bwDwarfStrMax) :
    ∃ files t, bwTablesV2 img s = .ok files t ∧ t.tab.nstr = s.tab.nstr + tables.pool ∧
      ∀ k, files.name t.tab k = tables.name k := by
  have whole : tables.dirTable = [] :: tables.dirs :=
    List.take_of_length_le (by rw [List.length_cons]; exact few)
  have split : Ahead img (stringBytes tables.dirs ++
      0 :: (fileBytes tables.files ++ ([0] ++ rest))) s.cur := by
    rw [bytes] at ahead
    simpa using ahead
  have pool : s.tab.nstr + (1 + poolBytes tables.dirs) + poolBytes ((tables.files.take
      (bwDwarfFilesMax - 1)).map (FileV2.fullName ([] :: tables.dirs))) ≤ bwDwarfStrMax := by
    rw [TablesV2.pool, whole] at room
    omega
  obtain ⟨dirs, files, u, reads, grew, heldDirs, held⟩ := bwTablesV2_files split tables.valid few
    (Or.inl rfl) (by omega)
  have later : Ahead img (fileBytes tables.files ++ ([0] ++ rest)) u.cur := by
    have split' : Ahead img ((stringBytes tables.dirs ++ [0]) ++
        (fileBytes tables.files ++ ([0] ++ rest))) s.cur := by
      rw [List.append_assoc]
      exact split
    have after := split'.rest
    rw [List.length_append, List.length_singleton, ← grew.cur] at after
    exact after
  obtain ⟨x, zs, bytesAre, closes⟩ := tables.files_cut rest
  rw [bytesAre] at later
  have short : (tables.files.take (bwDwarfFilesMax - 1)).length ≤ bwDwarfFilesMax - 1 :=
    List.length_take_le _ _
  obtain ⟨fuel, enough⟩ : ∃ fuel, bwDwarfFilesMax =
      fuel + 1 + (tables.files.take (bwDwarfFilesMax - 1)).length :=
    ⟨bwDwarfFilesMax - (tables.files.take (bwDwarfFilesMax - 1)).length - 1, by
      have : bwDwarfFilesMax = 512 := rfl
      omega⟩
  have noNulDirs : ∀ dir ∈ [] :: tables.dirs, NoNul dir := fun dir => tables.noNul
  obtain ⟨files', v, loops, grew', held'⟩ := bwFilesV2_front (fuel + 1) later heldDirs noNulDirs
    held (by simp only [List.length_singleton]; omega) (by rw [grew.nstr]; exact pool)
  have atEnd : Ahead img (x :: zs) v.cur := by
    rw [grew'.cur]
    exact later.rest
  have isOver : x = 0 ∨ bwDwarfFilesMax ≤ files'.nfile := by
    have length := held'.length
    simp only [List.length_append, List.length_map, List.length_singleton] at length
    rcases closes with zero | full
    · exact Or.inl zero
    · exact Or.inr (by omega)
  refine ⟨files', v.advance 1, ?_, ?_, ?_⟩
  · rw [reads, enough, loops]
    exact bwFilesV2_ends atEnd isOver
  · rw [State.advance_tab, grew'.nstr, grew.nstr, TablesV2.pool, whole, Nat.add_assoc]
  · intro k
    rw [State.advance_tab, held'.name]
    exact tables.names_cut whole k

end TablesV2

/-! ### More directories than there is room for -/

theorem bwFilesV2_keeps {dirs : Dirs} {fuel k : Nat} {files files' : Files}
    (below : k < files.nfile) (ended : bwFilesV2 img dirs fuel files s = .ok files' t) :
    k < files'.nfile ∧ files'.fileOff.cell k = files.fileOff.cell k := by
  induction fuel generalizing files s with
  | zero => cases ended
  | succ fuel inductionHypothesis =>
      have stops : ∀ {u v : State} {list : Files}, bwListEnd img files u = .ok list v →
          k < list.nfile ∧ list.fileOff.cell k = files.fileOff.cell k := by
        intro u v list ended
        obtain ⟨_, _, _, last⟩ := bind_eq_ok.mp ended
        cases last
        exact ⟨below, rfl⟩
      obtain ⟨c, s₁, -, ended⟩ := bind_eq_ok.mp ended
      split_ifs at ended
      · obtain ⟨first, s₂, -, ended⟩ := bind_eq_ok.mp ended
        split_ifs at ended
        · obtain ⟨off, s₃, -, ended⟩ := bind_eq_ok.mp ended
          obtain ⟨fileOff, s₄, written, ended⟩ := bind_eq_ok.mp ended
          obtain ⟨_, _, _, cells⟩ := bind_eq_ok.mp written
          cases cells
          obtain ⟨below', same⟩ := inductionHypothesis (Nat.lt_succ_of_lt below) ended
          exact ⟨below', same.trans (if_neg (Nat.ne_of_lt below))⟩
        · exact stops ended
      · exact stops ended

/-- Whatever follows a string, the file that it is read as is named by it. -/
theorem bwFileV2_misnamed {dirs : Dirs} {names : List (List UInt8)} {name : List UInt8} {off : Int}
    (ahead : Ahead img (name ++ 0 :: ys) s.cur) (nonempty : name ≠ []) (noNul : NoNul name)
    (held : DirsNamed s.tab dirs names) (noNulDirs : ∀ dir ∈ names, NoNul dir)
    (room : s.tab.nstr + max name.length bwJoinedLen + 1 ≤ bwDwarfStrMax)
    (ended : bwFileV2 img dirs s = .ok off t) :
    ∃ index, Named t.tab off (fileName names (some index) name) ∧ t.tab.nstr ≤ bwDwarfStrMax := by
  obtain ⟨s₁, scanned, advanced⟩ := strlen_ahead (fun n => img.ptrAdd s.cur.p (n + 1)) ahead noNul
  rw [bwFileV2, bind_of_ok (show getCur s = .ok s.cur s from rfl), bind_of_ok scanned] at ended
  obtain ⟨_, s₂, placed, ended⟩ := bind_eq_ok.mp ended
  obtain ⟨dirIdx, s₃, readDir, ended⟩ := bind_eq_ok.mp ended
  obtain ⟨_, s₄, readMtime, ended⟩ := bind_eq_ok.mp ended
  obtain ⟨_, s₅, readLength, ended⟩ := bind_eq_ok.mp ended
  have sameTab : s₅.tab = s.tab := by
    have reads₃ : Reads img s₂ s₃ := Develops.ok readDir
    have reads₄ : Reads img s₃ s₄ := Develops.ok readMtime
    have reads₅ : Reads img s₄ s₅ := Develops.ok readLength
    cases placed
    exact (reads₅.tab.trans (reads₄.tab.trans reads₃.tab)).trans advanced.tab
  have short := fileName_length names (some dirIdx) name
  have added : ∃ off t, bwAddFile dirs true dirIdx name s₅ = .ok off t ∧
      Grew s₅ t 0 ((fileName names (some dirIdx) name).length + 1) ∧
      Named t.tab off (fileName names (some dirIdx) name) :=
    @bwAddFile_named s₅ dirs names (some dirIdx) name (by rw [sameTab]; exact held) noNulDirs noNul
      (fun dir _ => bwJoinPath_ne_nil dir (by decide) nonempty) (by rw [sameTab]; omega)
  obtain ⟨_, _, added, grew, named⟩ := added
  cases added.symm.trans ended
  exact ⟨dirIdx, named, by rw [grew.nstr, sameTab]; omega⟩

/-- A directory too many, of one byte: no file is read. -/
theorem bwTablesV2_lost {x : UInt8} {front : List (List UInt8)}
    (ahead : Ahead img (stringBytes front ++ x :: 0 :: ys) s.cur)
    (valid : ∀ name ∈ front, name ≠ [] ∧ NoNul name) (full : front.length + 1 = bwDwarfDirsMax)
    (room : s.tab.nstr + (1 + poolBytes front) ≤ bwDwarfStrMax) :
    ∃ files t, bwTablesV2 img s = .ok files t ∧ files.name t.tab 1 = none := by
  obtain ⟨dirs, files, u, reads, grew, -, held⟩ := bwTablesV2_files ahead valid (by omega)
    (Or.inr full) room
  have later : Ahead img (0 :: ys) u.cur := by
    rw [grew.cur]
    exact ahead.after
  have ends : bwFilesV2 img dirs bwDwarfFilesMax files u = .ok files (u.advance 1) :=
    bwFilesV2_ends later (Or.inl rfl)
  exact ⟨files, u.advance 1, reads.trans ends, held.name 1⟩

/-- A directory too many, of more bytes: what is left of it names a file. -/
theorem bwTablesV2_misnamed {x : UInt8} {tail : List UInt8} {front : List (List UInt8)}
    {files : Files} (ahead : Ahead img (stringBytes front ++ x :: (tail ++ 0 :: ys)) s.cur)
    (valid : ∀ name ∈ front, name ≠ [] ∧ NoNul name) (full : front.length + 1 = bwDwarfDirsMax)
    (nonempty : tail ≠ []) (noNul : NoNul tail)
    (room : s.tab.nstr + (1 + poolBytes front) + max tail.length bwJoinedLen + 1 ≤ bwDwarfStrMax)
    (ended : bwTablesV2 img s = .ok files t) :
    ∃ index, files.name t.tab 1 = some (fileName ([] :: front) (some index) tail) := by
  obtain ⟨dirs, before, u, reads, grew, heldDirs, held⟩ := bwTablesV2_files ahead valid (by omega)
    (Or.inr full) (by omega)
  have later : Ahead img (tail ++ 0 :: ys) u.cur := by
    rw [grew.cur]
    exact ahead.after
  have one : before.nfile = 1 := held.length
  have fits : u.tab.nstr = s.tab.nstr + (1 + poolBytes front) := grew.nstr
  have noNulDirs : ∀ dir ∈ [] :: front, NoNul dir := by
    intro dir member
    rcases List.mem_cons.mp member with rfl | listed
    · simp [NoNul]
    · exact (valid dir listed).2
  rw [reads] at ended
  obtain ⟨y, rest, rfl⟩ := List.exists_cons_of_ne_nil nonempty
  have okay : bwCurOk img u.cur 1 = true :=
    (show Ahead img ([y] ++ (rest ++ 0 :: ys)) u.cur from later).okay
  rw [show bwDwarfFilesMax = 511 + 1 from rfl, bwFilesV2,
    bind_of_ok (show getCur u = .ok u.cur u from rfl), if_pos okay, bind_of_ok (load_ahead later),
    if_pos ⟨noNul.cons.1, by rw [one]; decide⟩] at ended
  obtain ⟨off, v, read, ended⟩ := bind_eq_ok.mp ended
  obtain ⟨fileOff, w, written, ended⟩ := bind_eq_ok.mp ended
  obtain ⟨index, named, limit⟩ :=
    bwFileV2_misnamed later nonempty noNul heldDirs noNulDirs (by omega) read
  have reads' : Reads img v w := Develops.ok written
  obtain ⟨_, _, _, cells⟩ := bind_eq_ok.mp written
  cases cells
  have collects : Collects img w t := Develops.ok ended
  have below : 1 < before.nfile + 1 := by rw [one]; decide
  obtain ⟨below', same⟩ := bwFilesV2_keeps below ended
  have kept : files.fileOff.cell 1 = off := same.trans (if_pos one.symm)
  rw [← reads'.tab] at named limit
  have named' := named.mono collects.tab limit
  refine ⟨index, ?_⟩
  rw [Files.name, kept, if_pos ⟨below', named'.nonneg⟩, named'.text]
/-- File numbers resolve to what the tables denote, wherever these are read. -/
def TablesV2.Resolved (tables : TablesV2) : Prop :=
  ∀ (img : Image) (prologue : Prologue) (s : State) (rest : List UInt8), prologue.version < 5 →
    Ahead img (tables.bytes ++ rest) s.cur → s.tab.nstr + tables.pool ≤ bwDwarfStrMax →
      ∃ files t, bwTables img prologue s = .ok files t ∧ ∀ k, files.name t.tab k = tables.name k

theorem bwTables_old {prologue : Prologue} (old : prologue.version < 5) :
    bwTables img prologue = bwTablesV2 img := by
  rw [bwTables, if_neg (by omega)]

/-- A file that no join and no directory names: its name is too long for the
one, and its directory index too large for the other. -/
def longFile (byte : UInt8) (nonzero : byte ≠ 0) : FileV2 where
  name := List.replicate bwJoinedLen byte
  dirIdx := 300
  dirBytes := [0xac, 0x02]
  mtime := [0]
  length := [0]
  nonempty := List.ne_nil_of_length_pos (by rw [List.length_replicate]; decide)
  noNul := fun member => nonzero (List.eq_of_mem_replicate member).symm
  dirValue := ⟨by decide, by decide, by decide, by decide⟩
  mtimeValue := ⟨by decide, by decide⟩
  lengthValue := ⟨by decide, by decide⟩

theorem longFile_name (byte : UInt8) (nonzero : byte ≠ 0) {dirs : List (List UInt8)}
    (few : dirs.length ≤ bwDwarfDirsMax) :
    (longFile byte nonzero).fullName dirs = List.replicate bwJoinedLen byte := by
  have outside : dirs[300]? = none :=
    List.getElem?_eq_none (few.trans (show bwDwarfDirsMax ≤ 300 by decide))
  rw [FileV2.fullName, fileName, longFile, Option.bind_some, outside]

theorem longFile_length (byte : UInt8) (nonzero : byte ≠ 0) :
    (fileBytes [longFile byte nonzero]).length = bwJoinedLen + 5 := by
  rw [fileBytes, List.flatMap_singleton, FileV2.bytes, List.length_append, longFile,
    List.length_replicate]
  rfl

theorem stringBytes_length (names : List (List UInt8)) :
    (stringBytes names).length = poolBytes names := by
  induction names with
  | nil => rfl
  | cons name names inductionHypothesis =>
      rw [stringBytes_cons_length, poolBytes_cons, inductionHypothesis]

/-- The tables from the directory on that there is no room for. -/
theorem TablesV2.bytes_cut (tables : TablesV2) {x : UInt8} {tail : List UInt8}
    (found : tables.dirs[bwDwarfDirsMax - 1]? = some (x :: tail)) :
    ∃ rest, tables.bytes = stringBytes (tables.dirs.take (bwDwarfDirsMax - 1)) ++
        x :: (tail ++ 0 :: rest) ∧
      poolBytes (tables.dirs.take (bwDwarfDirsMax - 1)) + tail.length ≤ poolBytes tables.dirs := by
  obtain ⟨inside, there⟩ := List.getElem?_eq_some_iff.mp found
  have later := List.drop_eq_getElem_cons inside
  rw [there] at later
  generalize tables.dirs.drop (bwDwarfDirsMax - 1 + 1) = others at later
  have cut : stringBytes tables.dirs = stringBytes (tables.dirs.take (bwDwarfDirsMax - 1)) ++
      stringBytes ((x :: tail) :: others) := by
    rw [stringBytes, stringBytes, stringBytes, ← List.flatMap_append, ← later,
      List.take_append_drop]
  have pool := congrArg List.length cut
  rw [List.length_append, stringBytes_cons_length, stringBytes_length, stringBytes_length,
    List.length_cons] at pool
  refine ⟨stringBytes others ++ 0 :: (fileBytes tables.files ++ [0]), ?_, by omega⟩
  rw [bytes, cut, List.append_assoc, stringBytes_cons]
  rfl

/-- A list of directories that is too long is not read to its end, and then some
file is not named. -/
theorem TablesV2.not_resolved {dirs : List (List UInt8)}
    (valid : ∀ name ∈ dirs, name ≠ [] ∧ NoNul name) (many : bwDwarfDirsMax ≤ dirs.length)
    (room : 1 + poolBytes dirs + (bwJoinedLen + 1) ≤ bwDwarfStrMax) :
    ∃ files, ¬ (TablesV2.mk dirs files valid).Resolved := by
  have size : bwDwarfDirsMax = 256 := rfl
  have joined : bwJoinedLen = 512 := rfl
  have strings : bwDwarfStrMax = 262144 := rfl
  have inside : bwDwarfDirsMax - 1 < dirs.length := by omega
  obtain ⟨nonempty, noNul⟩ := valid _ (List.getElem_mem inside)
  obtain ⟨x, tail, isCons⟩ := List.exists_cons_of_ne_nil nonempty
  have found : dirs[bwDwarfDirsMax - 1]? = some (x :: tail) := by
    rw [List.getElem?_eq_getElem inside, isCons]
  rw [isCons] at noNul
  -- one of two files is not what is left of that directory
  obtain ⟨byte, nonzero, differs⟩ : ∃ byte : UInt8, byte ≠ 0 ∧
      tail ≠ List.replicate bwJoinedLen byte := by
    by_cases same : tail = List.replicate bwJoinedLen 0x61
    · exact ⟨0x62, by decide, same ▸ by decide⟩
    · exact ⟨0x61, by decide, same⟩
  refine ⟨[longFile byte nonzero], fun resolved => ?_⟩
  have dirTable : (TablesV2.mk dirs [longFile byte nonzero] valid).dirTable.length ≤
      bwDwarfDirsMax := List.length_take_le _ _
  have longName := longFile_name byte nonzero dirTable
  generalize tablesAre : TablesV2.mk dirs [longFile byte nonzero] valid = tables at *
  have sameDirs : tables.dirs = dirs := by rw [← tablesAre]
  have sameFiles : tables.files = [longFile byte nonzero] := by rw [← tablesAre]
  have pool : tables.pool = 1 + poolBytes dirs + (bwJoinedLen + 1) := by
    have one : [longFile byte nonzero].length ≤ bwDwarfFilesMax - 1 :=
      show 1 ≤ bwDwarfFilesMax - 1 by decide
    rw [TablesV2.pool, sameDirs, sameFiles, List.take_of_length_le one, List.map_singleton,
      longName, poolBytes_cons, List.length_replicate]
    rfl
  have short : tables.bytes.length ≤ 2 ^ 32 := by
    rw [TablesV2.bytes, List.length_append, stringBytes_length, sameDirs, List.length_cons,
      List.length_append, sameFiles, longFile_length, List.length_singleton]
    omega
  have ahead := ahead_lineImage Tab.zeroed short
  obtain ⟨files, t, ended, names⟩ := resolved (lineImage tables.bytes)
    ⟨0, 0, 4, 2, 8, 1, 1, 0, 1, 1, stdLenInit⟩ (startState (lineImage tables.bytes) Tab.zeroed) []
    (by decide) (by rw [List.append_nil]; exact ahead)
    (by rw [pool]; simpa [startState, Tab.zeroed] using room)
  have first : files.name t.tab 1 = some (List.replicate bwJoinedLen byte) := by
    rw [names 1, TablesV2.name, if_pos ⟨le_refl _, by decide⟩, sameFiles, ← longName]
    rfl
  rw [bwTables_old (by decide)] at ended
  rw [← sameDirs] at found
  obtain ⟨ys, cut, before⟩ := tables.bytes_cut found
  rw [sameDirs] at cut before
  have validFront : ∀ name ∈ dirs.take (bwDwarfDirsMax - 1), name ≠ [] ∧ NoNul name :=
    fun name member => valid name (List.mem_of_mem_take member)
  have full : (dirs.take (bwDwarfDirsMax - 1)).length + 1 = bwDwarfDirsMax := by
    rw [List.length_take]
    omega
  have start : ∀ bytes, (startState (lineImage bytes) Tab.zeroed).tab.nstr = 0 := fun _ => rfl
  rw [cut] at ahead ended
  by_cases empty : tail = []
  · rw [empty, List.nil_append] at ahead ended
    obtain ⟨_, _, ended', lost⟩ := bwTablesV2_lost ahead validFront full
      (by rw [start]; omega)
    cases ended'.symm.trans ended
    cases lost.symm.trans first
  · obtain ⟨index, misnamed⟩ := bwTablesV2_misnamed ahead validFront full empty noNul.cons.2
      (by rw [start]; omega) ended
    exact differs (fileName_long (Option.some_inj.mp (misnamed.symm.trans first))
      (by rw [List.length_replicate]))

theorem TablesV2.resolved {tables : TablesV2} (few : tables.dirs.length < bwDwarfDirsMax) :
    tables.Resolved := by
  intro img prologue s rest old ahead room
  obtain ⟨files, t, ended, -, names⟩ := tables.read few ahead room
  rw [bwTables_old old]
  exact ⟨files, t, ended, names⟩

/-- Every file of every list is named after a list of directories of at most 255,
and, as far as the pool has room for a long name, after no other. -/
theorem bwTables_names_iff {dirs : List (List UInt8)}
    (valid : ∀ name ∈ dirs, name ≠ [] ∧ NoNul name) :
    (dirs.length < bwDwarfDirsMax → ∀ files, (TablesV2.mk dirs files valid).Resolved) ∧
      (1 + poolBytes dirs + (bwJoinedLen + 1) ≤ bwDwarfStrMax →
        ((∀ files, (TablesV2.mk dirs files valid).Resolved) ↔ dirs.length < bwDwarfDirsMax)) := by
  refine ⟨fun few files => TablesV2.resolved few, fun room => ⟨fun all => ?_, fun few files =>
    TablesV2.resolved few⟩⟩
  by_contra many
  obtain ⟨files, lost⟩ := TablesV2.not_resolved valid (Nat.le_of_not_lt many) room
  exact lost (all files)

/-- `a.c` in directory `dirIdx`. -/
def sampleFile (dirIdx : UInt8) (small : dirIdx.toNat < 128) : FileV2 where
  name := [0x61, 0x2e, 0x63]
  dirIdx := dirIdx.toNat
  dirBytes := [dirIdx]
  mtime := [0]
  length := [0]
  nonempty := List.cons_ne_nil _ _
  noNul := by decide
  dirValue := indexValue_small small
  mtimeValue := ⟨by decide, by decide⟩
  lengthValue := ⟨by decide, by decide⟩

def samplePrologue : Prologue := ⟨0, 0, 4, 2, 8, 1, 1, 0, 1, 1, stdLenInit⟩

/-- The directory `d`, and `a.c` in it. -/
def oneDir : TablesV2 := ⟨[[0x64]], [sampleFile 1 (by decide)], by decide⟩

theorem oneDir_names_file : ∃ files t, bwTables (lineImage oneDir.bytes) samplePrologue
    (startState (lineImage oneDir.bytes) Tab.zeroed) = .ok files t ∧
      files.name t.tab 1 = some [0x64, 0x2f, 0x61, 0x2e, 0x63] := by
  have ahead : Ahead (lineImage oneDir.bytes) oneDir.bytes _ :=
    ahead_lineImage Tab.zeroed (by decide)
  obtain ⟨files, t, ended, names⟩ := (bwTables_names_iff oneDir.valid).1 (by decide) oneDir.files
    (lineImage oneDir.bytes) samplePrologue (startState (lineImage oneDir.bytes) Tab.zeroed) []
    (by decide) (by rw [List.append_nil]; exact ahead) (by decide)
  exact ⟨files, t, ended, (names 1).trans (by decide)⟩

/-- 256 directories `d`, and `a.c` in the directory of the compilation. -/
def manyDirs : TablesV2 :=
  ⟨List.replicate 256 [0x64], [sampleFile 0 (by decide)], fun name member => by
    rw [List.eq_of_mem_replicate member]
    decide⟩

theorem manyDirs_lose_file : ¬ manyDirs.Resolved := by
  intro resolved
  have start : ∀ bytes, (startState (lineImage bytes) Tab.zeroed).tab.nstr = 0 := fun _ => rfl
  have ahead : Ahead (lineImage manyDirs.bytes) manyDirs.bytes _ :=
    ahead_lineImage Tab.zeroed (by decide +kernel)
  obtain ⟨files, t, ended, names⟩ := resolved (lineImage manyDirs.bytes) samplePrologue
    (startState (lineImage manyDirs.bytes) Tab.zeroed) [] (by decide)
    (by rw [List.append_nil]; exact ahead) (by rw [start]; decide +kernel)
  have first : files.name t.tab 1 = some [0x61, 0x2e, 0x63] := (names 1).trans (by decide)
  have found : manyDirs.dirs[bwDwarfDirsMax - 1]? = some (0x64 :: []) := by decide
  obtain ⟨ys, cut, before⟩ := manyDirs.bytes_cut found
  rw [bwTables_old (by decide)] at ended
  rw [cut] at ahead ended
  obtain ⟨_, _, ended', lost⟩ := bwTablesV2_lost ahead
    (fun name member => manyDirs.valid name (List.mem_of_mem_take member)) (by decide +kernel)
    (by rw [start]; decide +kernel)
  cases ended'.symm.trans ended
  cases lost.symm.trans first

end Version2

end Backwalk.DwarfLine
