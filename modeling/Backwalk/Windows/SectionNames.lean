import Backwalk.Support.CString
import Backwalk.Windows.FileBytes
import Backwalk.Windows.SymbolCache

/-!
Contract: what `bw_section_name` looks at and what it yields.

Owns the name that a section header denotes, in itself or through the string
table, and the run of the copy loop over either. The loop looks at a character
before it compares the index with 8, and it does not compare with the size of
the string table at all, so a name without a NUL is read past its end if `out`
still has room.
-/

namespace Backwalk.Windows

open Backwalk.DwarfLine Backwalk.Support

/-! ### Names of sections -/

/-- `Name[index]`. -/
def SectionHeader.char (sh : SectionHeader) (index : Nat) : UInt8 := (sh.bytes[index]?).getD 0

/-- `Name`. -/
def SectionHeader.nameBytes (sh : SectionHeader) : List UInt8 := (List.range 8).map sh.char

/-- The digits from index `d` on, at most `n` of them, behind a number. -/
def SectionHeader.number (sh : SectionHeader) : Nat → Nat → Nat → Nat
  | 0, _, off => off
  | n + 1, d, off =>
      if 0x30 ≤ sh.char d ∧ sh.char d ≤ 0x39 then
        sh.number n (d + 1) (off * 10 + ((sh.char d).toNat - 0x30))
      else off

/-- The place in the string table that a name of the form `/nnn` denotes, if the
table has it. -/
def SectionHeader.placeIn (sh : SectionHeader) (strTab : StrTab) : Option Nat :=
  if sh.char 0 = 0x2f ∧ 4 < strTab.size ∧ sh.number 7 1 0 < strTab.size then
    some (sh.number 7 1 0)
  else none

section Names

variable {bits : Nat} (v : View bits)

/-- The characters that are the name of a section: those of the string table from
its place on, or those of `Name`. -/
def nameSource (sh : SectionHeader) (strTab : StrTab) : List UInt8 :=
  match sh.placeIn strTab with
  | some off => v.slice (strTab.off + off) (strTab.size - off)
  | none => sh.nameBytes

/-- The full name of a section. -/
def sectionName (sh : SectionHeader) (strTab : StrTab) : List UInt8 :=
  upToNul (nameSource v sh strTab)

/-- The access is to `Name[0..7]` or to the string table. -/
def Access.InName (strTab : StrTab) (access : Access) : Prop :=
  (∃ index < 8, access = .name index) ∨
    ∃ index < strTab.size, access = .memory (v.ptr (strTab.off + index)) 1

/-! ### The number -/

theorem nameChar_run (sh : SectionHeader) (index : Nat) (s : LoadState) :
    nameChar sh index s = .ok (sh.char index) (s.log [.name index]) := rfl

/-- Reading the number looks at `Name` only, and seven digits do not overflow. -/
theorem sectionDigits_run (sh : SectionHeader) {n d off : Nat} (s : LoadState) (inName : d + n ≤ 8)
    (fits : (off + 1) * 10 ^ n ≤ 2 ^ 32) :
    ∃ seen, sectionDigits sh n d off s = .ok (sh.number n d off) (s.log seen) ∧
      ∀ access ∈ seen, ∃ index < 8, access = .name index := by
  induction n generalizing d off s with
  | zero => exact ⟨[], by rw [LoadState.log_nil]; rfl, by simp⟩
  | succ n inductionHypothesis =>
      rw [sectionDigits, bind_of_ok (nameChar_run sh d s), SectionHeader.number]
      by_cases digit : 0x30 ≤ sh.char d ∧ sh.char d ≤ 0x39
      · have small : (sh.char d).toNat - 0x30 < 10 := by
          have high : (sh.char d).toNat ≤ 0x39 := UInt8.le_iff_toNat_le.mp digit.2
          omega
        have fitsNext : (off * 10 + ((sh.char d).toNat - 0x30) + 1) * 10 ^ n ≤ 2 ^ 32 := by
          have grown : (off * 10 + ((sh.char d).toNat - 0x30) + 1) * 10 ^ n ≤
              (off + 1) * 10 * 10 ^ n :=
            Nat.mul_le_mul_right _ (by omega)
          rw [Nat.mul_assoc, ← Nat.pow_succ'] at grown
          exact grown.trans fits
        have same : dword (off * 10 + ((sh.char d).toNat - 0x30)) =
            off * 10 + ((sh.char d).toNat - 0x30) := by
          have positive : 1 ≤ 10 ^ n := Nat.one_le_pow _ _ (by decide)
          have below := Nat.le_mul_of_pos_right (off * 10 + ((sh.char d).toNat - 0x30) + 1) positive
          exact Nat.mod_eq_of_lt (by omega)
        rw [if_pos digit, if_pos digit, same]
        obtain ⟨seen, ran, inside⟩ := inductionHypothesis (s.log [.name d]) (d := d + 1) (by omega)
          fitsNext
        refine ⟨.name d :: seen, ?_, ?_⟩
        · rw [ran, LoadState.log_log]
          rfl
        · intro access member
          rcases List.mem_cons.mp member with rfl | later
          · exact ⟨d, by omega, rfl⟩
          · exact inside access later
      · rw [if_neg digit, if_neg digit]
        refine ⟨[.name d], rfl, ?_⟩
        intro access member
        exact ⟨d, by omega, List.mem_singleton.mp member⟩

/-- Finding the characters looks at `Name` only. -/
theorem sectionNameOff_run (sh : SectionHeader) (strTab : StrTab) (s : LoadState) :
    ∃ seen, sectionNameOff sh strTab s = .ok (sh.placeIn strTab) (s.log seen) ∧
      ∀ access ∈ seen, ∃ index < 8, access = .name index := by
  rw [sectionNameOff, bind_of_ok (nameChar_run sh 0 s)]
  by_cases slash : sh.char 0 = 0x2f
  · obtain ⟨seen, ran, inside⟩ := @sectionDigits_run sh 7 1 0 (s.log [.name 0]) (by decide)
      (by decide)
    rw [if_pos slash, bind_of_ok ran, LoadState.log_log]
    refine ⟨.name 0 :: seen, ?_, ?_⟩
    · rw [SectionHeader.placeIn]
      by_cases there : 4 < strTab.size ∧ sh.number 7 1 0 < strTab.size
      · rw [if_pos there, if_pos ⟨slash, there⟩]
        rfl
      · rw [if_neg there, if_neg fun all => there all.2]
        rfl
    · intro access member
      rcases List.mem_cons.mp member with rfl | later
      · exact ⟨0, by decide, rfl⟩
      · exact inside access later
  · rw [if_neg slash, SectionHeader.placeIn, if_neg fun all => slash all.1]
    refine ⟨[.name 0], rfl, ?_⟩
    intro access member
    exact ⟨0, by decide, List.mem_singleton.mp member⟩

/-! ### The copy loop -/

theorem sectionChars_full {charAt : Nat → Loader UInt8} {inHeader : Bool} {outLen i : Nat}
    (fuel : Nat) (s : LoadState) (full : ¬ i + 1 < outLen) :
    sectionChars charAt inHeader outLen fuel i s = .ok [] s := by
  cases fuel with
  | zero => rfl
  | succ fuel =>
      rw [sectionChars, if_neg full]
      rfl

/-- Over characters that end in a NUL, or that fill `out`, the loop copies them
up to the NUL and looks at nothing else. -/
theorem sectionChars_copies {charAt : Nat → Loader UInt8} {seen : Nat → Access} {inHeader : Bool}
    {outLen : Nat} {source : List UInt8} {fuel i : Nat} {s : LoadState}
    (reads : ∀ k c, source[k]? = some c → ∀ s,
      charAt (i + k) s = .ok c (s.log [seen (i + k)]))
    (inName : inHeader = false ∨ i + source.length ≤ 8)
    (ends : 0 ∈ source ∨ outLen ≤ i + source.length + 1) (enough : outLen ≤ i + fuel + 1) :
    ∃ count ≤ source.length, sectionChars charAt inHeader outLen fuel i s =
      .ok ((upToNul source).take (outLen - 1 - i)) (s.log ((List.range' i count).map seen)) := by
  induction source generalizing fuel i s with
  | nil =>
      have full : ¬ i + 1 < outLen := by
        rcases ends with absent | full
        · exact absurd absent (by simp)
        · rw [List.length_nil] at full
          omega
      refine ⟨0, le_refl _, ?_⟩
      rw [sectionChars_full fuel s full, show List.map seen (List.range' i 0) = [] from rfl,
        LoadState.log_nil, show upToNul [] = [] from rfl, List.take_nil]
  | cons c rest inductionHypothesis =>
      rw [List.length_cons] at inName ends
      by_cases room : i + 1 < outLen
      · obtain ⟨fuel, rfl⟩ : ∃ n, fuel = n + 1 := ⟨fuel - 1, by omega⟩
        have read : charAt i s = .ok c (s.log [seen i]) := reads 0 c rfl s
        rw [sectionChars, if_pos room, bind_of_ok read]
        by_cases nul : c = 0
        · subst nul
          rw [if_neg (by simp), upToNul_cons_nul, List.take_nil]
          exact ⟨1, by simp, rfl⟩
        · have copied : c ≠ 0 ∧ (inHeader = false ∨ i < 8) := ⟨nul, inName.imp_right (by omega)⟩
          obtain ⟨count, few, ran⟩ := @inductionHypothesis fuel (i + 1) (s.log [seen i])
            (fun k c' there s => by
              rw [Nat.add_right_comm]
              exact reads (k + 1) c' there s)
            (inName.imp_right (by omega))
            (ends.imp (fun member => (List.mem_cons.mp member).resolve_left (Ne.symm nul))
              (by omega))
            (by omega)
          refine ⟨count + 1, Nat.succ_le_succ few, ?_⟩
          rw [if_pos copied, bind_of_ok ran, upToNul_cons_ne rest nul, LoadState.log_log,
            List.range'_succ, show outLen - 1 - i = outLen - 1 - (i + 1) + 1 by omega,
            List.take_succ_cons]
          rfl
      · refine ⟨0, Nat.zero_le _, ?_⟩
        rw [sectionChars_full fuel s room, show outLen - 1 - i = 0 by omega, List.take_zero,
          show List.map seen (List.range' i 0) = [] from rfl, LoadState.log_nil]

/-- With no NUL among the characters and room for more than these, the loop looks
at the character behind them. -/
theorem sectionChars_overruns {charAt : Nat → Loader UInt8} {seen : Nat → Access} {inHeader : Bool}
    {outLen : Nat} {source : List UInt8} {fuel i : Nat} {s : LoadState}
    (reads : ∀ k c, source[k]? = some c → ∀ s,
      charAt (i + k) s = .ok c (s.log [seen (i + k)]))
    (logs : ∀ k, Develops Logs (charAt k))
    (looks : ∀ k s, Looked (seen k) s (stateAfter (charAt k) s))
    (inName : inHeader = false ∨ i + source.length ≤ 8) (noNul : 0 ∉ source)
    (room : i + source.length + 1 < outLen) (enough : outLen ≤ i + fuel + 1) :
    Looked (seen (i + source.length)) s
      (stateAfter (sectionChars charAt inHeader outLen fuel i) s) := by
  obtain ⟨fuel, rfl⟩ : ∃ n, fuel = n + 1 := ⟨fuel - 1, by omega⟩
  induction source generalizing fuel i s with
  | nil =>
      rw [List.length_nil, Nat.add_zero] at room ⊢
      rw [sectionChars, if_pos room]
      exact Looked.bind (looks i s)
  | cons c rest inductionHypothesis =>
      obtain ⟨nonzero, noNulRest⟩ := not_or.mp fun member => noNul (List.mem_cons.mpr member)
      rw [List.length_cons] at inName room ⊢
      obtain ⟨fuel, rfl⟩ : ∃ n, fuel = n + 1 := ⟨fuel - 1, by omega⟩
      have read : charAt i s = .ok c (s.log [seen i]) := reads 0 c rfl s
      have copied : c ≠ 0 ∧ (inHeader = false ∨ i < 8) :=
        ⟨Ne.symm nonzero, inName.imp_right (by omega)⟩
      have further := @inductionHypothesis (i + 1) (s.log [seen i])
        (fun k c' there s => by
          rw [Nat.add_right_comm]
          exact reads (k + 1) c' there s)
        (inName.imp_right (by omega)) noNulRest (by omega) fuel (by omega)
      rw [show i + (rest.length + 1) = i + 1 + rest.length by omega, sectionChars,
        if_pos (by omega), stateAfter, bind_of_ok read, if_pos copied]
      exact Looked.after (logs_log s [seen i]) (Looked.bind further)

/-! ### Both sources -/

/-- What the copy loop is called with. -/
def nameCharAt (sh : SectionHeader) (strTab : StrTab) (i : Nat) : Loader UInt8 :=
  match sh.placeIn strTab with
  | some off => readChar v (strTab.off + off + i)
  | none => nameChar sh i

/-- What it looks at there. -/
def nameSeen (sh : SectionHeader) (strTab : StrTab) (i : Nat) : Access :=
  match sh.placeIn strTab with
  | some off => .memory (v.ptr (strTab.off + off + i)) 1
  | none => .name i

theorem placeIn_lt {sh : SectionHeader} {strTab : StrTab} {off : Nat}
    (there : sh.placeIn strTab = some off) : off < strTab.size := by
  unfold SectionHeader.placeIn at there
  split_ifs at there with inTable
  cases there
  exact inTable.2.2

theorem bwSectionName_run (sh : SectionHeader) (strTab : StrTab) (outLen : Nat) (s : LoadState) :
    ∃ seen, (∀ access ∈ seen, ∃ index < 8, access = .name index) ∧
      bwSectionName v sh strTab outLen s =
        sectionChars (nameCharAt v sh strTab) (sh.placeIn strTab).isNone outLen outLen 0
          (s.log seen) := by
  obtain ⟨seen, ran, inside⟩ := sectionNameOff_run sh strTab s
  refine ⟨seen, inside, ?_⟩
  rw [bwSectionName, bind_of_ok ran]
  unfold nameCharAt
  cases sh.placeIn strTab with
  | some off => rfl
  | none => rfl

instance logs_nameCharAt (sh : SectionHeader) (strTab : StrTab) (i : Nat) :
    Develops Logs (nameCharAt v sh strTab i) := by
  unfold nameCharAt
  cases sh.placeIn strTab <;> infer_instance

theorem nameCharAt_looks (sh : SectionHeader) (strTab : StrTab) (i : Nat) (s : LoadState) :
    Looked (nameSeen v sh strTab i) s (stateAfter (nameCharAt v sh strTab i) s) := by
  unfold nameSeen nameCharAt
  cases sh.placeIn strTab with
  | some off => exact readChar_looks v _ s
  | none =>
      rw [stateAfter_of_ok (nameChar_run sh i s)]
      exact ⟨[.name i], rfl, List.mem_singleton_self _⟩

theorem nameCharAt_run {sh : SectionHeader} {strTab : StrTab}
    (inFile : strTab.off + strTab.size ≤ v.size) {k : Nat} {c : UInt8}
    (there : (nameSource v sh strTab)[k]? = some c) (s : LoadState) :
    nameCharAt v sh strTab k s = .ok c (s.log [nameSeen v sh strTab k]) := by
  unfold nameSource at there
  unfold nameCharAt nameSeen
  cases place : sh.placeIn strTab with
  | some off =>
      rw [place] at there
      have below := placeIn_lt place
      have inside : k < strTab.size - off := by
        have short := (List.getElem?_eq_some_iff.mp there).1
        rwa [v.slice_length] at short
      have value := there
      dsimp only at value
      rw [v.slice_getElem? inside] at value
      cases value
      exact readChar_inside v (by omega)
  | none =>
      rw [place] at there
      have inside : k < 8 := by
        have short := (List.getElem?_eq_some_iff.mp there).1
        simpa [SectionHeader.nameBytes] using short
      have value : sh.char k = c := by
        simpa [SectionHeader.nameBytes, inside] using there
      rw [← value]
      exact nameChar_run sh k s

theorem isNone_length (sh : SectionHeader) (strTab : StrTab) :
    (sh.placeIn strTab).isNone = false ∨ 0 + (nameSource v sh strTab).length ≤ 8 := by
  unfold nameSource
  cases sh.placeIn strTab with
  | some off => exact Or.inl rfl
  | none => exact Or.inr (by simp [SectionHeader.nameBytes])

theorem nameSeen_inName {sh : SectionHeader} {strTab : StrTab} {k : Nat}
    (inside : k < (nameSource v sh strTab).length) : (nameSeen v sh strTab k).InName v strTab := by
  unfold nameSource at inside
  unfold nameSeen
  cases place : sh.placeIn strTab with
  | some off =>
      rw [place] at inside
      dsimp only at inside
      rw [v.slice_length] at inside
      exact Or.inr ⟨off + k, by omega, by dsimp only; rw [Nat.add_assoc]⟩
  | none =>
      rw [place] at inside
      exact Or.inl ⟨k, by simpa [SectionHeader.nameBytes] using inside, rfl⟩

/-- The first look behind the characters is outside. -/
theorem nameSeen_outside {sh : SectionHeader} {strTab : StrTab}
    (inFile : strTab.off + strTab.size ≤ v.size) :
    ¬ (nameSeen v sh strTab (nameSource v sh strTab).length).InName v strTab := by
  unfold nameSource nameSeen
  cases place : sh.placeIn strTab with
  | some off =>
      have below := placeIn_lt place
      dsimp only
      rw [v.slice_length, show strTab.off + off + (strTab.size - off) = strTab.off + strTab.size by
        omega, v.ptr_inside inFile]
      rintro (⟨index, -, same⟩ | ⟨index, inTable, same⟩)
      · cases same
      · rw [v.ptr_inside (by omega)] at same
        have address := (Access.memory.inj same).1
        omega
  | none =>
      rintro (⟨index, inName, same⟩ | ⟨index, -, same⟩)
      · have eight := Access.name.inj same
        simp only [SectionHeader.nameBytes, List.length_map, List.length_range] at eight
        omega
      · cases same

/-- `bw_section_name` looks at `Name[0..7]` and at the string table only, and
yields every name that fits into `out`, exactly when the characters of the name
have a NUL among them or are as many as `out` has room for. -/
theorem bwSectionName_inside_iff (sh : SectionHeader) (strTab : StrTab) (outLen : Nat)
    (s : LoadState) (inFile : strTab.off + strTab.size ≤ v.size) :
    ((∃ seen, (stateAfter (bwSectionName v sh strTab outLen) s).accesses = s.accesses ++ seen ∧
          ∀ access ∈ seen, access.InName v strTab) ∧
        ((sectionName v sh strTab).length ≤ outLen - 1 →
          ∃ t, bwSectionName v sh strTab outLen s = .ok (sectionName v sh strTab) t)) ↔
      0 ∈ nameSource v sh strTab ∨ outLen ≤ (nameSource v sh strTab).length + 1 := by
  obtain ⟨before, inHeader, ran⟩ := bwSectionName_run v sh strTab outLen s
  have reads : ∀ k c, (nameSource v sh strTab)[k]? = some c → ∀ s,
      nameCharAt v sh strTab (0 + k) s = .ok c (s.log [nameSeen v sh strTab (0 + k)]) := by
    intro k c there s
    rw [Nat.zero_add]
    exact nameCharAt_run v inFile there s
  constructor
  · rintro ⟨⟨seen, log, inside⟩, -⟩
    by_contra overruns
    rw [not_or, Nat.not_le] at overruns
    have looked := @sectionChars_overruns (nameCharAt v sh strTab) (nameSeen v sh strTab) _
      outLen (nameSource v sh strTab) outLen 0 (s.log before) reads
      (logs_nameCharAt v sh strTab) (nameCharAt_looks v sh strTab) (isNone_length v sh strTab)
      overruns.1 (by omega) (by omega)
    obtain ⟨more, log', member⟩ := looked.after (logs_log s before)
    rw [stateAfter, ran] at log
    rw [stateAfter, log, List.append_cancel_left_eq] at log'
    rw [← log', Nat.zero_add] at member
    exact nameSeen_outside v inFile (inside _ member)
  · intro ends
    obtain ⟨count, few, copies⟩ := @sectionChars_copies (nameCharAt v sh strTab)
      (nameSeen v sh strTab) _ outLen (nameSource v sh strTab) outLen 0 (s.log before) reads
      (isNone_length v sh strTab) (by rwa [Nat.zero_add]) (by omega)
    rw [copies, LoadState.log_log] at ran
    constructor
    · rw [stateAfter_of_ok ran]
      refine ⟨before ++ (List.range' 0 count).map (nameSeen v sh strTab), rfl, ?_⟩
      intro access member
      rcases List.mem_append.mp member with early | late
      · obtain ⟨index, inName, rfl⟩ := inHeader access early
        exact Or.inl ⟨index, inName, rfl⟩
      · obtain ⟨k, inRange, rfl⟩ := List.mem_map.mp late
        have below := (List.mem_range'_1.mp inRange).2
        exact nameSeen_inName v (by omega)
    · intro fits
      rw [Nat.sub_zero, List.take_of_length_le (show (upToNul (nameSource v sh strTab)).length ≤ _
        from fits)] at ran
      exact ⟨_, ran⟩

end Names

/-- A section header that is nothing but a name. -/
def headerNamed (name : List UInt8) : SectionHeader := ⟨name ++ List.replicate (40 - name.length) 0⟩

/-- `.text` is read to its NUL. -/
theorem text_name : ∃ t, bwSectionName (fileView []) (headerNamed [0x2e, 0x74, 0x65, 0x78, 0x74])
    ⟨0, 0⟩ 64 freshProcess = .ok [0x2e, 0x74, 0x65, 0x78, 0x74] t :=
  ((bwSectionName_inside_iff (fileView []) (headerNamed [0x2e, 0x74, 0x65, 0x78, 0x74]) ⟨0, 0⟩ 64
    freshProcess (by decide)).mpr (Or.inl (by decide))).2 (by decide)

/-- A name of eight characters is looked at behind its end. -/
theorem textbss_overrun : ¬ ∃ seen,
    (stateAfter (bwSectionName (fileView []) (headerNamed
      [0x2e, 0x74, 0x65, 0x78, 0x74, 0x62, 0x73, 0x73]) ⟨0, 0⟩ 64) freshProcess).accesses =
        freshProcess.accesses ++ seen ∧ ∀ access ∈ seen, access.InName (fileView []) ⟨0, 0⟩ := by
  rintro ⟨seen, log, inside⟩
  have eighth : Access.name 8 ∈ seen := by
    have logged : Access.name 8 ∈ (stateAfter (bwSectionName (fileView []) (headerNamed
        [0x2e, 0x74, 0x65, 0x78, 0x74, 0x62, 0x73, 0x73]) ⟨0, 0⟩ 64) freshProcess).accesses := by
      decide
    rwa [log] at logged
  rcases inside _ eighth with ⟨index, below, same⟩ | ⟨index, below, -⟩
  · rw [← Access.name.inj same] at below
    exact absurd below (by decide)
  · exact absurd below (Nat.not_lt_zero _)

end Backwalk.Windows
