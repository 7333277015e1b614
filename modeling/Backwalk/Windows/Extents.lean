import Backwalk.Windows.CoffSymbols

/-!
Contract: the extents that `bw_pe_load` and `bw_section_data` check, and the
bytes that are then looked at.

A guard adds up an extent in `size_t`, and the access adds up its place in
`DWORD`. Both are right exactly where no such sum leaves its type. On 64 bits
that is so for every file below 4 GiB; on 32 bits one section header is enough to
break it.
-/

namespace Backwalk.Windows

open Backwalk.DwarfLine Backwalk.Support

section Extents

variable {bits : Nat} (v : View bits) (h : PeHeaders)

/-- Whatever the state, a run looks at the bytes `[lo, hi)` of the file only. -/
def View.Within {α : Type} (m : Loader α) (lo hi : Nat) : Prop :=
  ∀ s, ∃ seen, (stateAfter m s).accesses = s.accesses ++ seen ∧
    ∀ access ∈ seen, ∃ off n, lo ≤ off ∧ off + n ≤ hi ∧ access = .memory (v.base + off) n

/-- Section header `index`, as it stands in the file. -/
def View.sectionHeader (index : Nat) : SectionHeader :=
  ⟨v.slice (h.secOff + index * sectionHeaderSize) sectionHeaderSize⟩

/-! ### Guards -/

/-- The loop over the symbol table is entered. -/
def View.TableAccepted : Prop :=
  h.symOff ≠ 0 ∧ h.nsym ≠ 0 ∧ sizeT bits (h.symOff + h.nsym * bwCoffSymSize) ≤ v.size

/-- The size of the string table is read. -/
def View.StringsAccepted : Prop :=
  h.symOff ≠ 0 ∧ h.nsym ≠ 0 ∧ sizeT bits (h.symOff + h.nsym * bwCoffSymSize + 4) ≤ v.size

/-- `bw_section_data` returns a pointer. -/
def View.DataAccepted (sh : SectionHeader) : Prop :=
  sh.pointerToRawData ≠ 0 ∧ sh.sizeOfRawData ≠ 0 ∧
    sizeT bits (sh.pointerToRawData + sh.sizeOfRawData) ≤ v.size

/-- What is accepted lies in the file, and it is what is looked at. -/
structure View.ExtentsRight : Prop where
  sections : h.secOff + h.nsec * sectionHeaderSize ≤ v.size ∧
    ∀ index < h.nsec, v.Within (readSectionHeader v h index)
      (h.secOff + index * sectionHeaderSize) (h.secOff + (index + 1) * sectionHeaderSize)
  records : v.TableAccepted h → recordAt h h.nsym ≤ v.size ∧
    ∀ i < h.nsym, ∀ k n, k + n ≤ bwCoffSymSize →
      v.Within (readBytes v (recordOff h i + k) n) (recordAt h i + k) (recordAt h i + k + n)
  strings : v.StringsAccepted h → recordAt h h.nsym + 4 ≤ v.size ∧
    v.Within (bwPeStrTab v h) (recordAt h h.nsym) (recordAt h h.nsym + 4) ∧
    ∀ s strTab t, bwPeStrTab v h s = .ok strTab t → strTab.size ≠ 0 →
      strTab = ⟨recordAt h h.nsym, v.uint (recordAt h h.nsym) 4⟩ ∧
        strTab.off + strTab.size ≤ v.size
  data : ∀ index < h.nsec, v.DataAccepted (v.sectionHeader h index) →
    (v.sectionHeader h index).pointerToRawData + (v.sectionHeader h index).sizeOfRawData ≤ v.size ∧
      bwSectionData v (v.sectionHeader h index) =
        ⟨v.base + (v.sectionHeader h index).pointerToRawData,
          (v.sectionHeader h index).sizeOfRawData⟩

/-- No sum behind an accepting guard leaves its type: `size_t` in the guards,
`DWORD` for the offset of a record in the table and for that of the string
table. -/
structure View.Unwrapped : Prop where
  records : v.TableAccepted h → h.symOff + h.nsym * bwCoffSymSize < 2 ^ bits ∧
    (h.nsym - 1) * bwCoffSymSize < 2 ^ 32
  strings : v.StringsAccepted h → h.symOff + h.nsym * bwCoffSymSize + 4 < 2 ^ bits ∧
    h.symOff + h.nsym * bwCoffSymSize < 2 ^ 32 ∧
    (4 ≤ v.uint (recordAt h h.nsym) 4 →
      sizeT bits (recordAt h h.nsym + v.uint (recordAt h h.nsym) 4) ≤ v.size →
        recordAt h h.nsym + v.uint (recordAt h h.nsym) 4 < 2 ^ bits)
  data : ∀ index < h.nsec, v.DataAccepted (v.sectionHeader h index) →
    (v.sectionHeader h index).pointerToRawData + (v.sectionHeader h index).sizeOfRawData < 2 ^ bits

variable {v h}

/-! ### Single reads -/

theorem sizeT_fits {n : Nat} (fits : n < 2 ^ bits) : sizeT bits n = n := Nat.mod_eq_of_lt fits

/-- A read looks at its bytes and nothing else. -/
theorem readBytes_accesses (off n : Nat) (s : LoadState) :
    (stateAfter (readBytes v off n) s).accesses = s.accesses ++ [.memory (v.ptr off) n] := by
  rw [stateAfter, readBytes, bind_of_ok (logAccess_run _ s)]
  cases v.bytesAt off n <;> rfl

theorem stateAfter_readUint (off n : Nat) (s : LoadState) :
    stateAfter (readUint v off n) s = stateAfter (readBytes v off n) s := by
  cases ended : readBytes v off n s with
  | ok bytes t => rw [stateAfter, readUint, bind_of_ok ended, stateAfter_of_ok ended]; rfl
  | error why t => rw [stateAfter, readUint, bind_of_error ended, stateAfter_of_error ended]

theorem within_readBytes {off n : Nat} (inside : off + n ≤ v.size) :
    v.Within (readBytes v off n) off (off + n) := by
  intro s
  refine ⟨_, readBytes_accesses off n s, ?_⟩
  intro access member
  rw [List.mem_singleton.mp member, v.ptr_inside (by omega)]
  exact ⟨off, n, le_refl _, le_refl _, rfl⟩

/-- If a read at `off` stays within the bytes of another place, it is at that
place. -/
theorem off_of_within {off place n : Nat} (inside : off ≤ v.size)
    (within : v.Within (readBytes v off n) place (place + n)) : off = place := by
  obtain ⟨seen, log, places⟩ := within freshProcess
  rw [readBytes_accesses, List.append_cancel_left_eq] at log
  obtain ⟨off', n', low, high, same⟩ := places _ (log ▸ List.mem_singleton_self _)
  rw [v.ptr_inside inside, Access.memory.injEq] at same
  omega

/-! ### Section headers and raw data -/

theorem sections_right (accepted : h.Accepted v) :
    h.secOff + h.nsec * sectionHeaderSize ≤ v.size ∧
      ∀ index < h.nsec, v.Within (readSectionHeader v h index)
        (h.secOff + index * sectionHeaderSize) (h.secOff + (index + 1) * sectionHeaderSize) := by
  have sections := accepted.sections
  refine ⟨sections, ?_⟩
  intro index below s
  unfold sectionHeaderSize at *
  have inside : h.secOff + index * 40 + 40 ≤ v.size := by omega
  have read : readSectionHeader v h index s = .ok ⟨v.slice (h.secOff + index * 40) 40⟩
      (s.log [.memory (v.ptr (h.secOff + index * 40)) 40]) := by
    rw [readSectionHeader, sectionHeaderSize, bind_of_ok (readBytes_inside v inside)]
    rfl
  refine ⟨[.memory (v.ptr (h.secOff + index * 40)) 40], by rw [stateAfter_of_ok read]; rfl, ?_⟩
  intro access member
  rw [List.mem_singleton.mp member, v.ptr_inside (by omega)]
  exact ⟨h.secOff + index * 40, 40, le_refl _, by omega, rfl⟩

theorem bwSectionData_accepted {sh : SectionHeader} (accepted : v.DataAccepted sh) :
    bwSectionData v sh = ⟨v.ptr sh.pointerToRawData, sh.sizeOfRawData⟩ := by
  rw [bwSectionData, if_neg (not_or.mpr ⟨accepted.1, accepted.2.1⟩),
    if_neg (Nat.not_lt.mpr accepted.2.2)]

theorem data_right_iff {sh : SectionHeader} (accepted : v.DataAccepted sh) :
    (sh.pointerToRawData + sh.sizeOfRawData ≤ v.size ∧
      bwSectionData v sh = ⟨v.base + sh.pointerToRawData, sh.sizeOfRawData⟩) ↔
      sh.pointerToRawData + sh.sizeOfRawData < 2 ^ bits := by
  have fits := v.fits
  constructor
  · intro right
    have inside := right.1
    omega
  · intro small
    have inside := accepted.2.2
    rw [sizeT_fits small] at inside
    rw [bwSectionData_accepted accepted, v.ptr_inside (by omega)]
    exact ⟨inside, rfl⟩

/-! ### The symbol table -/

theorem recordOff_eq_iff {i : Nat} : recordOff h i = recordAt h i ↔ i * bwCoffSymSize < 2 ^ 32 := by
  unfold recordOff recordAt dword
  omega

theorem recordOff_le (i : Nat) : recordOff h i ≤ recordAt h i :=
  Nat.add_le_add_left (Nat.mod_le _ _) _

theorem records_right_iff (accepted : v.TableAccepted h) :
    (recordAt h h.nsym ≤ v.size ∧ ∀ i < h.nsym, ∀ k n, k + n ≤ bwCoffSymSize →
      v.Within (readBytes v (recordOff h i + k) n) (recordAt h i + k) (recordAt h i + k + n)) ↔
      h.symOff + h.nsym * bwCoffSymSize < 2 ^ bits ∧ (h.nsym - 1) * bwCoffSymSize < 2 ^ 32 := by
  have fits := v.fits
  obtain ⟨-, some, guard⟩ := accepted
  have positive : 0 < h.nsym := Nat.pos_of_ne_zero some
  constructor
  · rintro ⟨inside, right⟩
    have last : recordAt h (h.nsym - 1) ≤ recordAt h h.nsym := recordAt_le (Nat.sub_le _ _)
    have low := recordOff_le (h := h) (h.nsym - 1)
    have place := off_of_within (by omega) (right (h.nsym - 1) (by omega) 0 1 (by decide))
    rw [Nat.add_zero, Nat.add_zero] at place
    refine ⟨?_, recordOff_eq_iff.mp place⟩
    unfold recordAt at inside
    omega
  · rintro ⟨small, records⟩
    rw [sizeT_fits small] at guard
    refine ⟨guard, ?_⟩
    intro i below k n within
    have place : recordOff h i = recordAt h i := by
      apply recordOff_eq_iff.mpr
      unfold bwCoffSymSize at *
      omega
    have inside : recordAt h (i + 1) ≤ recordAt h h.nsym := recordAt_le below
    rw [place]
    apply within_readBytes
    unfold recordAt bwCoffSymSize at *
    omega

/-! ### The string table -/

/-- What the code takes for the place of the string table is its place, unless the
sum left `DWORD`. -/
theorem strOff_eq_iff :
    dword (recordAt h h.nsym) = recordAt h h.nsym ↔ recordAt h h.nsym < 2 ^ 32 := by
  unfold dword
  omega

theorem bwPeStrTab_accepted (accepted : v.StringsAccepted h) :
    bwPeStrTab v h = (do
      let size ← readUint v (dword (recordAt h h.nsym)) 4
      if size < 4 ∨ v.size < sizeT bits (dword (recordAt h h.nsym) + size) then
        pure ⟨dword (recordAt h h.nsym), 0⟩
      else pure ⟨dword (recordAt h h.nsym), size⟩) :=
  if_pos accepted

theorem stateAfter_pure_bind {α β : Type} (m : Loader α) (f : α → β) (s : LoadState) :
    stateAfter (m >>= fun a => pure (f a)) s = stateAfter m s := by
  cases ended : m s with
  | ok a t => rw [stateAfter, bind_of_ok ended, stateAfter_of_ok ended]; rfl
  | error why t => rw [stateAfter, bind_of_error ended, stateAfter_of_error ended]

/-- Of the string table, its size is looked at. -/
theorem bwPeStrTab_stateAfter (accepted : v.StringsAccepted h) (s : LoadState) :
    stateAfter (bwPeStrTab v h) s =
      stateAfter (readBytes v (dword (recordAt h h.nsym)) 4) s := by
  rw [← stateAfter_readUint, bwPeStrTab_accepted accepted]
  simp only [← apply_ite pure]
  exact stateAfter_pure_bind _ _ s

theorem strings_right_iff (accepted : v.StringsAccepted h) :
    (recordAt h h.nsym + 4 ≤ v.size ∧
      v.Within (bwPeStrTab v h) (recordAt h h.nsym) (recordAt h h.nsym + 4) ∧
      ∀ s strTab t, bwPeStrTab v h s = .ok strTab t → strTab.size ≠ 0 →
        strTab = ⟨recordAt h h.nsym, v.uint (recordAt h h.nsym) 4⟩ ∧
          strTab.off + strTab.size ≤ v.size) ↔
      h.symOff + h.nsym * bwCoffSymSize + 4 < 2 ^ bits ∧
        h.symOff + h.nsym * bwCoffSymSize < 2 ^ 32 ∧
        (4 ≤ v.uint (recordAt h h.nsym) 4 →
          sizeT bits (recordAt h h.nsym + v.uint (recordAt h h.nsym) 4) ≤ v.size →
            recordAt h h.nsym + v.uint (recordAt h h.nsym) 4 < 2 ^ bits) := by
  have fits := v.fits
  have table : h.symOff + h.nsym * bwCoffSymSize = recordAt h h.nsym := rfl
  rw [table]
  constructor
  · rintro ⟨inside, within, right⟩
    have place : dword (recordAt h h.nsym) = recordAt h h.nsym := by
      have low : dword (recordAt h h.nsym) ≤ v.size := (Nat.mod_le _ _).trans (by omega)
      have reads : v.Within (readBytes v (dword (recordAt h h.nsym)) 4) (recordAt h h.nsym)
          (recordAt h h.nsym + 4) := by
        intro s
        rw [← bwPeStrTab_stateAfter accepted]
        exact within s
      exact off_of_within low reads
    refine ⟨by omega, strOff_eq_iff.mp place, ?_⟩
    intro size guard
    have ran : bwPeStrTab v h freshProcess =
        .ok ⟨recordAt h h.nsym, v.uint (recordAt h h.nsym) 4⟩
          (freshProcess.log [.memory (v.ptr (recordAt h h.nsym)) 4]) := by
      rw [bwPeStrTab_accepted accepted, place, bind_of_ok (readUint_inside v inside),
        if_neg (by omega)]
      rfl
    have ends := (right _ _ _ ran (by dsimp only; omega)).2
    dsimp only at ends
    omega
  · rintro ⟨small, isDword, ends⟩
    have place := strOff_eq_iff.mpr isDword
    have inside := accepted.2.2
    rw [table, sizeT_fits small] at inside
    refine ⟨inside, ?_, ?_⟩
    · intro s
      rw [bwPeStrTab_stateAfter accepted, place]
      exact within_readBytes inside s
    · intro s strTab t ran present
      rw [bwPeStrTab_accepted accepted, place, bind_of_ok (readUint_inside v inside)] at ran
      split_ifs at ran with rejected
      · cases ran
        exact absurd rfl present
      · cases ran
        rw [not_or, Nat.not_lt, Nat.not_lt] at rejected
        refine ⟨rfl, ?_⟩
        have whole := ends rejected.1 rejected.2
        have within := rejected.2
        rwa [sizeT_fits whole] at within

/-! ### All of them -/

/-- The extents of an accepted file are checked and looked at as they stand
exactly if no sum behind an accepting guard leaves its type. -/
theorem extentsRight_iff (headers : v.HasHeaders h) : v.ExtentsRight h ↔ v.Unwrapped h := by
  have accepted := headers_accepted v ((hasHeaders_iff v).mp headers)
  constructor
  · intro right
    exact {
      records := fun guard => (records_right_iff guard).mp (right.records guard)
      strings := fun guard => (strings_right_iff guard).mp (right.strings guard)
      data := fun index below guard => (data_right_iff guard).mp (right.data index below guard) }
  · intro unwrapped
    exact {
      sections := sections_right accepted
      records := fun guard => (records_right_iff guard).mpr (unwrapped.records guard)
      strings := fun guard => (strings_right_iff guard).mpr (unwrapped.strings guard)
      data := fun index below guard =>
        (data_right_iff guard).mpr (unwrapped.data index below guard) }

/-- With pointers of 64 bits the sums of a file below 4 GiB stay in their types. -/
theorem unwrapped_of_small {v : View 64} (small : v.size < 2 ^ 32) (headers : v.HasHeaders h) :
    v.Unwrapped h := by
  have accepted := headers_accepted v ((hasHeaders_iff v).mp headers)
  have symOff := accepted.symOff
  have nsym := accepted.nsym
  have size : v.uint (recordAt h h.nsym) 4 < 256 ^ 4 := v.uint_lt _ 4
  have table : recordAt h h.nsym < 2 ^ 63 := by
    unfold recordAt bwCoffSymSize
    omega
  have fits : h.symOff + h.nsym * bwCoffSymSize + 4 < 2 ^ 64 := by
    unfold bwCoffSymSize
    omega
  constructor
  · rintro ⟨-, -, guard⟩
    rw [sizeT_fits (by omega)] at guard
    unfold bwCoffSymSize at *
    omega
  · rintro ⟨-, -, guard⟩
    rw [sizeT_fits fits] at guard
    refine ⟨fits, by omega, ?_⟩
    intro _ _
    omega
  · intro index _ _
    have place : (v.sectionHeader h index).pointerToRawData < 2 ^ 32 := field_lt _ _
    have length : (v.sectionHeader h index).sizeOfRawData < 2 ^ 32 := field_lt _ _
    omega

end Extents

/-! ### On 32 bits -/

theorem narrow : 32 = 32 ∨ 32 = 64 := Or.inl rfl

theorem memAt_placed_narrow (bytes : List UInt8) :
    (Section.mk 0x10000 (min bytes.length (2 ^ 16))).Placed 32 (memAt 0x10000 bytes) := by
  intro _
  refine ⟨by dsimp only; omega, fun index below => ?_⟩
  have inside : index < bytes.length := Nat.lt_of_lt_of_le below (Nat.min_le_left _ _)
  simp [memAt, inside]

/-- A 32-bit view at `0x10000` of a file of 64 KiB at most. -/
def fileViewNarrow (bytes : List UInt8) : View 32 where
  mem := memAt 0x10000 bytes
  base := 0x10000
  size := min bytes.length (2 ^ 16)
  width := narrow
  mapped := viewBase_mapped
  placed := memAt_placed_narrow bytes

/-- A file with one section, whose raw data begin 16 bytes before 4 GiB and are 32
bytes long. -/
def wrappingFile : List UInt8 :=
  [0x4d, 0x5a] ++ List.replicate 58 0 ++ [64, 0, 0, 0] ++
  [0x50, 0x45, 0, 0] ++ [0x4c, 0x01, 1, 0, 0, 0, 0, 0, 0, 0, 0, 0, 0, 0, 0, 0, 0, 0, 0, 0] ++
  (List.replicate 16 0 ++ [0x20, 0, 0, 0, 0xf0, 0xff, 0xff, 0xff] ++ List.replicate 16 0)

/-- Its headers. -/
def wrappingHeaders : PeHeaders := ⟨64, 1, 0, 0, 0, 88⟩

theorem mainFile_extents : (fileView mainFile).ExtentsRight mainHeaders :=
  (extentsRight_iff mainFile_headers).mpr (unwrapped_of_small (by decide +kernel) mainFile_headers)

/-- The section is accepted, although it ends behind the file. -/
theorem wrappingFile_accepted : (fileViewNarrow wrappingFile).HasHeaders wrappingHeaders ∧
    ¬ (fileViewNarrow wrappingFile).ExtentsRight wrappingHeaders := by
  refine ⟨(hasHeaders_iff _).mpr (by decide +kernel), ?_⟩
  intro right
  have guard : (fileViewNarrow wrappingFile).DataAccepted
      ((fileViewNarrow wrappingFile).sectionHeader wrappingHeaders 0) :=
    ⟨by decide +kernel, by decide +kernel, by decide +kernel⟩
  have inside := (right.data 0 (by decide) guard).1
  exact absurd inside (by decide +kernel)

end Backwalk.Windows
