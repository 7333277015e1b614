import Backwalk.Windows.FileBytes
import Backwalk.Windows.Retarget

/-!
Contract: the header checks of `bw_pe_load`.

Owns the headers as a function of the bytes of the file. The sums of these checks
stay below 32 bits, so on either width what is accepted lies in the file, and
whatever the state, the loader accepts the same headers.
-/

namespace Backwalk.Windows

open Backwalk.DwarfLine Backwalk.Support

section Headers

variable {bits : Nat} (v : View bits)

/-! ### Values -/

/-- What the checks behind the signature accept. -/
def View.fileHeader (lfanew : Nat) : Option PeHeaders :=
  let nsec := v.uint (lfanew + 6) 2
  let optSize := v.uint (lfanew + 20) 2
  let secOff := lfanew + 4 + fileHeaderSize + optSize
  if nsec = 0 ∨ 96 < nsec then none
  else if v.size < secOff + nsec * sectionHeaderSize then none
  else some ⟨lfanew, nsec, v.uint (lfanew + 12) 4, v.uint (lfanew + 16) 4, optSize, secOff⟩

/-- What the header checks accept. -/
def View.headers : Option PeHeaders :=
  let lfanew := v.uint 60 4
  if v.size < dosHeaderSize then none
  else if v.uint 0 2 ≠ 0x5a4d ∨ 2 ^ 31 ≤ lfanew then none
  else if v.size < lfanew + 4 + fileHeaderSize then none
  else if v.uint lfanew 4 ≠ 0x00004550 then none
  else v.fileHeader lfanew

/-- The fields of accepted headers are what the checks make of them. -/
structure PeHeaders.Accepted (h : PeHeaders) : Prop where
  lfanew : h.lfanew < 2 ^ 31
  nsecPositive : 0 < h.nsec
  nsecSmall : h.nsec ≤ 96
  optSize : h.optSize < 2 ^ 16
  symOff : h.symOff < 2 ^ 32
  nsym : h.nsym < 2 ^ 32
  secOff : h.secOff = h.lfanew + 4 + fileHeaderSize + h.optSize
  sections : h.secOff + h.nsec * sectionHeaderSize ≤ v.size

theorem headers_accepted {h : PeHeaders} (found : v.headers = some h) : h.Accepted v := by
  unfold View.headers View.fileHeader at found
  dsimp only at found
  split_ifs at found with dosFits marked fileFits signed counted sectionsFit
  cases found
  exact {
    lfanew := by
      dsimp only
      omega
    nsecPositive := by
      dsimp only
      omega
    nsecSmall := by
      dsimp only
      omega
    optSize := v.uint_lt _ 2
    symOff := v.uint_lt _ 4
    nsym := v.uint_lt _ 4
    secOff := rfl
    sections := Nat.le_of_not_lt sectionsFit }

/-! ### Runs -/

/-- The bytes that are looked at are bytes of the file. -/
def Access.InFile (access : Access) : Prop :=
  ∃ off n, off + n ≤ v.size ∧ access = .memory (v.base + off) n

theorem inFile_memory {off n : Nat} (inside : off + n ≤ v.size) :
    (Access.memory (v.ptr off) n).InFile v :=
  ⟨off, n, inside, by rw [v.ptr_inside (by omega)]⟩

/-- A value that was found, or a `break`. -/
def orBreak {α : Type} (found : Option α) (s : LoadState) : EStateM.Result Halt LoadState α :=
  match found with
  | some a => .ok a s
  | none => .error .leave s

theorem View.sizeT_small {bits : Nat} (v : View bits) {n : Nat} (small : n < 2 ^ 32) :
    sizeT bits n = n := by
  rcases v.width with rfl | rfl
  · exact Nat.mod_eq_of_lt small
  · exact Nat.mod_eq_of_lt (small.trans (by decide))

theorem bwPeFileHeader_run {lfanew : Nat} (low : lfanew < 2 ^ 31)
    (inside : lfanew + 4 + fileHeaderSize ≤ v.size) (s : LoadState) :
    bwPeFileHeader v lfanew s = orBreak (v.fileHeader lfanew)
      (s.log [.memory (v.ptr (lfanew + 4)) fileHeaderSize]) := by
  have fieldAt : ∀ {k n : Nat}, k + n ≤ fileHeaderSize →
      field (v.slice (lfanew + 4) fileHeaderSize) k n = v.uint (lfanew + 4 + k) n :=
    fun within => field_slice v within
  have optSmall : v.uint (lfanew + 20) 2 < 256 ^ 2 := v.uint_lt _ 2
  have nsecSmall : v.uint (lfanew + 6) 2 < 256 ^ 2 := v.uint_lt _ 2
  have secOff : dword (lfanew + 4 + fileHeaderSize + v.uint (lfanew + 20) 2) =
      lfanew + 4 + fileHeaderSize + v.uint (lfanew + 20) 2 := by
    unfold fileHeaderSize at *
    exact Nat.mod_eq_of_lt (by omega)
  rw [bwPeFileHeader, bind_of_ok (readBytes_inside v inside), View.fileHeader]
  simp only [fieldAt (show 2 + 2 ≤ fileHeaderSize by decide),
    fieldAt (show 16 + 2 ≤ fileHeaderSize by decide),
    fieldAt (show 8 + 4 ≤ fileHeaderSize by decide),
    fieldAt (show 12 + 4 ≤ fileHeaderSize by decide), Nat.add_assoc lfanew 4, Nat.reduceAdd]
  simp only [Nat.add_assoc lfanew 4] at secOff
  rw [secOff]
  by_cases counted : v.uint (lfanew + 6) 2 = 0 ∨ 96 < v.uint (lfanew + 6) 2
  · rw [if_pos counted, if_pos counted]
    rfl
  · have total : sizeT bits (lfanew + (4 + fileHeaderSize) + v.uint (lfanew + 20) 2 +
        v.uint (lfanew + 6) 2 * sectionHeaderSize) = lfanew + (4 + fileHeaderSize) +
          v.uint (lfanew + 20) 2 + v.uint (lfanew + 6) 2 * sectionHeaderSize := by
      apply v.sizeT_small
      unfold sectionHeaderSize fileHeaderSize
      omega
    rw [if_neg counted, if_neg counted, total]
    split_ifs <;> rfl

/-- Whatever the state, the checks accept the same headers, and they look at
nothing outside the file. -/
theorem bwPeHeaders_run (s : LoadState) :
    ∃ seen, bwPeHeaders v s = orBreak v.headers (s.log seen) ∧
      ∀ access ∈ seen, access.InFile v := by
  rw [bwPeHeaders, View.headers]
  by_cases dosFits : v.size < dosHeaderSize
  · rw [if_pos dosFits, if_pos dosFits]
    exact ⟨[], by rw [LoadState.log_nil]; rfl, by simp⟩
  · have dos : 0 + dosHeaderSize ≤ v.size := by omega
    have dosField : ∀ {k n : Nat}, k + n ≤ dosHeaderSize →
        field (v.slice 0 dosHeaderSize) k n = v.uint k n := by
      intro k n within
      rw [field_slice v within, Nat.zero_add]
    have dosSeen : (Access.memory (v.ptr 0) dosHeaderSize).InFile v := inFile_memory v dos
    rw [if_neg dosFits, if_neg dosFits, bind_of_ok (readBytes_inside v dos),
      dosField (show 60 + 4 ≤ dosHeaderSize by decide),
      dosField (show 0 + 2 ≤ dosHeaderSize by decide)]
    by_cases marked : v.uint 0 2 ≠ 0x5a4d ∨ 2 ^ 31 ≤ v.uint 60 4
    · rw [if_pos marked, if_pos marked]
      exact ⟨[.memory (v.ptr 0) dosHeaderSize], rfl, by simpa using dosSeen⟩
    · have sum : sizeT bits (v.uint 60 4 + 4 + fileHeaderSize) =
          v.uint 60 4 + 4 + fileHeaderSize := by
        apply v.sizeT_small
        unfold fileHeaderSize
        omega
      rw [if_neg marked, if_neg marked, sum]
      by_cases fileFits : v.size < v.uint 60 4 + 4 + fileHeaderSize
      · rw [if_pos fileFits, if_pos fileFits]
        exact ⟨[.memory (v.ptr 0) dosHeaderSize], rfl, by simpa using dosSeen⟩
      · have header : v.uint 60 4 + 4 + fileHeaderSize ≤ v.size := by omega
        have signature : v.uint 60 4 + 4 ≤ v.size := by omega
        have signatureSeen := inFile_memory v signature
        rw [if_neg fileFits, if_neg fileFits, bind_of_ok (readUint_inside v signature),
          LoadState.log_log]
        by_cases signed : v.uint (v.uint 60 4) 4 ≠ 0x00004550
        · rw [if_pos signed, if_pos signed]
          exact ⟨_, rfl, by simpa using ⟨dosSeen, signatureSeen⟩⟩
        · have headerSeen := inFile_memory v header
          rw [if_neg signed, if_neg signed,
            bwPeFileHeader_run v (by omega) header, LoadState.log_log]
          exact ⟨_, rfl, by simpa using ⟨dosSeen, signatureSeen, headerSeen⟩⟩

theorem hasHeaders_iff {h : PeHeaders} : v.HasHeaders h ↔ v.headers = some h := by
  constructor
  · rintro ⟨s, s', ended⟩
    obtain ⟨seen, ran, -⟩ := bwPeHeaders_run v s
    rw [ran] at ended
    cases found : v.headers with
    | none =>
        rw [found] at ended
        cases ended
    | some h' =>
        rw [found] at ended
        cases ended
        rfl
  · intro found
    obtain ⟨seen, ran, -⟩ := bwPeHeaders_run v freshProcess
    rw [found] at ran
    exact ⟨freshProcess, _, ran⟩

end Headers

end Backwalk.Windows
