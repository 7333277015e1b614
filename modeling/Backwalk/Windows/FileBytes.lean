import Backwalk.DwarfLine.Invariant
import Backwalk.Support.Agreement
import Backwalk.Windows.SymbolCache

/-!
Contract: reads of `src/win.c` that stay in the file.

Owns the bytes of a file by offset, and what the reads of the loader come to when
they stay inside: they answer with those bytes, log what they looked at, and
leave the globals alone. The log of a run only grows, however the run ends.
-/

namespace Backwalk.Windows

open Backwalk.DwarfLine Backwalk.Support

/-! ### Bytes by offset -/

section Bytes

variable {bits : Nat} (v : View bits)

/-- The byte at `base + off`. -/
def View.byte (off : Nat) : UInt8 := (v.mem (v.base + off)).getD 0

/-- The bytes `[off, off + n)` of the file. -/
def View.slice (off n : Nat) : List UInt8 := (List.range n).map fun i => v.byte (off + i)

/-- A little-endian value of the file. -/
def View.uint (off n : Nat) : Nat := leNat (v.slice off n)

@[simp]
theorem View.slice_length (off n : Nat) : (v.slice off n).length = n := by
  rw [slice, List.length_map, List.length_range]

theorem View.slice_succ (off n : Nat) :
    v.slice off (n + 1) = v.byte off :: v.slice (off + 1) n := by
  simp only [slice, List.range_succ_eq_map, List.map_cons, List.map_map, Nat.add_zero]
  congr 1
  apply List.map_congr_left
  intro i _
  simp only [Function.comp_apply, Nat.succ_eq_add_one]
  rw [Nat.add_assoc, Nat.add_comm 1]

theorem View.slice_append (off m n : Nat) :
    v.slice off (m + n) = v.slice off m ++ v.slice (off + m) n := by
  induction m generalizing off with
  | zero => rw [Nat.zero_add, Nat.add_zero]; rfl
  | succ m inductionHypothesis =>
      rw [Nat.add_right_comm, slice_succ, inductionHypothesis, slice_succ, List.cons_append,
        Nat.add_assoc, Nat.add_comm 1]

theorem View.slice_getElem? {off n i : Nat} (inside : i < n) :
    (v.slice off n)[i]? = some (v.byte (off + i)) := by
  simp [slice, inside]

/-- A field of a structure that lies in the file. -/
theorem field_slice {off n k m : Nat} (inside : k + m ≤ n) :
    field (v.slice off n) k m = v.uint (off + k) m := by
  obtain ⟨rest, rfl⟩ : ∃ rest, n = k + (m + rest) := ⟨n - (k + m), by omega⟩
  rw [field, View.uint, v.slice_append off k, v.slice_append (off + k) m,
    List.drop_left' (v.slice_length off k), List.take_left' (v.slice_length (off + k) m)]

theorem field_lt (bytes : List UInt8) (off : Nat) : field bytes off 4 < 2 ^ 32 := by
  have short : ((bytes.drop off).take 4).length ≤ 4 := List.length_take_le _ _
  exact (leNat_lt _).trans_le (Nat.pow_le_pow_right (by decide) short)

theorem View.uint_lt (off n : Nat) : v.uint off n < 256 ^ n := by
  have below := leNat_lt (v.slice off n)
  rwa [v.slice_length] at below

/-! ### Addresses -/

theorem View.fits : v.base + v.size < 2 ^ bits := (v.placed v.mapped).1

theorem View.ptr_inside {off : Nat} (inside : off ≤ v.size) : v.ptr off = v.base + off := by
  have fits := v.fits
  exact Nat.mod_eq_of_lt (by omega)

theorem View.mem_inside {off : Nat} (inside : off < v.size) :
    v.mem (v.base + off) = some (v.byte off) := by
  obtain ⟨x, there⟩ := Option.isSome_iff_exists.mp ((v.placed v.mapped).2 off inside)
  have value : v.byte off = x := by
    rw [View.byte, there]
    rfl
  exact value ▸ there

theorem View.peek_slice {off n : Nat} (inside : off + n ≤ v.size) :
    peek v.memory (v.base + off) n = .ok (v.slice off n) := by
  induction n generalizing off with
  | zero => rfl
  | succ n inductionHypothesis =>
      have here : v.memory.mem (v.base + off) = some (v.byte off) := v.mem_inside (by omega)
      have fits := v.fits
      have next : v.memory.ptrAdd (v.base + off) 1 = v.base + (off + 1) :=
        Nat.mod_eq_of_lt (show v.base + off + 1 < 2 ^ bits by omega)
      rw [peek, here, v.slice_succ]
      dsimp only
      rw [next, inductionHypothesis (by omega)]
      rfl

theorem View.bytesAt_inside {off n : Nat} (inside : off + n ≤ v.size) :
    v.bytesAt off n = .ok (v.slice off n) := by
  rw [bytesAt, v.ptr_inside (by omega), v.peek_slice inside]

end Bytes

/-! ### What logging keeps, reading keeps -/

section Reading

variable {bits : Nat} (v : View bits) {R : LoadState → LoadState → Prop} [Std.Refl R]
  [IsTrans LoadState R]

instance {α : Type} (why : Halt) : Develops R (halt why : Loader α) := ⟨fun s => refl_of R s⟩

instance : Develops R getGlobals := ⟨fun s => refl_of R s⟩

variable [∀ access, Develops R (logAccess access)]

instance (off n : Nat) : Develops R (readBytes v off n) := by
  unfold readBytes
  have next : ∀ u : Unit, Develops R (match v.bytesAt off n with
      | .ok bytes => pure bytes
      | .error last => halt (.crash (.fault (.segv last))) : Loader (List UInt8)) := by
    intro u
    split <;> infer_instance
  infer_instance

instance (off n : Nat) : Develops R (readUint v off n) := by unfold readUint; infer_instance

instance (off : Nat) : Develops R (readChar v off) := by unfold readChar; infer_instance

instance (h : PeHeaders) (index : Nat) : Develops R (readSectionHeader v h index) := by
  unfold readSectionHeader
  infer_instance

instance (sh : SectionHeader) (index : Nat) : Develops R (nameChar sh index) := by
  unfold nameChar
  infer_instance

instance develops_sectionDigits (sh : SectionHeader) (n d off : Nat) :
    Develops R (sectionDigits sh n d off) := by
  induction n generalizing d off with
  | zero => unfold sectionDigits; infer_instance
  | succ n inductionHypothesis => unfold sectionDigits; infer_instance

instance develops_sectionChars (charAt : Nat → Loader UInt8) [∀ i, Develops R (charAt i)]
    (inHeader : Bool) (outLen fuel i : Nat) :
    Develops R (sectionChars charAt inHeader outLen fuel i) := by
  induction fuel generalizing i with
  | zero => unfold sectionChars; infer_instance
  | succ fuel inductionHypothesis => unfold sectionChars; infer_instance

instance (sh : SectionHeader) (strTab : StrTab) : Develops R (sectionNameOff sh strTab) := by
  unfold sectionNameOff
  infer_instance

instance (sh : SectionHeader) (strTab : StrTab) (outLen : Nat) :
    Develops R (bwSectionName v sh strTab outLen) := by
  unfold bwSectionName
  have next : ∀ off : Option Nat, Develops R (match off with
      | some off => sectionChars (fun i => readChar v (strTab.off + off + i)) false outLen outLen 0
      | none => sectionChars (nameChar sh) true outLen outLen 0) := by
    intro off
    cases off <;> infer_instance
  infer_instance

instance (h : PeHeaders) : Develops R (bwPeStrTab v h) := by unfold bwPeStrTab; infer_instance

instance (h : PeHeaders) (i : Nat) : Develops R (readSymRecord v h i) := by
  unfold readSymRecord
  infer_instance

instance develops_nameChars (n off : Nat) : Develops R (nameChars v n off) := by
  induction n generalizing off with
  | zero => unfold nameChars; infer_instance
  | succ n inductionHypothesis => unfold nameChars; infer_instance

instance develops_bwPeSections (h : PeHeaders) (strTab : StrTab) (n s : Nat)
    (found : LineSections) :
    Develops R (bwPeSections v h strTab n s found) := by
  induction n generalizing s found with
  | zero => unfold bwPeSections; infer_instance
  | succ n inductionHypothesis => unfold bwPeSections; infer_instance

end Reading

/-! ### What logging does not see, reading does not see -/

section Unseen

variable {bits : Nat} (v : View bits) {R : LoadState → LoadState → Prop} {α : Type}

instance (why : Halt) : Blind R (halt why : Loader α) := ⟨fun related => ⟨rfl, related⟩⟩

variable [∀ access, Blind R (logAccess access)]

instance (off n : Nat) : Blind R (readBytes v off n) := by
  unfold readBytes
  have next : ∀ u : Unit, Blind R (match v.bytesAt off n with
      | .ok bytes => pure bytes
      | .error last => halt (.crash (.fault (.segv last))) : Loader (List UInt8)) := by
    intro u
    split <;> infer_instance
  infer_instance

instance (off n : Nat) : Blind R (readUint v off n) := by unfold readUint; infer_instance

instance (off : Nat) : Blind R (readChar v off) := by unfold readChar; infer_instance

instance (lfanew : Nat) : Blind R (bwPeFileHeader v lfanew) := by
  unfold bwPeFileHeader
  infer_instance

instance : Blind R (bwPeHeaders v) := by unfold bwPeHeaders; infer_instance

instance (h : PeHeaders) : Blind R (bwPeStrTab v h) := by unfold bwPeStrTab; infer_instance

instance (h : PeHeaders) (index : Nat) : Blind R (readSectionHeader v h index) := by
  unfold readSectionHeader
  infer_instance

instance (sh : SectionHeader) (index : Nat) : Blind R (nameChar sh index) := by
  unfold nameChar
  infer_instance

instance blind_sectionDigits (sh : SectionHeader) (n d off : Nat) :
    Blind R (sectionDigits sh n d off) := by
  induction n generalizing d off with
  | zero => unfold sectionDigits; infer_instance
  | succ n inductionHypothesis => unfold sectionDigits; infer_instance

instance blind_sectionChars (charAt : Nat → Loader UInt8) [∀ i, Blind R (charAt i)]
    (inHeader : Bool) (outLen fuel i : Nat) :
    Blind R (sectionChars charAt inHeader outLen fuel i) := by
  induction fuel generalizing i with
  | zero => unfold sectionChars; infer_instance
  | succ fuel inductionHypothesis => unfold sectionChars; infer_instance

instance (sh : SectionHeader) (strTab : StrTab) : Blind R (sectionNameOff sh strTab) := by
  unfold sectionNameOff
  infer_instance

instance (sh : SectionHeader) (strTab : StrTab) (outLen : Nat) :
    Blind R (bwSectionName v sh strTab outLen) := by
  unfold bwSectionName
  refine @Blind.bind _ _ _ _ _ _ _ inferInstance fun off => ?_
  cases off with
  | none => exact inferInstance
  | some off => exact inferInstance

instance (h : PeHeaders) (i : Nat) : Blind R (readSymRecord v h i) := by
  unfold readSymRecord
  infer_instance

instance blind_nameChars (n off : Nat) : Blind R (nameChars v n off) := by
  induction n generalizing off with
  | zero => unfold nameChars; infer_instance
  | succ n inductionHypothesis => unfold nameChars; infer_instance

instance blind_bwPeSections (h : PeHeaders) (strTab : StrTab) (n s : Nat) (found : LineSections) :
    Blind R (bwPeSections v h strTab n s found) := by
  induction n generalizing s found with
  | zero => unfold bwPeSections; infer_instance
  | succ n inductionHypothesis => unfold bwPeSections; infer_instance

end Unseen

/-! ### The log -/

/-- The state with more accesses logged. -/
def LoadState.log (s : LoadState) (seen : List Access) : LoadState :=
  { s with accesses := s.accesses ++ seen }

@[simp]
theorem LoadState.log_globals (s : LoadState) (seen : List Access) :
    (s.log seen).globals = s.globals := rfl

@[simp]
theorem LoadState.log_accesses (s : LoadState) (seen : List Access) :
    (s.log seen).accesses = s.accesses ++ seen := rfl

@[simp]
theorem LoadState.log_log (s : LoadState) (seen more : List Access) :
    (s.log seen).log more = s.log (seen ++ more) := by
  simp only [LoadState.log, List.append_assoc]

@[simp]
theorem LoadState.log_nil (s : LoadState) : s.log [] = s := by
  simp only [LoadState.log, List.append_nil]

theorem logAccess_run (access : Access) (s : LoadState) :
    logAccess access s = .ok () (s.log [access]) := rfl

/-- Accesses are added behind the others. -/
def Logs (s s' : LoadState) : Prop := s.accesses <+: s'.accesses

instance : Std.Refl Logs := ⟨fun _ => List.prefix_refl _⟩

instance : IsTrans LoadState Logs := ⟨fun _ _ _ one two => List.IsPrefix.trans one two⟩

/-- In between this was accessed. -/
def Looked (access : Access) (s s' : LoadState) : Prop :=
  ∃ seen, s'.accesses = s.accesses ++ seen ∧ access ∈ seen

theorem Looked.before {access : Access} {s t u : LoadState} (looked : Looked access s t)
    (logs : Logs t u) : Looked access s u := by
  obtain ⟨seen, log, member⟩ := looked
  obtain ⟨more, log'⟩ := logs
  exact ⟨seen ++ more, by rw [← log', log, List.append_assoc], List.mem_append_left more member⟩

theorem Looked.after {access : Access} {s t u : LoadState} (logs : Logs s t)
    (looked : Looked access t u) : Looked access s u := by
  obtain ⟨more, log'⟩ := logs
  obtain ⟨seen, log, member⟩ := looked
  exact ⟨more ++ seen, by rw [log, ← log', List.append_assoc], List.mem_append_right more member⟩

theorem logs_log (s : LoadState) (seen : List Access) : Logs s (s.log seen) :=
  List.prefix_append _ _

section Reads

variable {bits : Nat} (v : View bits) {s : LoadState}

instance (access : Access) : Develops Logs (logAccess access) :=
  ⟨fun s => List.prefix_append s.accesses [access]⟩

/-- What a sequence looked at in its first part. -/
theorem Looked.bind {α β : Type} {m : Loader α} {f : α → Loader β} {access : Access} {s : LoadState}
    [logs : ∀ a, Develops Logs (f a)] (looked : Looked access s (stateAfter m s)) :
    Looked access s (stateAfter (m >>= f) s) := by
  cases ended : m s with
  | ok a t =>
      rw [stateAfter_of_ok ended] at looked
      rw [stateAfter, bind_of_ok ended]
      exact looked.before ((logs a).after t)
  | error why t =>
      rw [stateAfter_of_error ended] at looked
      rwa [stateAfter_of_error (bind_of_error ended)]

/-- Every read is logged before it is made. -/
theorem readBytes_looks (off n : Nat) (s : LoadState) :
    Looked (.memory (v.ptr off) n) s (stateAfter (readBytes v off n) s) := by
  refine ⟨[.memory (v.ptr off) n], ?_, List.mem_singleton_self _⟩
  rw [stateAfter, readBytes, bind_of_ok (logAccess_run _ s)]
  cases v.bytesAt off n <;> rfl

theorem readUint_looks (off n : Nat) (s : LoadState) :
    Looked (.memory (v.ptr off) n) s (stateAfter (readUint v off n) s) :=
  Looked.bind (readBytes_looks v off n s)

theorem readChar_looks (off : Nat) (s : LoadState) :
    Looked (.memory (v.ptr off) 1) s (stateAfter (readChar v off) s) :=
  Looked.bind (readUint_looks v off 1 s)

/-! ### Reads inside the file -/

theorem readBytes_inside {off n : Nat} (inside : off + n ≤ v.size) :
    readBytes v off n s = .ok (v.slice off n) (s.log [.memory (v.ptr off) n]) := by
  rw [readBytes, bind_of_ok (logAccess_run _ s), v.bytesAt_inside inside]
  rfl

theorem readUint_inside {off n : Nat} (inside : off + n ≤ v.size) :
    readUint v off n s = .ok (v.uint off n) (s.log [.memory (v.ptr off) n]) := by
  rw [readUint, bind_of_ok (readBytes_inside v inside)]
  rfl

theorem readChar_inside {off : Nat} (inside : off < v.size) :
    readChar v off s = .ok (v.byte off) (s.log [.memory (v.ptr off) 1]) := by
  have value : UInt8.ofNat (v.uint off 1) = v.byte off := by
    simp [View.uint, View.slice, leNat]
  rw [readChar, bind_of_ok (readUint_inside v inside), value]
  rfl

end Reads

/-! ### Files -/

theorem viewBase_mapped : 0x10000 ≠ 0 := by decide

/-- A 64-bit view at `0x10000` of a file of 4 GiB at most. -/
def fileView (bytes : List UInt8) : View 64 where
  mem := memAt 0x10000 bytes
  base := 0x10000
  size := min bytes.length (2 ^ 32)
  width := wide
  mapped := viewBase_mapped
  placed := memAt_placed bytes

end Backwalk.Windows
