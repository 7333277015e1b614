import Backwalk.Elf.LinkedNames
import Backwalk.Walk.CallStack

/-!
Contract: what `bw_backtrace` reports on Linux, from the stack and the files of the
process.

Owns the symbol sources of `bw_frame_process` on Linux, which are `dladdr1` and
`bw_elf_sname` with its buffer of 256 bytes, and what is known through them about
the address of a call. A backtrace of a program with frame pointers names the
functions of the active calls.

Does not own the dynamic loader. C strings are lists of bytes, and stand for the
`String` of a frame character by character.
-/

namespace Backwalk.Elf

open Backwalk.DwarfLine Backwalk.Support Backwalk.Walk

/-! ### C strings -/

/-- The string of these characters. -/
def ofBytes (bytes : List UInt8) : String :=
  String.ofList (bytes.map fun byte => Char.ofNat byte.toNat)

/-- The characters of a string. -/
def toBytes (text : String) : List UInt8 := text.toList.map fun ch => UInt8.ofNat ch.toNat

theorem toBytes_ofBytes (bytes : List UInt8) : toBytes (ofBytes bytes) = bytes := by
  have same : ∀ byte : UInt8, UInt8.ofNat (Char.ofNat byte.toNat).toNat = byte := by
    intro byte
    have small := byte.toNat_lt
    have valid : byte.toNat.isValidChar := Or.inl (by omega)
    have char : (Char.ofNat byte.toNat).toNat = byte.toNat := by
      rw [Char.ofNat, dif_pos valid]
      rfl
    rw [char]
    exact UInt8.ofNat_toNat
  rw [toBytes, ofBytes, String.toList_ofList, List.map_map]
  conv_rhs => rw [← List.map_id bytes]
  exact List.map_congr_left fun byte _ => same byte

/-! ### Symbol sources -/

/-- `ElfW` of an architecture. -/
def elfClass : Arch → ElfClass
  | .x86_64 => .elf64
  | .aarch64 => .elf64
  | .arm => .elf32

section Linux

variable (arch : Arch)

/-- What a Linux process contributes: what `dladdr1` answers about an address, the
files, and what is in `sname_buf`. -/
structure LinuxProcess where
  dladdr1 : Word arch → Option (DlInfo arch)
  mapFile : List UInt8 → Option (ElfFile (elfClass arch))
  snameBuf : List UInt8
  snameBufSize : snameBuf.length = 256

variable {arch} (process : LinuxProcess arch)

/-- `bw_elf_sname` with `sname_buf`. -/
def LinuxProcess.elfSname (path : Option String) (bias ip : Word arch) : Option String :=
  match bwElfSname process.mapFile (path.map toBytes) bias.toNat ip.toNat process.snameBuf [] with
  | .ok (true, out) _ => some (ofBytes (upToNul out))
  | _ => none

def LinuxProcess.symbols : Symbols arch := ⟨true, process.dladdr1, process.elfSname⟩

/-- The module and the function that an address lies in. -/
structure CallSite (arch : Arch) where
  fbase : Word arch
  fname : String
  sname : String

/-- The frame of a call from there that returns to `ip`. -/
def CallSite.frame (site : CallSite arch) (ip : Word arch) : Frame arch :=
  ⟨ip - site.fbase, site.fname, site.sname, "?", 0⟩

/-- What is known about an address: a symbol of the dynamic loader, or else the one
function of the module's file that covers it, if its symbol tables have one string
table. -/
inductive LinuxProcess.Knows (addr : Word arch) : CallSite arch → Prop where
  | exported {info : DlInfo arch} {fname sname : String} : process.dladdr1 addr = some info →
      info.fname = some fname → info.sname = some sname →
      LinuxProcess.Knows addr ⟨info.fbase, fname, sname⟩
  | inFile {info : DlInfo arch} {path : List UInt8} {f : ElfFile (elfClass arch)}
      {strOff strSize : Nat} {place : Place} : process.dladdr1 addr = some info →
      info.fname = some (ofBytes path) → info.sname = none → path ≠ [] →
      process.mapFile path = some f →
      (∀ tab ∈ f.symTabs, tab.strOff = strOff ∧ tab.strSize = strSize) →
      f.Unwrapped (info.bias.getD info.fbase).toNat →
      f.Candidate (info.bias.getD info.fbase).toNat addr.toNat place →
      (∀ other, f.Candidate (info.bias.getD info.fbase).toNat addr.toNat other → other = place) →
      f.ownName place ≠ [] →
      LinuxProcess.Knows addr ⟨info.fbase, ofBytes path, ofBytes ((f.ownName place).take 255)⟩

variable {process}

/-- The only candidate is selected. -/
theorem selects_of_only {c : ElfClass} {f : ElfFile c} {bias ip : Nat} {place : Place}
    (unwrapped : f.Unwrapped bias) (candidate : f.Candidate bias ip place)
    (only : ∀ other, f.Candidate bias ip other → other = place) : f.Selects bias ip place where
  listed := candidate.listed
  covers := (covers_iff_candidate unwrapped candidate.listed).mpr candidate
  others := fun other listed covers =>
    Or.inl (only other ((covers_iff_candidate unwrapped listed).mp covers))

/-- With one string table, the name that is found is the symbol's own. -/
theorem foundName_of_single {c : ElfClass} {f : ElfFile c} {bias ip strOff strSize : Nat}
    {place : Place} (single : ∀ tab ∈ f.symTabs, tab.strOff = strOff ∧ tab.strSize = strSize)
    (selects : f.Selects bias ip place) : f.foundName bias ip = f.ownName place := by
  obtain ⟨last, isLast, isName⟩ := foundName_of_selects selects
  obtain ⟨off, size⟩ := single place.tab (lists_mem_symTabs selects.listed)
  obtain ⟨lastOff, lastSize⟩ := single last (List.mem_of_getLast? isLast)
  rw [isName, ElfFile.ownName, off, size, lastOff, lastSize]

/-- The name of a function that is found in a file. -/
theorem elfSname_found {path : List UInt8} {f : ElfFile (elfClass arch)} {bias addr : Word arch}
    (hasPath : path ≠ []) (mapped : process.mapFile path = some f)
    (named : f.foundName bias.toNat addr.toNat ≠ []) :
    process.elfSname (some (ofBytes path)) bias addr =
      some (ofBytes ((f.foundName bias.toNat addr.toNat).take 255)) := by
  have size := process.snameBufSize
  have room : 1 ≤ process.snameBuf.length := by omega
  obtain ⟨seen, ran, -⟩ := answers_bwElfMapped (f := f) bias.toNat addr.toNat room []
  have noNul : 0 ∉ (f.foundName bias.toNat addr.toNat).take 255 := fun member =>
    nul_notMem_nameOf (f.found bias.toNat addr.toNat) (List.mem_of_mem_take member)
  rw [LinuxProcess.elfSname, Option.map_some, toBytes_ofBytes,
    bwElfSname_mapped hasPath mapped _ _ room, ran, copied, if_neg named, size]
  dsimp only
  rw [upToNul_append_nul noNul]

/-- The frame of a call whose address is known. -/
theorem bwFrameResolve_known {ip : Word arch} {site : CallSite arch}
    (knows : process.Knows (ip - 1) site) :
    bwFrameResolve process.symbols ip = site.frame ip := by
  cases knows with
  | exported isInfo fname sname =>
      rw [bwFrameResolve, LinuxProcess.symbols]
      simp only [isInfo, fname, sname]
      rfl
  | inFile isInfo fname sname hasPath mapped single unwrapped candidate only named =>
      have selects := selects_of_only unwrapped candidate only
      have name := foundName_of_single single selects
      have found := elfSname_found hasPath mapped (name.symm ▸ named)
      rw [name] at found
      rw [bwFrameResolve, LinuxProcess.symbols]
      simp only [isInfo, fname, sname, if_true, found]
      rfl

/-- A frame of a call that returns to `ip` says what is known about the call. -/
def LinuxProcess.Describes (process : LinuxProcess arch) (ip : Word arch) (frame : Frame arch) :
    Prop :=
  ∀ site, process.Knows (ip - 1) site → frame = site.frame ip

/-- On Linux, `bw_backtrace` makes a frame for each active call but the outermost, up to
the first that the callback refuses. The frame of a call about which the module and the
function are known names these, whatever is known about the others. -/
theorem bwBacktrace_linux {σ : Type} {area : StackArea arch} {stripPac : Word arch → Word arch}
    (process : LinuxProcess arch) (cb : Callback arch σ) (state : σ) (ctx : Context arch)
    {calls : List (Word arch × Word arch)} {p : Walk.Process arch}
    {later : List (Walk.Process arch)} (heads : Heads area stripPac calls (p :: later))
    (inside : calls ≠ []) :
    ∃ frames, List.Forall₂ process.Describes (returnAddresses calls) frames ∧
      let walk := bwBacktraceOver ((p :: later).map fun q => ⟨q.mem, stripPac⟩) process.symbols
        (some cb) ⟨contextInitArch p.fp ctx, ⟨state, []⟩, none⟩
      walk.result = some ((answersOf cb frames state).all id) ∧
        walk.caller.calls = reported cb frames state := by
  obtain ⟨result, caller⟩ := heads.processed process.symbols (some cb) state ctx inside
  rw [processIps_reported] at result caller
  refine ⟨(returnAddresses calls).map (bwFrameResolve process.symbols), ?_, ?_⟩
  · rw [List.forall₂_map_right_iff, List.forall₂_same]
    intro ip _ site knows
    exact bwFrameResolve_known knows
  · dsimp only
    rw [result, caller]
    exact ⟨rfl, List.nil_append _⟩

end Linux

def infoOfA : DlInfo .x86_64 := ⟨0x401ff0, some (ofBytes [0x61]), none, some 0x401ff0⟩

def infoOfB : DlInfo .x86_64 := ⟨0x400000, some "b", some "main", none⟩

/-- Two modules, with nothing known behind them: `a`, which has `f` in its symbol table
at `[0x402ff0, 0x403000)`, and `b`, which exports `main`. -/
def smallProcess : LinuxProcess .x86_64 where
  dladdr1 addr :=
    if addr = 0x402fff then some infoOfA else if addr < 0x402fff then some infoOfB else none
  mapFile _ := some oneFunction
  snameBuf := List.replicate 256 0
  snameBufSize := List.length_replicate

theorem smallProcess_f :
    smallProcess.Knows 0x402fff ⟨0x401ff0, ofBytes [0x61], ofBytes [0x66]⟩ := by
  have listed : (⟨0, ⟨192, 1, 216, 3⟩, 0⟩ : Place) ∈ oneFunction.places := by decide +kernel
  have all : ∀ place ∈ oneFunction.places, place = ⟨0, ⟨192, 1, 216, 3⟩, 0⟩ := by decide +kernel
  have unwrapped : ∀ place ∈ oneFunction.places,
      oneFunction.endOf 0x401ff0 (place.sym .elf64) < 2 ^ ElfClass.elf64.bits := by
    decide +kernel
  have name : (oneFunction.ownName ⟨0, ⟨192, 1, 216, 3⟩, 0⟩).take 255 = [0x66] := by decide +kernel
  rw [← name]
  have mapped : smallProcess.mapFile [0x61] = some oneFunction := rfl
  have isInfo : smallProcess.dladdr1 0x402fff = some infoOfA := rfl
  have candidate : oneFunction.Candidate 0x401ff0 0x402fff ⟨0, ⟨192, 1, 216, 3⟩, 0⟩ := by
    refine ⟨mem_places.mp listed, ?_, ?_, ?_⟩
    all_goals decide +kernel
  refine @LinuxProcess.Knows.inFile .x86_64 smallProcess 0x402fff infoOfA [0x61] oneFunction 216 3
    ⟨0, ⟨192, 1, 216, 3⟩, 0⟩ isInfo rfl rfl (by decide) mapped ?_ ?_ candidate ?_ ?_
  · decide +kernel
  · exact fun place isListed _ => unwrapped place (mem_places.mpr isListed)
  · exact fun other candidate => all other (mem_places.mpr candidate.listed)
  · decide +kernel

theorem smallProcess_main : smallProcess.Knows 0x401fff ⟨0x400000, "b", "main"⟩ := by
  have isInfo : smallProcess.dladdr1 0x401fff = some infoOfB := rfl
  exact .exported isInfo rfl rfl

/-- One more call, from code that no module has. -/
def fourActive : List (Word .x86_64 × Word .x86_64) := (0x1ffb0, 0x404000) :: threeActive

theorem fourCalls_reached : ∃ p, StackReachable smallStack id p ∧ p.active = fourActive :=
  @stackReachable_of_run _ _ _ (threeCalls ++ [.enter 0x404000 0x404000]) _ (by decide +kernel)

/-- `f` was called by `main`, and called something unknown. -/
theorem smallProcess_backtrace : ∃ p : Walk.Process .x86_64, p.active = fourActive ∧
    let walk := bwBacktraceOver ([p, p, p, p].map fun q => ⟨q.mem, id⟩) smallProcess.symbols
      (some fun _ (count : Nat) => (true, count + 1)) ⟨contextInitArch p.fp ⟨0, 0⟩, ⟨0, []⟩, none⟩
    walk.result = some true ∧ ∃ frame, walk.caller.calls =
      [frame, ⟨0x1010, ofBytes [0x61], ofBytes [0x66], "?", 0⟩, ⟨0x2000, "b", "main", "?", 0⟩] := by
  obtain ⟨p, reachable, active⟩ := fourCalls_reached
  have heads : Heads smallStack id fourActive [p, p, p, p] := by
    constructor
    · simp [reachable]
    · simp [active]
    · exact Nat.le_refl 4
  obtain ⟨frames, described, result, calls⟩ := bwBacktrace_linux smallProcess
    (fun _ (count : Nat) => (true, count + 1)) 0 ⟨0, 0⟩ heads (by decide)
  have places : returnAddresses fourActive = [0x404000, 0x403000, 0x402000] := rfl
  rw [places] at described
  cases described with
  | cons unknown described =>
    cases described with
    | cons ofF described =>
      cases described with
      | cons ofMain described =>
        cases described
        rw [ofF _ smallProcess_f, ofMain _ smallProcess_main] at result calls
        exact ⟨p, active, result, _, calls⟩

end Backwalk.Elf
