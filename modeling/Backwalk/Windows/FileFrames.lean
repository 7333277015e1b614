import Backwalk.Windows.Frames
import Backwalk.Windows.LineFile

/-!
Contract: backtraces of a Windows process from the files of its modules.

Owns what the files say where DbgHelp knows nothing: the symbols that a load takes
over, the rows of the line section, and the frames that `bw_backtrace` makes of
both and hands to its callback, in a process that may have asked for anything
before. Modules without a file are walked over.
-/

namespace Backwalk.Windows

open Backwalk.DwarfLine Backwalk.Support Backwalk.Walk

/-! ### Names -/

section Names

variable {g : Globals} {symSort : SymQsort} {pairs : List (Nat × List UInt8)}

/-- A query of a name after a load comes to one of the symbols that were taken
over. -/
theorem Globals.Holds.topmost (holds : g.Holds symSort pairs) (ip : Nat) :
    ∃ symbol, Topmost Prod.fst pairs ip symbol ∧ g.find ip = symbol.map Prod.snd := by
  cases found : g.find ip with
  | some name =>
      obtain ⟨pair, top, rfl⟩ := holds.found found
      exact ⟨some pair, top, rfl⟩
  | none =>
      refine ⟨none, ?_, rfl⟩
      intro pair member
      have loaded : g.state = .loaded := holds.state.mpr (List.ne_nil_of_mem member)
      rcases find_sorted holds.sorted loaded ip with ⟨-, above⟩ | ⟨sym, -, answer⟩
      · have address : pair.1 ∈ (placedAt 0 pairs).map Sym.addr := by
          rw [addr_placedAt]
          exact List.mem_map_of_mem member
        obtain ⟨sym, placed, same⟩ := List.mem_map.mp address
        rw [← same]
        apply above
        rw [holds.symbols]
        exact (symSort.perm _).mem_iff.mpr placed
      · rw [found] at answer
        cases answer

end Names

/-! ### Queries after a load -/

section Queries

variable {bits : Nat} {env : Env bits} {module : Nat} {s t : LoadState}

theorem bwPeFind_of_ensure (isModule : module ≠ 0) (ensured : bwPeEnsure env module s = .ok () t)
    (ip : Nat) : bwPeFind env module ip s = .ok (t.globals.find ip) t := by
  rw [bwPeFind, if_neg isModule, bind_of_ok ensured,
    bind_of_ok (show getGlobals t = .ok t.globals t from rfl), Globals.find]
  split_ifs <;> rfl

theorem bwPeLine_of_ensure (isModule : module ≠ 0) (ensured : bwPeEnsure env module s = .ok () t)
    (probe srcLen : Nat) :
    bwPeLine env module probe srcLen s = .ok (t.globals.line bits module probe srcLen) t := by
  rw [bwPeLine, if_neg isModule, bind_of_ok ensured,
    bind_of_ok (show getGlobals t = .ok t.globals t from rfl), Globals.line]
  cases t.globals.dwarfReady <;> rfl

end Queries

/-! ### Frames -/

section Frames

variable {p : Process 64} {v : View 64} {h : PeHeaders} {units : List (SectionUnit (v.lineImage h))}
  {ip module : Nat} {s t : LoadState}

/-- The symbols that a load of the file takes over. -/
def View.takenSymbols (v : View 64) (h : PeHeaders) (module : Nat) : List (Nat × List UInt8) :=
  taken 0 0 (v.functionSymbols h module)

theorem bwPeLoad_file {env : Env 64} (file : Described env module v h units) (s : LoadState) :
    ∃ t, bwPeLoad env module s = .ok () t ∧
      t.globals.Holds env.symSort (v.takenSymbols h module) ∧
        Lines env.qsort (v.imageBase h) (firstRows units) t.globals := by
  obtain ⟨t, ran, lines⟩ := bwPeLoad_lines file s
  have holds := bwPeLoad_tables file.isModule file.hasPath file.mapped file.headers ran
  rw [met_small file.small (headers_accepted v ((hasHeaders_iff v).mp file.headers))] at holds
  exact ⟨t, ran, holds, lines⟩

/-- The name that DbgHelp has for the return address or for the call. -/
def Process.nameAt (p : Process 64) (ip : Nat) : Option (List UInt8) :=
  (p.known ip).or (p.known (ip - 1))

/-- The file and line that DbgHelp has for the call or for the return address. -/
def Process.sourceAt (p : Process 64) (ip : Nat) : Option (List UInt8 × Nat) :=
  let found := if p.symOk then
      (p.symGetLineFromAddr64 (ip - 1)).or (p.symGetLineFromAddr64 ip) else none
  (found.filter fun line => line.fileName ≠ none ∧ line.fileName ≠ some []).map fun line =>
    (line.fileName.getD [], line.lineNumber)

/-- A frame is what DbgHelp says of its instruction pointer and, failing that, the
file of its module: the name of a symbol at the greatest address not above the
call, and the file and line of such a row of the line section. -/
structure FileFrame (p : Process 64) (v : View 64) (h : PeHeaders)
    (units : List (SectionUnit (v.lineImage h))) (ip : Nat) (frame : Resolved) : Prop where
  modAddr : frame.modAddr = sizeT 64 (ip + 2 ^ 64 - p.moduleAt ip)
  fname : ∃ path, p.env.path (p.moduleAt ip) = some path ∧
    frame.fname = bwCopyCstr bwWinFnameMax path
  sname : ∃ symbol, Topmost Prod.fst (v.takenSymbols h (p.moduleAt ip)) (ip - 1) symbol ∧
    frame.sname = bwCopyCstr bwWinSnameMax
      ((p.nameAt ip).getD ((symbol.map fun symbol => p.coffName symbol.2).getD unknownName))
  source : ∃ row, Topmost TextRow.addr (firstRows units)
    (v.linkedAddr h (p.moduleAt ip) (ip - 1)) row ∧
    (frame.src, frame.line) = Prod.map (bwCopyCstr bwWinSrcMax) id
      ((p.sourceAt ip).getD ((row.map fun row => (row.file, row.line)).getD (unknownName, 0)))

theorem bwWinName_of_find {coff : Option (List UInt8)}
    (found : bwPeFind p.env module (ip - 1) s = .ok coff t) (snameLen : Nat) :
    ∃ u, bwWinName p module ip (ip - 1) snameLen s = .ok (bwCopyCstr snameLen
        ((p.nameAt ip).getD ((coff.map p.coffName).getD unknownName))) u ∧ (u = s ∨ u = t) := by
  cases isKnown : p.nameAt ip with
  | some name =>
      rw [bwWinName_known isKnown]
      exact ⟨s, rfl, Or.inl rfl⟩
  | none => exact ⟨t, bwWinName_unknown isKnown found, Or.inr rfl⟩

theorem bwWinLine_of_line {srcLen : Nat} {line : Option (List UInt8 × Nat)}
    (answered : bwPeLine p.env module (ip - 1) srcLen s =
      .ok (line.map (Prod.map (bwCopyCstr srcLen) id)) t) :
    ∃ u, bwWinLine p module ip (ip - 1) srcLen s = .ok (Prod.map (bwCopyCstr srcLen) id
        ((p.sourceAt ip).getD (line.getD (unknownName, 0)))) u := by
  rw [bwWinLine, Process.sourceAt]
  cases (if p.symOk then
      (p.symGetLineFromAddr64 (ip - 1)).or (p.symGetLineFromAddr64 ip) else none).filter fun line =>
        line.fileName ≠ none ∧ line.fileName ≠ some [] with
  | some found => exact ⟨s, rfl⟩
  | none =>
      refine ⟨t, (bind_of_ok answered).trans ?_⟩
      cases line <;> rfl

/-- The first call of a process makes such a frame of an instruction pointer in the
module. -/
theorem bwWinResolve_file (file : Described p.env (p.moduleAt ip) v h units) (isFrame : ip ≠ 0) :
    ∃ frame t, bwWinResolve p ip bwWinFnameMax bwWinSnameMax bwWinSrcMax freshProcess =
      .ok frame t ∧ FileFrame p v h units ip frame := by
  obtain ⟨loaded, ran, holds, lines⟩ := bwPeLoad_file file freshProcess
  have isModule := file.isModule
  have ensured : bwPeEnsure p.env (p.moduleAt ip) freshProcess = .ok () loaded :=
    (bwPeEnsure_fresh p.env isModule).trans ran
  have again : bwPeEnsure p.env (p.moduleAt ip) loaded = .ok () loaded :=
    bwPeEnsure_same (bwPeEnsure_mod ensured)
  obtain ⟨symbol, symbolTop, found⟩ := holds.topmost (ip - 1)
  obtain ⟨row, rowTop, line⟩ := lines.topmost (p.moduleAt ip) (ip - 1) bwWinSrcMax
  have linked : loaded.globals.linked 64 (p.moduleAt ip) (ip - 1) =
      v.linkedAddr h (p.moduleAt ip) (ip - 1) := by
    rw [Globals.linked, View.linkedAddr, lines.base]
  rw [linked] at rowTop
  obtain ⟨u, named, isState⟩ := bwWinName_of_find (p := p)
    (bwPeFind_of_ensure isModule ensured (ip - 1)) bwWinSnameMax
  -- The line is asked for before or after the load.
  have answered : bwPeLine p.env (p.moduleAt ip) (ip - 1) bwWinSrcMax u =
      .ok ((row.map fun row => (row.file, row.line)).map (Prod.map (bwCopyCstr bwWinSrcMax) id))
        loaded := by
    rw [Option.map_map]
    rcases isState with rfl | rfl
    · rw [bwPeLine_of_ensure isModule ensured, line]
      rfl
    · rw [bwPeLine_of_ensure isModule again, line]
      rfl
  obtain ⟨last, sourced⟩ := bwWinLine_of_line answered
  have path : ∃ c path, p.env.path (p.moduleAt ip) = some (c :: path) := by
    have hasPath := file.hasPath
    cases isPath : p.env.path (p.moduleAt ip) with
    | none => rw [isPath] at hasPath; cases hasPath
    | some path =>
        cases path with
        | nil => rw [isPath] at hasPath; cases hasPath
        | cons c path => exact ⟨c, path, rfl⟩
  obtain ⟨c, path, isPath⟩ := path
  rw [bwWinResolve, if_neg isFrame]
  refine ⟨_, last, (bind_of_ok named).trans ((bind_of_ok sourced).trans rfl), ?_⟩
  constructor
  · exact if_neg isModule
  · refine ⟨c :: path, isPath, ?_⟩
    dsimp only
    rw [if_neg isModule, isPath]
  · refine ⟨symbol, symbolTop, ?_⟩
    dsimp only
    rw [found, Option.map_map]
    rfl
  · exact ⟨row, rowTop, rfl⟩

/-- There is no module or no file to read, or the file is as described. -/
inductive Readable (env : Env 64) (module : Nat) : Prop where
  | absent (missing : module = 0 ∨ noPath (env.path module) = true ∨ env.mapFile module = none)
  | described {v : View 64} {h : PeHeaders} {units : List (SectionUnit (v.lineImage h))}
      (file : Described env module v h units)

/-- A load of the module, as the first of its process, returns. -/
def Loads (env : Env 64) (module : Nat) : Prop :=
  module ≠ 0 → ∃ t, bwPeLoad env module freshProcess = .ok () t

/-- No file is mapped for the module. -/
theorem loads_of_absent {env : Env 64}
    (missing : noPath (env.path module) = true ∨ env.mapFile module = none) : Loads env module := by
  intro isModule
  rw [bwPeLoad, bind_of_ok (show bwPeReset module freshProcess = .ok () _ from rfl)]
  by_cases unnamed : module = 0 ∨ noPath (env.path module) = true
  · rw [if_pos unnamed]
    exact ⟨_, rfl⟩
  · have noFile : env.mapFile module = none := missing.resolve_left fun noName =>
      unnamed (Or.inr noName)
    rw [if_neg unnamed, noFile]
    exact ⟨_, rfl⟩

theorem Readable.loads {env : Env 64} (readable : Readable env module) : Loads env module := by
  cases readable with
  | described file =>
      intro _
      obtain ⟨t, ran, -⟩ := bwPeLoad_lines file freshProcess
      exact ⟨t, ran⟩
  | absent missing =>
      intro isModule
      exact loads_of_absent (missing.resolve_left isModule) isModule

/-- A frame in any such module is made. -/
theorem Loads.resolves (loads : Loads p.env (p.moduleAt ip)) (fnameLen snameLen srcLen : Nat) :
    ∃ frame t, bwWinResolve p ip fnameLen snameLen srcLen freshProcess = .ok frame t := by
  by_cases isFrame : ip = 0
  · rw [bwWinResolve, if_pos isFrame]
    exact ⟨_, _, rfl⟩
  · obtain ⟨coff, t, found⟩ : ∃ coff t, bwPeFind p.env (p.moduleAt ip) (ip - 1) freshProcess =
        .ok coff t := by
      by_cases isNull : p.moduleAt ip = 0
      · rw [bwPeFind, if_pos isNull]
        exact ⟨_, _, rfl⟩
      · obtain ⟨t, ran⟩ := loads isNull
        have ensured := (bwPeEnsure_fresh p.env isNull).trans ran
        exact ⟨_, t, bwPeFind_of_ensure isNull ensured (ip - 1)⟩
    obtain ⟨u, named, isState⟩ := bwWinName_of_find found snameLen
    obtain ⟨answers, sameAfter⟩ := bwPeLine_of_find found srcLen
    have asked : ∃ line w, bwPeLine p.env (p.moduleAt ip) (ip - 1) srcLen u = .ok line w := by
      rcases isState with rfl | rfl
      · exact answers
      · rw [sameAfter]
        exact answers
    obtain ⟨source, last, sourced⟩ := bwWinLine_returns asked
    rw [bwWinResolve, if_neg isFrame]
    exact ⟨_, last, (bind_of_ok named).trans ((bind_of_ok sourced).trans rfl)⟩

/-- Whatever file the module has that is as described, the frame is of it. -/
def FrameOf (p : Process 64) (ip : Nat) (frame : Resolved) : Prop :=
  ip ≠ 0 → ∀ (v : View 64) (h : PeHeaders) (units : List (SectionUnit (v.lineImage h))),
    Described p.env (p.moduleAt ip) v h units → FileFrame p v h units ip frame

theorem bwWinResolve_frameOf (readable : Readable p.env (p.moduleAt ip)) :
    ∃ frame t, bwWinResolve p ip bwWinFnameMax bwWinSnameMax bwWinSrcMax freshProcess =
      .ok frame t ∧ FrameOf p ip frame := by
  obtain ⟨frame, t, ran⟩ := readable.loads.resolves bwWinFnameMax bwWinSnameMax bwWinSrcMax
  refine ⟨frame, t, ran, ?_⟩
  intro isFrame v h units file
  obtain ⟨other, u, ran', isOf⟩ := bwWinResolve_file file isFrame
  rw [ran] at ran'
  cases ran'
  exact isOf

end Frames

/-! ### Walks -/

section Walks

variable {σ : Type} {p : Process (Arch.bits .x86_64)} {s : LoadState} (call : WinCallback σ)

/-- Frames that the callback is handed one after the other until it answers `false`. -/
def handOver : List Resolved → WinCaller σ → Bool × WinCaller σ
  | [], caller => (true, caller)
  | frame :: rest, caller =>
      let answer := call frame caller.state
      let caller := ⟨answer.2, caller.calls ++ [frame]⟩
      if answer.1 then handOver rest caller else (false, caller)

theorem reportFrames_handOver {ips : List (Word .x86_64)} {frames : List Resolved}
    (fresh : List.Forall₂ (fun ip frame => freshFrame p ip = .ok frame) ips frames)
    (caller : WinCaller σ) :
    reportFrames p (some call) ips caller = .ok (handOver call frames caller) := by
  induction fresh generalizing caller with
  | nil => rfl
  | @cons ip frame ips frames first _ inductionHypothesis =>
      have goes : reportFrames p (some call) (ip :: ips) caller =
          if (call frame caller.state).1 then
            reportFrames p (some call) ips ⟨(call frame caller.state).2, caller.calls ++ [frame]⟩
          else pure (false, ⟨(call frame caller.state).2, caller.calls ++ [frame]⟩) := by
        rw [reportFrames, first]
        rfl
      rw [goes, handOver]
      split_ifs
      · exact inductionHypothesis _
      · rfl

/-- Each instruction pointer has its frame. -/
theorem exists_frames {ips : List (Word .x86_64)}
    (readable : ∀ ip ∈ ips, Readable p.env (p.moduleAt ip.toNat)) :
    ∃ frames, List.Forall₂ (fun ip frame => freshFrame p ip = .ok frame) ips frames ∧
      List.Forall₂ (fun ip frame => FrameOf p (BitVec.toNat ip) frame) ips frames := by
  induction ips with
  | nil => exact ⟨[], .nil, .nil⟩
  | cons ip rest inductionHypothesis =>
      obtain ⟨frame, t, ran, isOf⟩ := bwWinResolve_frameOf (readable ip List.mem_cons_self)
      obtain ⟨frames, fresh, each⟩ := inductionHypothesis fun other member =>
        readable other (List.mem_cons_of_mem _ member)
      have first : freshFrame p ip = .ok frame := congrArg verdict ran
      exact ⟨frame :: frames, .cons first fresh, .cons isOf each⟩

/-- After any calls of a process a walk returns, if the files of the modules on the
stack can be read. The callback is handed the first 64 frames of the stack unless
it stops, and a frame in a module with a file is what DbgHelp or else the file
says. -/
theorem bwBacktraceWin_files {captureStackBackTrace : StackCapture .x86_64}
    {stack : List (Word .x86_64)} (captures : Captures captureStackBackTrace stack)
    (readable : ∀ ip ∈ stack.take 64, Readable p.env (p.moduleAt ip.toNat))
    {earlier : List (WinCall .x86_64 σ)} {answers : List (Bool × WinCaller σ)}
    (before : winCalls p earlier freshProcess = .ok answers s) (ips : Nat → Word .x86_64)
    (state : σ) :
    ∃ frames, List.Forall₂ (fun ip frame => FrameOf p (BitVec.toNat ip) frame)
        (stack.take 64) frames ∧
      verdict (bwBacktraceWin p (some call) captureStackBackTrace ips state s) =
        .ok (handOver call frames ⟨state, []⟩) := by
  obtain ⟨frames, fresh, each⟩ := exists_frames readable
  have direct : verdict (bwBacktraceWin p (some call) captureStackBackTrace ips state s) =
      reportFrames p (some call) (stack.take 64) ⟨state, []⟩ :=
    (verdict_winCall (winCalls_warm before) (.backtrace captureStackBackTrace ips (some call)
      state)).trans (report_backtrace captures ips state)
  exact ⟨frames, each, direct.trans (reportFrames_handOver call fresh _)⟩

end Walks

/-! ### A process of one module -/

/-- The module is that of `lineFile`, and what DbgHelp knows lies outside. -/
def lineProcess : Process 64 := { twoFunctions with
  env := lineEnv
  moduleAt := fun ip => if 0x7ff600000000 ≤ ip ∧ ip < 0x7ff600010000 then 0x7ff600000000 else 0 }

/-- `f` was called from outside. -/
def callsInModule : StackCapture .x86_64 := fun _ n => [0x7ff600001005, 0x1018].take n

theorem lineProcess_readable (ip : Nat) : Readable lineProcess.env (lineProcess.moduleAt ip) := by
  by_cases inside : 0x7ff600000000 ≤ ip ∧ ip < 0x7ff600010000
  · have isModule : lineProcess.moduleAt ip = 0x7ff600000000 := if_pos inside
    rw [isModule]
    exact .described lineFile_described
  · exact .absent (Or.inl (if_neg inside))

theorem lineFile_symbols :
    (fileView lineFile).takenSymbols lineHeaders 0x7ff600000000 = [(0x7ff600001000, [0x66])] := by
  decide +kernel

theorem lineProcess_frame {frame : Resolved} (isOf : FrameOf lineProcess 0x7ff600001005 frame) :
    frame = ⟨0x1005, [0x61], [0x66], [0x61], 1⟩ := by
  obtain ⟨modAddr, ⟨path, isPath, fname⟩, ⟨symbol, symbolTop, sname⟩, ⟨row, rowTop, source⟩⟩ :=
    isOf (by decide) _ _ _ lineFile_described
  have isRow : row = some ⟨0x401000, [0x61], 1⟩ := lineFile_topmost rowTop
  have isSymbol : symbol = some (0x7ff600001000, [0x66]) := by
    have inModule : lineProcess.moduleAt 0x7ff600001005 = 0x7ff600000000 := by decide
    rw [inModule, lineFile_symbols] at symbolTop
    cases symbol with
    | none => exact absurd (symbolTop _ (List.mem_singleton_self _)) (by decide)
    | some symbol => rw [List.mem_singleton.mp symbolTop.mem]
  have named : path = [0x61] := (Option.some_inj.mp isPath).symm
  subst isRow isSymbol named
  cases frame
  have pair := Prod.mk.inj source
  rw [Resolved.mk.injEq]
  exact ⟨modAddr, fname, sname, pair.1, pair.2⟩

/-- Name and line of the call come from the file. -/
theorem lineProcess_backtrace : ∃ outside,
    verdict (@bwBacktraceWin .x86_64 Nat lineProcess counting callsInModule (fun _ => 0) 0
      freshProcess) =
        .ok (true, ⟨2, [⟨0x1005, [0x61], [0x66], [0x61], 1⟩, outside]⟩) := by
  obtain ⟨frames, each, ran⟩ := @bwBacktraceWin_files Nat lineProcess freshProcess
    (fun _ count => (true, count + 1)) callsInModule [0x7ff600001005, 0x1018] (fun _ => rfl)
    (fun ip _ => lineProcess_readable ip.toNat) [] [] rfl (fun _ => 0) 0
  cases each with
  | @cons _ first _ _ isOf rest =>
      cases rest with
      | @cons _ outside _ _ _ none =>
          cases none
          rw [lineProcess_frame isOf] at ran
          exact ⟨outside, ran⟩

end Backwalk.Windows
