import Backwalk.Windows.LoadAddress

/-!
Contract: `bw_win_resolve`, the frame of a backtrace on Windows.

What lies outside the source is a parameter: which module an address belongs to,
and what DbgHelp knows, which is a list of functions and one of source lines with
disjoint ranges of addresses. An instruction pointer is a return address, so the
call is at the address before it. The name is asked for at the return address
itself first, and a line is, too, where DbgHelp knows none at the call.
-/

namespace Backwalk.Windows

open Backwalk.DwarfLine Backwalk.Support

/-! ### DbgHelp -/

/-- Addresses `[first, past)`, and what is known of them. -/
structure Span (α : Type) where
  first : Nat
  past : Nat
  known : α

namespace Span

variable {α : Type}

/-- The address is one of the span. -/
def Has (span : Span α) (addr : Nat) : Prop := span.first ≤ addr ∧ addr < span.past

instance (span : Span α) (addr : Nat) : Decidable (span.Has addr) :=
  inferInstanceAs (Decidable (_ ∧ _))

/-- No address is one of both. -/
def Apart (one two : Span α) : Prop := ∀ addr, one.Has addr → ¬ two.Has addr

end Span

/-- Spans that do not overlap. -/
structure SpanMap (α : Type) where
  spans : List (Span α)
  apart : spans.Pairwise Span.Apart

namespace SpanMap

variable {α : Type}

/-- What is known of an address. -/
def at? (map : SpanMap α) (addr : Nat) : Option α :=
  (map.spans.find? fun span => span.Has addr).map Span.known

theorem find?_of_mem {spans : List (Span α)} (apart : spans.Pairwise Span.Apart) {span : Span α}
    {addr : Nat} (member : span ∈ spans) (has : span.Has addr) :
    spans.find? (fun span => span.Has addr) = some span := by
  induction apart with
  | nil => cases member
  | @cons first rest others _ inductionHypothesis =>
      rcases List.mem_cons.mp member with rfl | later
      · exact List.find?_cons_of_pos (by simpa using has)
      · have before : ¬ first.Has addr := fun isFirst => others span later addr isFirst has
        rw [List.find?_cons_of_neg (by simpa using before)]
        exact inductionHypothesis later

/-- An address is known exactly if it lies in one of the spans, and then by that
span. -/
theorem at?_eq_some {map : SpanMap α} {addr : Nat} {known : α} :
    map.at? addr = some known ↔ ∃ span ∈ map.spans, span.Has addr ∧ span.known = known := by
  rw [at?, Option.map_eq_some_iff]
  constructor
  · rintro ⟨span, found, same⟩
    exact ⟨span, List.mem_of_find?_eq_some found, by simpa using List.find?_some found, same⟩
  · rintro ⟨span, member, has, same⟩
    exact ⟨span, find?_of_mem map.apart member has, same⟩

end SpanMap

/-- A source line, as `IMAGEHLP_LINE64` has it: the file may be missing. -/
structure SourceLine where
  fileName : Option (List UInt8)
  lineNumber : Nat
deriving DecidableEq, Repr

/-- What Windows says in a process: the module of an address, `0` for none, and,
if `SymInitialize` succeeded, the functions and lines that DbgHelp knows. On x86
names of C functions begin with an underscore. -/
structure Process (bits : Nat) where
  env : Env bits
  moduleAt : Nat → Nat
  symOk : Bool
  functions : SpanMap (List UInt8)
  named : ∀ span ∈ functions.spans, span.known ≠ []
  lines : SpanMap SourceLine
  x86 : Bool

/-- What the callback is given of a frame. -/
structure Resolved where
  modAddr : Nat
  fname : List UInt8
  sname : List UInt8
  src : List UInt8
  line : Nat
deriving DecidableEq, Repr

/-- `"?"`. -/
def unknownName : List UInt8 := [0x3f]

section Resolve

variable {bits : Nat} (p : Process bits)

/-- `SymFromAddr`. -/
def Process.symFromAddr (addr : Nat) : Option (List UInt8) := p.functions.at? addr

/-- `SymGetLineFromAddr64`. -/
def Process.symGetLineFromAddr64 (addr : Nat) : Option SourceLine := p.lines.at? addr

/-- The name of a COFF symbol without the underscore of x86. -/
def Process.coffName (name : List UInt8) : List UInt8 :=
  if p.x86 = true ∧ name.head? = some 0x5f then name.tail else name

/-- `sname`: from DbgHelp, which is asked for `ip` and then for `probe`, or from
the COFF symbols. -/
def bwWinName (module ip probe snameLen : Nat) : Loader (List UInt8) :=
  let found := if p.symOk then (p.symFromAddr ip).or (p.symFromAddr probe) else none
  match found.filter (· ≠ []) with
  | some name => pure (bwCopyCstr snameLen name)
  | none => do
      let peName ← bwPeFind p.env module probe
      match peName with
      | some name => pure (bwCopyCstr snameLen (p.coffName name))
      | none => pure (bwCopyCstr snameLen unknownName)

/-- `src` and `line`: from DbgHelp, which is asked for `probe` and then for `ip`,
or from the line table. -/
def bwWinLine (module ip probe srcLen : Nat) : Loader (List UInt8 × Nat) :=
  let found := if p.symOk then
      (p.symGetLineFromAddr64 probe).or (p.symGetLineFromAddr64 ip) else none
  match found.filter fun line => line.fileName ≠ none ∧ line.fileName ≠ some [] with
  | some line => pure (bwCopyCstr srcLen (line.fileName.getD []), line.lineNumber)
  | none => do
      let found ← bwPeLine p.env module probe srcLen
      pure (found.getD (bwCopyCstr srcLen unknownName, 0))

/-- `bw_win_resolve`. -/
def bwWinResolve (ip fnameLen snameLen srcLen : Nat) : Loader Resolved :=
  if ip = 0 then
    pure ⟨0, bwCopyCstr fnameLen unknownName, bwCopyCstr snameLen unknownName,
      bwCopyCstr srcLen unknownName, 0⟩
  else do
    let module := p.moduleAt ip
    let modAddr := if module = 0 then 0 else sizeT bits (ip + 2 ^ bits - module)
    let fname := match if module = 0 then none else p.env.path module with
      | some (c :: path) => bwCopyCstr fnameLen (c :: path)
      | _ => bwCopyCstr fnameLen unknownName
    let sname ← bwWinName p module ip (ip - 1) snameLen
    let found ← bwWinLine p module ip (ip - 1) srcLen
    pure ⟨modAddr, fname, sname, found.1, found.2⟩

/-! ### The call site -/

/-- The name of the function that DbgHelp knows at an address. -/
def Process.known (addr : Nat) : Option (List UInt8) := if p.symOk then p.symFromAddr addr else none

/-- The name of the call site of `ip`, cut to the buffer: from DbgHelp or, failing
that, what the COFF symbols gave for it. -/
def Process.callSiteName (snameLen ip : Nat) (coff : Option (List UInt8)) : List UInt8 :=
  match p.known (ip - 1) with
  | some name => bwCopyCstr snameLen name
  | none => bwCopyCstr snameLen ((coff.map p.coffName).getD unknownName)

/-- The source line that DbgHelp knows at an address. -/
def Process.knownLine (addr : Nat) : Option SourceLine :=
  if p.symOk then p.symGetLineFromAddr64 addr else none

/-- File and line of the call site of `ip`: from DbgHelp or, failing that, what the
line table gave for it. -/
def Process.callSiteLine (srcLen ip : Nat) (table : Option (List UInt8 × Nat)) :
    List UInt8 × Nat :=
  match (p.knownLine (ip - 1)).filter fun line =>
      line.fileName ≠ none ∧ line.fileName ≠ some [] with
  | some line => (bwCopyCstr srcLen (line.fileName.getD []), line.lineNumber)
  | none => table.getD (bwCopyCstr srcLen unknownName, 0)

/-- A function that DbgHelp knows at the return address bears the name of the call
site. -/
def Process.NameAgrees (snameLen ip : Nat) (coff : Option (List UInt8)) : Prop :=
  ∀ name, p.known ip = some name → bwCopyCstr snameLen name = p.callSiteName snameLen ip coff

/-- Where DbgHelp knows no line at the call site, one that it knows at the return
address, with a file, is that of the call site. -/
def Process.LineAgrees (srcLen ip : Nat) (table : Option (List UInt8 × Nat)) : Prop :=
  p.knownLine (ip - 1) = none →
    ∀ line file, p.knownLine ip = some line → line.fileName = some file → file ≠ [] →
      (bwCopyCstr srcLen file, line.lineNumber) = p.callSiteLine srcLen ip table

variable {p} {s t : LoadState} {module : Nat}

theorem known_nonempty {addr : Nat} {name : List UInt8} (isKnown : p.known addr = some name) :
    name ≠ [] := by
  unfold Process.known at isKnown
  split_ifs at isKnown
  obtain ⟨span, member, -, rfl⟩ := SpanMap.at?_eq_some.mp isKnown
  exact p.named span member

/-- What DbgHelp answers: for the return address or, failing that, for the call
site. -/
theorem found_eq (ip : Nat) :
    (if p.symOk then (p.symFromAddr ip).or (p.symFromAddr (ip - 1)) else none).filter (· ≠ []) =
      (p.known ip).or (p.known (ip - 1)) := by
  have found : (if p.symOk then (p.symFromAddr ip).or (p.symFromAddr (ip - 1)) else none) =
      (p.known ip).or (p.known (ip - 1)) := by
    unfold Process.known
    cases p.symOk <;> rfl
  rw [found]
  cases isKnown : (p.known ip).or (p.known (ip - 1)) with
  | none => rfl
  | some name =>
      have nonempty : name ≠ [] := by
        rcases Option.or_eq_some_iff.mp isKnown with here | ⟨-, before⟩
        · exact known_nonempty here
        · exact known_nonempty before
      simp [nonempty]

theorem bwWinName_known {ip snameLen : Nat} {name : List UInt8}
    (isKnown : (p.known ip).or (p.known (ip - 1)) = some name) :
    bwWinName p module ip (ip - 1) snameLen = pure (bwCopyCstr snameLen name) := by
  rw [bwWinName, found_eq, isKnown]

theorem bwWinName_unknown {ip snameLen : Nat}
    (unknown : (p.known ip).or (p.known (ip - 1)) = none) {coff : Option (List UInt8)}
    (fallback : bwPeFind p.env module (ip - 1) s = .ok coff t) :
    bwWinName p module ip (ip - 1) snameLen s =
      .ok (bwCopyCstr snameLen ((coff.map p.coffName).getD unknownName)) t := by
  rw [bwWinName, found_eq, unknown]
  refine (bind_of_ok fallback).trans ?_
  cases coff <;> rfl

/-! ### Queries of the loaded module -/

theorem bwPeEnsure_mod {env : Env bits} (ended : bwPeEnsure env module s = .ok () t) :
    t.globals.mod = module := by
  by_cases there : s.globals.mod = module
  · rw [bwPeEnsure_same there] at ended
    cases ended
    exact there
  · rw [bwPeEnsure_other there] at ended
    obtain ⟨u, -, related⟩ := (bwPeLoad_agree (suits_stay env module) s s).ok ended
    exact related.modOne

/-- What a query of the loaded module leaves is what the next one looks at: the
module can be asked for a line, and answers what it would have answered before. -/
theorem bwPeLine_of_find {env : Env bits} {probe : Nat} {coff : Option (List UInt8)}
    (found : bwPeFind env module probe s = .ok coff t) (srcLen : Nat) :
    (∃ line u, bwPeLine env module probe srcLen s = .ok line u) ∧
      bwPeLine env module probe srcLen t = bwPeLine env module probe srcLen s := by
  by_cases isNull : module = 0
  · rw [bwPeFind, if_pos isNull] at found
    cases found
    rw [bwPeLine, if_pos isNull]
    exact ⟨⟨none, s, rfl⟩, rfl⟩
  · rw [bwPeFind, if_neg isNull] at found
    obtain ⟨_, s₁, loaded, ended⟩ := bind_eq_ok.mp found
    have same : s₁ = t := by
      rw [bind_of_ok (show getGlobals s₁ = .ok s₁.globals s₁ from rfl)] at ended
      split_ifs at ended <;> cases ended <;> rfl
    subst same
    have again : bwPeEnsure env module s₁ = .ok () s₁ := bwPeEnsure_same (bwPeEnsure_mod loaded)
    rw [bwPeLine, if_neg isNull, bind_of_ok loaded, bind_of_ok again]
    refine ⟨?_, rfl⟩
    rw [bind_of_ok (show getGlobals s₁ = .ok s₁.globals s₁ from rfl)]
    split_ifs <;> exact ⟨_, _, rfl⟩

/-! ### Lines of frames -/

/-- What DbgHelp answers: for the call site or, failing that, for the return
address. -/
theorem foundLine_eq (ip : Nat) :
    (if p.symOk then
        (p.symGetLineFromAddr64 (ip - 1)).or (p.symGetLineFromAddr64 ip) else none) =
      (p.knownLine (ip - 1)).or (p.knownLine ip) := by
  unfold Process.knownLine
  cases p.symOk <;> rfl

theorem bwWinLine_known {ip srcLen : Nat} {line : SourceLine} {file : List UInt8}
    (isLine : (p.knownLine (ip - 1)).or (p.knownLine ip) = some line)
    (inFile : line.fileName = some file) (nonempty : file ≠ []) :
    bwWinLine p module ip (ip - 1) srcLen = pure (bwCopyCstr srcLen file, line.lineNumber) := by
  have kept : (some line).filter (fun line => line.fileName ≠ none ∧ line.fileName ≠ some []) =
      some line := by
    simp [inFile, nonempty]
  rw [bwWinLine, foundLine_eq, isLine, kept]
  dsimp only
  rw [inFile]
  rfl

theorem bwWinLine_unknown {ip srcLen : Nat} {table : Option (List UInt8 × Nat)}
    (unknown : ((p.knownLine (ip - 1)).or (p.knownLine ip)).filter
      (fun line => line.fileName ≠ none ∧ line.fileName ≠ some []) = none)
    (fallback : bwPeLine p.env module (ip - 1) srcLen s = .ok table t) :
    bwWinLine p module ip (ip - 1) srcLen s =
      .ok (table.getD (bwCopyCstr srcLen unknownName, 0)) t := by
  rw [bwWinLine, foundLine_eq, unknown]
  exact bind_of_ok fallback

theorem bwWinLine_returns {ip srcLen : Nat}
    (returns : ∃ line u, bwPeLine p.env module (ip - 1) srcLen s = .ok line u) :
    ∃ found u, bwWinLine p module ip (ip - 1) srcLen s = .ok found u := by
  obtain ⟨line, u, ran⟩ := returns
  rw [bwWinLine, foundLine_eq]
  cases ((p.knownLine (ip - 1)).or (p.knownLine ip)).filter fun line =>
      line.fileName ≠ none ∧ line.fileName ≠ some [] with
  | some line => exact ⟨_, _, rfl⟩
  | none => exact ⟨_, _, bind_of_ok ran⟩

/-- The line is that of the call site, if DbgHelp knows one there. -/
theorem bwWinLine_callSite {ip srcLen : Nat} {line : SourceLine}
    {table : Option (List UInt8 × Nat)} (isLine : p.knownLine (ip - 1) = some line)
    (fallback : bwPeLine p.env module (ip - 1) srcLen s = .ok table t) :
    ∃ u, bwWinLine p module ip (ip - 1) srcLen s = .ok (p.callSiteLine srcLen ip table) u := by
  rw [bwWinLine, foundLine_eq, Process.callSiteLine, isLine, Option.some_or]
  cases (some line).filter fun line => line.fileName ≠ none ∧ line.fileName ≠ some [] with
  | some line => exact ⟨s, rfl⟩
  | none => exact ⟨t, bind_of_ok fallback⟩

/-- File and line that are reported are those of the call site exactly if DbgHelp
knows a line there, or none with another file or number at the return address. -/
theorem bwWinLine_callSite_iff {ip srcLen : Nat} {table : Option (List UInt8 × Nat)}
    (fallback : bwPeLine p.env module (ip - 1) srcLen s = .ok table t) :
    ∃ found u, bwWinLine p module ip (ip - 1) srcLen s = .ok found u ∧
      (found = p.callSiteLine srcLen ip table ↔ p.LineAgrees srcLen ip table) := by
  cases atCall : p.knownLine (ip - 1) with
  | some line =>
      obtain ⟨u, ran⟩ := bwWinLine_callSite atCall fallback
      refine ⟨_, u, ran, iff_of_true rfl fun unknown => ?_⟩
      cases atCall.symm.trans unknown
  | none =>
      have atTable : p.callSiteLine srcLen ip table =
          table.getD (bwCopyCstr srcLen unknownName, 0) := by
        rw [Process.callSiteLine, atCall]
        rfl
      have first : (p.knownLine (ip - 1)).or (p.knownLine ip) = p.knownLine ip := by
        rw [atCall, Option.none_or]
      by_cases known : ∃ line file, p.knownLine ip = some line ∧ line.fileName = some file ∧
          file ≠ []
      · obtain ⟨line, file, isLine, inFile, nonempty⟩ := known
        refine ⟨_, s, congrFun (bwWinLine_known (first.trans isLine) inFile nonempty) s, ?_⟩
        constructor
        · intro right _ line' file' isLine' inFile' _
          cases isLine.symm.trans isLine'
          cases inFile.symm.trans inFile'
          exact right
        · intro agrees
          exact agrees atCall line file isLine inFile nonempty
      · have unknown : ((p.knownLine (ip - 1)).or (p.knownLine ip)).filter
            (fun line => line.fileName ≠ none ∧ line.fileName ≠ some []) = none := by
          rw [first, Option.filter_eq_none_iff]
          intro line isLine
          cases inFile : line.fileName with
          | none => simp
          | some file =>
              have empty : file = [] := by
                by_contra nonempty
                exact known ⟨line, file, isLine, inFile, nonempty⟩
              simp [empty]
        refine ⟨_, t, bwWinLine_unknown unknown fallback, iff_of_true atTable.symm ?_⟩
        intro _ line file isLine inFile nonempty
        exact absurd ⟨line, file, isLine, inFile, nonempty⟩ known

/-! ### Names of frames -/

/-- The name that is reported is that of the call site exactly if DbgHelp knows no
function at the return address, or the one it knows there bears that name. Either
way the line can be asked for next, with the same answer. -/
theorem bwWinName_callSite_iff {ip : Nat} {coff : Option (List UInt8)}
    (fallback : bwPeFind p.env module (ip - 1) s = .ok coff t) (snameLen : Nat) :
    ∃ name u, bwWinName p module ip (ip - 1) snameLen s = .ok name u ∧ (u = s ∨ u = t) ∧
      (name = p.callSiteName snameLen ip coff ↔ p.NameAgrees snameLen ip coff) := by
  cases atReturn : p.known ip with
  | some name =>
      have found : (p.known ip).or (p.known (ip - 1)) = some name := by rw [atReturn]; rfl
      refine ⟨_, s, congrFun (bwWinName_known found) s, Or.inl rfl, ?_⟩
      constructor
      · intro right other same
        cases atReturn.symm.trans same
        exact right
      · intro agrees
        exact agrees name atReturn
  | none =>
      have unconditional : p.NameAgrees snameLen ip coff := by
        intro name isKnown
        cases atReturn.symm.trans isKnown
      cases atCall : p.known (ip - 1) with
      | some name =>
          have found : (p.known ip).or (p.known (ip - 1)) = some name := by
            rw [atReturn, atCall]
            rfl
          refine ⟨_, s, congrFun (bwWinName_known found) s, Or.inl rfl,
            iff_of_true ?_ unconditional⟩
          rw [Process.callSiteName, atCall]
      | none =>
          have nowhere : (p.known ip).or (p.known (ip - 1)) = none := by
            rw [atReturn, atCall]
            rfl
          refine ⟨_, t, bwWinName_unknown nowhere fallback, Or.inr rfl,
            iff_of_true ?_ unconditional⟩
          rw [Process.callSiteName, atCall]

/-- Name, file and line that are reported are those of the call site exactly if what
DbgHelp knows at the return address does not tell otherwise: no function with another
name and, where it knows no line at the call site, no other line. -/
theorem bwWinResolve_callSite_iff {ip : Nat} (frame : ip ≠ 0) (fnameLen snameLen srcLen : Nat)
    {coff : Option (List UInt8)} {table : Option (List UInt8 × Nat)} {u : LoadState}
    (fallback : bwPeFind p.env (p.moduleAt ip) (ip - 1) s = .ok coff t)
    (lineFallback : bwPeLine p.env (p.moduleAt ip) (ip - 1) srcLen s = .ok table u) :
    ∃ r v, bwWinResolve p ip fnameLen snameLen srcLen s = .ok r v ∧
      (r.sname = p.callSiteName snameLen ip coff ∧
          (r.src, r.line) = p.callSiteLine srcLen ip table ↔
        p.NameAgrees snameLen ip coff ∧ p.LineAgrees srcLen ip table) := by
  obtain ⟨name, s₁, named, asked, nameRight⟩ := bwWinName_callSite_iff fallback snameLen
  have asBefore : bwPeLine p.env (p.moduleAt ip) (ip - 1) srcLen s₁ = .ok table u := by
    rcases asked with rfl | rfl
    · exact lineFallback
    · rw [(bwPeLine_of_find fallback srcLen).2, lineFallback]
  obtain ⟨found, v, lined, lineRight⟩ := bwWinLine_callSite_iff asBefore
  rw [bwWinResolve, if_neg frame, bind_of_ok named, bind_of_ok lined]
  exact ⟨_, _, rfl, and_congr nameRight lineRight⟩

/-- Within one function, call site and return address bear one name. -/
theorem callSiteName_inside {ip snameLen : Nat} {name : List UInt8} (coff : Option (List UInt8))
    (atCall : p.known (ip - 1) = some name) :
    p.callSiteName snameLen ip coff = bwCopyCstr snameLen name := by
  rw [Process.callSiteName, atCall]

end Resolve

/-- Functions `f` at `0x1000` and `g` behind it, and no modules. -/
def twoFunctions : Process 64 where
  env := mainEnv
  moduleAt _ := 0
  symOk := true
  functions := {
    spans := [⟨0x1000, 0x1010, [0x66]⟩, ⟨0x1010, 0x1020, [0x67]⟩]
    apart := by
      refine List.pairwise_pair.mpr fun addr one two => ?_
      simp only [Span.Has] at one two
      omega }
  named := by simp
  lines := ⟨[], .nil⟩
  x86 := false

theorem twoFunctions_named : ∀ span ∈ twoFunctions.functions.spans, span.known ≠ [] :=
  twoFunctions.named

/-- The same functions, and lines of `f.c` and `g.c`, with none for the last bytes
of `f`. -/
def partLines : Process 64 := { twoFunctions with
  named := twoFunctions_named
  lines := {
    spans := [⟨0x1000, 0x100c, ⟨some [0x66, 0x2e, 0x63], 3⟩⟩,
      ⟨0x1010, 0x1020, ⟨some [0x67, 0x2e, 0x63], 7⟩⟩]
    apart := by
      refine List.pairwise_pair.mpr fun addr one two => ?_
      simp only [Span.Has] at one two
      omega } }

/-- A call in the middle of `f`. -/
theorem partLines_inside : ∃ r u,
    bwWinResolve partLines 0x1008 260 512 512 freshProcess = .ok r u ∧
      r.sname = [0x66] ∧ (r.src, r.line) = ([0x66, 0x2e, 0x63], 3) := by
  have atCall : partLines.known (0x1008 - 1) = some [0x66] := by decide
  have atReturn : partLines.known 0x1008 = some [0x66] := by decide
  have lineAtCall : partLines.knownLine (0x1008 - 1) = some ⟨some [0x66, 0x2e, 0x63], 3⟩ := by
    decide
  obtain ⟨r, u, ran, right⟩ := @bwWinResolve_callSite_iff 64 partLines freshProcess freshProcess
    0x1008 (by decide) 260 512 512 none none freshProcess rfl rfl
  have agree : partLines.NameAgrees 512 0x1008 none ∧ partLines.LineAgrees 512 0x1008 none := by
    constructor
    · intro name isKnown
      rw [callSiteName_inside none atCall, Option.some_inj.mp (atReturn.symm.trans isKnown)]
    · intro unknown
      cases lineAtCall.symm.trans unknown
  obtain ⟨named, placed⟩ := right.mpr agree
  rw [callSiteName_inside none atCall] at named
  exact ⟨r, u, ran, named, placed⟩

/-- A call at the end of `f` is reported as one of `g`, in `g.c`. -/
theorem partLines_end : ∃ r u,
    bwWinResolve partLines 0x1010 260 512 512 freshProcess = .ok r u ∧
      partLines.known (0x1010 - 1) = some [0x66] ∧ r.sname = [0x67] ∧
      partLines.knownLine (0x1010 - 1) = none ∧ (r.src, r.line) = ([0x67, 0x2e, 0x63], 7) :=
  ⟨⟨0, [0x3f], [0x67], [0x67, 0x2e, 0x63], 7⟩, freshProcess, by rfl, by decide, rfl, by decide, rfl⟩

end Backwalk.Windows
