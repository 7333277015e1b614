import Backwalk.Support.Handles
import Backwalk.Windows.SymbolCache

/-!
Contract: `bw_pe_load` with the handles that it works with.

Owns the calls of `CreateFileA`, `GetFileSizeEx`, `CreateFileMappingA`,
`MapViewOfFile`, `UnmapViewOfFile` and `CloseHandle` in the order of the source.
Whatever they answer, a load uses each handle only while it is open, holds
afterwards what was held before unless it crashes, and leaves what it leaves over
the view that it could get.

Does not own Windows. Each call may fail, and other threads may hold handles
meanwhile.
-/

namespace Backwalk.Windows.OnWindows

open Backwalk.DwarfLine Backwalk.Support

/-- What Windows gives out. -/
inductive Handle where
  | file (n : Nat)
  | mapping (n : Nat)
  | view (base : Nat)
deriving DecidableEq, Repr

/-- The calls of Windows. -/
structure FileApi (bits : Nat) where
  createFile : List UInt8 → Giver Handle Unit
  /-- `GetFileSizeEx`: `QuadPart`, if it succeeds. -/
  fileSize : Handle → Option Int
  createFileMapping : Handle → Giver Handle Unit
  /-- `MapViewOfFile` of a file of this size. -/
  mapViewOfFile : Handle → (size : Nat) → Giver Handle {v : View bits // v.size = size}

/-- What a load is given: the path of each module, and the arrangements that `qsort`
produces. -/
structure Caller where
  path : Nat → Option (List UInt8)
  symSort : SymQsort
  qsort : Qsort

abbrev LoadAction (α : Type) := HandleAction Handle Halt LoadState α

section Load

variable {bits : Nat} (api : FileApi bits) (caller : Caller)

/-- The environment in which this is all there is to map. -/
def Caller.env (caller : Caller) (mapFile : Nat → Option (View bits)) : Env bits :=
  ⟨caller.path, mapFile, caller.symSort, caller.qsort⟩

/-- `(size_t)file_sz_li.QuadPart`. -/
def sizeOf (bits : Nat) (size : Int) : Nat := (size % 2 ^ bits).toNat

/-- `bw_pe_load` from `MapViewOfFile` on. -/
def viewAndLoad (file map : Handle) (size : Int) (module : Nat) : LoadAction Unit := do
  let base ← acquire (api.mapViewOfFile map (sizeOf bits size))
  match base with
  | none => do
      release map
      release file
  | some (base, v) => do
      during base (orLeave (bwPeFile (caller.env fun _ => some v.1) v.1 module))
      release base
      release map
      release file

/-- `bw_pe_load` from `CreateFileMappingA` on. -/
def mapAndLoad (file : Handle) (size : Int) (module : Nat) : LoadAction Unit := do
  let map ← acquire (api.createFileMapping file)
  match map with
  | none => release file
  | some (map, _) => viewAndLoad api caller file map size module

/-- `bw_pe_load`. -/
def bwPeLoad (module : Nat) : LoadAction Unit := do
  inside (bwPeReset module)
  if module = 0 ∨ noPath (caller.path module) = true then pure ()
  else do
    let file ← acquire (api.createFile ((caller.path module).getD []))
    match file with
    | none => pure ()
    | some (file, _) => do
        let size ← enquire file (api.fileSize file)
        match size with
        | none => release file
        | some size => if size ≤ 0 then release file else mapAndLoad api caller file size module

/-- The view that a load can get of a file that is open. -/
def FileApi.viewOf (held : Finset Handle) (file : Handle) (size : Int) : Option (View bits) :=
  match (api.createFileMapping file).gives held with
  | none => none
  | some (map, _) =>
      ((api.mapViewOfFile map (sizeOf bits size)).gives (insert map held)).map fun base => base.2.1

/-- The view that a load can get of the file at a path, while these handles are
held. -/
def FileApi.view (held : Finset Handle) (path : List UInt8) : Option (View bits) :=
  match (api.createFile path).gives held with
  | none => none
  | some (file, _) =>
      match api.fileSize file with
      | none => none
      | some size =>
          if size ≤ 0 then none else api.viewOf (insert file held) file size

variable {api caller} {held : Finset Handle} {file map : Handle}

theorem release_two (freshFile : file ∉ held) (freshMap : map ∉ insert file held) :
    Turns (insert map (insert file held)) held
      (do release map; release file : LoadAction Unit) (pure ()) := by
  apply Turns.release (Finset.mem_insert_self _ _)
  rw [Finset.erase_insert freshMap]
  have last : Turns (insert file held) ((insert file held).erase file)
      (release file : LoadAction Unit) (pure ()) := Turns.released (Finset.mem_insert_self _ _)
  rwa [Finset.erase_insert freshFile] at last

theorem viewAndLoad_turns (freshFile : file ∉ held) (freshMap : map ∉ insert file held) (size : Int)
    (module : Nat) :
    Turns (insert map (insert file held)) held (viewAndLoad api caller file map size module)
      (match ((api.mapViewOfFile map (sizeOf bits size)).gives
          (insert map (insert file held))).map fun base => base.2.1 with
        | none => pure ()
        | some v => orLeave (bwPeFile (caller.env fun _ => some v) v module)) := by
  unfold viewAndLoad
  apply Turns.acquire
  · intro refused
    rw [refused]
    exact release_two freshFile freshMap
  · intro base v gives freshBase
    rw [gives]
    have reads := Turns.during (Finset.mem_insert_self base (insert map (insert file held)))
      (orLeave (bwPeFile (caller.env fun _ => some v.1) v.1 module))
    apply reads.finish
    intro _
    apply Turns.release (Finset.mem_insert_self _ _)
    rw [Finset.erase_insert freshBase]
    exact release_two freshFile freshMap

theorem mapAndLoad_turns (freshFile : file ∉ held) (size : Int) (module : Nat) :
    Turns (insert file held) held (mapAndLoad api caller file size module)
      (match api.viewOf (insert file held) file size with
        | none => pure ()
        | some v => orLeave (bwPeFile (caller.env fun _ => some v) v module)) := by
  unfold mapAndLoad FileApi.viewOf
  apply Turns.acquire
  · intro refused
    rw [refused]
    have last : Turns (insert file held) ((insert file held).erase file)
        (release file : LoadAction Unit) (pure ()) := Turns.released (Finset.mem_insert_self _ _)
    rwa [Finset.erase_insert freshFile] at last
  · intro map _ gives freshMap
    rw [gives]
    exact viewAndLoad_turns freshFile freshMap size module

/-- A load with handles does what a load does in an environment where the view that
it can get is the file. -/
theorem bwPeLoad_turns (module : Nat) :
    Turns held held (bwPeLoad api caller module)
      (Windows.bwPeLoad
        (caller.env fun module => api.view held ((caller.path module).getD [])) module) := by
  unfold bwPeLoad Windows.bwPeLoad
  apply (Turns.inside (bwPeReset module)).bind
  intro _
  by_cases nothing : module = 0 ∨ noPath (caller.path module) = true
  · rw [if_pos nothing, if_pos (show module = 0 ∨ noPath (Env.path (caller.env _) module) = true
      from nothing)]
    exact Turns.pure ()
  · rw [if_neg nothing, if_neg (show ¬ (module = 0 ∨ noPath (Env.path (caller.env _) module) = true)
      from nothing)]
    change Turns held held _ (match api.view held ((caller.path module).getD []) with
      | none => pure ()
      | some v => orLeave (bwPeFile (caller.env fun _ => some v) v module))
    unfold FileApi.view
    apply Turns.acquire
    · intro refused
      rw [refused]
      exact Turns.pure ()
    · intro file _ gives fresh
      rw [gives]
      have last : Turns (insert file held) ((insert file held).erase file)
          (release file : LoadAction Unit) (pure ()) := Turns.released (Finset.mem_insert_self _ _)
      rw [Finset.erase_insert fresh] at last
      apply Turns.enquire (Finset.mem_insert_self _ _)
      dsimp only
      cases api.fileSize file with
      | none => exact last
      | some size =>
          dsimp only
          by_cases empty : size ≤ 0
          · rw [if_pos empty, if_pos empty]
            exact last
          · rw [if_neg empty, if_neg empty]
            exact mapAndLoad_turns fresh size module

/-- Whatever Windows answers, a load that returns holds the handles that it was
called with, and has loaded the view that it could get; and it crashes only where
that load does. -/
theorem bwPeLoad_gives_back (api : FileApi bits) (caller : Caller) (held : Finset Handle)
    (module : Nat) (s : LoadState) :
    let load := Windows.bwPeLoad
      (caller.env fun module => api.view held ((caller.path module).getD [])) module
    (∀ held' t, bwPeLoad api caller module ⟨held, s⟩ = .ok () ⟨held', t⟩ ↔
      held' = held ∧ load s = .ok () t) ∧
      ∀ why t, (∃ held', bwPeLoad api caller module ⟨held, s⟩ = .error (.inner why) ⟨held', t⟩) ↔
        load s = .error why t := by
  dsimp only
  have turns := @bwPeLoad_turns bits api caller held module
  cases ended : Windows.bwPeLoad
      (caller.env fun module => api.view held ((caller.path module).getD [])) module s with
  | ok a t =>
      rw [turns.ok ended]
      constructor
      · intro held' t'
        constructor
        · intro same
          cases same
          exact ⟨rfl, rfl⟩
        · rintro ⟨rfl, same⟩
          cases same
          rfl
      · simp
  | error why t =>
      obtain ⟨left, stopped⟩ := turns.error ended
      rw [stopped]
      constructor
      · simp
      · intro why' t'
        constructor
        · rintro ⟨held', same⟩
          cases same
          rfl
        · intro same
          cases same
          exact ⟨left, rfl⟩

end Load

end Backwalk.Windows.OnWindows
