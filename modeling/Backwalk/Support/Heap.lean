import Backwalk.Support.Action
import Mathlib.Data.Finset.Card
import Mathlib.Data.Set.Card
import Mathlib.Algebra.Order.BigOperators.Group.Finset

/-!
Contract: a heap of blocks, for programs that call `malloc` and `free`.

Owns the four actions on the heap, each of which stops where C leaves the
behaviour open: an access outside a block and a `free` of what is not a block.
Owns how the blocks are shared out among owners, and what an action on the
blocks of one owner leaves of the others.

Does not own the allocator. It may fail at any request and puts what it likes
into a fresh block; only a block that is in use is never handed out again.
-/

namespace Backwalk.Support

/-! ### Blocks -/

section Heap

variable {Ptr Cell : Type} [DecidableEq Ptr]

/-- A block of so many cells. What is behind the last one is nobody's. -/
structure Block (Cell : Type) where
  length : Nat
  cells : Nat → Cell

/-- The blocks in use, by their addresses. -/
abbrev Heap (Ptr Cell : Type) := Ptr → Option (Block Cell)

/-- What C leaves open. -/
inductive HeapFault where
  | outside
  | notAllocated
deriving DecidableEq, Repr

abbrev HeapAction (Ptr Cell α : Type) := EStateM HeapFault (Heap Ptr Cell) α

/-- An allocator: what it gives for a number of cells, if anything. -/
structure Allocator (Ptr Cell : Type) [Zero Ptr] where
  gives : Heap Ptr Cell → Nat → Option (Ptr × (Nat → Cell))
  nonnull : ∀ heap length ptr cells, gives heap length = some (ptr, cells) → ptr ≠ 0
  fresh : ∀ heap length ptr cells, gives heap length = some (ptr, cells) → heap ptr = none

/-- `malloc`; the answer is zero if there is no memory. -/
def malloc [Zero Ptr] (alloc : Allocator Ptr Cell) (length : Nat) : HeapAction Ptr Cell Ptr := do
  let heap ← get
  match alloc.gives heap length with
  | none => pure 0
  | some (ptr, cells) =>
      set (Function.update heap ptr (some ⟨length, cells⟩))
      pure ptr

/-- `free` of a pointer that is not null. -/
def free (ptr : Ptr) : HeapAction Ptr Cell Unit := do
  let heap ← get
  match heap ptr with
  | none => throw .notAllocated
  | some _ => set (Function.update heap ptr none)

/-- `ptr[index]`. -/
def load (ptr : Ptr) (index : Nat) : HeapAction Ptr Cell Cell := do
  let heap ← get
  match heap ptr with
  | none => throw .outside
  | some block => if index < block.length then pure (block.cells index) else throw .outside

/-- `ptr[index] = cell`. -/
def store (ptr : Ptr) (index : Nat) (cell : Cell) : HeapAction Ptr Cell Unit := do
  let heap ← get
  match heap ptr with
  | none => throw .outside
  | some block =>
      if index < block.length then
        set (Function.update heap ptr
          (some { block with cells := Function.update block.cells index cell }))
      else throw .outside

variable {heap heap' : Heap Ptr Cell} {ptr : Ptr} {block : Block Cell} {index length : Nat}

omit [DecidableEq Ptr] in
theorem get_heap (heap : Heap Ptr Cell) :
    (get : HeapAction Ptr Cell (Heap Ptr Cell)) heap = .ok heap heap := rfl

theorem malloc_null [Zero Ptr] {alloc : Allocator Ptr Cell}
    (fails : alloc.gives heap length = none) : malloc alloc length heap = .ok 0 heap := by
  rw [malloc, bind_of_ok (get_heap heap), fails]
  rfl

theorem malloc_ok [Zero Ptr] {alloc : Allocator Ptr Cell} {cells : Nat → Cell}
    (given : alloc.gives heap length = some (ptr, cells)) :
    malloc alloc length heap = .ok ptr (Function.update heap ptr (some ⟨length, cells⟩)) := by
  rw [malloc, bind_of_ok (get_heap heap), given]
  rfl

theorem free_ok (there : heap ptr = some block) :
    free ptr heap = .ok () (Function.update heap ptr none) := by
  rw [free, bind_of_ok (get_heap heap), there]
  rfl

omit [DecidableEq Ptr] in
theorem load_ok (there : heap ptr = some block) (inside : index < block.length) :
    load ptr index heap = .ok (block.cells index) heap := by
  rw [load, bind_of_ok (get_heap heap), there]
  dsimp only
  rw [if_pos inside]
  rfl

theorem store_ok (cell : Cell) (there : heap ptr = some block) (inside : index < block.length) :
    store ptr index cell heap = .ok () (Function.update heap ptr
      (some { block with cells := Function.update block.cells index cell })) := by
  rw [store, bind_of_ok (get_heap heap), there]
  dsimp only
  rw [if_pos inside]
  rfl

end Heap

/-! ### Owners -/

section Owners

variable {Ptr Cell Owner : Type} [DecidableEq Ptr] [DecidableEq Owner]

/-- Nothing has changed but the blocks at these addresses. -/
def ChangesOnly (changed : Finset Ptr) (heap heap' : Heap Ptr Cell) : Prop :=
  ∀ ptr, ptr ∉ changed → heap' ptr = heap ptr

/-- Each block that is in use is one of exactly one owner. -/
structure Shares (heap : Heap Ptr Cell) (owners : Finset Owner) (blocks : Owner → Finset Ptr) :
    Prop where
  used : ∀ ptr, heap ptr ≠ none ↔ ∃ owner ∈ owners, ptr ∈ blocks owner
  apart : ∀ one ∈ owners, ∀ two ∈ owners, one ≠ two → Disjoint (blocks one) (blocks two)

variable {heap heap' : Heap Ptr Cell} {owners : Finset Owner} {blocks : Owner → Finset Ptr}
  {owner other : Owner} {ptr : Ptr} {changed : Finset Ptr}

omit [DecidableEq Ptr] [DecidableEq Owner] in
theorem ChangesOnly.trans {heap'' : Heap Ptr Cell} (first : ChangesOnly changed heap heap')
    (next : ChangesOnly changed heap' heap'') : ChangesOnly changed heap heap'' :=
  fun ptr outside => (next ptr outside).trans (first ptr outside)

theorem changesOnly_update {block : Option (Block Cell)} (member : ptr ∈ changed) :
    ChangesOnly changed heap (Function.update heap ptr block) := by
  intro there outside
  exact Function.update_of_ne (ne_of_mem_of_not_mem member outside).symm _ _

omit [DecidableEq Ptr] [DecidableEq Owner] in
/-- An owner who works on its own blocks leaves those of the others as they are. -/
theorem Shares.others (shares : Shares heap owners blocks) (isOwner : owner ∈ owners)
    (isOther : other ∈ owners) (different : other ≠ owner)
    (only : ChangesOnly (blocks owner) heap heap') (member : ptr ∈ blocks other) :
    heap' ptr = heap ptr :=
  only ptr (Finset.disjoint_left.mp (shares.apart other isOther owner isOwner different) member)

omit [DecidableEq Ptr] [DecidableEq Owner] in
/-- An owner works on its blocks and keeps them all. -/
theorem Shares.keep (shares : Shares heap owners blocks) (isOwner : owner ∈ owners)
    (only : ChangesOnly (blocks owner) heap heap')
    (keeps : ∀ ptr ∈ blocks owner, heap' ptr ≠ none) :
    Shares heap' owners blocks where
  used := by
    intro ptr
    by_cases own : ptr ∈ blocks owner
    · exact iff_of_true (keeps ptr own) ⟨owner, isOwner, own⟩
    · rw [only ptr own]
      exact shares.used ptr
  apart := shares.apart

omit [DecidableEq Ptr] in
/-- An owner gives all its blocks back. -/
theorem Shares.remove (shares : Shares heap owners blocks) (isOwner : owner ∈ owners)
    (only : ChangesOnly (blocks owner) heap heap')
    (frees : ∀ ptr ∈ blocks owner, heap' ptr = none) :
    Shares heap' (owners.erase owner) blocks where
  used := by
    intro ptr
    constructor
    · intro inUse
      have foreign : ptr ∉ blocks owner := fun own => inUse (frees ptr own)
      rw [only ptr foreign] at inUse
      obtain ⟨one, isOne, member⟩ := (shares.used ptr).mp inUse
      exact ⟨one, Finset.mem_erase.mpr ⟨fun same => foreign (same ▸ member), isOne⟩, member⟩
    · intro owned
      obtain ⟨one, isOne, member⟩ := owned
      obtain ⟨different, isOne⟩ := Finset.mem_erase.mp isOne
      rw [shares.others isOwner isOne different only member]
      exact (shares.used ptr).mpr ⟨one, isOne, member⟩
  apart := fun one isOne two isTwo =>
    shares.apart one (Finset.mem_of_mem_erase isOne) two (Finset.mem_of_mem_erase isTwo)

omit [DecidableEq Ptr] in
/-- A new owner comes with blocks that were not in use. -/
theorem Shares.add (shares : Shares heap owners blocks) (isNew : owner ∉ owners)
    (only : ChangesOnly changed heap heap') (unused : ∀ ptr ∈ changed, heap ptr = none)
    (takes : ∀ ptr ∈ changed, heap' ptr ≠ none) :
    Shares heap' (insert owner owners) (Function.update blocks owner changed) where
  used := by
    intro ptr
    by_cases own : ptr ∈ changed
    · exact iff_of_true (takes ptr own)
        ⟨owner, Finset.mem_insert_self owner owners, by rwa [Function.update_self]⟩
    · rw [only ptr own, shares.used ptr]
      constructor
      · intro owned
        obtain ⟨one, isOne, member⟩ := owned
        refine ⟨one, Finset.mem_insert_of_mem isOne, ?_⟩
        rwa [Function.update_of_ne (ne_of_mem_of_not_mem isOne isNew)]
      · intro owned
        obtain ⟨one, isOne, member⟩ := owned
        rcases Finset.mem_insert.mp isOne with same | isOne
        · rw [same, Function.update_self] at member
          exact absurd member own
        · rw [Function.update_of_ne (ne_of_mem_of_not_mem isOne isNew)] at member
          exact ⟨one, isOne, member⟩
  apart := by
    have foreign : ∀ one ∈ owners, Disjoint (blocks one) changed := by
      intro one isOne
      apply Finset.disjoint_left.mpr
      intro ptr member own
      exact (shares.used ptr).mpr ⟨one, isOne, member⟩ (unused ptr own)
    have old : ∀ one ∈ owners, Function.update blocks owner changed one = blocks one :=
      fun one isOne => Function.update_of_ne (ne_of_mem_of_not_mem isOne isNew) _ _
    intro one isOne two isTwo different
    rcases Finset.mem_insert.mp isOne with isOwner | isOne <;>
      rcases Finset.mem_insert.mp isTwo with isOwner' | isTwo
    · exact absurd (isOwner.trans isOwner'.symm) different
    · rw [isOwner, Function.update_self, old two isTwo]
      exact (foreign two isTwo).symm
    · rw [isOwner', Function.update_self, old one isOne]
      exact foreign one isOne
    · rw [old one isOne, old two isTwo]
      exact shares.apart one isOne two isTwo different

omit [DecidableEq Owner] in
/-- The heap has as many blocks as the owners have together. -/
theorem Shares.encard (shares : Shares heap owners blocks) :
    {ptr | heap ptr ≠ none}.encard = ((∑ owner ∈ owners, (blocks owner).card : ℕ) : ℕ∞) := by
  have whole : {ptr | heap ptr ≠ none} = ((owners.biUnion blocks : Finset Ptr) : Set Ptr) := by
    ext ptr
    simpa using shares.used ptr
  rw [whole, Set.encard_coe_eq_coe_finsetCard, Finset.card_biUnion shares.apart]

end Owners

end Backwalk.Support
