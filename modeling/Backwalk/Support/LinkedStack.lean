import Mathlib.Data.List.Basic
import Mathlib.Logic.Function.Basic

/-!
Owns a stack of records that are linked through memory: each record has a cell
for the address of the one below it and a cell for an item.

Memory maps addresses to words, and addresses are words. The stack in memory
stands for a list; a record pushed on it, the top record popped, and any write to
cells of no record are followed on the list.
-/

namespace Backwalk.Support

/-- The cells of the record at an address. -/
structure RecordLayout (A : Type*) where
  link : A → A
  item : A → A

namespace RecordLayout

variable {A I : Type*} (layout : RecordLayout A)

/-- The cells of these records. -/
def cells (records : List (A × I)) : List A :=
  records.flatMap fun record => [layout.link record.1, layout.item record.1]

/-- From `top` on memory holds these records, each with a word that stands for its
item, and the last one is linked to an end. -/
def Holds (IsEnd : A → Prop) (Is : A → I → Prop) (mem : A → A) : A → List (A × I) → Prop
  | top, [] => IsEnd top
  | top, record :: records =>
      record.1 = top ∧ Is (mem (layout.item top)) record.2 ∧
        Holds IsEnd Is mem (mem (layout.link top)) records

variable {layout} {IsEnd : A → Prop} {Is : A → I → Prop} {mem : A → A} {top at_ addr value : A}
  {record : A × I} {records : List (A × I)} {item : I}

theorem cells_cons : layout.cells (record :: records) =
    layout.link record.1 :: layout.item record.1 :: layout.cells records := rfl

theorem mem_cells : addr ∈ layout.cells records ↔
    ∃ record ∈ records, addr = layout.link record.1 ∨ addr = layout.item record.1 := by
  simp [cells]

/-- The record on top is popped with its link. -/
theorem Holds.pop (holds : layout.Holds IsEnd Is mem top (record :: records)) :
    layout.Holds IsEnd Is mem (mem (layout.link top)) records :=
  holds.2.2

variable [DecidableEq A]

/-- A write to cells of no record leaves the stack as it is. -/
theorem Holds.write (holds : layout.Holds IsEnd Is mem top records)
    (foreign : addr ∉ layout.cells records) :
    layout.Holds IsEnd Is (Function.update mem addr value) top records := by
  induction records generalizing top with
  | nil => exact holds
  | cons record records inductionHypothesis =>
      obtain ⟨rfl, isItem, below⟩ := holds
      rw [cells_cons, List.mem_cons, List.mem_cons, not_or, not_or] at foreign
      have sameItem : Function.update mem addr value (layout.item record.1) =
          mem (layout.item record.1) := Function.update_of_ne (Ne.symm foreign.2.1) _ _
      have sameLink : Function.update mem addr value (layout.link record.1) =
          mem (layout.link record.1) := Function.update_of_ne (Ne.symm foreign.1) _ _
      refine ⟨rfl, ?_, ?_⟩
      · rw [sameItem]
        exact isItem
      · rw [sameLink]
        exact inductionHypothesis below foreign.2.2

/-- A record in fresh cells that is linked to the top is the new top. -/
theorem Holds.push (holds : layout.Holds IsEnd Is mem top records) (isItem : Is value item)
    (apart : layout.link at_ ≠ layout.item at_) (freshLink : layout.link at_ ∉ layout.cells records)
    (freshItem : layout.item at_ ∉ layout.cells records) :
    layout.Holds IsEnd Is
      (Function.update (Function.update mem (layout.link at_) top) (layout.item at_) value) at_
      ((at_, item) :: records) := by
  refine ⟨rfl, ?_, ?_⟩
  · rw [Function.update_self]
    exact isItem
  · rw [Function.update_of_ne apart, Function.update_self]
    exact (holds.write freshLink).write freshItem

end RecordLayout

end Backwalk.Support
