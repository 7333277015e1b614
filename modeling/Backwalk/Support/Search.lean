import Mathlib.Data.List.Induction
import Mathlib.Data.List.Sort
import Mathlib.Order.Basic

/-!
Owns the binary search for the last of an increasing sequence of keys that is
not above a query, the arrangements that a sort by key may produce, and the scan
that keeps the last of the greatest items.

The search keeps the best position seen so far instead of deriving it from the
final interval, so its specification is about that position: `IsLast`.
-/

namespace Backwalk.Support

variable {κ α : Type}

section Search

variable [LinearOrder κ]

/-- Look in `[lo, hi)` for the last key that is not above `query`; `best` is the
last position found so far. -/
def searchLe (key : Nat → κ) (query : κ) : Nat → Nat → Nat → Option Nat → Option Nat
  | 0, _, _, best => best
  | fuel + 1, lo, hi, best =>
      if lo < hi then
        let mid := lo + (hi - lo) / 2
        if key mid ≤ query then searchLe key query fuel (mid + 1) hi (some mid)
        else searchLe key query fuel lo mid best
      else best

/-- The answer is the last position below `n` whose key is not above `query`. -/
def IsLast (key : Nat → κ) (query : κ) (n : Nat) : Option Nat → Prop
  | none => ∀ j < n, query < key j
  | some i => i < n ∧ key i ≤ query ∧ ∀ j < n, i < j → query < key j

/-- What the loop knows: `best` is the last position before `lo` that is not
above the query, and from `hi` on all keys are above it. -/
structure Narrowed (key : Nat → κ) (query : κ) (n lo hi : Nat) (best : Option Nat) : Prop where
  best : IsLast key query lo best
  above : ∀ j < n, hi ≤ j → query < key j
  fits : hi ≤ n

theorem isLast_of_narrowed {key : Nat → κ} {query : κ} {n lo hi : Nat} {best : Option Nat}
    (narrowed : Narrowed key query n lo hi best) (closed : hi ≤ lo) (within : lo ≤ n) :
    IsLast key query n best := by
  cases best with
  | none =>
      intro j below
      rcases Nat.lt_or_ge j lo with before | after
      · exact narrowed.best j before
      · exact narrowed.above j below (closed.trans after)
  | some i =>
      obtain ⟨before, notAbove, later⟩ := narrowed.best
      refine ⟨lt_of_lt_of_le before within, notAbove, ?_⟩
      intro j below further
      rcases Nat.lt_or_ge j lo with inside | after
      · exact later j inside further
      · exact narrowed.above j below (closed.trans after)

/-- The search finds the last position whose key is not above the query. -/
theorem searchLe_isLast {key : Nat → κ} {query : κ} {n fuel lo hi : Nat} {best : Option Nat}
    (sorted : ∀ i j, i ≤ j → j < n → key i ≤ key j)
    (narrowed : Narrowed key query n lo hi best) (within : lo ≤ n) (enough : hi - lo ≤ fuel) :
    IsLast key query n (searchLe key query fuel lo hi best) := by
  induction fuel generalizing lo hi best with
  | zero => exact isLast_of_narrowed narrowed (by omega) within
  | succ fuel inductionHypothesis =>
      have fits := narrowed.fits
      rw [searchLe]
      by_cases inside : lo < hi
      · rw [if_pos inside]
        dsimp only
        by_cases notAbove : key (lo + (hi - lo) / 2) ≤ query
        · rw [if_pos notAbove]
          refine inductionHypothesis ⟨⟨by omega, notAbove, ?_⟩, narrowed.above, fits⟩ (by omega)
            (by omega)
          intro j below further
          omega
        · rw [if_neg notAbove]
          refine inductionHypothesis ⟨narrowed.best, ?_, by omega⟩ within (by omega)
          intro j below further
          exact lt_of_lt_of_le (lt_of_not_ge notAbove) (sorted _ j further below)
      · rw [if_neg inside]
        exact isLast_of_narrowed narrowed (by omega) within

theorem searchLe_whole {key : Nat → κ} {query : κ} {n : Nat}
    (sorted : ∀ i j, i ≤ j → j < n → key i ≤ key j) :
    IsLast key query n (searchLe key query n 0 n none) := by
  refine searchLe_isLast sorted ⟨?_, ?_, le_refl n⟩ (Nat.zero_le n) (by omega)
  · intro j below
    omega
  · intro j below after
    omega

/-- The search looks at the keys through comparisons with the query only. -/
theorem searchLe_congr {κ' : Type} [LinearOrder κ'] {key : Nat → κ} {key' : Nat → κ'} {query : κ}
    {query' : κ'} {n fuel lo hi : Nat} {best : Option Nat} (fits : hi ≤ n)
    (same : ∀ i < n, key i ≤ query ↔ key' i ≤ query') :
    searchLe key query fuel lo hi best = searchLe key' query' fuel lo hi best := by
  induction fuel generalizing lo hi best with
  | zero => rfl
  | succ fuel inductionHypothesis =>
      rw [searchLe, searchLe]
      by_cases inside : lo < hi
      · rw [if_pos inside, if_pos inside]
        dsimp only
        have here := same (lo + (hi - lo) / 2) (by omega)
        by_cases notAbove : key (lo + (hi - lo) / 2) ≤ query
        · rw [if_pos notAbove, if_pos (here.mp notAbove)]
          exact inductionHypothesis fits
        · rw [if_neg notAbove, if_neg (mt here.mpr notAbove)]
          exact inductionHypothesis (by omega)
      · rw [if_neg inside, if_neg inside]

/-- In whatever order the keys stand, the search ends at one of them. -/
theorem searchLe_lt {key : Nat → κ} {query : κ} {n fuel lo hi : Nat} {best : Option Nat}
    (fits : hi ≤ n) (before : ∀ i ∈ best, i < n) :
    ∀ i ∈ searchLe key query fuel lo hi best, i < n := by
  induction fuel generalizing lo hi best with
  | zero => exact before
  | succ fuel inductionHypothesis =>
      rw [searchLe]
      split_ifs with inside
      · dsimp only
        split_ifs with notAbove
        · apply inductionHypothesis fits
          intro i isMid
          rw [← Option.some_inj.mp isMid]
          omega
        · exact inductionHypothesis (by omega) before
      · exact before

end Search

/-! ### Lists with keys -/

section Lists

variable [LinearOrder κ] (key : α → κ)

/-- The order that a sort by key goes by. -/
def KeyLe (a b : α) : Prop := key a ≤ key b

instance : DecidableRel (KeyLe key) := fun a b => inferInstanceAs (Decidable (key a ≤ key b))

instance : Std.Total (KeyLe key) := ⟨fun a b => le_total (key a) (key b)⟩

instance : IsTrans α (KeyLe key) := ⟨fun _ _ _ => le_trans⟩

/-- A result that a sort by key may have: nothing is said about items with equal
keys. -/
structure Arrangement (items arranged : List α) : Prop where
  perm : arranged.Perm items
  sorted : arranged.Pairwise (KeyLe key)

/-- The item is one of those with the greatest key that is not above the query. -/
structure AtTop (items : List α) (query : κ) (item : α) : Prop where
  mem : item ∈ items
  notAbove : key item ≤ query
  greatest : ∀ other ∈ items, key other ≤ query → key other ≤ key item

theorem AtTop.of_perm {items items' : List α} {query : κ} {item : α} (perm : items.Perm items')
    (top : AtTop key items query item) : AtTop key items' query item :=
  ⟨perm.mem_iff.mp top.mem, top.notAbove,
    fun other member => top.greatest other (perm.mem_iff.mpr member)⟩

/-- Only the keys decide which items are at the top. -/
theorem atTop_iff_keys {items : List α} {query : κ} {item : α} :
    AtTop key items query item ↔ item ∈ items ∧ AtTop id (items.map key) query (key item) := by
  constructor
  · intro top
    refine ⟨top.mem, List.mem_map_of_mem top.mem, top.notAbove, ?_⟩
    intro _ member notAbove
    obtain ⟨other, isOther, rfl⟩ := List.mem_map.mp member
    exact top.greatest other isOther notAbove
  · rintro ⟨member, top⟩
    exact ⟨member, top.notAbove, fun other isOther notAbove =>
      top.greatest (key other) (List.mem_map_of_mem isOther) notAbove⟩

/-- What a search comes to: an item at the top, and none only where all are above the
query. -/
def Topmost (items : List α) (query : κ) : Option α → Prop
  | none => ∀ item ∈ items, query < key item
  | some item => AtTop key items query item

/-- The item stands last among those whose keys are not above the query, and all
behind it are. -/
structure LastLe (items : List α) (query : κ) (item : α) : Prop where
  notAbove : key item ≤ query
  last : ∃ before after, items = before ++ item :: after ∧ ∀ later ∈ after, query < key later

/-- In a sorted list the last item not above the query has the greatest key. -/
theorem LastLe.atTop {items : List α} {query : κ} {item : α} (sorted : items.Pairwise (KeyLe key))
    (last : LastLe key items query item) : AtTop key items query item := by
  obtain ⟨before, after, rfl, later⟩ := last.last
  refine ⟨by simp, last.notAbove, ?_⟩
  intro other member notAbove
  rcases List.mem_append.mp member with earlier | fromHere
  · exact (List.pairwise_append.mp sorted).2.2 other earlier item List.mem_cons_self
  · rcases List.mem_cons.mp fromHere with rfl | further
    · exact le_refl _
    · exact absurd (later other further) (not_lt_of_ge notAbove)

theorem LastLe.unique {items : List α} {query : κ} {item other : α}
    (one : LastLe key items query item) (two : LastLe key items query other) :
    item = other := by
  have lastKept : ∀ {last : α}, LastLe key items query last →
      (items.filter (key · ≤ query)).getLast? = some last := by
    intro last isLast
    obtain ⟨before, after, split, later⟩ := isLast.last
    have noneAfter : after.filter (key · ≤ query) = [] := by
      rw [List.filter_eq_nil_iff]
      intro item member
      simpa using later item member
    rw [split, List.filter_append, List.filter_cons_of_pos (by simpa using isLast.notAbove),
      noneAfter, List.getLast?_concat]
  exact Option.some_inj.mp ((lastKept one).symm.trans (lastKept two))

section Positions

variable {items : List α} {query : κ} {keyAt : Nat → κ}

/-- No position, no item. -/
theorem above_of_isLast_none (keys : ∀ i (inside : i < items.length), keyAt i = key items[i])
    (isLast : IsLast keyAt query items.length none) : ∀ item ∈ items, query < key item := by
  intro item member
  obtain ⟨i, inside, rfl⟩ := List.mem_iff_getElem.mp member
  rw [← keys i inside]
  exact isLast i inside

/-- The item at the last position. -/
theorem lastLe_of_isLast {i : Nat} (inside : i < items.length)
    (keys : ∀ i (inside : i < items.length), keyAt i = key items[i])
    (isLast : IsLast keyAt query items.length (some i)) : LastLe key items query items[i] := by
  obtain ⟨-, notAbove, later⟩ := isLast
  refine ⟨by rwa [← keys i inside], items.take i, items.drop (i + 1), ?_, ?_⟩
  · rw [List.getElem_cons_drop, List.take_append_drop]
  · intro item member
    obtain ⟨j, within, rfl⟩ := List.mem_iff_getElem.mp member
    rw [List.length_drop] at within
    rw [List.getElem_drop, ← keys _ (by omega)]
    exact later (i + 1 + j) (by omega) (by omega)

end Positions

/-- A linear scan for the last of them. -/
def scanLe (query : κ) : Option α → List α → Option α
  | best, [] => best
  | best, item :: rest =>
      if key item ≤ query ∧ ∀ held ∈ best, key held ≤ key item then scanLe query (some item) rest
      else scanLe query best rest

/-- The scan ends with an item at the top, unless there is none. -/
theorem scanLe_atTop {query : κ} {best : Option α} {seen rest : List α}
    (before : ∀ item ∈ best, AtTop key seen query item)
    (absent : best = none → ∀ item ∈ seen, query < key item) :
    (∀ item ∈ scanLe key query best rest, AtTop key (seen ++ rest) query item) ∧
      (scanLe key query best rest = none → ∀ item ∈ seen ++ rest, query < key item) := by
  induction rest generalizing best seen with
  | nil =>
      rw [List.append_nil]
      exact ⟨before, absent⟩
  | cons item rest inductionHypothesis =>
      rw [scanLe, List.append_cons]
      split_ifs with better
      · apply inductionHypothesis
        · intro held isHeld
          obtain rfl := Option.some_inj.mp isHeld
          refine ⟨by simp, better.1, ?_⟩
          intro other member notAbove
          rcases List.mem_append.mp member with earlier | last
          · cases best with
            | none => exact absurd (absent rfl other earlier) (not_lt_of_ge notAbove)
            | some held =>
                exact ((before held rfl).greatest other earlier notAbove).trans (better.2 held rfl)
          · rw [List.mem_singleton.mp last]
        · intro isNone
          cases isNone
      · apply inductionHypothesis
        · intro held isHeld
          have top := before held isHeld
          refine ⟨List.mem_append_left _ top.mem, top.notAbove, ?_⟩
          intro other member notAbove
          rcases List.mem_append.mp member with earlier | last
          · exact top.greatest other earlier notAbove
          · rw [List.mem_singleton.mp last] at notAbove ⊢
            by_contra above
            refine better ⟨notAbove, ?_⟩
            intro held' isHeld'
            cases isHeld.symm.trans isHeld'
            exact le_of_not_ge above
        · intro isNone other member
          rcases List.mem_append.mp member with earlier | last
          · exact absent isNone other earlier
          · rw [List.mem_singleton.mp last]
            by_contra notAbove
            refine better ⟨le_of_not_gt notAbove, ?_⟩
            intro held isHeld
            rw [isNone] at isHeld
            cases isHeld

/-- A sort may arrange one list as it likes, and others by insertion. -/
theorem Arrangement.pinned [DecidableEq α] {items arranged : List α}
    (arrangement : Arrangement key items arranged) (others : List α) :
    Arrangement key others
      (if others = items then arranged else others.insertionSort (KeyLe key)) := by
  split_ifs with same
  · exact same ▸ arrangement
  · exact ⟨List.perm_insertionSort _ others, List.pairwise_insertionSort _ others⟩

/-- Items in an arrangement, with all later ones above the query. -/
theorem Arrangement.exists_last {items : List α} {query : κ} {item : α}
    (top : AtTop key items query item) :
    ∃ before after, Arrangement key items (before ++ item :: after) ∧
      ∀ other ∈ after, query < key other := by
  obtain ⟨front, back, rfl⟩ := List.append_of_mem top.mem
  refine ⟨((front ++ back).filter (key · ≤ key item)).insertionSort (KeyLe key),
    ((front ++ back).filter (fun other => ! decide (key other ≤ key item))).insertionSort
      (KeyLe key),
    ⟨?_, ?_⟩, ?_⟩
  · have parts := List.filter_append_perm (fun other => decide (key other ≤ key item))
      (front ++ back)
    have sortedParts := ((List.perm_insertionSort (KeyLe key) _).append
      (List.perm_insertionSort (KeyLe key) _)).trans parts
    exact List.perm_middle.trans ((sortedParts.cons item).trans List.perm_middle.symm)
  · refine List.pairwise_append.mpr ⟨List.pairwise_insertionSort _ _, ?_, ?_⟩
    · refine List.pairwise_cons.mpr ⟨?_, List.pairwise_insertionSort _ _⟩
      intro other member
      rw [List.mem_insertionSort] at member
      have above : ¬ key other ≤ key item := by simpa using (List.mem_filter.mp member).2
      exact le_of_not_ge above
    · intro low isLow other isOther
      rw [List.mem_insertionSort] at isLow
      have lowLe : key low ≤ key item := by simpa using (List.mem_filter.mp isLow).2
      rcases List.mem_cons.mp isOther with rfl | isHigh
      · exact lowLe
      · rw [List.mem_insertionSort] at isHigh
        have above : ¬ key other ≤ key item := by simpa using (List.mem_filter.mp isHigh).2
        exact lowLe.trans (le_of_not_ge above)
  · intro other member
    rw [List.mem_insertionSort] at member
    obtain ⟨inItems, isAbove⟩ := List.mem_filter.mp member
    have above : ¬ key other ≤ key item := by simpa using isAbove
    by_contra notAbove
    refine above (top.greatest other ?_ (le_of_not_gt notAbove))
    rcases List.mem_append.mp inItems with inFront | inBack
    · exact List.mem_append_left _ inFront
    · exact List.mem_append_right _ (List.mem_cons_of_mem _ inBack)

end Lists

/-! ### The last of the greatest -/

section LastGreatest

variable [LinearOrder κ] (key : α → κ)

/-- Of two items the one with the greater key is kept, and the second if the keys
are equal. -/
def keepLast (best : Option α) (item : α) : Option α :=
  if best.all fun held => key held ≤ key item then some item else best

/-- No key is greater than that of the item, and behind it all are lower. -/
def LastGreatest (items : List α) (item : α) : Prop :=
  ∃ before after, items = before ++ item :: after ∧ (∀ other ∈ before, key other ≤ key item) ∧
    ∀ other ∈ after, key other < key item

variable {key} {items : List α} {item : α}

theorem LastGreatest.mem (last : LastGreatest key items item) : item ∈ items := by
  obtain ⟨before, after, rfl, -, -⟩ := last
  simp

/-- An item other than the last of the greatest has a lower key, or stands before
it and has no greater one. -/
theorem LastGreatest.other {R : α → α → Prop} (last : LastGreatest key items item)
    (ordered : items.Pairwise R) {other : α} (member : other ∈ items) :
    other = item ∨ key other < key item ∨ (key other ≤ key item ∧ R other item) := by
  obtain ⟨before, after, rfl, notAbove, below⟩ := last
  rcases List.mem_append.mp member with earlier | fromHere
  · have stands : R other item :=
      (List.pairwise_append.mp ordered).2.2 other earlier item List.mem_cons_self
    exact Or.inr (Or.inr ⟨notAbove other earlier, stands⟩)
  · rcases List.mem_cons.mp fromHere with same | later
    · exact Or.inl same
    · exact Or.inr (Or.inl (below other later))

theorem LastGreatest.greatest (last : LastGreatest key items item) :
    ∀ other ∈ items, key other ≤ key item := by
  intro other member
  have anyOrder : items.Pairwise fun _ _ => True := List.pairwise_of_forall fun _ _ => trivial
  rcases last.other anyOrder member with rfl | lower | ⟨notAbove, -⟩
  · exact le_refl _
  · exact le_of_lt lower
  · exact notAbove

/-- One more item: it is kept unless its key is lower. -/
theorem LastGreatest.keepLast {held : α} (last : LastGreatest key items held) (next : α) :
    ∃ new, Support.keepLast key (some held) next = some new ∧
      LastGreatest key (items ++ [next]) new := by
  rw [Support.keepLast, Option.all_some]
  by_cases notBelow : key held ≤ key next
  · rw [if_pos (by simpa using notBelow)]
    refine ⟨next, rfl, items, [], rfl, ?_, by simp⟩
    intro other member
    exact (last.greatest other member).trans notBelow
  · rw [if_neg (by simpa using notBelow)]
    obtain ⟨before, after, rfl, notAbove, below⟩ := last
    refine ⟨held, rfl, before, after ++ [next], by simp, notAbove, ?_⟩
    intro other member
    rcases List.mem_append.mp member with earlier | isNext
    · exact below other earlier
    · rw [List.mem_singleton.mp isNext]
      exact lt_of_not_ge notBelow

variable (key) in
/-- The scan keeps the last of the greatest items, and nothing only if there is
none. -/
theorem foldl_keepLast (items : List α) :
    (items = [] ∧ items.foldl (keepLast key) none = none) ∨
      ∃ item, items.foldl (keepLast key) none = some item ∧ LastGreatest key items item := by
  induction items using List.reverseRecOn with
  | nil => exact Or.inl ⟨rfl, rfl⟩
  | append_singleton items next inductionHypothesis =>
      rw [List.foldl_concat]
      apply Or.inr
      rcases inductionHypothesis with ⟨rfl, none⟩ | ⟨held, some, last⟩
      · rw [none]
        exact ⟨next, rfl, [], [], rfl, by simp, by simp⟩
      · rw [some]
        exact last.keepLast next

/-- Items with their keys may be scanned for what the items stand for. -/
theorem foldl_keepLast_map {β : Type} (g : β → α) (items : List β) (best : Option β) :
    (items.map g).foldl (keepLast key) (best.map g) =
      (items.foldl (keepLast fun item => key (g item)) best).map g := by
  induction items generalizing best with
  | nil => rfl
  | cons item items inductionHypothesis =>
      have step : keepLast key (best.map g) (g item) =
          (keepLast (fun item => key (g item)) best item).map g := by
        cases best with
        | none => rfl
        | some held =>
            simp only [keepLast, Option.map_some, Option.all_some]
            split_ifs <;> rfl
      rw [List.map_cons, List.foldl_cons, List.foldl_cons, step]
      exact inductionHypothesis _

end LastGreatest

end Backwalk.Support
