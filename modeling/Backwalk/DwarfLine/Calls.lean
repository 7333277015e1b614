import Backwalk.DwarfLine.Invariant

/-!
Contract: what holds of a table through any sequence of `bw_dwarf_tab_reset` and
`bw_dwarf_tab_parse` calls on it, over arbitrary images.

Owns the sequence of all tables that such calls go through, each change of a
row or of the pool being one, and what a later table keeps of an earlier one as
long as nothing is reset.
-/

namespace Backwalk.DwarfLine

open Backwalk.Support

/-! ### Calls -/

/-- The state in which the unit loop over the line section ends. -/
def unitsEnd (img : Image) (tab : Tab) : State :=
  stateAfter (bwUnits img (img.line.len + 1)) (startState img tab)

/-- The tables that the unit loop goes through, the first one included. -/
def unitTables (img : Image) (tab : Tab) : List Tab :=
  if img.line.ptr = 0 ∨ img.line.len = 0 then [] else (unitsEnd img tab).tabs

/-- A call on a table. -/
inductive Call where
  | reset
  | parse (img : Image) (qsort : Qsort)

namespace Call

/-- The table a call leaves, `none` if the process was killed in it. -/
def after (tab : Tab) : Call → Option Tab
  | reset => some (bwDwarfTabReset tab)
  | parse img qsort =>
      match bwDwarfTabParse img qsort tab with
      | .returned _ tab' => some tab'
      | .crashed _ _ => none

/-- What killed the process in a call. -/
def crash (tab : Tab) : Call → Option Stop
  | reset => none
  | parse img qsort =>
      match bwDwarfTabParse img qsort tab with
      | .returned _ _ => none
      | .crashed why _ => some why

/-- The tables a call goes through. -/
def through (tab : Tab) : Call → List Tab
  | reset => [bwDwarfTabReset tab]
  | parse img qsort => unitTables img tab ++ (after tab (parse img qsort)).toList

end Call

/-- The table after a sequence of calls. -/
def afterCalls : List Call → Tab → Option Tab
  | [], tab => some tab
  | call :: rest, tab => (call.after tab).bind (afterCalls rest)

/-- All tables of a sequence of calls, the first one included. -/
def tables : List Call → Tab → List Tab
  | [], tab => [tab]
  | call :: rest, tab =>
      (tab :: call.through tab) ++
        match call.after tab with
        | some tab' => tables rest tab'
        | none => []

/-! ### What is kept -/

/-- The pool of `tab'` still has the bytes of `tab`, and its rows still have the
rows of `tab`, which denote the same file names. -/
structure Keeps (tab tab' : Tab) : Prop where
  nstr : tab.nstr ≤ tab'.nstr
  strs : ∀ index < tab.nstr, tab'.strs index = tab.strs index
  rows : ∀ row ∈ tab.rows, row ∈ tab'.rows ∧ tab'.text row.nameOff = tab.text row.nameOff

theorem Keeps.trans {first second third : Tab} (one : Keeps first second)
    (two : Keeps second third) : Keeps first third where
  nstr := one.nstr.trans two.nstr
  strs := fun index below => by
    rw [two.strs index (lt_of_lt_of_le below one.nstr), one.strs index below]
  rows := fun row member => by
    obtain ⟨kept, text⟩ := one.rows row member
    obtain ⟨kept', text'⟩ := two.rows row kept
    exact ⟨kept', text'.trans text⟩

theorem Keeps.refl (tab : Tab) : Keeps tab tab :=
  ⟨le_refl _, fun _ _ => rfl, fun _ member => ⟨member, rfl⟩⟩

/-- A string of the pool is not touched by what comes after it. -/
theorem text_of_extends {tab tab' : Tab} {off : Nat} (more : Extends tab tab')
    (limit : tab.nstr ≤ bwDwarfStrMax) (ok : OffOk tab off) : tab'.text off = tab.text off := by
  obtain ⟨index, after, below, zero⟩ := ok
  have same : tab'.cstr off = tab.cstr off := by
    refine cstrFrom_moved (index - off) (fun k within => ?_) ?_ (by omega) (by omega)
    · exact more.strs (off + k) (by omega)
    · rwa [show off + (index - off) = index by omega]
  rw [Tab.text, Tab.text, same]

theorem Keeps.of_extends {tab tab' : Tab} (more : Extends tab tab') (ok : TabOk tab) :
    Keeps tab tab' where
  nstr := more.nstr
  strs := more.strs
  rows := fun row member =>
    ⟨more.rows.subset member, text_of_extends more ok.nstr (ok.rows row member).name⟩

/-- Reordering the rows keeps them. -/
theorem Keeps.of_perm {tab : Tab} {rows : List Row} (perm : rows.Perm tab.rows) :
    Keeps tab { tab with rows := rows } :=
  ⟨le_refl _, fun _ _ => rfl, fun _ member => ⟨perm.mem_iff.mpr member, rfl⟩⟩

theorem TabOk.of_perm {tab : Tab} {rows : List Row} (perm : rows.Perm tab.rows) (ok : TabOk tab) :
    TabOk { tab with rows := rows } where
  nrow := by
    rw [Tab.nrow, perm.length_eq]
    exact ok.nrow
  nstr := ok.nstr
  rows := fun row member => by
    obtain ⟨addr, line, width, name⟩ := ok.rows row (perm.mem_iff.mp member)
    exact ⟨addr, line, width, name⟩

theorem tabOk_reset {tab : Tab} : TabOk (bwDwarfTabReset tab) :=
  ⟨Nat.zero_le _, Nat.zero_le _, fun _ member => nomatch member⟩

/-! ### One call -/

section OneCall

variable {img : Image} {qsort : Qsort} {tab : Tab}

/-- The unit loop is left for a fault or answers. -/
theorem bwUnits_stops {fuel : Nat} {s t : State} {why : Stop}
    (ended : bwUnits img fuel s = .error why t) : ∃ fault, why = .fault fault := by
  induction fuel generalizing s with
  | zero => cases ended; exact ⟨_, rfl⟩
  | succ fuel inductionHypothesis =>
      unfold bwUnits at ended
      split_ifs at ended
      cases unit : bwParseUnit img s with
      | ok exit u => rw [unit] at ended; exact inductionHypothesis ended
      | error reason u =>
          rw [unit] at ended
          cases reason with
          | short => cases ended
          | malformed => cases ended
          | fault fault => cases ended; exact ⟨fault, rfl⟩

/-- The four ways in which a parse ends. -/
theorem bwDwarfTabParse_cases (img : Image) (qsort : Qsort) (tab : Tab) :
    ((img.line.ptr = 0 ∨ img.line.len = 0) ∧
      bwDwarfTabParse img qsort tab = .returned false tab) ∨
    (¬ (img.line.ptr = 0 ∨ img.line.len = 0) ∧
      (bwDwarfTabParse img qsort tab = .returned false (unitsEnd img tab).tab ∨
        bwDwarfTabParse img qsort tab = .returned true { (unitsEnd img tab).tab with
          rows := qsort.sort (unitsEnd img tab).tab.rows } ∨
        ∃ why, bwParseUnits img tab = .error why (unitsEnd img tab) ∧
          bwDwarfTabParse img qsort tab = .crashed why (unitsEnd img tab).tab)) := by
  unfold bwDwarfTabParse unitsEnd
  by_cases empty : img.line.ptr = 0 ∨ img.line.len = 0
  · exact Or.inl ⟨empty, if_pos empty⟩
  · refine Or.inr ⟨empty, ?_⟩
    rw [if_neg empty]
    cases ended : bwParseUnits img tab with
    | ok _ s =>
        rw [stateAfter_of_ok ended]
        by_cases none : s.tab.nrow = 0
        · exact Or.inl (if_pos none)
        · exact Or.inr (Or.inl (if_neg none))
    | error why s =>
        rw [stateAfter_of_error ended]
        exact Or.inr (Or.inr ⟨why, rfl, rfl⟩)

/-- The invariant and the log at the end of the unit loop. -/
theorem unitsEnd_ok (ok : TabOk tab) (present : ¬ (img.line.ptr = 0 ∨ img.line.len = 0)) :
    StateOk (unitsEnd img tab) ∧ tab ∈ (unitsEnd img tab).tabs := by
  have safe : Safe _ (bwParseUnits img tab) :=
    bwParseUnits_safe ok fun absent => present (Or.inl absent)
  have grown : Grown img (startState img tab) (unitsEnd img tab) :=
    Develops.after (m := bwUnits img (img.line.len + 1)) _
  refine ⟨?_, grown.tabs.subset (List.mem_singleton_self tab)⟩
  unfold unitsEnd
  cases ended : bwParseUnits img tab with
  | ok _ s => exact stateAfter_of_ok ended ▸ (safe.ok ended).1
  | error why s => exact stateAfter_of_error ended ▸ (safe.error ended).1

/-- What a call that returns leaves is the last table it went through. -/
theorem Call.after_mem_through {call : Call} {tab' : Tab} (left : call.after tab = some tab') :
    tab' ∈ call.through tab := by
  cases call with
  | reset => cases left; exact List.mem_singleton_self _
  | parse img qsort => simp [Call.through, left]

/-- The end of a parse does no more than reorder the rows. -/
theorem parse_after_keeps {tab' : Tab} (ok : TabOk tab)
    (present : ¬ (img.line.ptr = 0 ∨ img.line.len = 0))
    (left : Call.after tab (.parse img qsort) = some tab') :
    Keeps (unitsEnd img tab).tab tab' ∧ TabOk tab' := by
  have endOk := (unitsEnd_ok ok present).1.tab
  rcases bwDwarfTabParse_cases img qsort tab with ⟨absent, -⟩ | ⟨-, result | result | crashed⟩
  · exact absurd absent present
  · simp only [Call.after, result, Option.some.injEq] at left
    exact left ▸ ⟨Keeps.refl _, endOk⟩
  · simp only [Call.after, result, Option.some.injEq] at left
    exact left ▸ ⟨Keeps.of_perm (qsort.perm _), endOk.of_perm (qsort.perm _)⟩
  · obtain ⟨why, -, result⟩ := crashed
    simp [Call.after, result] at left

/-- The tables of a parse, the one before it included: each is kept by all that
come later. -/
theorem parse_through_keeps (img : Image) (qsort : Qsort) (ok : TabOk tab) :
    (tab :: Call.through tab (.parse img qsort)).Pairwise Keeps ∧
      ∀ passed ∈ Call.through tab (.parse img qsort), TabOk passed := by
  by_cases absent : img.line.ptr = 0 ∨ img.line.len = 0
  · have result : bwDwarfTabParse img qsort tab = .returned false tab := if_pos absent
    simp only [Call.through, unitTables, if_pos absent, Call.after, result, Option.toList_some,
      List.nil_append, List.mem_singleton, forall_eq, List.pairwise_pair]
    exact ⟨Keeps.refl tab, ok⟩
  · obtain ⟨stateOk, first⟩ := unitsEnd_ok ok absent
    have chain : (unitsEnd img tab).tabs.Pairwise Keeps :=
      stateOk.chain.imp_of_mem fun member _ more => Keeps.of_extends more (stateOk.tabs _ member)
    have fromFirst : ∀ passed ∈ (unitsEnd img tab).tabs, Keeps tab passed := by
      obtain ⟨rest, split⟩ : [tab] <+: (unitsEnd img tab).tabs :=
        (Develops.after (R := Grown img) (m := bwUnits img (img.line.len + 1))
          (startState img tab)).tabs
      intro passed member
      rw [← split, List.singleton_append] at chain member
      rcases List.mem_cons.mp member with isFirst | later
      · exact isFirst ▸ Keeps.refl tab
      · exact (List.pairwise_cons.mp chain).1 passed later
    have toLast : ∀ passed ∈ (unitsEnd img tab).tabs, Keeps passed (unitsEnd img tab).tab :=
      fun passed member => Keeps.of_extends (stateOk.later passed member) (stateOk.tabs _ member)
    have last : ∀ final ∈ (Call.after tab (.parse img qsort)).toList,
        Keeps (unitsEnd img tab).tab final ∧ TabOk final :=
      fun final member => parse_after_keeps ok absent (Option.mem_toList.mp member)
    simp only [Call.through, unitTables, if_neg absent]
    constructor
    · refine List.pairwise_cons.mpr ⟨fun passed member => ?_, List.pairwise_append.mpr
        ⟨chain, ?_, fun passed member final isLast => ?_⟩⟩
      · rcases List.mem_append.mp member with inLoop | isLast
        · exact fromFirst passed inLoop
        · exact (toLast tab first).trans (last passed isLast).1
      · cases Call.after tab (.parse img qsort) <;> simp
      · exact (toLast passed member).trans (last final isLast).1
    · intro passed member
      rcases List.mem_append.mp member with inLoop | isLast
      · exact stateOk.tabs passed inLoop
      · exact (last passed isLast).2

theorem parse_keeps_after {tab' : Tab} (ok : TabOk tab)
    (left : Call.after tab (.parse img qsort) = some tab') :
    ∀ passed ∈ tab :: Call.through tab (.parse img qsort), Keeps passed tab' := by
  have keeps := (parse_through_keeps img qsort ok).1
  have split : tab :: Call.through tab (.parse img qsort) =
      (tab :: unitTables img tab) ++ [tab'] := by
    simp [Call.through, left]
  rw [split] at keeps ⊢
  intro passed member
  rcases List.mem_append.mp member with earlier | isLast
  · exact (List.pairwise_append.mp keeps).2.2 passed earlier tab' (List.mem_singleton_self _)
  · exact List.mem_singleton.mp isLast ▸ Keeps.refl _

theorem Call.through_ok {call : Call} (ok : TabOk tab) :
    ∀ passed ∈ call.through tab, TabOk passed := by
  cases call with
  | reset =>
      intro passed member
      rw [List.mem_singleton.mp member]
      exact tabOk_reset
  | parse img qsort => exact (parse_through_keeps _ _ ok).2

theorem Call.after_ok {call : Call} {tab' : Tab} (ok : TabOk tab)
    (left : call.after tab = some tab') : TabOk tab' :=
  Call.through_ok ok tab' (Call.after_mem_through left)

/-- Nothing but an unmapped address kills the process. -/
theorem Call.crash_segv {call : Call} {why : Stop} (ok : TabOk tab)
    (crashed : call.crash tab = some why) : ∃ addr, why = .fault (.segv addr) := by
  cases call with
  | reset => cases crashed
  | parse img qsort =>
      rcases bwDwarfTabParse_cases img qsort tab with
        ⟨absent, result⟩ | ⟨present, result | result | ⟨reason, ended, result⟩⟩
      · simp [Call.crash, result] at crashed
      · simp [Call.crash, result] at crashed
      · simp [Call.crash, result] at crashed
      · simp only [Call.crash, result, Option.some.injEq] at crashed
        subst crashed
        have safe : Safe _ (bwParseUnits img tab) :=
          bwParseUnits_safe ok fun absent => present (Or.inl absent)
        have benign := (safe.error ended).2
        obtain ⟨fault, rfl⟩ := bwUnits_stops ended
        cases fault with
        | segv addr => exact ⟨addr, rfl⟩
        | index array index => exact benign.elim
        | divZero => exact benign.elim
        | fuel => exact benign.elim

/-- A parse that returns true has sorted the rows. -/
theorem bwDwarfTabParse_sorted {tab' : Tab}
    (result : bwDwarfTabParse img qsort tab = .returned true tab') :
    tab'.rows.Pairwise fun first second => first.addr ≤ second.addr := by
  rcases bwDwarfTabParse_cases img qsort tab with
    ⟨-, other⟩ | ⟨-, other | other | ⟨_, -, other⟩⟩
  · cases result.symm.trans other
  · cases result.symm.trans other
  · cases result.symm.trans other
    exact qsort.sorted _
  · cases result.symm.trans other

end OneCall

/-! ### Sequences of calls -/

theorem afterCalls_ok {calls : List Call} {tab tab' : Tab} (ok : TabOk tab)
    (left : afterCalls calls tab = some tab') : TabOk tab' := by
  induction calls generalizing tab with
  | nil => cases left; exact ok
  | cons call rest inductionHypothesis =>
      obtain ⟨mid, first, later⟩ := Option.bind_eq_some_iff.mp left
      exact inductionHypothesis (Call.after_ok ok first) later

theorem tables_ok {calls : List Call} {tab : Tab} (ok : TabOk tab) :
    ∀ passed ∈ tables calls tab, TabOk passed := by
  induction calls generalizing tab with
  | nil => exact fun passed member => List.mem_singleton.mp member ▸ ok
  | cons call rest inductionHypothesis =>
      intro passed member
      rcases List.mem_append.mp member with now | later
      · rcases List.mem_cons.mp now with isFirst | inCall
        · exact isFirst ▸ ok
        · exact Call.through_ok ok passed inCall
      · cases left : call.after tab with
        | none => rw [left] at later; cases later
        | some mid =>
            rw [left] at later
            exact inductionHypothesis (Call.after_ok ok left) passed later

/-- The first table of a sequence is the one it starts from. -/
theorem tables_head (calls : List Call) (tab : Tab) : ∃ rest, tables calls tab = tab :: rest := by
  cases calls with
  | nil => exact ⟨[], rfl⟩
  | cons call rest => exact ⟨_, rfl⟩

/-- Without a reset, every table is kept by all that come later. -/
theorem tables_keeps {calls : List Call} {tab : Tab} (ok : TabOk tab)
    (parses : ∀ call ∈ calls, call ≠ .reset) : (tables calls tab).Pairwise Keeps := by
  induction calls generalizing tab with
  | nil => exact List.pairwise_singleton _ _
  | cons call rest inductionHypothesis =>
      cases call with
      | reset => exact absurd rfl (parses _ List.mem_cons_self)
      | parse img qsort =>
          have keeps := (parse_through_keeps img qsort ok).1
          unfold tables
          cases left : Call.after tab (.parse img qsort) with
          | none => simpa using keeps
          | some mid =>
              have keepsRest := inductionHypothesis (Call.after_ok ok left)
                fun other member => parses other (List.mem_cons_of_mem _ member)
              refine List.pairwise_append.mpr ⟨keeps, keepsRest, fun passed now final later => ?_⟩
              have toMid := parse_keeps_after ok left passed now
              obtain ⟨others, split⟩ := tables_head rest mid
              rw [split] at keepsRest
              have found : final ∈ mid :: others :=
                split ▸ (show final ∈ tables rest mid from later)
              rcases List.mem_cons.mp found with isMid | further
              · exact isMid ▸ toMid
              · exact toMid.trans ((List.pairwise_cons.mp keepsRest).1 final further)

/-- The table invariant, for every sequence of calls on a zeroed table. It holds
of every table the calls go through; as long as nothing is reset, a later table
keeps the pool and the rows of an earlier one, and each row its file name; an
unmapped address is the only thing that can kill the process; and a parse that
returns true leaves its rows sorted. -/
theorem calls_keep_table (calls : List Call) :
    (∀ tab ∈ tables calls Tab.zeroed, TabOk tab) ∧
    (∀ earlier parses tab, calls = earlier ++ parses → (∀ call ∈ parses, call ≠ .reset) →
      afterCalls earlier Tab.zeroed = some tab → (tables parses tab).Pairwise Keeps) ∧
    (∀ earlier call later tab, calls = earlier ++ call :: later →
      afterCalls earlier Tab.zeroed = some tab →
        (∀ why, call.crash tab = some why → ∃ addr, why = .fault (.segv addr)) ∧
        ∀ img qsort tab', call = .parse img qsort →
          bwDwarfTabParse img qsort tab = .returned true tab' →
            tab'.rows.Pairwise fun first second => first.addr ≤ second.addr) := by
  refine ⟨tables_ok tabOk_zeroed, ?_, ?_⟩
  · intro earlier parses tab _ noReset left
    exact tables_keeps (afterCalls_ok tabOk_zeroed left) noReset
  · intro earlier call later tab _ left
    refine ⟨fun why crashed => Call.crash_segv (afterCalls_ok tabOk_zeroed left) crashed, ?_⟩
    intro img qsort tab' _ result
    exact bwDwarfTabParse_sorted result

end Backwalk.DwarfLine
