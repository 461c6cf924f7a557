import AgenticPrd.Client.DiffRows

/-!
The segments of the line diff. They cover the rows once and in their order, show every row that is
near a change, and leave out runs of at least two rows.
-/

namespace AgenticPrd

namespace Client

namespace Diff

variable {rows : List DiffRow} {keep : List Bool} {headings : List (Option String)} {i j k n : Nat}

-- What a segment says of the rows that it stands for: the row, or nothing.
def DiffSegment.cells : DiffSegment → List (Option DiffRow)
  | .hunk _ rows => rows.map some
  | .skipped count => List.replicate count none

def DiffSegment.isHunk : DiffSegment → Bool
  | .hunk _ _ => true
  | .skipped _ => false

def ChangedAt (rows : List DiffRow) (i : Nat) : Prop :=
  ∃ row ∈ rows[i]?, row.kind ≠ .context

-- There is a change within three rows.
def NearChange (rows : List DiffRow) (i : Nat) : Prop :=
  ∃ j, ChangedAt rows j ∧ i ≤ j + contextLines ∧ j ≤ i + contextLines

structure Partitions (rows : List DiffRow) (segments : List DiffSegment) : Prop where
  length : (segments.flatMap DiffSegment.cells).length = rows.length
  inOrder :
    ∀ (i : Nat) (row : DiffRow),
      (segments.flatMap DiffSegment.cells)[i]? = some (some row) → rows[i]? = some row
  near :
    ∀ (i : Nat), i < rows.length → NearChange rows i →
      ∃ row, (segments.flatMap DiffSegment.cells)[i]? = some (some row)
  context :
    ∀ (i : Nat) (row : DiffRow),
      (segments.flatMap DiffSegment.cells)[i]? = some none → rows[i]? = some row →
        row.kind = .context
  hunks : ∀ heading hunk, DiffSegment.hunk heading hunk ∈ segments → hunk ≠ []
  skipped : ∀ count, DiffSegment.skipped count ∈ segments → minCollapseLines ≤ count
  alternate : segments.IsChain fun segment next => segment.isHunk ≠ next.isHunk

section Cells

-- What is shown of the rows, and what is left out.
def masked (rows : List DiffRow) (keep : List Bool) : List (Option DiffRow) :=
  rows.mapIdx fun i row => if keep[i]! then some row else none

theorem getElem?_masked (rows : List DiffRow) (keep : List Bool) (i : Nat) :
    (masked rows keep)[i]? = rows[i]?.map fun row => if keep[i]! then some row else none := by
  unfold masked
  rw [List.getElem?_mapIdx]

theorem drop_split {α : Type} {l : List α} (hle : i ≤ j) (hj : j ≤ l.length) :
    l.drop i = (l.take j).drop i ++ l.drop j := by
  conv_lhs => rw [← List.take_append_drop j l]
  have hzero : i - (l.take j).length = 0 := by
    rw [List.length_take]
    omega
  rw [List.drop_append, hzero, List.drop_zero]

theorem length_masked (rows : List DiffRow) (keep : List Bool) :
    (masked rows keep).length = rows.length := by
  unfold masked
  exact List.length_mapIdx

-- The cells of a run whose rows are kept, or not kept.
theorem masked_run {b : Bool} (hkeep : ∀ n, i ≤ n → n < j → keep[n]! = b) :
    ((masked rows keep).take j).drop i
      =
    ((rows.take j).drop i).map fun row => if b then some row else none := by
  apply List.ext_getElem?
  intro n
  rw [List.getElem?_map, List.getElem?_drop, List.getElem?_drop, List.getElem?_take,
    List.getElem?_take]
  split
  . next hlt =>
    rw [getElem?_masked, hkeep _ (by omega) hlt]
  . rfl

theorem segmentsFrom_cells (rows : List DiffRow) (keep : List Bool)
    (headings : List (Option String)) (index : Nat) :
    (segmentsFrom rows keep headings index).flatMap DiffSegment.cells
      =
    (masked rows keep).drop index := by
  fun_induction segmentsFrom rows keep headings index with
  | case1 index hindex hkeep stop hunk anchor ih =>
    have hstop : stop ≤ rows.length := countWhile_le hindex.le
    have hle : index ≤ stop := le_countWhile _ _ _
    have hrun : ∀ n, index ≤ n → n < stop → keep[n]! = true :=
      fun n hn hlt => countWhile_holds hn hlt
    rw [List.flatMap_cons, ih, drop_split hle (by rw [length_masked]; exact hstop), masked_run hrun]
    rfl
  | case2 index hindex hkeep stop ih =>
    have hstop : stop ≤ rows.length := countWhile_le hindex.le
    have hle : index ≤ stop := le_countWhile _ _ _
    have hrun : ∀ n, index ≤ n → n < stop → keep[n]! = false := by
      intro n hn hlt
      simpa using countWhile_holds hn hlt
    rw [List.flatMap_cons, ih, drop_split hle (by rw [length_masked]; exact hstop), masked_run hrun]
    simp [DiffSegment.cells, List.map_const', hstop]
  | case3 index hindex =>
    symm
    rw [List.flatMap_nil, List.drop_eq_nil_iff]
    unfold masked
    rw [List.length_mapIdx]
    omega

end Cells

section Marks

theorem length_marked (keep : List Bool) (marks : List Nat) :
    (marks.foldl (fun keep mark => keep.set mark true) keep).length = keep.length := by
  induction marks generalizing keep with
  | nil => rfl
  | cons mark marks ih =>
    rw [List.foldl_cons, ih, List.length_set]

theorem getElem!_marked (keep : List Bool) (marks : List Nat) (i : Nat) :
    (marks.foldl (fun keep mark => keep.set mark true) keep)[i]! = true
      ↔
    keep[i]! = true ∨ i ∈ marks ∧ i < keep.length := by
  induction marks generalizing keep with
  | nil => simp
  | cons mark marks ih =>
    rw [List.foldl_cons, ih, List.length_set, List.mem_cons, or_and_right, ← or_assoc]
    apply or_congr_left
    rw [List.getElem!_eq_getElem?_getD, List.getElem!_eq_getElem?_getD, List.getElem?_set]
    by_cases heq : mark = i
    . subst heq
      by_cases hlt : mark < keep.length
      . simp [hlt]
      . simp [hlt]
    . simp [heq, Ne.symm heq]

theorem getElem!_keepNear (hn : n = keep.length) (i : Nat) :
    (keepNear n keep k)[i]! = true
      ↔
    keep[i]! = true ∨ i < n ∧ i ≤ k + contextLines ∧ k ≤ i + contextLines := by
  unfold keepNear
  dsimp only
  rw [getElem!_marked, List.mem_range'_1]
  apply or_congr_right
  omega

theorem length_keepNear : (keepNear n keep k).length = keep.length :=
  length_marked _ _

-- After the first pass the rows near a change are kept.
def nearby (rows : List DiffRow) : List Bool :=
  let keep := rows.map fun row => decide (row.kind ≠ .context)
  (List.range rows.length).foldl (fun keep index =>
    if rows[index]?.map DiffRow.kind = some .context then
      keep
    else
      keepNear rows.length keep index) keep

theorem keptRows_eq (rows : List DiffRow) :
    keptRows rows
      =
    ((List.range (rows.length + 1)).foldl (keepGap rows.length) (nearby rows, 0)).1 :=
  rfl

-- One step of the first pass.
def keepAround (rows : List DiffRow) (keep : List Bool) (index : Nat) : List Bool :=
  if rows[index]?.map DiffRow.kind = some .context then
    keep
  else
    keepNear rows.length keep index

theorem foldl_keepAround (indices : List Nat) (hkeep : keep.length = rows.length) :
    (indices.foldl (keepAround rows) keep).length = rows.length
      ∧
    ∀ i : Nat, (indices.foldl (keepAround rows) keep)[i]! = true
      ↔
    keep[i]! = true
      ∨ ∃ index ∈ indices, rows[index]?.map DiffRow.kind ≠ some .context
          ∧ i < rows.length ∧ i ≤ index + contextLines ∧ index ≤ i + contextLines := by
  induction indices generalizing keep with
  | nil => simp [hkeep]
  | cons index indices ih =>
    by_cases hcontext : rows[index]?.map DiffRow.kind = some .context
    . have hstep : keepAround rows keep index = keep := if_pos hcontext
      obtain ⟨hlength, hrest⟩ := ih hkeep
      rw [List.foldl_cons, hstep]
      refine ⟨hlength, ?_⟩
      intro i
      rw [hrest, List.exists_mem_cons_iff]
      apply or_congr_right
      symm
      exact or_iff_right fun hindex => hindex.1 hcontext
    . have hstep : keepAround rows keep index = keepNear rows.length keep index := if_neg hcontext
      obtain ⟨hlength, hrest⟩ := ih (length_keepNear.trans hkeep)
      rw [List.foldl_cons, hstep]
      refine ⟨hlength, ?_⟩
      intro i
      rw [hrest, getElem!_keepNear hkeep.symm, List.exists_mem_cons_iff, or_assoc]
      simp only [ne_eq, hcontext, not_false_eq_true, true_and]

theorem changedAt_iff (hi : i < rows.length) :
    ChangedAt rows i ↔ rows[i]?.map DiffRow.kind ≠ some .context := by
  unfold ChangedAt
  rw [List.getElem?_eq_getElem hi]
  simp

theorem nearby_spec (rows : List DiffRow) :
    (nearby rows).length = rows.length
      ∧
    ∀ i : Nat, (nearby rows)[i]! = true ↔ i < rows.length ∧ NearChange rows i := by
  have hstart : (rows.map fun row => decide (row.kind ≠ .context)).length = rows.length :=
    List.length_map _
  obtain ⟨hlength, hmarked⟩ := foldl_keepAround (List.range rows.length) hstart
  refine ⟨hlength, ?_⟩
  intro i
  refine (hmarked i).trans ?_
  constructor
  . rintro (hchanged | ⟨index, hindex, hchanged, hi, hnear⟩)
    . have hi : i < rows.length := by
        by_contra hge
        rw [List.getElem!_eq_getElem?_getD, List.getElem?_eq_none (by simpa using hge)] at hchanged
        contradiction
      refine ⟨hi, i, ?_, by omega, by omega⟩
      rw [List.getElem!_eq_getElem?_getD, List.getElem?_map, List.getElem?_eq_getElem hi] at hchanged
      rw [changedAt_iff hi, List.getElem?_eq_getElem hi]
      simpa using hchanged
    . exact ⟨hi, index, (changedAt_iff (List.mem_range.mp hindex)).mpr hchanged, hnear⟩
  . rintro ⟨hi, index, hchanged, hnear⟩
    have hindex : index < rows.length := by
      obtain ⟨row, hrow, _⟩ := hchanged
      exact (List.getElem?_eq_some_iff.mp hrow).1
    exact .inr ⟨index, List.mem_range.mpr hindex, (changedAt_iff hindex).mp hchanged, hi, hnear⟩

end Marks

section Gaps

-- A row that is left out is not left out alone.
def NoLoneGap (keep : List Bool) (n : Nat) : Prop :=
  ∀ i : Nat, i < n → keep[i]! = false →
    (1 ≤ i ∧ keep[i - 1]! = false) ∨ (i + 1 < n ∧ keep[i + 1]! = false)

/--
The rows before `k` after the second pass has gone through them: the last `run` of them are not
kept, and they follow one that is.
-/
structure Closing (start : List Bool) (k : Nat) (state : List Bool × Nat) : Prop where
  length : state.1.length = start.length
  kept : ∀ i : Nat, start[i]! = true → state.1[i]! = true
  le : state.2 ≤ k
  run : ∀ i : Nat, k - state.2 ≤ i → i < k → state.1[i]! = false
  closed : NoLoneGap state.1 (k - state.2)

variable {start : List Bool} {run : Nat}

-- Where a run ends, it is kept unless it is long enough.
def closeRun (keep : List Bool) (run k : Nat) : List Bool :=
  if run > 0 ∧ run < minCollapseLines then
    (List.range' (k - run) run).foldl (fun keep back => keep.set back true) keep
  else
    keep

theorem keepGap_eq (keep : List Bool) :
    keepGap n (keep, run) k
      =
    if k < n ∧ ¬keep[k]! then (keep, run + 1) else (closeRun keep run k, 0) := by
  unfold keepGap closeRun
  dsimp only
  split
  . rfl
  . split <;> rfl

theorem getElem!_closeRun (h : Closing start k (keep, run)) (hk : k ≤ start.length) (i : Nat) :
    (closeRun keep run k)[i]! = true ↔ keep[i]! = true ∨ run = 1 ∧ i + 1 = k := by
  have hle : run ≤ k := h.le
  have hlength : keep.length = start.length := h.length
  unfold closeRun minCollapseLines
  split
  . rw [getElem!_marked, List.mem_range'_1]
    apply or_congr_right
    omega
  . next hrun =>
    have hnot : run ≠ 1 := by omega
    simp [hnot]

theorem Closing.close (h : Closing start k (keep, run)) (hk : k ≤ start.length) :
    NoLoneGap (closeRun keep run k) k := by
  have hle : run ≤ k := h.le
  have hfalse : ∀ i : Nat, (closeRun keep run k)[i]! = false
      ↔ keep[i]! = false ∧ ¬(run = 1 ∧ i + 1 = k) := by
    intro i
    rw [← Bool.not_eq_true, getElem!_closeRun h hk, not_or, Bool.not_eq_true]
  intro i hi hnone
  simp only [hfalse] at hnone ⊢
  by_cases hlast : i < k - run
  . rcases h.closed i hlast hnone.1 with ⟨hpos, hleft⟩ | ⟨hlt, hright⟩
    . exact .inl ⟨hpos, hleft, by omega⟩
    . dsimp only at hlt
      exact .inr ⟨by omega, hright, by omega⟩
  . -- The run is longer than one, and has a row beside this one.
    have hmore : 2 ≤ run := by omega
    by_cases hfirst : k - run < i
    . exact .inl ⟨by omega, h.run (i - 1) (by dsimp only; omega) (by omega), by omega⟩
    . exact .inr ⟨by omega, h.run (i + 1) (by dsimp only; omega) (by omega), by omega⟩

theorem Closing.step (h : Closing start k (keep, run)) (hk : k < start.length) :
    Closing start (k + 1) (keepGap start.length (keep, run) k) := by
  have hle : run ≤ k := h.le
  rw [keepGap_eq]
  split
  . next hopen =>
    have hsame : k + 1 - (run + 1) = k - run := by omega
    constructor
    . exact h.length
    . exact h.kept
    . exact Nat.succ_le_succ hle
    . intro i hi hlt
      dsimp only at hi
      by_cases heq : i = k
      . rw [heq]
        simpa using hopen.2
      . exact h.run i (by dsimp only; omega) (by omega)
    . dsimp only
      rw [hsame]
      exact h.closed
  . next hclosed =>
    have hkept : keep[k]! = true := by
      by_contra hnot
      exact hclosed ⟨hk, hnot⟩
    have hmark := getElem!_closeRun h hk.le
    constructor
    . dsimp only
      unfold closeRun
      split
      . rw [length_marked]
        exact h.length
      . exact h.length
    . intro i hi
      exact (hmark i).mpr (.inl (h.kept i hi))
    . exact Nat.zero_le _
    . intro i hi hlt
      dsimp only at hi
      omega
    . intro i hi hnone
      dsimp only at hi hnone
      by_cases heq : i = k
      . rw [heq, (hmark k).mpr (.inl hkept)] at hnone
        contradiction
      . rcases h.close hk.le i (by omega) hnone with hleft | ⟨hlt, hright⟩
        . exact .inl hleft
        . exact .inr ⟨by omega, hright⟩

theorem closing_foldl (start : List Bool) (hk : k ≤ start.length) :
    Closing start k ((List.range k).foldl (keepGap start.length) (start, 0)) := by
  induction k with
  | zero =>
    constructor
    . rfl
    . exact fun _ hi => hi
    . exact Nat.le_refl _
    . intro i _ hlt
      omega
    . intro i hi
      omega
  | succ k ih =>
    rw [List.range_succ, List.foldl_append, List.foldl_cons, List.foldl_nil]
    exact (ih (by omega)).step (by omega)

-- After the second pass no row is left out alone, and none is left out that was kept.
theorem keptRows_spec (rows : List DiffRow) :
    (∀ i : Nat, (nearby rows)[i]! = true → (keptRows rows)[i]! = true)
      ∧
    NoLoneGap (keptRows rows) rows.length := by
  have hlength := (nearby_spec rows).1
  have hclosing := closing_foldl (nearby rows) (Nat.le_refl _)
  rw [hlength] at hclosing
  rw [keptRows_eq, List.range_succ, List.foldl_append, List.foldl_cons, List.foldl_nil]
  generalize (List.range rows.length).foldl (keepGap rows.length) (nearby rows, 0) = state
    at hclosing ⊢
  obtain ⟨keep, run⟩ := state
  rw [keepGap_eq, if_neg (by omega)]
  constructor
  . intro i hi
    exact (getElem!_closeRun hclosing hlength.ge i).mpr (.inl (hclosing.kept i hi))
  . exact hclosing.close hlength.ge

end Gaps

section Segments

theorem countWhile_stop {limit : Nat} {cond : Nat → Bool} (hlt : countWhile limit cond n < limit) :
    cond (countWhile limit cond n) = false := by
  fun_induction countWhile limit cond n with
  | case1 n _ _ ih => exact ih hlt
  | case2 n _ hcond => simpa using hcond
  | case3 => omega

theorem head_segmentsFrom (rows : List DiffRow) (keep : List Bool)
    (headings : List (Option String)) (index : Nat) :
    ∀ first ∈ (segmentsFrom rows keep headings index).head?,
      index < rows.length ∧ first.isHunk = keep[index]! := by
  intro first hfirst
  unfold segmentsFrom at hfirst
  split at hfirst
  . next hindex =>
    split at hfirst
    . next hkeep =>
      cases hfirst
      exact ⟨hindex, hkeep.symm⟩
    . next hskip =>
      cases hfirst
      refine ⟨hindex, ?_⟩
      rw [Bool.eq_false_of_not_eq_true hskip]
      rfl
  . contradiction

theorem hunk_ne_nil {heading : Option String} {hunk : List DiffRow} (index : Nat)
    (h : .hunk heading hunk ∈ segmentsFrom rows keep headings index) : hunk ≠ [] := by
  fun_induction segmentsFrom rows keep headings index with
  | case1 index hindex hkeep stop shown anchor ih =>
    rcases List.mem_cons.mp h with hsame | hrest
    . have hlt : index < stop := lt_countWhile hindex hkeep
      have hstop : stop ≤ rows.length := countWhile_le hindex.le
      rw [(DiffSegment.hunk.inj hsame).2, ne_eq, List.drop_eq_nil_iff, List.length_take]
      omega
    . exact ih hrest
  | case2 index hindex hskip stop ih =>
    rcases List.mem_cons.mp h with hsame | hrest
    . contradiction
    . exact ih hrest
  | case3 => contradiction

-- A segment ends where the rows turn from kept to left out, or the other way.
theorem alternate_segmentsFrom (rows : List DiffRow) (keep : List Bool)
    (headings : List (Option String)) (index : Nat) :
    (segmentsFrom rows keep headings index).IsChain
      fun segment next => segment.isHunk ≠ next.isHunk := by
  fun_induction segmentsFrom rows keep headings index with
  | case1 index hindex hkeep stop shown anchor ih =>
    rw [List.isChain_cons]
    refine ⟨?_, ih⟩
    intro next hnext
    obtain ⟨hstop, hkind⟩ := head_segmentsFrom rows keep headings stop next hnext
    have hended : keep[stop]! = false := countWhile_stop hstop
    rw [hkind, hended]
    exact Ne.symm Bool.false_ne_true
  | case2 index hindex hskip stop ih =>
    rw [List.isChain_cons]
    refine ⟨?_, ih⟩
    intro next hnext
    obtain ⟨hstop, hkind⟩ := head_segmentsFrom rows keep headings stop next hnext
    have hended : (!keep[stop]!) = false := countWhile_stop hstop
    rw [Bool.not_eq_false'] at hended
    rw [hkind, hended]
    exact Bool.false_ne_true
  | case3 => exact .nil

theorem le_skipped {count : Nat} (index : Nat) (hgap : NoLoneGap keep rows.length)
    (hbefore : index = 0 ∨ keep[index - 1]! ≠ keep[index]! ∨ rows.length ≤ index)
    (h : .skipped count ∈ segmentsFrom rows keep headings index) : minCollapseLines ≤ count := by
  fun_induction segmentsFrom rows keep headings index with
  | case1 index hindex hkeep stop shown anchor ih =>
    rcases List.mem_cons.mp h with hsame | hrest
    . contradiction
    . apply ih _ hrest
      have hlt : index < stop := lt_countWhile hindex hkeep
      by_cases hend : rows.length ≤ stop
      . exact .inr (.inr hend)
      . have hinside : stop - 1 < stop := by omega
        have hlast : keep[stop - 1]! = true := countWhile_holds (Nat.le_sub_one_of_lt hlt) hinside
        have hended : keep[stop]! = false := countWhile_stop (Nat.lt_of_not_le hend)
        rw [hlast, hended]
        exact .inr (.inl (Ne.symm Bool.false_ne_true))
  | case2 index hindex hskip stop ih =>
    have hnot : keep[index]! = false := Bool.eq_false_of_not_eq_true hskip
    have hlt : index < stop := lt_countWhile hindex (by rw [hnot]; rfl)
    rcases List.mem_cons.mp h with hsame | hrest
    . -- A run of one row would be a lone gap.
      have hlone : stop ≠ index + 1 := by
        intro hstop
        rcases hgap index hindex hnot with ⟨hpos, hleft⟩ | ⟨hnext, hright⟩
        . rcases hbefore with hzero | hne | hge
          . omega
          . rw [hleft, hnot] at hne
            contradiction
          . omega
        . have hinside : stop < rows.length := by omega
          have hended : (!keep[stop]!) = false := countWhile_stop hinside
          rw [hstop, hright] at hended
          contradiction
      have hcount : count = stop - index := DiffSegment.skipped.inj hsame
      unfold minCollapseLines
      omega
    . apply ih _ hrest
      by_cases hend : rows.length ≤ stop
      . exact .inr (.inr hend)
      . have hinside : stop - 1 < stop := by omega
        have hlast : (!keep[stop - 1]!) = true :=
          countWhile_holds (Nat.le_sub_one_of_lt hlt) hinside
        have hended : (!keep[stop]!) = false := countWhile_stop (Nat.lt_of_not_le hend)
        rw [Bool.not_eq_true'] at hlast
        rw [Bool.not_eq_false'] at hended
        rw [hlast, hended]
        exact .inr (.inl Bool.false_ne_true)
  | case3 => contradiction

/--
The hunks and the counts of the skipped segments account for every row once and in order. What is
near a change is shown, what is skipped is context and more than one row, and the two alternate.
-/
theorem segmentsFor_partitions (rows : List DiffRow) : Partitions rows (segmentsFor rows) := by
  obtain ⟨hkept, hgap⟩ := keptRows_spec rows
  have hcells := segmentsFrom_cells rows (keptRows rows) (headingsFor rows) 0
  rw [List.drop_zero] at hcells
  change (segmentsFor rows).flatMap DiffSegment.cells = _ at hcells
  have hnear : ∀ i : Nat, i < rows.length → NearChange rows i → (keptRows rows)[i]! = true := by
    intro i hi hchange
    exact hkept i (((nearby_spec rows).2 i).mpr ⟨hi, hchange⟩)
  exact {
    length := by
      rw [hcells, length_masked]
    inOrder := by
      intro i row hcell
      rw [hcells, getElem?_masked] at hcell
      obtain ⟨row', hrow, hshown⟩ := Option.map_eq_some_iff.mp hcell
      split at hshown
      . cases hshown
        exact hrow
      . contradiction
    near := by
      intro i hi hchange
      rw [hcells, getElem?_masked, List.getElem?_eq_getElem hi, Option.map_some,
        if_pos (hnear i hi hchange)]
      exact ⟨_, rfl⟩
    context := by
      intro i row hcell hrow
      by_contra hchanged
      have hi := (List.getElem?_eq_some_iff.mp hrow).1
      rw [hcells, getElem?_masked, hrow, Option.map_some,
        if_pos (hnear i hi ⟨i, ⟨row, hrow, hchanged⟩, by omega, by omega⟩), Option.some.injEq] at hcell
      contradiction
    hunks := fun _ _ => hunk_ne_nil 0
    skipped := fun _ => le_skipped 0 hgap (.inl rfl)
    alternate := alternate_segmentsFrom _ _ _ 0
  }

end Segments

end Diff

end Client

end AgenticPrd
