import AgenticPrd.Client.ReadingRows

/-!
The sections of the block diff. Every change is told once, in its place.
-/

namespace AgenticPrd

namespace Client

namespace Reading

variable {row : ReadingBlockRow} {body : List ReadingBlockRow} {outline : Outline}

-- How a change is told: under a heading, or as the heading of a section.
inductive Mark where
  | heading (text : Option String) (change : ReadingChange)
  | block (row : ReadingBlockRow)
  deriving DecidableEq, Repr

def ReadingBlockRow.mark (row : ReadingBlockRow) : Mark :=
  if startsSection row then
    .heading (some (headingText row.block.text)) row.change
  else
    .block row

def ReadingRow.mark? : ReadingRow → Option Mark
  | .block row => if isUnchanged row then none else some (.block row)
  | .skipped _ => none

def ReadingSection.marks (item : ReadingSection) : List Mark :=
  (if item.change = .unchanged then [] else [.heading item.heading item.change])
    ++ item.rows.filterMap ReadingRow.mark?

-- How many unchanged blocks a row stands for.
def ReadingRow.unchangedBlocks : ReadingRow → Nat
  | .block row => if isUnchanged row then 1 else 0
  | .skipped count => count

-- The rows between two headings.
structure Group where
  heading : Option ReadingBlockRow
  body : List ReadingBlockRow

namespace Group

variable {group : Group}

def rows (group : Group) : List ReadingBlockRow :=
  group.heading.toList ++ group.body

-- `buildSection`
def toSection (group : Group) : ReadingSection :=
  buildSection group.heading group.body

structure Split (group : Group) : Prop where
  heading : ∀ row ∈ group.heading, startsSection row = true
  body : ∀ row ∈ group.body, startsSection row = false

-- The section says what is in the group.
structure Reports (group : Group) (item : ReadingSection) : Prop where
  heading : item.heading = group.heading.map fun row => headingText row.block.text
  change : item.change = (group.heading.map ReadingBlockRow.change).getD .unchanged
  added : item.addedBlocks = countOf .added group.body
  removed : item.removedBlocks = countOf .removed group.body
  unchanged : (item.rows.map ReadingRow.unchangedBlocks).sum = countOf .unchanged group.body

end Group

-- All rows are in the groups behind the sections, except for unchanged ones in front of them.
def OnlyLeadMissing (rows : List ReadingBlockRow) (sections : List ReadingSection) : Prop :=
  ∃ (lead : List ReadingBlockRow) (groups : List Group),
    rows = lead ++ groups.flatMap Group.rows
      ∧
    (∀ row ∈ lead, isUnchanged row = true ∧ startsSection row = false)
      ∧
    (∀ group ∈ groups, group.Split)
      ∧
    (∀ group ∈ (if lead = [] then groups.tail else groups), group.heading.isSome = true)
      ∧
    List.Forall₂ Group.Reports groups sections

-- What a result owes to the rows of the diff.
structure Accounts (rows : List ReadingBlockRow) (result : ReadingDiffResult) : Prop where
  marks :
    result.sections.flatMap ReadingSection.marks
      = (rows.filter fun row => !isUnchanged row).map ReadingBlockRow.mark
  added :
    result.addedBlocks
      = (result.sections.map ReadingSection.addedBlocks).sum
        + result.sections.countP fun item => item.change = .added
  removed :
    result.removedBlocks
      = (result.sections.map ReadingSection.removedBlocks).sum
        + result.sections.countP fun item => item.change = .removed
  onlyLead : result.unchanged = false → OnlyLeadMissing rows result.sections

section Collapse

theorem isUnchanged_iff : isUnchanged row = true ↔ row.change = .unchanged := by
  unfold isUnchanged
  exact decide_eq_true_iff

-- A run of unchanged rows, shown or not.
def runRows (run : List ReadingBlockRow) : List ReadingRow :=
  if run.length ≥ minCollapseBlocks then [.skipped run.length] else run.map .block

theorem marks_runRows (h : ∀ row ∈ body, isUnchanged row = true) :
    (runRows body).filterMap ReadingRow.mark? = [] := by
  unfold runRows
  split
  . rfl
  . rw [List.filterMap_map, List.filterMap_eq_nil_iff]
    intro row hrow
    exact if_pos (h row hrow)

theorem unchangedBlocks_runRows (h : ∀ row ∈ body, isUnchanged row = true) :
    ((runRows body).map ReadingRow.unchangedBlocks).sum = body.length := by
  unfold runRows
  split
  . exact Nat.add_zero _
  . rw [List.map_map, List.map_congr_left (g := fun _ => 1), List.map_const', List.sum_replicate_nat,
      Nat.mul_one]
    intro row hrow
    exact if_pos (h row hrow)

theorem countOf_unchanged (h : ∀ row ∈ body, isUnchanged row = true) :
    countOf .unchanged body = body.length := by
  rw [countOf, List.countP_eq_length]
  exact h

theorem countOf_append (change : ReadingChange) (rows rows' : List ReadingBlockRow) :
    countOf change (rows ++ rows') = countOf change rows + countOf change rows' :=
  List.countP_append

theorem run_spec (rows : List ReadingBlockRow) (h : isUnchanged row = true) :
    (∀ other ∈ row :: rows.takeWhile isUnchanged, isUnchanged other = true)
      ∧
    row :: rows = row :: rows.takeWhile isUnchanged ++ rows.dropWhile isUnchanged := by
  constructor
  . rw [List.forall_mem_cons]
    exact ⟨h, fun other hother => List.mem_takeWhile_imp hother⟩
  . rw [List.cons_append, List.takeWhile_append_dropWhile]

theorem filter_unchanged (h : ∀ row ∈ body, isUnchanged row = true) :
    (body.filter fun row => !isUnchanged row) = [] := by
  rw [List.filter_eq_nil_iff]
  intro row hrow
  rw [h row hrow]
  decide

theorem marks_collapse (rows : List ReadingBlockRow) :
    (collapse rows).filterMap ReadingRow.mark?
      =
    (rows.filter fun row => !isUnchanged row).map Mark.block := by
  fun_induction collapse rows with
  | case1 => rfl
  | case2 row rows hrow run ih =>
    obtain ⟨hrun, hsplit⟩ := run_spec rows hrow
    change (runRows run ++ _).filterMap _ = _
    rw [List.filterMap_append, marks_runRows hrun, ih, hsplit, List.filter_append,
      filter_unchanged hrun]
    rfl
  | case3 row rows hrow ih =>
    rw [List.filterMap_cons, ReadingRow.mark?, if_neg hrow,
      List.filter_cons_of_pos (by simpa using hrow), List.map_cons, ih]

theorem unchangedBlocks_collapse (rows : List ReadingBlockRow) :
    ((collapse rows).map ReadingRow.unchangedBlocks).sum = countOf .unchanged rows := by
  fun_induction collapse rows with
  | case1 => rfl
  | case2 row rows hrow run ih =>
    obtain ⟨hrun, hsplit⟩ := run_spec rows hrow
    change ((runRows run ++ _).map _).sum = _
    rw [List.map_append, List.sum_append, unchangedBlocks_runRows hrun, ih, hsplit, countOf_append,
      countOf_unchanged hrun]
  | case3 row rows hrow ih =>
    rw [List.map_cons, List.sum_cons, ih, ReadingRow.unchangedBlocks, if_neg hrow, Nat.zero_add,
      countOf, countOf, List.countP_cons_of_neg]
    exact hrow

end Collapse

section Sections

variable {heading : Option ReadingBlockRow} {group : Group}

theorem quiet_iff :
    countOf .added body = 0 ∧ countOf .removed body = 0
      ↔
    ∀ row ∈ body, isUnchanged row = true := by
  unfold countOf
  rw [List.countP_eq_zero, List.countP_eq_zero, ← forall₂_and]
  apply forall₂_congr
  intro row _
  rw [isUnchanged_iff]
  cases row.change <;> decide

-- Nothing of the section is added or removed.
theorem not_changed_iff :
    (buildSection heading body).changed = false
      ↔
    (∀ row ∈ heading, isUnchanged row = true) ∧ ∀ row ∈ body, isUnchanged row = true := by
  have hheading : heading.any (fun row => row.change ≠ .unchanged) = false
      ↔ ∀ row ∈ heading, isUnchanged row = true := by
    cases heading with
    | none => simp
    | some row => simp [isUnchanged_iff]
  rw [← quiet_iff, ← hheading]
  unfold buildSection
  dsimp only
  rw [Bool.or_eq_false_iff, Bool.or_eq_false_iff, and_assoc, decide_eq_false_iff_not,
    decide_eq_false_iff_not, Nat.not_lt, Nat.not_lt, Nat.le_zero, Nat.le_zero]

theorem buildSection_rows (heading : Option ReadingBlockRow) (body : List ReadingBlockRow) :
    ((buildSection heading body).rows.map ReadingRow.unchangedBlocks).sum = countOf .unchanged body
      ∧
    (buildSection heading body).rows.filterMap ReadingRow.mark?
      = (body.filter fun row => !isUnchanged row).map Mark.block := by
  have hrows : (buildSection heading body).rows =
      if (buildSection heading body).changed then
        collapse body
      else if body.length > 0 then
        [.skipped body.length]
      else
        [] := rfl
  rw [hrows]
  split
  . exact ⟨unchangedBlocks_collapse body, marks_collapse body⟩
  . next hchanged =>
    have hquiet := (not_changed_iff.mp (Bool.eq_false_iff.mpr hchanged)).2
    rw [countOf_unchanged hquiet, filter_unchanged hquiet]
    split
    . exact ⟨Nat.add_zero _, rfl⟩
    . next hempty => exact ⟨by rw [List.map_nil, List.sum_nil]; omega, rfl⟩

theorem reports_toSection (group : Group) : group.Reports group.toSection :=
  ⟨rfl, rfl, rfl, rfl, (buildSection_rows group.heading group.body).1⟩

theorem map_mark (h : ∀ row ∈ body, startsSection row = false) :
    body.map ReadingBlockRow.mark = body.map Mark.block := by
  apply List.map_congr_left
  intro row hrow
  unfold ReadingBlockRow.mark
  rw [h row hrow]
  rfl

theorem marks_toSection (h : group.Split) :
    group.toSection.marks
      =
    (group.rows.filter fun row => !isUnchanged row).map ReadingBlockRow.mark := by
  have hbody : ∀ row ∈ group.body.filter fun row => !isUnchanged row, startsSection row = false :=
    fun row hrow => h.body row (List.mem_of_mem_filter hrow)
  unfold Group.rows ReadingSection.marks
  rw [List.filter_append, List.map_append, map_mark hbody, Group.toSection,
    (buildSection_rows group.heading group.body).2]
  congr 1
  cases hheading : group.heading with
  | none => rfl
  | some row =>
    have hmark : row.mark = .heading (some (headingText row.block.text)) row.change :=
      if_pos (h.heading row hheading)
    change (if row.change = .unchanged then [] else [Mark.heading _ row.change]) = _
    by_cases hchange : isUnchanged row = true
    . rw [if_pos (isUnchanged_iff.mp hchange), Option.toList_some,
        List.filter_cons_of_neg (by simpa using hchange)]
      rfl
    . rw [if_neg (mt isUnchanged_iff.mpr hchange), Option.toList_some,
        List.filter_cons_of_pos (by simpa using hchange), List.filter_nil, List.map_cons, hmark]
      rfl

end Sections

section Outline

-- All groups of the rows. Only the first one can do without a heading.
structure Grouped (rows : List ReadingBlockRow) (sections : List ReadingSection)
    (groups : List Group) : Prop where
  sections : sections = groups.map Group.toSection
  rows : rows = groups.flatMap Group.rows
  split : ∀ group ∈ groups, group.Split
  named : ∀ group ∈ groups.tail, group.heading.isSome = true

-- The groups that were read, and the one that is being read.
structure Reads (rows : List ReadingBlockRow) (outline : Outline) (groups : List Group) : Prop where
  sections : outline.sections = groups.map Group.toSection
  rows : rows = groups.flatMap Group.rows ++ (outline.heading.toList ++ outline.body)
  split : ∀ group ∈ groups, group.Split
  current : Group.Split { heading := outline.heading, body := outline.body }
  named : ∀ group ∈ groups.tail, group.heading.isSome = true
  later : groups ≠ [] → outline.heading.isSome = true

theorem reads_empty : Reads [] { sections := [], heading := none, body := [] } [] := by
  constructor
  . rfl
  . rfl
  . exact fun _ h => absurd h List.not_mem_nil
  . constructor
    . exact fun _ h => nomatch h
    . exact fun _ h => absurd h List.not_mem_nil
  . exact fun _ h => absurd h List.not_mem_nil
  . exact fun h => absurd rfl h

variable {rows : List ReadingBlockRow} {groups : List Group}

-- The sections once the current one is closed.
theorem Reads.close (h : Reads rows outline groups) :
    ∃ groups, Grouped rows outline.close groups := by
  unfold Outline.close
  split
  . next hcurrent =>
    refine ⟨groups ++ [{ heading := outline.heading, body := outline.body }], ?_, ?_, ?_, ?_⟩
    . rw [h.sections, List.map_append]
      rfl
    . rw [h.rows, List.flatMap_append, List.flatMap_singleton]
      rfl
    . rw [List.forall_mem_append, List.forall_mem_singleton]
      exact ⟨h.split, h.current⟩
    . cases groups with
      | nil => exact fun _ hmem => absurd hmem List.not_mem_nil
      | cons group groups =>
        rw [List.cons_append, List.tail_cons, List.forall_mem_append, List.forall_mem_singleton]
        exact ⟨h.named, h.later (List.cons_ne_nil _ _)⟩
  . next hempty =>
    rw [Bool.or_eq_true, not_or, decide_eq_true_iff, Nat.not_lt, Nat.le_zero,
      List.length_eq_zero_iff, Option.not_isSome_iff_eq_none] at hempty
    have hrows := h.rows
    rw [hempty.1, hempty.2, Option.toList_none, List.append_nil, List.append_nil] at hrows
    exact ⟨groups, h.sections, hrows, h.split, h.named⟩

theorem Reads.add (h : Reads rows outline groups) (row : ReadingBlockRow) :
    ∃ groups, Reads (rows ++ [row]) (outline.add row) groups := by
  unfold Outline.add
  split
  . next hstarts =>
    obtain ⟨groups, hsections, hrows, hsplit, hnamed⟩ := h.close
    refine ⟨groups, hsections, by rw [hrows]; rfl, hsplit, ⟨?_, ?_⟩, hnamed, fun _ => rfl⟩
    . intro first hfirst
      rw [← Option.some.inj hfirst]
      exact hstarts
    . exact fun _ hmem => absurd hmem List.not_mem_nil
  . next hstarts =>
    refine ⟨groups, h.sections, ?_, h.split, ⟨h.current.heading, ?_⟩, h.named, h.later⟩
    . rw [h.rows, List.append_assoc, List.append_assoc]
    . rw [List.forall_mem_append, List.forall_mem_singleton]
      exact ⟨h.current.body, Bool.eq_false_iff.mpr hstarts⟩

theorem Reads.foldl (h : Reads rows outline groups) (more : List ReadingBlockRow) :
    ∃ groups, Reads (rows ++ more) (more.foldl Outline.add outline) groups := by
  induction more generalizing rows outline groups with
  | nil => exact ⟨groups, by rw [List.append_nil]; exact h⟩
  | cons row more ih =>
    obtain ⟨groups, hadd⟩ := h.add row
    obtain ⟨groups, hrest⟩ := ih hadd
    exact ⟨groups, by rw [List.append_assoc] at hrest; exact hrest⟩

theorem exists_groups (rows : List ReadingBlockRow) :
    ∃ groups, Grouped rows (sectionsOf rows) groups := by
  obtain ⟨groups, hreads⟩ := reads_empty.foldl rows
  exact hreads.close

end Outline

section Result

theorem marks_sections {groups : List Group} (h : ∀ group ∈ groups, group.Split) :
    (groups.map Group.toSection).flatMap ReadingSection.marks
      =
    ((groups.flatMap Group.rows).filter fun row => !isUnchanged row).map ReadingBlockRow.mark := by
  induction groups with
  | nil => rfl
  | cons group groups ih =>
    rw [List.forall_mem_cons] at h
    rw [List.map_cons, List.flatMap_cons, List.flatMap_cons, List.filter_append, List.map_append,
      marks_toSection h.1, ih h.2]

theorem count_sections {change : ReadingChange} {blocks : ReadingSection → Nat} {groups : List Group}
    (hblocks : ∀ group : Group, blocks group.toSection = countOf change group.body)
    (hchange : change ≠ .unchanged) :
    ((groups.map Group.toSection).map blocks).sum
        + (groups.map Group.toSection).countP (fun item => item.change = change)
      =
    countOf change (groups.flatMap Group.rows) := by
  have hgroup : ∀ group : Group, countOf change group.rows
      = countOf change group.body + if group.toSection.change = change then 1 else 0 := by
    intro group
    unfold Group.rows
    rw [countOf_append, Nat.add_comm]
    congr 1
    unfold Group.toSection buildSection
    dsimp only
    cases group.heading with
    | none => exact (if_neg hchange.symm).symm
    | some row =>
      rw [Option.toList_some, countOf, List.countP_singleton]
      simp
  induction groups with
  | nil => rfl
  | cons group groups ih =>
    rw [List.flatMap_cons, countOf_append, hgroup, ← ih, List.map_cons, List.map_cons, List.sum_cons,
      hblocks, List.countP_cons]
    simp only [decide_eq_true_eq]
    omega

-- What the result shows, and the rows that it leaves out.
structure Listed (rows lead : List ReadingBlockRow) (sections : List ReadingSection)
    (groups : List Group) : Prop where
  sections : sections = groups.map Group.toSection
  rows : rows = lead ++ groups.flatMap Group.rows
  quiet : ∀ row ∈ lead, isUnchanged row = true ∧ startsSection row = false
  split : ∀ group ∈ groups, group.Split
  named : ∀ group ∈ (if lead = [] then groups.tail else groups), group.heading.isSome = true

theorem filter_named {groups : List Group} (h : ∀ group ∈ groups, group.heading.isSome = true) :
    ((groups.map Group.toSection).filter fun item => item.changed || item.heading.isSome)
      =
    groups.map Group.toSection := by
  rw [List.filter_eq_self, List.forall_mem_map]
  intro group hgroup
  have hheading : group.toSection.heading.isSome = group.heading.isSome := Option.isSome_map
  rw [hheading, h group hgroup, Bool.or_true]

theorem exists_listed (rows : List ReadingBlockRow) :
    ∃ lead groups, Listed rows lead
      ((sectionsOf rows).filter fun item => item.changed || item.heading.isSome) groups := by
  obtain ⟨groups, hgroups⟩ := exists_groups rows
  rw [hgroups.sections]
  cases groups with
  | nil =>
    exact ⟨[], [], rfl, hgroups.rows, fun _ h => absurd h List.not_mem_nil, hgroups.split,
      hgroups.named⟩
  | cons group groups =>
    have hsplit := List.forall_mem_cons.mp hgroups.split
    have hheading : group.toSection.heading.isSome = group.heading.isSome := Option.isSome_map
    have hnamed : ∀ other ∈ groups, other.heading.isSome = true := hgroups.named
    rw [List.map_cons, List.filter_cons, filter_named hnamed]
    split
    . exact ⟨[], group :: groups, rfl, hgroups.rows, fun _ h => absurd h List.not_mem_nil,
        hgroups.split, hgroups.named⟩
    . next hquiet =>
      rw [Bool.or_eq_true, not_or, hheading, Bool.not_eq_true, Bool.not_eq_true,
        Option.isSome_eq_false_iff, Option.isNone_iff_eq_none] at hquiet
      obtain ⟨hchanged, hnone⟩ := hquiet
      have hbody := (not_changed_iff.mp hchanged).2
      have hrows := hgroups.rows
      rw [List.flatMap_cons, Group.rows, hnone, Option.toList_none, List.nil_append] at hrows
      refine ⟨group.body, groups, rfl, hrows, fun row hrow => ⟨hbody row hrow, hsplit.1.body row hrow⟩,
        hsplit.2, ?_⟩
      split
      . exact fun other hother => hnamed other (List.mem_of_mem_tail hother)
      . exact hnamed

theorem Listed.onlyLeadMissing {rows lead : List ReadingBlockRow} {sections : List ReadingSection}
    {groups : List Group} (h : Listed rows lead sections groups) :
    OnlyLeadMissing rows sections := by
  refine ⟨lead, groups, h.rows, h.quiet, h.split, h.named, ?_⟩
  rw [h.sections, List.forall₂_map_right_iff, List.forall₂_same]
  exact fun group _ => reports_toSection group

-- What is left out has no change.
theorem Listed.marks {rows lead : List ReadingBlockRow} {sections : List ReadingSection}
    {groups : List Group} (h : Listed rows lead sections groups) :
    sections.flatMap ReadingSection.marks
      =
    (rows.filter fun row => !isUnchanged row).map ReadingBlockRow.mark := by
  rw [h.sections, marks_sections h.split, h.rows, List.filter_append,
    filter_unchanged fun row hrow => (h.quiet row hrow).1, List.nil_append]

theorem Listed.count {rows lead : List ReadingBlockRow} {sections : List ReadingSection}
    {groups : List Group} (h : Listed rows lead sections groups) {change : ReadingChange}
    {blocks : ReadingSection → Nat}
    (hblocks : ∀ group : Group, blocks group.toSection = countOf change group.body)
    (hchange : change ≠ .unchanged) :
    countOf change rows
      =
    (sections.map blocks).sum + sections.countP fun item => item.change = change := by
  have hlead : countOf change lead = 0 := by
    rw [countOf, List.countP_eq_zero]
    intro row hrow
    rw [isUnchanged_iff.mp (h.quiet row hrow).1]
    simpa using hchange.symm
  rw [h.sections, count_sections hblocks hchange, h.rows, countOf_append, hlead, Nat.zero_add]

/--
Every change is told once and in order, the counts are those of the sections, and only an unchanged
lead without a heading is left out of a result that reports changes.
-/
theorem readingDiff_accounts (sourceContent targetContent : String) :
    Accounts (diffBlocks (splitBlocks sourceContent) (splitBlocks targetContent))
      (readingDiff sourceContent targetContent) := by
  obtain ⟨lead, groups, hlisted⟩ :=
    exists_listed (diffBlocks (splitBlocks sourceContent) (splitBlocks targetContent))
  unfold readingDiff
  dsimp only
  split
  . next hquiet =>
    have hrows := quiet_iff.mp hquiet
    constructor
    . rw [filter_unchanged hrows]
      rfl
    . exact hquiet.1
    . exact hquiet.2
    . exact fun h => absurd h.symm Bool.false_ne_true
  . next hchanged =>
    constructor
    . exact hlisted.marks
    . exact hlisted.count (fun _ => rfl) (by decide)
    . exact hlisted.count (fun _ => rfl) (by decide)
    . exact fun _ => hlisted.onlyLeadMissing

-- The named section of two identical documents is left out as well.
theorem not_onlyLeadMissing_identical :
    ¬OnlyLeadMissing (diffBlocks (splitBlocks "## A\n\nx") (splitBlocks "## A\n\nx"))
      (readingDiff "## A\n\nx" "## A\n\nx").sections := by
  have hnone : (readingDiff "## A\n\nx" "## A\n\nx").sections = [] := by decide +kernel
  have hstarts : (diffBlocks (splitBlocks "## A\n\nx") (splitBlocks "## A\n\nx")).any startsSection
      = true := by decide +kernel
  rintro ⟨lead, groups, hrows, hlead, _, _, hreports⟩
  rw [hnone] at hreports
  cases hreports
  rw [List.flatMap_nil, List.append_nil] at hrows
  rw [hrows, List.any_eq_true] at hstarts
  obtain ⟨row, hrow, hstarts⟩ := hstarts
  rw [(hlead row hrow).2] at hstarts
  cases hstarts

end Result

end Reading

end Client

end AgenticPrd
