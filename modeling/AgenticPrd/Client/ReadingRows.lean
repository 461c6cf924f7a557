import AgenticPrd.Client.Blocks
import AgenticPrd.Client.DiffRows

/-!
The rows of the block diff, and which documents it reports as unchanged.
-/

namespace AgenticPrd

namespace Client

namespace Reading

open Lcs

variable {source target : List DocBlock} {steps : List Step} {as bs : List String} {n : Nat}

section Script

-- The rows that a script stands for.
def rowsFor : List Step → List DocBlock → List DocBlock → List ReadingBlockRow
  | .keep :: steps, block :: source, _ :: target =>
    { change := .unchanged, block } :: rowsFor steps source target
  | .drop :: steps, block :: source, target =>
    { change := .removed, block } :: rowsFor steps source target
  | .add :: steps, source, block :: target =>
    { change := .added, block } :: rowsFor steps source target
  | _, _, _ => []

def changeOf : Step → ReadingChange
  | .keep => .unchanged
  | .drop => .removed
  | .add => .added

def texts (blocks : List DocBlock) : List String :=
  blocks.map DocBlock.text

def Fits (source target : List DocBlock) : Prop :=
  (source.length + 1) * (target.length + 1) ≤ maxLcsCells

instance : Decidable (Fits source target) :=
  inferInstanceAs (Decidable (_ ≤ _))

def blockScript (source target : List DocBlock) : List Step :=
  if Fits source target then
    script (texts source) (texts target)
  else
    List.replicate source.length .drop ++ List.replicate target.length .add

theorem length_texts (blocks : List DocBlock) : (texts blocks).length = blocks.length :=
  List.length_map _

theorem aligns_blockScript (source target : List DocBlock) :
    Aligns (blockScript source target) (texts source) (texts target) := by
  unfold blockScript
  split
  . exact aligns_script _ _
  . have := aligns_replace (texts source) (texts target)
    rw [length_texts, length_texts] at this
    exact this

theorem rowsFor_changes (h : Aligns steps as bs) (hsource : texts source = as)
    (htarget : texts target = bs) :
    (rowsFor steps source target).map ReadingBlockRow.change = steps.map changeOf := by
  unfold texts at hsource htarget
  induction h generalizing source target with
  | nil =>
    rw [List.map_eq_nil_iff] at hsource htarget
    subst hsource htarget
    rfl
  | keep _ ih =>
    obtain ⟨block, source, rfl, _, hsource⟩ := List.map_eq_cons_iff.mp hsource
    obtain ⟨_, target, rfl, _, htarget⟩ := List.map_eq_cons_iff.mp htarget
    rw [rowsFor, List.map_cons, ih hsource htarget, List.map_cons, changeOf]
  | drop _ ih =>
    obtain ⟨block, source, rfl, _, hsource⟩ := List.map_eq_cons_iff.mp hsource
    rw [rowsFor, List.map_cons, ih hsource htarget, List.map_cons, changeOf]
  | add _ ih =>
    obtain ⟨block, target, rfl, _, htarget⟩ := List.map_eq_cons_iff.mp htarget
    rw [rowsFor, List.map_cons, ih hsource htarget, List.map_cons, changeOf]

theorem rowsFor_count (h : Aligns steps (texts source) (texts target)) (step : Step) :
    countOf (changeOf step) (rowsFor steps source target) = steps.count step := by
  have hcount : countOf (changeOf step) (rowsFor steps source target)
      = ((rowsFor steps source target).map ReadingBlockRow.change).count (changeOf step) := by
    rw [List.count_eq_countP, List.countP_map]
    apply List.countP_congr
    intro row _
    simp
  rw [hcount, rowsFor_changes h rfl rfl, List.count_eq_countP, List.countP_map,
    List.count_eq_countP]
  apply List.countP_congr
  intro other _
  cases other <;> cases step <;> simp [changeOf]

theorem getElem!_of_drop {blocks rest : List DocBlock} {block : DocBlock}
    (h : blocks.drop n = block :: rest) : blocks[n]! = block ∧ blocks.drop (n + 1) = rest := by
  have hblock : blocks[n]? = some block := by
    rw [← List.head?_drop, h]
    rfl
  constructor
  . rw [List.getElem!_eq_getElem?_getD, hblock]
    rfl
  . rw [← List.tail_drop, h]
    rfl

-- The walk pushes the rows of the script.
theorem run_visitor (rows : List ReadingBlockRow) {i j : Nat} (h : Aligns steps as bs) (ha : texts (source.drop i) = as)
    (hb : texts (target.drop j) = bs) :
    (visitor source target).run i j steps rows
      =
    rows ++ rowsFor steps (source.drop i) (target.drop j) := by
  unfold texts at ha hb
  induction h generalizing i j rows with
  | nil =>
    rw [List.map_eq_nil_iff] at ha hb
    rw [ha, hb, Visitor.run, rowsFor, List.append_nil]
    all_goals simp
  | keep _ ih =>
    obtain ⟨block, rest, hsource, _, ha⟩ := List.map_eq_cons_iff.mp ha
    obtain ⟨_, rest', htarget, _, hb⟩ := List.map_eq_cons_iff.mp hb
    obtain ⟨rfl, hrest⟩ := getElem!_of_drop hsource
    obtain ⟨_, hrest'⟩ := getElem!_of_drop htarget
    rw [Visitor.run, ih _ (by rw [hrest, ha]) (by rw [hrest', hb]), hsource, htarget, hrest, hrest',
      rowsFor, visitor, List.append_assoc]
    rfl
  | drop _ ih =>
    obtain ⟨block, rest, hsource, _, ha⟩ := List.map_eq_cons_iff.mp ha
    obtain ⟨rfl, hrest⟩ := getElem!_of_drop hsource
    rw [Visitor.run, ih _ (by rw [hrest, ha]) hb, hsource, hrest, rowsFor, visitor, List.append_assoc]
    rfl
  | add _ ih =>
    obtain ⟨block, rest, htarget, _, hb⟩ := List.map_eq_cons_iff.mp hb
    obtain ⟨rfl, hrest⟩ := getElem!_of_drop htarget
    rw [Visitor.run, ih _ ha (by rw [hrest, hb]), htarget, hrest, rowsFor, visitor, List.append_assoc]
    rfl

theorem rowsFor_replace (source target : List DocBlock) :
    rowsFor (List.replicate source.length .drop ++ List.replicate target.length .add) source target
      =
    source.map (fun block => { change := .removed, block })
      ++ target.map (fun block => { change := .added, block }) := by
  induction source with
  | nil =>
    induction target with
    | nil => rfl
    | cons block target ih =>
      rw [List.length_nil, List.replicate_zero, List.nil_append, List.map_nil, List.nil_append] at ih ⊢
      rw [List.length_cons, List.replicate_succ, rowsFor, ih, List.map_cons]
  | cons block source ih =>
    rw [List.length_cons, List.replicate_succ, List.cons_append, rowsFor, ih, List.map_cons,
      List.cons_append]

theorem diffBlocks_eq (source target : List DocBlock) :
    diffBlocks source target = rowsFor (blockScript source target) source target := by
  unfold diffBlocks blockScript
  split
  . next hlarge =>
    have hnot : ¬Fits source target := Nat.not_le.mpr hlarge
    rw [if_neg hnot, rowsFor_replace]
  . next hsmall =>
    have hfits : Fits source target := Nat.not_lt.mp hsmall
    have hlength : (texts source).length < 2 ^ 32 := by
      have hle : source.length + 1 ≤ (source.length + 1) * (target.length + 1) :=
        Nat.le_mul_of_pos_right _ (by omega)
      unfold Fits maxLcsCells at hfits
      rw [length_texts]
      omega
    obtain ⟨table, htable, hfilled⟩ :=
      lengths_spec Diff.readsInside_readCell (b := texts target) hlength
    rw [if_pos hfits]
    change Id.run (lengths Diff.readCell (texts source) (texts target) >>= fun table =>
      walk Diff.readCell (texts source) (texts target) (visitor source target) table 0 0 []) = _
    rw [htable, pure_bind, walk_eq Diff.readsInside_readCell _ hfilled (Nat.zero_le _) (Nat.zero_le _)]
    exact run_visitor [] (aligns_script (texts source) (texts target)) rfl rfl

theorem diffBlocks_count (source target : List DocBlock) (step : Step) :
    countOf (changeOf step) (diffBlocks source target) = (blockScript source target).count step := by
  rw [diffBlocks_eq]
  exact rowsFor_count (aligns_blockScript source target) step

end Script

section Unchanged

variable {sourceContent targetContent : String}

-- Nothing is dropped and nothing is added.
theorem blockScript_quiet :
    (blockScript source target).count .add = 0 ∧ (blockScript source target).count .drop = 0
      ↔
    texts source = texts target ∧ Fits source target := by
  constructor
  . rintro ⟨hadd, hdrop⟩
    constructor
    . apply (aligns_blockScript source target).eq_of_keeps
      intro step hstep
      cases step with
      | keep => rfl
      | drop => exact absurd hstep (List.count_eq_zero.mp hdrop)
      | add => exact absurd hstep (List.count_eq_zero.mp hadd)
    . by_contra hlarge
      rw [blockScript, if_neg hlarge, List.count_append, List.count_replicate_self] at hadd hdrop
      apply hlarge
      have hsource : source.length = 0 := by omega
      have htarget : target.length = 0 := by omega
      unfold Fits
      rw [hsource, htarget]
      decide
  . rintro ⟨hsame, hfits⟩
    rw [blockScript, if_pos hfits, hsame, script_self, List.count_replicate, List.count_replicate]
    exact ⟨rfl, rfl⟩

theorem unchanged_iff :
    (readingDiff sourceContent targetContent).unchanged = true
      ↔
    texts (splitBlocks sourceContent) = texts (splitBlocks targetContent)
      ∧
    Fits (splitBlocks sourceContent) (splitBlocks targetContent) := by
  have hadded := diffBlocks_count (splitBlocks sourceContent) (splitBlocks targetContent) .add
  have hremoved := diffBlocks_count (splitBlocks sourceContent) (splitBlocks targetContent) .drop
  unfold changeOf at hadded hremoved
  rw [← blockScript_quiet, ← hadded, ← hremoved]
  unfold readingDiff
  dsimp only
  split
  . next hnone => exact ⟨fun _ => hnone, fun _ => rfl⟩
  . next hsome => exact ⟨fun h => absurd h Bool.false_ne_true, fun h => absurd h hsome⟩

-- Documents with the same lines have the same blocks.
theorem splitBlocks_congr (h : Diff.splitLines sourceContent = Diff.splitLines targetContent) :
    splitBlocks sourceContent = splitBlocks targetContent := by
  have hne : ∀ content : String, linesOf content ≠ [] := by
    intro content
    unfold linesOf
    exact mt List.map_eq_nil_iff.mp (List.splitOn_ne_nil _ _)
  have hlines : ∀ content : String, content ≠ "" → Diff.splitLines content = linesOf content :=
    fun content hcontent => if_neg hcontent
  unfold splitBlocks
  by_cases hsource : sourceContent = ""
  . by_cases htarget : targetContent = ""
    . rw [hsource, htarget]
    . rw [hlines targetContent htarget, Diff.splitLines, if_pos hsource] at h
      exact absurd h.symm (hne targetContent)
  . by_cases htarget : targetContent = ""
    . rw [hlines sourceContent hsource, Diff.splitLines, if_pos htarget] at h
      exact absurd h (hne sourceContent)
    . rw [hlines sourceContent hsource, hlines targetContent htarget] at h
      rw [h]

/--
What the verdict should be: two documents are reported as unchanged if their blocks are the same, and
certainly if the line diff finds no change.
-/
def VerdictRight (sourceContent targetContent : String) : Prop :=
  ((readingDiff sourceContent targetContent).unchanged = true
      ↔ texts (splitBlocks sourceContent) = texts (splitBlocks targetContent))
    ∧
  ((Diff.diffLines sourceContent targetContent).unchanged = true
      → (readingDiff sourceContent targetContent).unchanged = true)

/--
The verdict is wrong exactly for documents with the same blocks that are too many for the table.
-/
theorem verdictRight_iff (sourceContent targetContent : String) :
    VerdictRight sourceContent targetContent
      ↔
    (texts (splitBlocks sourceContent) = texts (splitBlocks targetContent)
      → Fits (splitBlocks sourceContent) (splitBlocks targetContent)) := by
  unfold VerdictRight
  rw [unchanged_iff]
  constructor
  . rintro ⟨hverdict, _⟩ hsame
    exact (hverdict.mpr hsame).2
  . intro hfits
    refine ⟨⟨And.left, fun hsame => ⟨hsame, hfits hsame⟩⟩, ?_⟩
    intro hlines
    obtain ⟨hadded, hremoved⟩ := (Diff.unchanged_iff sourceContent targetContent).mp hlines
    have hsplit := (Diff.faithful_diffRows _ _).eq_of_unchanged hadded hremoved
    have hsame := congrArg texts (splitBlocks_congr hsplit)
    exact ⟨hsame, hfits hsame⟩

-- As many requirements as the table has no room for.
def requirements : List String :=
  List.replicate 500 "- a"

theorem blocksFrom_replicate (n : Nat) :
    blocksFrom (List.replicate n "- a")
      =
    List.replicate n { kind := .list, level := none, text := "- a" } := by
  induction n with
  | zero => rw [List.replicate_zero, blocksFrom, List.replicate_zero]
  | succ n ih =>
    have hopen : Opens "- a" (List.replicate n "- a").head? .list := by
      rw [List.head?_replicate, opens_iff]
      split <;> decide
    have hextent : Opening.list.extent (List.replicate n "- a") = 0 := by
      cases n with
      | zero => rfl
      | succ n => rw [List.replicate_succ, Opening.extent, List.takeWhile_cons_of_neg (by decide)]; rfl
    rw [List.replicate_succ, blocksFrom_cons (by decide) hopen, hextent, List.take_zero,
      List.drop_zero, ih, List.replicate_succ]
    rfl

theorem not_verdictRight_requirements :
    ¬VerdictRight ("\n".intercalate requirements) ("\n".intercalate requirements) := by
  have hclean : ∀ line ∈ requirements, Clean line := by
    intro line hline
    rw [List.eq_of_mem_replicate hline]
    exact ⟨by decide, by decide⟩
  have hblocks : splitBlocks ("\n".intercalate requirements)
      = List.replicate 500 { kind := .list, level := none, text := "- a" } := by
    unfold splitBlocks
    rw [linesOf_join (by decide) hclean]
    exact blocksFrom_replicate 500
  intro h
  have hfits := (unchanged_iff.mp (h.1.mpr rfl)).2
  rw [hblocks, Fits, List.length_replicate] at hfits
  revert hfits
  decide

end Unchanged

end Reading

end Client

end AgenticPrd
