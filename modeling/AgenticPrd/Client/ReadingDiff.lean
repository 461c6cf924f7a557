import AgenticPrd.Client.Diff

/-!
The block diff of two versions (`readingDiff.ts`).
-/

namespace AgenticPrd

namespace Client

namespace Reading

open Lcs

inductive BlockKind where
  | heading
  | table
  | code
  | list
  | quote
  | rule
  | paragraph
  deriving DecidableEq, Repr, Inhabited

structure DocBlock where
  kind : BlockKind
  level : Option Nat
  text : String
  deriving DecidableEq, Repr, Inhabited

section Patterns

def trimStart (line : String) : List Char :=
  line.toList.dropWhile isTrimmed

-- `^\s{0,3}` in front of something that is no space
def unindent? (line : String) : Option (List Char) :=
  if (line.toList.takeWhile isTrimmed).length ≤ 3 then some (trimStart line) else none

-- `HEADING`, the same pattern as in `diff.ts`
def heading? (line : String) : Option (Nat × String) :=
  Diff.heading? line

def isBacktick (c : Char) : Bool :=
  c.toNat == 96

-- `FENCE`, and its group
def fence? (line : String) : Option (List Char) :=
  match unindent? line with
  | some (c :: text) =>
    let marker := c :: text.takeWhile (· == c)
    if (isBacktick c || c == '~') && 3 ≤ marker.length then some marker else none
  | _ => none

-- `RULE`
def isRule (line : String) : Bool :=
  match unindent? line with
  | some (c :: text) =>
    (c == '-' || c == '*' || c == '_') && 2 ≤ text.count c
      && text.all fun d => isTrimmed d || d == c
  | _ => false

def isDigit (c : Char) : Bool :=
  48 ≤ c.toNat && c.toNat ≤ 57

-- `LIST_ITEM`
def isListItem (line : String) : Bool :=
  match unindent? line with
  | some text =>
    let digits := text.takeWhile isDigit
    match text.dropWhile isDigit with
    | c :: d :: _ =>
      isTrimmed d &&
        (if digits = [] then
          c == '-' || c == '*' || c == '+'
        else
          digits.length ≤ 9 && (c == '.' || c == ')'))
    | _ => false
  | none => false

def isBlank (line : String) : Bool :=
  trim line == ""

def isTableDelimiter (line : String) : Bool :=
  line.toList.contains '|' && line.toList.contains '-'
    && (trim line).toList.all fun c => isTrimmed c || c == '|' || c == ':' || c == '-'

def breaksBlock (line : String) : Bool :=
  (heading? line).isSome || (fence? line).isSome || isRule line

def isQuoted (line : String) : Bool :=
  (trimStart line).head? == some '>'

-- `/^\s{2,}/`
def isIndented (line : String) : Bool :=
  2 ≤ (line.toList.takeWhile isTrimmed).length

end Patterns

section Blocks

-- The branch of the loop that a line which is not blank takes.
inductive Opening where
  | code (marker : List Char)
  | heading (level : Nat)
  | rule
  | table
  | list
  | text (quoted : Bool)
  deriving DecidableEq, Repr

def opening (line : String) (next : Option String) : Opening :=
  match fence? line with
  | some marker => .code marker
  | none =>
    match heading? line with
    | some (level, _) => .heading level
    | none =>
      if isRule line then
        .rule
      else if line.toList.contains '|' && next.any isTableDelimiter then
        .table
      else if isListItem line then
        .list
      else
        .text (isQuoted line)

namespace Opening

def kind : Opening → BlockKind
  | code _ => .code
  | heading _ => .heading
  | rule => .rule
  | table => .table
  | list => .list
  | text quoted => if quoted then .quote else .paragraph

def level : Opening → Option Nat
  | heading level => some level
  | _ => none

-- How many of the lines after the first one belong to the block.
def extent : Opening → List String → Nat
  | code marker, lines =>
    let inner := lines.takeWhile fun line => !marker.isPrefixOf (trimStart line)
    if inner.length < lines.length then inner.length + 1 else inner.length
  | heading _, _ => 0
  | rule, _ => 0
  | table, lines =>
    1 + ((lines.drop 1).takeWhile fun line => !isBlank line && line.toList.contains '|').length
  | list, lines =>
    (lines.takeWhile fun line =>
      !isBlank line && !isListItem line && !breaksBlock line && isIndented line).length
  | text quoted, lines =>
    (lines.takeWhile fun line =>
      !(isBlank line || breaksBlock line || isListItem line || quoted != isQuoted line)).length

def block (opening : Opening) (line : String) (lines : List String) : DocBlock where
  kind := opening.kind
  level := opening.level
  text :=
    match opening with
    | heading _ => trim line
    | rule => trim line
    | _ => "\n".intercalate (line :: lines)

end Opening

def blocksFrom : List String → List DocBlock
  | [] => []
  | line :: lines =>
    if isBlank line then
      blocksFrom lines
    else
      let opening := opening line lines.head?
      let extent := opening.extent lines
      opening.block line (lines.take extent) :: blocksFrom (lines.drop extent)
termination_by lines => lines.length
decreasing_by
  all_goals simp only [List.length_drop, List.length_cons]; omega

def linesOf (markdown : String) : List String :=
  ((Diff.normalizeReturns markdown.toList).splitOn '\n').map String.ofList

def splitBlocks (markdown : String) : List DocBlock :=
  blocksFrom (linesOf markdown)

end Blocks

section Rows

inductive ReadingChange where
  | added
  | removed
  | unchanged
  deriving DecidableEq, Repr

structure ReadingBlockRow where
  change : ReadingChange
  block : DocBlock
  deriving DecidableEq, Repr

inductive ReadingRow where
  | block (row : ReadingBlockRow)
  | skipped (count : Nat)
  deriving DecidableEq, Repr

structure ReadingSection where
  heading : Option String
  change : ReadingChange
  changed : Bool
  addedBlocks : Nat
  removedBlocks : Nat
  rows : List ReadingRow
  deriving DecidableEq, Repr

structure ReadingDiffResult where
  sections : List ReadingSection
  addedBlocks : Nat
  removedBlocks : Nat
  unchanged : Bool
  deriving DecidableEq, Repr

def minCollapseBlocks : Nat := 3

def maxLcsCells : Nat := 250000

def lcsLengths (a b : List DocBlock) : Id (Array Nat) :=
  lengths Diff.readCell (a.map DocBlock.text) (b.map DocBlock.text)

def visitor (source target : List DocBlock) : Visitor (List ReadingBlockRow) where
  keep i _ rows := rows ++ [{ change := .unchanged, block := source[i]! }]
  drop i rows := rows ++ [{ change := .removed, block := source[i]! }]
  add j rows := rows ++ [{ change := .added, block := target[j]! }]

def diffBlocks (source target : List DocBlock) : List ReadingBlockRow :=
  if (source.length + 1) * (target.length + 1) > maxLcsCells then
    source.map (fun block => { change := .removed, block })
      ++ target.map (fun block => { change := .added, block })
  else
    let rows : Id (List ReadingBlockRow) := do
      let table ← lcsLengths source target
      walk Diff.readCell (source.map DocBlock.text) (target.map DocBlock.text)
        (visitor source target) table 0 0 []
    rows.run

end Rows

section Sections

def startsSection (row : ReadingBlockRow) : Bool :=
  row.block.kind = .heading && row.block.level.getD 1 > 1

def isUnchanged (row : ReadingBlockRow) : Bool :=
  row.change = .unchanged

def countOf (change : ReadingChange) (rows : List ReadingBlockRow) : Nat :=
  rows.countP fun row => row.change = change

def collapse : List ReadingBlockRow → List ReadingRow
  | [] => []
  | row :: rows =>
    if isUnchanged row then
      let run := row :: rows.takeWhile isUnchanged
      (if run.length ≥ minCollapseBlocks then [.skipped run.length] else run.map .block)
        ++ collapse (rows.dropWhile isUnchanged)
    else
      .block row :: collapse rows
termination_by rows => rows.length
decreasing_by
  . exact Nat.lt_succ_of_le (List.length_dropWhile_le _ _)
  . exact Nat.lt_succ_self _

def headingText (text : String) : String :=
  match heading? text with
  | some (_, title) => title
  | none => text

def buildSection (heading : Option ReadingBlockRow) (body : List ReadingBlockRow) :
    ReadingSection :=
  let addedBlocks := countOf .added body
  let removedBlocks := countOf .removed body
  let headingChanged := heading.any fun row => row.change ≠ .unchanged
  let changed := headingChanged || addedBlocks > 0 || removedBlocks > 0
  {
    heading := heading.map fun row => headingText row.block.text
    change := (heading.map ReadingBlockRow.change).getD .unchanged
    changed
    addedBlocks
    removedBlocks
    rows :=
      if changed then
        collapse body
      else if body.length > 0 then
        [.skipped body.length]
      else
        []
  }

-- The sections so far, and the one that is being read.
structure Outline where
  sections : List ReadingSection
  heading : Option ReadingBlockRow
  body : List ReadingBlockRow
  deriving DecidableEq, Repr

namespace Outline

def close (outline : Outline) : List ReadingSection :=
  if outline.heading.isSome || outline.body.length > 0 then
    outline.sections ++ [buildSection outline.heading outline.body]
  else
    outline.sections

def add (outline : Outline) (row : ReadingBlockRow) : Outline :=
  if startsSection row then
    { sections := outline.close, heading := some row, body := [] }
  else
    { outline with body := outline.body ++ [row] }

end Outline

def sectionsOf (rows : List ReadingBlockRow) : List ReadingSection :=
  (rows.foldl Outline.add { sections := [], heading := none, body := [] }).close

def readingDiff (sourceContent targetContent : String) : ReadingDiffResult :=
  let rows := diffBlocks (splitBlocks sourceContent) (splitBlocks targetContent)
  let addedBlocks := countOf .added rows
  let removedBlocks := countOf .removed rows
  if addedBlocks = 0 ∧ removedBlocks = 0 then
    { sections := [], addedBlocks, removedBlocks, unchanged := true }
  else
    {
      sections := (sectionsOf rows).filter fun item => item.changed || item.heading.isSome
      addedBlocks
      removedBlocks
      unchanged := false
    }

end Sections

end Reading

end Client

end AgenticPrd
