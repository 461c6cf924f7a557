import AgenticPrd.Client.Contracts
import AgenticPrd.Lib.LcsTable

/-!
The line diff of two versions (`diff.ts`).
-/

namespace AgenticPrd

namespace Client

namespace Diff

open Lcs

inductive DiffRowKind where
  | added
  | removed
  | context
  deriving DecidableEq, Repr

structure DiffRow where
  kind : DiffRowKind
  text : String
  sourceLine : Option Nat
  targetLine : Option Nat
  deriving DecidableEq, Repr

inductive DiffSegment where
  | hunk (heading : Option String) (rows : List DiffRow)
  | skipped (count : Nat)
  deriving DecidableEq, Repr

structure DiffResult where
  addedCount : Nat
  removedCount : Nat
  segments : List DiffSegment
  unchanged : Bool
  deriving DecidableEq, Repr

def contextLines : Nat := 3

def minCollapseLines : Nat := 2

def maxLcsCells : Nat := 250000

-- `text.replace(/\r\n/g, "\n")`
def normalizeReturns : List Char → List Char
  | [] => []
  | '\r' :: '\n' :: text => '\n' :: normalizeReturns text
  | c :: text => c :: normalizeReturns text

def splitLines (text : String) : List String :=
  if text = "" then
    []
  else
    ((normalizeReturns text.toList).splitOn '\n').map String.ofList

-- A `while` loop that counts up to `limit`.
def countWhile (limit : Nat) (cond : Nat → Bool) (n : Nat) : Nat :=
  if n < limit then
    if cond n then
      countWhile limit cond (n + 1)
    else
      n
  else
    n
termination_by limit - n

theorem le_countWhile (limit : Nat) (cond : Nat → Bool) (n : Nat) :
    n ≤ countWhile limit cond n := by
  fun_induction countWhile limit cond n with
  | case1 n _ _ ih => omega
  | case2 => exact Nat.le_refl _
  | case3 => exact Nat.le_refl _

theorem lt_countWhile {limit : Nat} {cond : Nat → Bool} {n : Nat} (hn : n < limit)
    (hcond : cond n = true) : n < countWhile limit cond n := by
  unfold countWhile
  rw [if_pos hn, if_pos hcond]
  exact le_countWhile limit cond (n + 1)

section Rows

-- The rows so far, and the running line numbers.
structure Cursor where
  rows : List DiffRow
  sourceLine : Nat
  targetLine : Nat
  deriving DecidableEq, Repr

def pushRow (rows : List DiffRow) (kind : DiffRowKind) (text : String)
    (sourceLine targetLine : Option Nat) : List DiffRow :=
  rows ++ [{ kind := kind, text := text, sourceLine := sourceLine, targetLine := targetLine }]

def Cursor.context (cursor : Cursor) (text : String) : Cursor where
  rows := pushRow cursor.rows .context text (some cursor.sourceLine) (some cursor.targetLine)
  sourceLine := cursor.sourceLine + 1
  targetLine := cursor.targetLine + 1

def Cursor.removed (cursor : Cursor) (text : String) : Cursor where
  rows := pushRow cursor.rows .removed text (some cursor.sourceLine) none
  sourceLine := cursor.sourceLine + 1
  targetLine := cursor.targetLine

def Cursor.added (cursor : Cursor) (text : String) : Cursor where
  rows := pushRow cursor.rows .added text none (some cursor.targetLine)
  sourceLine := cursor.sourceLine
  targetLine := cursor.targetLine + 1

def prefixLength (source target : List String) : Nat :=
  countWhile (min source.length target.length) (fun n => source[n]? = target[n]?) 0

def suffixLength (source target : List String) (start : Nat) : Nat :=
  countWhile (min (source.length - start) (target.length - start))
    (fun n => source[source.length - 1 - n]? = target[target.length - 1 - n]?) 0

def visitor (a b : List String) : Visitor Cursor where
  keep i _ cursor := cursor.context a[i]!
  drop i cursor := cursor.removed a[i]!
  add j cursor := cursor.added b[j]!

section Read

variable {m : Type → Type} [Monad m] (read : Array Nat → Nat → m Nat)

-- The rows of what is left without the common prefix and suffix.
def middleRows (a b : List String) (cursor : Cursor) : m Cursor :=
  if (a.length + 1) * (b.length + 1) > maxLcsCells then
    return b.foldl Cursor.added (a.foldl Cursor.removed cursor)
  else do
    let table ← lengths read a b
    walk read a b (visitor a b) table 0 0 cursor

-- `diffRows`, with a way to read the table.
def diffRowsWith (source target : List String) : m (List DiffRow) := do
  let start := prefixLength source target
  let finish := suffixLength source target start
  let rows := (List.range start).foldl (fun rows index =>
    pushRow rows .context source[index]! (some (index + 1)) (some (index + 1))) []
  let a := (source.take (source.length - finish)).drop start
  let b := (target.take (target.length - finish)).drop start
  let cursor : Cursor := { rows, sourceLine := start + 1, targetLine := start + 1 }
  let cursor ← middleRows read a b cursor
  let cursor := (List.range finish).foldl (fun cursor index =>
    cursor.context source[source.length - finish + index]!) cursor
  return cursor.rows

end Read

-- `table[k] ?? 0`
def readCell (table : Array Nat) (k : Nat) : Id Nat :=
  table[k]?.getD 0

def diffRows (source target : List String) : List DiffRow :=
  (diffRowsWith readCell source target).run

-- The same, where a read outside of the table fails.
def checkedRows (source target : List String) : Option (List DiffRow) :=
  diffRowsWith (fun table k => table[k]?) source target

end Rows

section Segments

-- What `.` does not match.
def isLineTerminator (c : Char) : Bool :=
  c == '\n' || c == '\r' || c.toNat == 8232 || c.toNat == 8233

/--
The number of `#` and the title, where `HEADING` matches. No part of the pattern can match a
character that the next one starts with, so there is only one way to match it.
-/
def heading? (text : String) : Option (Nat × String) :=
  let indent := text.toList.takeWhile isTrimmed
  let text := text.toList.dropWhile isTrimmed
  let hashes := text.takeWhile (· == '#')
  let text := text.dropWhile (· == '#')
  let title := (text.dropWhile isTrimmed).rdropWhile isTrimmed
  if indent.length ≤ 3 ∧ 1 ≤ hashes.length ∧ hashes.length ≤ 6 ∧ text.takeWhile isTrimmed ≠ []
      ∧ title ≠ [] ∧ title.all (!isLineTerminator ·) then
    some (hashes.length, String.ofList title)
  else
    none

def headingsFrom (current : Option String) : List DiffRow → List (Option String)
  | [] => []
  | row :: rows =>
    let current :=
      match heading? row.text with
      | some (level, title) => if level > 1 then some title else current
      | none => current
    current :: headingsFrom current rows

def headingsFor (rows : List DiffRow) : List (Option String) :=
  headingsFrom none rows

-- `keep[near] = true` for the rows around a change.
def keepNear (length : Nat) (keep : List Bool) (index : Nat) : List Bool :=
  let first := index - contextLines
  let last := min (length - 1) (index + contextLines)
  (List.range' first (last + 1 - first)).foldl (fun keep near => keep.set near true) keep

-- One step of the second loop. `run` is the number of rows since the last one that is kept.
def keepGap (length : Nat) (state : List Bool × Nat) (index : Nat) : List Bool × Nat :=
  let (keep, run) := state
  if index < length ∧ ¬keep[index]! then
    (keep, run + 1)
  else if run > 0 ∧ run < minCollapseLines then
    ((List.range' (index - run) run).foldl (fun keep back => keep.set back true) keep, 0)
  else
    (keep, 0)

def keptRows (rows : List DiffRow) : List Bool :=
  let keep := rows.map fun row => decide (row.kind ≠ .context)
  let keep := (List.range rows.length).foldl (fun keep index =>
    if rows[index]?.map DiffRow.kind = some .context then
      keep
    else
      keepNear rows.length keep index) keep
  ((List.range (rows.length + 1)).foldl (keepGap rows.length) (keep, 0)).1

def segmentsFrom (rows : List DiffRow) (keep : List Bool) (headings : List (Option String))
    (index : Nat) : List DiffSegment :=
  if index < rows.length then
    if keep[index]! then
      let stop := countWhile rows.length (fun n => keep[n]!) index
      let hunk := (rows.take stop).drop index
      let anchor := (hunk.findIdx? fun row => row.kind ≠ .context).getD 0
      .hunk (headings[index + anchor]?.getD none) hunk :: segmentsFrom rows keep headings stop
    else
      let stop := countWhile rows.length (fun n => !keep[n]!) index
      .skipped (stop - index) :: segmentsFrom rows keep headings stop
  else
    []
termination_by rows.length - index
decreasing_by
  . next hindex hkeep =>
    have : index < stop := lt_countWhile hindex hkeep
    omega
  . next hindex hkeep =>
    have : index < stop := lt_countWhile hindex (by simpa using hkeep)
    omega

def segmentsFor (rows : List DiffRow) : List DiffSegment :=
  segmentsFrom rows (keptRows rows) (headingsFor rows) 0

end Segments

def diffLines (sourceContent targetContent : String) : DiffResult :=
  let rows := diffRows (splitLines sourceContent) (splitLines targetContent)
  let addedCount := rows.countP fun row => row.kind = .added
  let removedCount := rows.countP fun row => row.kind = .removed
  if addedCount = 0 ∧ removedCount = 0 then
    { addedCount, removedCount, segments := [], unchanged := true }
  else
    { addedCount, removedCount, segments := segmentsFor rows, unchanged := false }

end Diff

end Client

end AgenticPrd
