import AgenticPrd.Backend.Errors
import Mathlib.Data.List.DropRight

/-!
Completeness rules for a generated PRD (`prd_document.py`).
-/

namespace AgenticPrd

namespace PrdDocument

-- `str.isspace`, which is also what `\s` matches and what `strip` removes.
def isSpace (c : Char) : Bool :=
  let n := c.toNat
  (9 ≤ n && n ≤ 13) || (28 ≤ n && n ≤ 32) || n == 133 || n == 160 || n == 5760
    || (8192 ≤ n && n ≤ 8202) || n == 8232 || n == 8233 || n == 8239 || n == 8287 || n == 12288

def isBlank (c : Char) : Bool :=
  c == ' ' || c == '\t'

def strip (text : List Char) : List Char :=
  (text.dropWhile isSpace).rdropWhile isSpace

def dropPrefix? : List Char → List Char → Option (List Char)
  | [], text => some text
  | _ :: _, [] => none
  | p :: pattern, c :: text => if p = c then dropPrefix? pattern text else none

/--
What is left of `text` after a match of `_MARKER` at its start. No repetition of the pattern can
match a character that its successor starts with, so the greedy match is the only one.
-/
def afterMarker? (text : List Char) : Option (List Char) := do
  let text ← dropPrefix? "<!--".toList (text.dropWhile isBlank)
  let text ← dropPrefix? "PRD_COMPLETE".toList (text.dropWhile isSpace)
  let text ← dropPrefix? "-->".toList (text.dropWhile isSpace)
  match text.dropWhile isBlank with
  | '\n' :: rest => return rest
  | rest => return rest

-- `skip` characters of the text belong to the match that was found last.
def stripFrom : Nat → List Char → List Char
  | _, [] => []
  | skip + 1, _ :: text => stripFrom skip text
  | 0, c :: text =>
    match afterMarker? (c :: text) with
    | some rest => stripFrom (text.length - rest.length) text
    | none => c :: stripFrom 0 text

def stripCompletionMarker (content : String) : String :=
  String.ofList (stripFrom 0 content.toList)

def hasCompletionMarker (content : String) : Bool :=
  content.toList.tails.any fun text => (afterMarker? text).isSome

inductive FinishVerdict where
  | complete
  | truncated
  | interrupted
  | filtered
  deriving DecidableEq, Repr

-- Of the letters that are not ASCII, only the Kelvin sign has an ASCII letter as its lower case.
def lowerChar (c : Char) : Char :=
  if c.toNat = 8490 then 'k' else c.toLower

def classifyFinishReason : Option String → FinishVerdict
  | none => .complete
  | some finishReason =>
    let normalized := String.ofList ((strip finishReason.toList).map lowerChar)
    if normalized ∈ ["stop", "eos", ""] then
      .complete
    else if normalized ∈ ["content_filter"] then
      .filtered
    else if normalized ∈ ["length", "max_tokens"] then
      .truncated
    else
      .interrupted

def validateGeneratedPrd (content : String) (finishReason : Option String) :
    Except ProviderError String :=
  match classifyFinishReason finishReason with
  | .filtered => throw .contentFiltered
  | .truncated => throw .outputTruncated
  | .interrupted => throw .outputInterrupted
  | .complete =>
    if hasCompletionMarker content then
      let stripped := strip (stripCompletionMarker content).toList
      if stripped.isEmpty then
        throw .outputUnfinished
      else
        return String.ofList stripped
    else
      throw .outputUnfinished

example :
    (validateGeneratedPrd "# PRD\n<!-- PRD_COMPLETE -->\n" (some " STOP ")).toOption
      = some "# PRD" := by
  decide +kernel

end PrdDocument

end AgenticPrd
