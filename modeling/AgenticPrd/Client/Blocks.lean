import AgenticPrd.Client.ReadingDiff

/-!
Blocks of a document. Nothing of the document is lost, and a block that is read on its own is the
same block.
-/

namespace AgenticPrd

namespace Client

namespace Reading

variable {line : String} {lines : List String} {next : Option String} {markdown : String}
  {text : List Char} {level : Nat} {title : String} {block : DocBlock}

-- The carriage returns belong to line ends.
def OnlyCrlf (markdown : String) : Prop :=
  ∀ (i : Nat), markdown.toList[i]? = some '\r' → markdown.toList[i + 1]? = some '\n'

section Lines

def Clean (line : String) : Prop :=
  '\n' ∉ line.toList ∧ '\r' ∉ line.toList

theorem not_mem_normalizeReturns (h : ∀ (i : Nat), text[i]? = some '\r' → text[i + 1]? = some '\n') :
    '\r' ∉ Diff.normalizeReturns text := by
  fun_induction Diff.normalizeReturns text with
  | case1 => exact List.not_mem_nil
  | case2 text ih =>
    rw [List.mem_cons, not_or]
    exact ⟨by decide, ih fun i hi => h (i + 2) hi⟩
  | case3 c text hcrlf ih =>
    rw [List.mem_cons, not_or]
    constructor
    . intro hc
      subst hc
      have hnext := h 0 rfl
      cases text with
      | nil => cases hnext
      | cons d text =>
        rw [List.getElem?_cons_succ, List.getElem?_cons_zero, Option.some.injEq] at hnext
        exact hcrlf text rfl (by rw [hnext])
    . exact ih fun i hi => h (i + 1) hi

theorem normalizeReturns_eq (h : '\r' ∉ text) : Diff.normalizeReturns text = text := by
  fun_induction Diff.normalizeReturns text with
  | case1 => rfl
  | case2 text ih => exact absurd List.mem_cons_self h
  | case3 c text _ ih => rw [ih (List.not_mem_of_not_mem_cons h)]

theorem mem_of_mem_splitOn {part : List Char} (h : part ∈ text.splitOn '\n') :
    '\n' ∉ part ∧ ∀ c ∈ part, c ∈ text := by
  induction text generalizing part with
  | nil =>
    rw [List.splitOn_nil, List.mem_singleton] at h
    subst h
    exact ⟨List.not_mem_nil, fun _ hc => hc⟩
  | cons c text ih =>
    rw [List.splitOn_cons_eq_if_modifyHead] at h
    split at h
    . rw [List.mem_cons] at h
      obtain rfl | h := h
      . exact ⟨List.not_mem_nil, fun _ hc => absurd hc List.not_mem_nil⟩
      . exact ⟨(ih h).1, fun d hd => List.mem_cons_of_mem _ ((ih h).2 d hd)⟩
    . next hc =>
      cases hsplit : text.splitOn '\n' with
      | nil => exact absurd hsplit (List.splitOn_ne_nil _ _)
      | cons first rest =>
        rw [hsplit] at h ih
        rw [List.modifyHead_cons, List.mem_cons] at h
        obtain rfl | h := h
        . have hfirst := ih List.mem_cons_self
          constructor
          . rw [List.mem_cons, not_or]
            exact ⟨fun heq => hc (by rw [heq, BEq.rfl]), hfirst.1⟩
          . intro d hd
            rw [List.mem_cons] at hd ⊢
            exact hd.imp_right (hfirst.2 d)
        . have hrest := ih (List.mem_cons_of_mem _ h)
          exact ⟨hrest.1, fun d hd => List.mem_cons_of_mem _ (hrest.2 d hd)⟩

theorem clean_linesOf (h : OnlyCrlf markdown) : ∀ line ∈ linesOf markdown, Clean line := by
  intro line hline
  unfold linesOf at hline
  rw [List.mem_map] at hline
  obtain ⟨part, hpart, rfl⟩ := hline
  have hmem := mem_of_mem_splitOn hpart
  unfold Clean
  rw [String.toList_ofList]
  exact ⟨hmem.1, fun hreturn => not_mem_normalizeReturns h (hmem.2 _ hreturn)⟩

theorem not_mem_join {c : Char} (hc : c ≠ '\n') (hlines : ∀ line ∈ lines, c ∉ line.toList) :
    c ∉ ("\n".intercalate lines).toList := by
  induction lines with
  | nil => exact List.not_mem_nil
  | cons line lines ih =>
    rw [List.forall_mem_cons] at hlines
    cases lines with
    | nil =>
      rw [String.intercalate_singleton]
      exact hlines.1
    | cons next lines =>
      rw [String.intercalate_cons_of_ne_nil (List.cons_ne_nil _ _), String.toList_append,
        String.toList_append, List.mem_append, List.mem_append, not_or, not_or]
      exact ⟨⟨hlines.1, List.not_mem_cons_of_ne_of_not_mem hc List.not_mem_nil⟩, ih hlines.2⟩

-- The lines of a block are read as they were.
theorem linesOf_join (hne : lines ≠ []) (hclean : ∀ line ∈ lines, Clean line) :
    linesOf ("\n".intercalate lines) = lines := by
  have hreturn := not_mem_join (by decide) fun line hline => (hclean line hline).2
  have hbreak : ∀ part ∈ lines.map String.toList, '\n' ∉ part := by
    intro part hpart
    rw [List.mem_map] at hpart
    obtain ⟨line, hline, rfl⟩ := hpart
    exact (hclean line hline).1
  have hsplit := List.splitOn_intercalate '\n' hbreak (mt List.map_eq_nil_iff.mp hne)
  unfold linesOf
  rw [normalizeReturns_eq hreturn, String.toList_intercalate]
  change ((['\n'].intercalate (lines.map String.toList)).splitOn '\n').map String.ofList = lines
  rw [hsplit, List.map_map]
  exact List.map_id'' (fun line => String.ofList_toList) lines

end Lines

section Trim

theorem rdropWhile_append {p : Char → Bool} {tail : List Char} (h : ∀ c ∈ tail, p c = true) :
    (text ++ tail).rdropWhile p = text.rdropWhile p := by
  unfold List.rdropWhile
  rw [List.reverse_append, List.dropWhile_append_of_pos]
  intro c hc
  exact h c (List.mem_reverse.mp hc)

theorem trimStart_eq (line : String) :
    ∃ tail, trimStart line = (trim line).toList ++ tail ∧ ∀ c ∈ tail, isTrimmed c = true := by
  refine ⟨(trimStart line).rtakeWhile isTrimmed, ?_, fun c => List.mem_rtakeWhile_imp⟩
  unfold trim
  rw [String.toList_ofList]
  exact (List.rdropWhile_append_rtakeWhile ..).symm

-- What is left of a line starts with a character that is no space.
theorem not_isTrimmed_head {c : Char} (h : (trim line).toList.head? = some c) :
    isTrimmed c = false := by
  obtain ⟨tail, htail, _⟩ := trimStart_eq line
  have hhead : (trimStart line).head? = some c := by
    rw [htail, List.head?_append, h, Option.some_or]
  have hnot := List.head?_dropWhile_not isTrimmed line.toList
  unfold trimStart at hhead
  rw [hhead] at hnot
  exact hnot

theorem trimStart_trim (line : String) : trimStart (trim line) = (trim line).toList := by
  unfold trimStart
  cases htrim : (trim line).toList with
  | nil => rfl
  | cons c text =>
    have hc : isTrimmed c = false := not_isTrimmed_head (by rw [htrim, List.head?_cons])
    rw [List.dropWhile_cons_of_neg (by rw [hc]; exact Bool.false_ne_true)]

theorem unindent?_cases (line : String) :
    unindent? line = some (trimStart line) ∨ unindent? line = none := by
  unfold unindent?
  split
  . exact .inl rfl
  . exact .inr rfl

theorem unindent?_trim (line : String) : unindent? (trim line) = some (trim line).toList := by
  unfold unindent?
  rw [trimStart_trim]
  cases htrim : (trim line).toList with
  | nil => rfl
  | cons c text =>
    have hc : isTrimmed c = false := not_isTrimmed_head (by rw [htrim, List.head?_cons])
    rw [List.takeWhile_cons_of_neg (by rw [hc]; exact Bool.false_ne_true)]
    rfl

theorem trim_trim (line : String) : trim (trim line) = trim line := by
  have hstart := trimStart_trim line
  unfold trimStart at hstart
  rw [trim, hstart]
  unfold trim
  rw [String.toList_ofList, List.rdropWhile_idempotent]

theorem isBlank_trim (line : String) : isBlank (trim line) = isBlank line := by
  unfold isBlank
  rw [trim_trim]

theorem isTrimmed_of_isBlank (h : isBlank line = true) : ∀ c ∈ line.toList, isTrimmed c = true := by
  obtain ⟨tail, htail, hspaces⟩ := trimStart_eq line
  unfold isBlank at h
  rw [eq_of_beq h, String.toList_empty, List.nil_append] at htail
  intro c hc
  rw [← List.takeWhile_append_dropWhile (p := isTrimmed) (l := line.toList), List.mem_append] at hc
  obtain hc | hc := hc
  . exact List.mem_takeWhile_imp hc
  . exact hspaces c (by rw [← htail]; exact hc)

theorem isBlank_of_isTableDelimiter (h : isTableDelimiter line = true) : isBlank line = false := by
  rw [Bool.eq_false_iff]
  intro hblank
  unfold isTableDelimiter at h
  rw [Bool.and_eq_true, Bool.and_eq_true, List.contains_iff_mem] at h
  exact absurd (isTrimmed_of_isBlank hblank '|' h.1.1) (by decide)

theorem clean_trim (h : Clean line) : Clean (trim line) := by
  have hmem : ∀ c ∈ (trim line).toList, c ∈ line.toList := by
    obtain ⟨tail, htail, _⟩ := trimStart_eq line
    intro c hc
    apply (List.dropWhile_sublist isTrimmed).mem
    change c ∈ trimStart line
    rw [htail, List.mem_append]
    exact .inl hc
  exact ⟨fun hbreak => h.1 (hmem _ hbreak), fun hreturn => h.2 (hmem _ hreturn)⟩

-- What `HEADING` says of a line without its indentation.
structure IsHeading (text : List Char) (level : Nat) (title : List Char) : Prop where
  hashes : (text.takeWhile (· == '#')).length = level
  one_le : 1 ≤ level
  le_six : level ≤ 6
  spaces : (text.dropWhile (· == '#')).takeWhile isTrimmed ≠ []
  rest : ((text.dropWhile (· == '#')).dropWhile isTrimmed).rdropWhile isTrimmed = title
  ne_nil : title ≠ []
  oneLine : title.all (!Diff.isLineTerminator ·) = true

theorem heading?_iff :
    heading? line = some (level, title)
      ↔
    unindent? line = some (trimStart line) ∧ IsHeading (trimStart line) level title.toList := by
  unfold heading? Diff.heading? unindent?
  dsimp only
  rw [Option.ite_none_right_eq_some, Option.ite_none_right_eq_some, Option.some.injEq,
    Prod.mk.injEq]
  constructor
  . rintro ⟨⟨hindent, hone, hsix, hspaces, hne, honeLine⟩, rfl, rfl⟩
    rw [String.toList_ofList]
    exact ⟨⟨hindent, rfl⟩, rfl, hone, hsix, hspaces, rfl, hne, honeLine⟩
  . rintro ⟨⟨hindent, _⟩, rfl, hone, hsix, hspaces, hrest, hne, honeLine⟩
    unfold trimStart at hone hsix hspaces hrest
    rw [← hrest] at hne honeLine
    exact ⟨⟨hindent, hone, hsix, hspaces, hne, honeLine⟩, rfl, by rw [hrest, String.ofList_toList]⟩

theorem IsHeading.of_append {tail title : List Char} (h : IsHeading (text ++ tail) level title)
    (htail : ∀ c ∈ tail, isTrimmed c = true) : IsHeading text level title := by
  have hhash : tail.takeWhile (· == '#') = [] ∧ tail.dropWhile (· == '#') = tail := by
    cases tail with
    | nil => exact ⟨rfl, rfl⟩
    | cons c tail =>
      have hc : (c == '#') = false := by
        rw [beq_eq_false_iff_ne]
        intro heq
        have := htail c List.mem_cons_self
        rw [heq] at this
        exact absurd this (by decide)
      rw [List.takeWhile_cons, List.dropWhile_cons, hc]
      exact ⟨rfl, rfl⟩
  have hdrop : (text ++ tail).dropWhile (· == '#') = text.dropWhile (· == '#') ++ tail := by
    rw [List.dropWhile_append, hhash.2]
    split
    . next hnil => rw [List.isEmpty_iff.mp hnil, List.nil_append]
    . rfl
  have htake : (text ++ tail).takeWhile (· == '#') = text.takeWhile (· == '#') := by
    rw [List.takeWhile_append, hhash.1, List.append_nil]
    split
    . next hall =>
      exact ((List.takeWhile_prefix _).eq_of_length hall).symm
    . rfl
  obtain ⟨hhashes, hone, hsix, hspaces, hrest, hne, honeLine⟩ := h
  rw [htake] at hhashes
  rw [hdrop] at hspaces hrest
  have hsome : ¬∀ c ∈ text.dropWhile (· == '#'), isTrimmed c = true := by
    intro hall
    have hnil : (text.dropWhile (· == '#') ++ tail).dropWhile isTrimmed = [] := by
      rw [List.dropWhile_eq_nil_iff, List.forall_mem_append]
      exact ⟨hall, htail⟩
    rw [hnil, List.rdropWhile_nil] at hrest
    exact hne hrest.symm
  rw [List.dropWhile_append, if_neg (by rwa [List.isEmpty_iff, List.dropWhile_eq_nil_iff]),
    rdropWhile_append htail] at hrest
  refine ⟨hhashes, hone, hsix, ?_, hrest, hne, honeLine⟩
  cases hcons : text.dropWhile (· == '#') with
  | nil =>
    rw [hcons] at hsome
    exact absurd (fun c hc => absurd hc List.not_mem_nil) hsome
  | cons c rest =>
    rw [hcons, List.cons_append, List.takeWhile_cons] at hspaces
    rw [List.takeWhile_cons]
    split at hspaces
    . next hc =>
      rw [if_pos hc]
      exact List.cons_ne_nil _ _
    . exact absurd rfl hspaces

theorem fence?_of_head {c : Char} (hhead : (trimStart line).head? = some c)
    (hc : (isBacktick c || c == '~') = false) : fence? line = none := by
  unfold fence?
  obtain hindent | hindent := unindent?_cases line
  . rw [hindent]
    cases hstart : trimStart line with
    | nil => rfl
    | cons d text =>
      rw [hstart, List.head?_cons, Option.some.injEq] at hhead
      subst hhead
      dsimp only
      rw [hc, Bool.false_and]
      rfl
  . rw [hindent]

theorem IsHeading.head {title : List Char} (h : IsHeading text level title) :
    text.head? = some '#' := by
  have hlevel := h.hashes
  have hone := h.one_le
  cases text with
  | nil =>
    rw [List.takeWhile_nil, List.length_nil] at hlevel
    omega
  | cons c text =>
    rw [List.takeWhile_cons] at hlevel
    split at hlevel
    . next hc => rw [List.head?_cons, eq_of_beq hc]
    . rw [List.length_nil] at hlevel
      omega

theorem heading?_trim (h : heading? line = some (level, title)) :
    heading? (trim line) = some (level, title) := by
  obtain ⟨tail, htail, hspaces⟩ := trimStart_eq line
  have hheading := (heading?_iff.mp h).2
  rw [htail] at hheading
  rw [heading?_iff, trimStart_trim]
  exact ⟨unindent?_trim line, hheading.of_append hspaces⟩

theorem isRule_cons {c : Char} (hstart : unindent? line = some (c :: text)) :
    isRule line
      =
    ((c == '-' || c == '*' || c == '_') && 2 ≤ text.count c
      && text.all fun d => isTrimmed d || d == c) := by
  unfold isRule
  rw [hstart]

theorem isRule_head (h : isRule line = true) :
    ∃ c text, unindent? line = some (c :: text) ∧ (c == '-' || c == '*' || c == '_') = true := by
  unfold isRule at h
  split at h
  . next c text hstart =>
    rw [Bool.and_eq_true, Bool.and_eq_true] at h
    exact ⟨c, text, hstart, h.1.1⟩
  . exact absurd h Bool.false_ne_true

theorem isRule_trim (h : isRule line = true) : isRule (trim line) = true := by
  obtain ⟨c, text, hstart, hmark⟩ := isRule_head h
  obtain ⟨tail, htail, hspaces⟩ := trimStart_eq line
  have hnot : isTrimmed c = false := by
    rw [Bool.or_eq_true, Bool.or_eq_true, beq_iff_eq, beq_iff_eq, beq_iff_eq] at hmark
    obtain (rfl | rfl) | rfl := hmark <;> decide
  have hsame : trimStart line = c :: text := by
    obtain hindent | hindent := unindent?_cases line
    . rw [hindent, Option.some.injEq] at hstart
      exact hstart
    . rw [hindent] at hstart
      cases hstart
  rw [isRule_cons hstart] at h
  cases htrim : (trim line).toList with
  | nil =>
    rw [hsame, htrim, List.nil_append] at htail
    have := hspaces c (by rw [← htail]; exact List.mem_cons_self)
    rw [hnot] at this
    cases this
  | cons d rest =>
    rw [hsame, htrim, List.cons_append, List.cons.injEq] at htail
    obtain ⟨rfl, rfl⟩ := htail
    have hcount : tail.count c = 0 := by
      rw [List.count_eq_zero]
      intro hc
      rw [hspaces c hc] at hnot
      cases hnot
    rw [List.count_append, hcount, List.all_append] at h
    rw [isRule_cons (by rw [unindent?_trim, htrim])]
    simp only [Bool.and_eq_true] at h ⊢
    exact ⟨h.1, h.2.1⟩

end Trim

section Openings

variable {opened : Opening}

-- Each branch with what was asked on the way to it.
inductive Opens (line : String) (next : Option String) : Opening → Prop where
  | code {marker : List Char} (hfence : fence? line = some marker) : Opens line next (.code marker)
  | heading {level : Nat} {title : String} (hfence : fence? line = none)
    (hheading : heading? line = some (level, title)) : Opens line next (.heading level)
  | rule (hfence : fence? line = none) (hheading : heading? line = none)
    (hrule : isRule line = true) : Opens line next .rule
  | table (hfence : fence? line = none) (hheading : heading? line = none)
    (hrule : ¬isRule line = true)
    (htable : (line.toList.contains '|' && next.any isTableDelimiter) = true) :
    Opens line next .table
  | list (hfence : fence? line = none) (hheading : heading? line = none)
    (hrule : ¬isRule line = true)
    (htable : ¬(line.toList.contains '|' && next.any isTableDelimiter) = true)
    (hlist : isListItem line = true) : Opens line next .list
  | text (hfence : fence? line = none) (hheading : heading? line = none)
    (hrule : ¬isRule line = true)
    (htable : ¬(line.toList.contains '|' && next.any isTableDelimiter) = true)
    (hlist : ¬isListItem line = true) : Opens line next (.text (isQuoted line))

-- A line that goes on with a block which was opened so.
inductive GoesOn : Opening → String → Prop where
  | code {marker : List Char} {line : String} (hopen : ¬marker <+: trimStart line) :
    GoesOn (.code marker) line
  | table {line : String} (hblank : isBlank line = false)
    (hcell : line.toList.contains '|' = true) : GoesOn .table line
  | list {line : String} (hblank : isBlank line = false) (hbreaks : breaksBlock line = false)
    (hlist : isListItem line = false) (hindent : isIndented line = true) : GoesOn .list line
  | text {line : String} (hblank : isBlank line = false) (hbreaks : breaksBlock line = false)
    (hlist : isListItem line = false) : GoesOn (.text (isQuoted line)) line

-- The lines of a block after its first one, and what stands behind the block.
inductive Extends : Opening → List String → List String → Prop where
  | closed {marker : List Char} {inner rest : List String} {closing : String}
    (hinner : ∀ line ∈ inner, GoesOn (.code marker) line)
    (hclosing : marker <+: trimStart closing) : Extends (.code marker) (inner ++ [closing]) rest
  | unclosed {marker : List Char} {inner : List String}
    (hinner : ∀ line ∈ inner, GoesOn (.code marker) line) : Extends (.code marker) inner []
  | heading {level : Nat} {rest : List String} : Extends (.heading level) [] rest
  | rule {rest : List String} : Extends .rule [] rest
  | table {delimiter : String} {rows rest : List String} (hrows : ∀ row ∈ rows, GoesOn .table row)
    (hend : ∀ line ∈ rest.head?, ¬GoesOn .table line) : Extends .table (delimiter :: rows) rest
  | list {later rest : List String} (hlater : ∀ line ∈ later, GoesOn .list line)
    (hend : ∀ line ∈ rest.head?, ¬GoesOn .list line) : Extends .list later rest
  | text {quoted : Bool} {later rest : List String}
    (hlater : ∀ line ∈ later, GoesOn (.text quoted) line)
    (hend : ∀ line ∈ rest.head?, ¬GoesOn (.text quoted) line) : Extends (.text quoted) later rest

-- The kind and the level of a block that was opened so.
inductive Yields : Opening → BlockKind → Option Nat → Prop where
  | code {marker : List Char} : Yields (.code marker) .code none
  | heading {level : Nat} : Yields (.heading level) .heading (some level)
  | rule : Yields .rule .rule none
  | table : Yields .table .table none
  | list : Yields .list .list none
  | quote : Yields (.text true) .quote none
  | paragraph : Yields (.text false) .paragraph none

-- The pattern of the first line says what block it is and how far it goes.
structure Shaped (line : String) (later rest : List String) (opened : Opening) : Prop where
  opens : Opens line (later ++ rest).head? opened
  reaches : Extends opened later rest

-- What a block is made of. The first line is never blank, and a later one only in code.
structure Spells (lines rest : List String) (block : DocBlock) : Prop where
  first : ∃ line ∈ lines.head?, isBlank line = false
  shape :
    ∃ line later opened,
      lines = line :: later ∧ Shaped line later rest opened ∧ Yields opened block.kind block.level
  text :
    if block.kind = .heading ∨ block.kind = .rule then
      ∃ line, lines = [line] ∧ block.text = trim line
    else
      block.text = "\n".intercalate lines
  blank : block.kind ≠ .code → ∀ line ∈ lines, isBlank line = false

inductive Covers : List String → List DocBlock → Prop where
  | done : Covers [] []
  | blank {line : String} {lines : List String} {blocks : List DocBlock}
    (hblank : isBlank line = true) (hrest : Covers lines blocks) : Covers (line :: lines) blocks
  | block {taken lines : List String} {block : DocBlock} {blocks : List DocBlock}
    (hspells : Spells taken lines block) (hrest : Covers lines blocks) :
    Covers (taken ++ lines) (block :: blocks)

theorem opens_opening (line : String) (next : Option String) :
    Opens line next (opening line next) := by
  unfold opening
  split
  . next hfence => exact .code hfence
  . next hfence =>
    split
    . next hheading => exact .heading hfence hheading
    . next hheading =>
      split
      . next hrule => exact .rule hfence hheading hrule
      . next hrule =>
        split
        . next htable => exact .table hfence hheading hrule htable
        . next htable =>
          split
          . next hlist => exact .list hfence hheading hrule htable hlist
          . next hlist => exact .text hfence hheading hrule htable hlist

theorem Opens.opening_eq (h : Opens line next opened) : opening line next = opened := by
  unfold opening
  cases h with
  | code hfence => rw [hfence]
  | heading hfence hheading => rw [hfence, hheading]
  | rule hfence hheading hrule =>
    rw [hfence, hheading]
    exact if_pos hrule
  | table hfence hheading hrule htable =>
    rw [hfence, hheading]
    dsimp only
    rw [if_neg hrule, if_pos htable]
  | list hfence hheading hrule htable hlist =>
    rw [hfence, hheading]
    dsimp only
    rw [if_neg hrule, if_neg htable, if_pos hlist]
  | text hfence hheading hrule htable hlist =>
    rw [hfence, hheading]
    dsimp only
    rw [if_neg hrule, if_neg htable, if_neg hlist]

theorem opens_iff : Opens line next opened ↔ opening line next = opened := by
  constructor
  . exact Opens.opening_eq
  . rintro rfl
    exact opens_opening line next

theorem heading?_of_head {c : Char} (hhead : (trimStart line).head? = some c) (hc : c ≠ '#') :
    heading? line = none := by
  cases hheading : heading? line with
  | none => rfl
  | some heading =>
    obtain ⟨level, title⟩ := heading
    rw [(heading?_iff.mp hheading).2.head, Option.some.injEq] at hhead
    exact absurd hhead.symm hc

theorem Opens.heading_trim (h : Opens line next (.heading level)) :
    Opens (trim line) none (.heading level) := by
  cases h with
  | heading hfence hheading =>
    have htrim := heading?_trim hheading
    exact .heading (fence?_of_head (heading?_iff.mp htrim).2.head (by decide)) htrim

theorem Opens.rule_trim (h : Opens line next .rule) : Opens (trim line) none .rule := by
  cases h with
  | rule hfence hheading hrule =>
    have htrim := isRule_trim hrule
    obtain ⟨c, text, hstart, hmark⟩ := isRule_head htrim
    have hhead : (trimStart (trim line)).head? = some c := by
      rw [unindent?_trim, Option.some.injEq] at hstart
      rw [trimStart_trim, hstart, List.head?_cons]
    rw [Bool.or_eq_true, Bool.or_eq_true, beq_iff_eq, beq_iff_eq, beq_iff_eq] at hmark
    refine .rule (fence?_of_head hhead ?_) (heading?_of_head hhead ?_) htrim
    . obtain (rfl | rfl) | rfl := hmark <;> decide
    . obtain (rfl | rfl) | rfl := hmark <;> decide

-- Only a table looks ahead.
theorem Opens.alone (h : Opens line next opened) (hne : opened ≠ .table) :
    Opens line none opened := by
  have htable : ¬(line.toList.contains '|' && (none : Option String).any isTableDelimiter) = true := by
    rw [Option.any_none, Bool.and_false]
    exact Bool.false_ne_true
  cases h with
  | code hfence => exact .code hfence
  | heading hfence hheading => exact .heading hfence hheading
  | rule hfence hheading hrule => exact .rule hfence hheading hrule
  | table _ _ _ _ => exact absurd rfl hne
  | list hfence hheading hrule _ hlist => exact .list hfence hheading hrule htable hlist
  | text hfence hheading hrule _ hlist => exact .text hfence hheading hrule htable hlist

theorem Opens.take (h : Opens line lines.head? opened) :
    Opens line (lines.take (opened.extent lines)).head? opened := by
  by_cases hzero : opened.extent lines = 0
  . rw [hzero, List.take_zero]
    apply h.alone
    rintro rfl
    dsimp only [Opening.extent] at hzero
    omega
  . rw [List.head?_take, if_neg hzero]
    exact h

theorem take_takeWhile_length (p : String → Bool) (lines : List String) :
    lines.take (lines.takeWhile p).length = lines.takeWhile p :=
  (List.prefix_iff_eq_take.mp (List.takeWhile_prefix p)).symm

theorem takeWhile_idempotent (p : String → Bool) (lines : List String) :
    (lines.takeWhile p).takeWhile p = lines.takeWhile p := by
  rw [List.takeWhile_eq_self_iff]
  intro line hline
  exact List.mem_takeWhile_imp hline

-- One more line than those that pass does not change which ones do.
theorem takeWhile_take_succ (p : String → Bool) (lines : List String) :
    (lines.take ((lines.takeWhile p).length + 1)).takeWhile p = lines.takeWhile p := by
  induction lines with
  | nil => rfl
  | cons line lines ih =>
    rw [List.take_succ_cons, List.takeWhile_cons, List.takeWhile_cons]
    split
    . rw [List.length_cons, ih]
    . rfl

-- The lines of a block are all of the block, also where nothing else follows.
theorem Opens.extent_take (h : Opens line lines.head? opened) :
    opened.extent (lines.take (opened.extent lines))
      =
    (lines.take (opened.extent lines)).length := by
  cases h with
  | @code marker hfence =>
    dsimp only [Opening.extent]
    split
    . next hclosed =>
      rw [takeWhile_take_succ, List.length_take, Nat.min_eq_left hclosed,
        if_pos (Nat.lt_succ_self _)]
    . rw [take_takeWhile_length, takeWhile_idempotent, if_neg (Nat.lt_irrefl _)]
  | heading hfence hheading => rfl
  | rule hfence hheading hrule => rfl
  | table hfence hheading hrule htable =>
    cases lines with
    | nil =>
      rw [List.head?_nil, Option.any_none, Bool.and_false] at htable
      exact absurd htable Bool.false_ne_true
    | cons delimiter rows =>
      dsimp only [Opening.extent]
      rw [Nat.add_comm 1, List.drop_succ_cons, List.drop_zero, Nat.add_comm 1, List.take_succ_cons,
        List.drop_succ_cons, List.drop_zero, take_takeWhile_length, takeWhile_idempotent,
        List.length_cons]
  | list hfence hheading hrule htable hlist =>
    dsimp only [Opening.extent]
    rw [take_takeWhile_length, takeWhile_idempotent]
  | text hfence hheading hrule htable hlist =>
    dsimp only [Opening.extent]
    rw [take_takeWhile_length, takeWhile_idempotent]

section Shapes

variable {later rest : List String} {p : String → Bool}

theorem goesOn_code_iff {marker : List Char} :
    GoesOn (.code marker) line ↔ (!marker.isPrefixOf (trimStart line)) = true := by
  rw [Bool.not_eq_true', Bool.eq_false_iff, ne_eq, List.isPrefixOf_iff_prefix]
  constructor
  . rintro ⟨hopen⟩
    assumption
  . exact .code

theorem goesOn_table_iff :
    GoesOn .table line ↔ (!isBlank line && line.toList.contains '|') = true := by
  rw [Bool.and_eq_true, Bool.not_eq_true']
  constructor
  . rintro ⟨⟩
    exact ⟨‹_›, ‹_›⟩
  . exact fun h => .table h.1 h.2

theorem goesOn_list_iff :
    GoesOn .list line
      ↔
    (!isBlank line && !isListItem line && !breaksBlock line && isIndented line) = true := by
  simp only [Bool.and_eq_true, Bool.not_eq_true']
  constructor
  . rintro ⟨⟩
    exact ⟨⟨⟨‹_›, ‹_›⟩, ‹_›⟩, ‹_›⟩
  . exact fun h => .list h.1.1.1 h.1.2 h.1.1.2 h.2

theorem goesOn_text_iff {quoted : Bool} :
    GoesOn (.text quoted) line
      ↔
    (!(isBlank line || breaksBlock line || isListItem line || quoted != isQuoted line)) = true := by
  rw [Bool.not_eq_true', Bool.or_eq_false_iff, Bool.or_eq_false_iff, Bool.or_eq_false_iff,
    bne_eq_false_iff_eq]
  constructor
  . rintro ⟨⟩
    exact ⟨⟨⟨‹_›, ‹_›⟩, ‹_›⟩, rfl⟩
  . rintro ⟨⟨⟨hblank, hbreaks⟩, hlist⟩, rfl⟩
    exact .text hblank hbreaks hlist

theorem drop_takeWhile_length (p : String → Bool) (lines : List String) :
    lines.drop (lines.takeWhile p).length = lines.dropWhile p := by
  conv => lhs; arg 2; rw [← List.takeWhile_append_dropWhile (p := p) (l := lines)]
  rw [List.drop_left]

theorem goesOn_take (hp : ∀ line, GoesOn opened line ↔ p line = true) (lines : List String) :
    ∀ line ∈ lines.take (lines.takeWhile p).length, GoesOn opened line := by
  intro line hline
  rw [take_takeWhile_length] at hline
  exact (hp line).mpr (List.mem_takeWhile_imp hline)

theorem not_goesOn_drop (hp : ∀ line, GoesOn opened line ↔ p line = true) (lines : List String) :
    ∀ line ∈ (lines.drop (lines.takeWhile p).length).head?, ¬GoesOn opened line := by
  intro line hline
  have hnot := List.head?_dropWhile_not p lines
  rw [drop_takeWhile_length, Option.mem_def] at hline
  rw [hline] at hnot
  rw [hp, hnot]
  exact Bool.false_ne_true

theorem takeWhile_append_goesOn (hp : ∀ line, GoesOn opened line ↔ p line = true)
    (hlater : ∀ line ∈ later, GoesOn opened line)
    (hend : ∀ line ∈ rest.head?, ¬GoesOn opened line) : (later ++ rest).takeWhile p = later := by
  rw [List.takeWhile_append_of_pos fun line hline => (hp line).mp (hlater line hline)]
  cases rest with
  | nil => rw [List.takeWhile_nil, List.append_nil]
  | cons closing rest =>
    have hclosing := hend closing (by rw [List.head?_cons, Option.mem_def])
    rw [hp] at hclosing
    rw [List.takeWhile_cons_of_neg hclosing, List.append_nil]

theorem take_closing {closing : String} (h : lines.dropWhile p = closing :: rest) :
    lines.take ((lines.takeWhile p).length + 1) = lines.takeWhile p ++ [closing]
      ∧
    lines.drop ((lines.takeWhile p).length + 1) = rest := by
  rw [← drop_takeWhile_length] at h
  rw [List.take_add, List.drop_add_one_eq_tail_drop, h, take_takeWhile_length]
  exact ⟨rfl, rfl⟩

theorem Opens.reaches (h : Opens line lines.head? opened) :
    Extends opened (lines.take (opened.extent lines)) (lines.drop (opened.extent lines)) := by
  cases h with
  | @code marker hfence =>
    have hgoes : ∀ line, GoesOn (.code marker) line ↔ (!marker.isPrefixOf (trimStart line)) = true :=
      fun _ => goesOn_code_iff
    have hinner := goesOn_take hgoes lines
    have hend := not_goesOn_drop hgoes lines
    rw [take_takeWhile_length] at hinner
    rw [drop_takeWhile_length] at hend
    dsimp only [Opening.extent]
    split
    . next hclosed =>
      cases hdrop : lines.dropWhile fun line => !marker.isPrefixOf (trimStart line) with
      | nil =>
        rw [← drop_takeWhile_length, List.drop_eq_nil_iff] at hdrop
        omega
      | cons closing rest =>
        rw [(take_closing hdrop).1, (take_closing hdrop).2]
        rw [hdrop] at hend
        refine .closed hinner ?_
        by_contra hopen
        exact hend closing rfl (.code hopen)
    . next hopen =>
      rw [take_takeWhile_length, List.drop_of_length_le (Nat.le_of_not_lt hopen)]
      exact .unclosed hinner
  | heading hfence hheading => exact .heading
  | rule hfence hheading hrule => exact .rule
  | table hfence hheading hrule htable =>
    cases lines with
    | nil =>
      rw [List.head?_nil, Option.any_none, Bool.and_false] at htable
      exact absurd htable Bool.false_ne_true
    | cons delimiter rows =>
      dsimp only [Opening.extent]
      rw [Nat.add_comm 1, List.take_succ_cons, List.drop_succ_cons, List.drop_succ_cons,
        List.drop_zero]
      exact .table (goesOn_take (fun _ => goesOn_table_iff) _)
        (not_goesOn_drop (fun _ => goesOn_table_iff) _)
  | list hfence hheading hrule htable hlist =>
    exact .list (goesOn_take (fun _ => goesOn_list_iff) _)
      (not_goesOn_drop (fun _ => goesOn_list_iff) _)
  | text hfence hheading hrule htable hlist =>
    exact .text (goesOn_take (fun _ => goesOn_text_iff) _)
      (not_goesOn_drop (fun _ => goesOn_text_iff) _)

theorem Opens.shaped (h : Opens line lines.head? opened) :
    Shaped line (lines.take (opened.extent lines)) (lines.drop (opened.extent lines)) opened where
  opens := by rwa [List.take_append_drop]
  reaches := h.reaches

theorem Extends.extent_eq (h : Extends opened later rest) :
    opened.extent (later ++ rest) = later.length := by
  cases h with
  | @closed marker inner rest closing hinner hclosing =>
    have hend : ∀ line ∈ (closing :: rest).head?, ¬GoesOn (.code marker) line := by
      intro line hline
      rw [List.head?_cons, Option.mem_def, Option.some.injEq] at hline
      subst hline
      rintro ⟨hopen⟩
      contradiction
    have htake := takeWhile_append_goesOn (fun _ => goesOn_code_iff) hinner hend
    dsimp only [Opening.extent]
    rw [List.append_assoc, List.singleton_append, htake, if_pos (by simp), List.length_append,
      List.length_singleton]
  | @unclosed marker inner hinner =>
    have hend : ∀ line ∈ ([] : List String).head?, ¬GoesOn (.code marker) line := nofun
    have htake := takeWhile_append_goesOn (fun _ => goesOn_code_iff) hinner hend
    dsimp only [Opening.extent]
    rw [htake, List.append_nil, if_neg (Nat.lt_irrefl _)]
  | heading => rfl
  | rule => rfl
  | table hrows hend =>
    dsimp only [Opening.extent]
    rw [List.cons_append, List.drop_succ_cons, List.drop_zero,
      takeWhile_append_goesOn (fun _ => goesOn_table_iff) hrows hend, List.length_cons, Nat.add_comm]
  | list hlater hend =>
    dsimp only [Opening.extent]
    rw [takeWhile_append_goesOn (fun _ => goesOn_list_iff) hlater hend]
  | text hlater hend =>
    dsimp only [Opening.extent]
    rw [takeWhile_append_goesOn (fun _ => goesOn_text_iff) hlater hend]

theorem GoesOn.not_isBlank (h : GoesOn opened line) (hcode : opened.kind ≠ .code) :
    isBlank line = false := by
  cases h with
  | code hopen => exact absurd rfl hcode
  | table hblank hcell => exact hblank
  | list hblank hbreaks hlist hindent => exact hblank
  | text hblank hbreaks hlist => exact hblank

theorem Shaped.not_isBlank (h : Shaped line later rest opened) (hcode : opened.kind ≠ .code) :
    ∀ line ∈ later, isBlank line = false := by
  obtain ⟨hopens, hreaches⟩ := h
  cases hreaches with
  | closed hinner hclosing => exact absurd rfl hcode
  | unclosed hinner => exact absurd rfl hcode
  | heading => exact fun _ hlater => absurd hlater List.not_mem_nil
  | rule => exact fun _ hlater => absurd hlater List.not_mem_nil
  | table hrows hend =>
    cases hopens with
    | table hfence hheading hrule htable =>
      rw [List.cons_append, List.head?_cons, Option.any_some, Bool.and_eq_true] at htable
      rw [List.forall_mem_cons]
      exact ⟨isBlank_of_isTableDelimiter htable.2, fun row hrow => (hrows row hrow).not_isBlank hcode⟩
  | list hlater hend => exact fun next hnext => (hlater next hnext).not_isBlank hcode
  | text hlater hend => exact fun next hnext => (hlater next hnext).not_isBlank hcode

end Shapes

end Openings

section Split

variable {opened : Opening}

-- A block of one line, without the spaces around it.
def Opening.isLine : Opening → Bool
  | heading _ => true
  | rule => true
  | _ => false

theorem yields_iff {kind : BlockKind} {level : Option Nat} :
    Yields opened kind level ↔ kind = opened.kind ∧ level = opened.level := by
  constructor
  . intro h
    cases h <;> exact ⟨rfl, rfl⟩
  . rintro ⟨rfl, rfl⟩
    cases opened with
    | code marker => exact .code
    | heading level => exact .heading
    | rule => exact .rule
    | table => exact .table
    | list => exact .list
    | text quoted =>
      cases quoted with
      | false => exact .paragraph
      | true => exact .quote

theorem Opening.kind_iff_isLine (opened : Opening) :
    opened.kind = .heading ∨ opened.kind = .rule ↔ opened.isLine = true := by
  cases opened with
  | text quoted => cases quoted <;> decide
  | heading level => exact ⟨fun _ => rfl, fun _ => .inl rfl⟩
  | rule => exact ⟨fun _ => rfl, fun _ => .inr rfl⟩
  | _ => simp [kind, isLine]

theorem Opening.block_of_isLine (h : opened.isLine = true) (line : String) (lines : List String) :
    opened.block line lines = { kind := opened.kind, level := opened.level, text := trim line } := by
  cases opened with
  | heading level => rfl
  | rule => rfl
  | _ => cases h

theorem Opening.block_of_not_isLine (h : ¬opened.isLine = true) (line : String)
    (lines : List String) :
    opened.block line lines
      =
    { kind := opened.kind, level := opened.level, text := "\n".intercalate (line :: lines) } := by
  cases opened with
  | heading level => exact absurd rfl h
  | rule => exact absurd rfl h
  | _ => rfl

theorem Opening.extent_of_isLine (h : opened.isLine = true) (lines : List String) :
    opened.extent lines = 0 := by
  cases opened with
  | heading level => rfl
  | rule => rfl
  | _ => cases h

theorem Opens.trim_of_isLine (h : Opens line next opened) (hline : opened.isLine = true) :
    Opens (trim line) none opened := by
  cases opened with
  | heading level => exact h.heading_trim
  | rule => exact h.rule_trim
  | _ => cases hline

theorem blocksFrom_cons (hblank : isBlank line = false) (hopen : Opens line lines.head? opened) :
    blocksFrom (line :: lines)
      =
    opened.block line (lines.take (opened.extent lines))
      :: blocksFrom (lines.drop (opened.extent lines)) := by
  rw [blocksFrom, if_neg (by rw [hblank]; exact Bool.false_ne_true), hopen.opening_eq]

theorem Opens.spells (hblank : isBlank line = false) (h : Opens line lines.head? opened) :
    Spells (line :: lines.take (opened.extent lines)) (lines.drop (opened.extent lines))
      (opened.block line (lines.take (opened.extent lines))) := by
  have hshaped := h.shaped
  refine ⟨⟨line, rfl, hblank⟩, ⟨line, _, opened, rfl, hshaped, yields_iff.mpr ⟨rfl, rfl⟩⟩, ?_, fun hcode => ?_⟩
  . by_cases hline : opened.isLine = true
    . rw [Opening.block_of_isLine hline, if_pos ((Opening.kind_iff_isLine _).mpr hline),
        Opening.extent_of_isLine hline]
      exact ⟨line, rfl, rfl⟩
    . rw [Opening.block_of_not_isLine hline, if_neg (mt (Opening.kind_iff_isLine _).mp hline)]
  . rw [List.forall_mem_cons]
    exact ⟨hblank, hshaped.not_isBlank hcode⟩

theorem covers_blocksFrom (lines : List String) : Covers lines (blocksFrom lines) := by
  fun_induction blocksFrom lines with
  | case1 => exact .done
  | case2 line lines hblank ih => exact .blank hblank ih
  | case3 line lines hblank opened extent ih =>
    have hspells := (opens_opening line lines.head?).spells (Bool.eq_false_iff.mpr hblank)
    have hcovers := Covers.block hspells ih
    rw [List.cons_append, List.take_append_drop] at hcovers
    exact hcovers

theorem Spells.eq_block {later rest : List String} (h : Spells (line :: later) rest block)
    (hyields : Yields opened block.kind block.level) : block = opened.block line later := by
  obtain ⟨hkind, hlevel⟩ := yields_iff.mp hyields
  have htext := h.text
  have hparts : block = { kind := opened.kind, level := opened.level, text := block.text } := by
    rw [← hkind, ← hlevel]
  rw [hkind] at htext
  by_cases hline : opened.isLine = true
  . rw [if_pos ((Opening.kind_iff_isLine _).mpr hline)] at htext
    obtain ⟨line', hlines, htext⟩ := htext
    cases hlines
    rw [hparts, htext, Opening.block_of_isLine hline]
  . rw [if_neg (mt (Opening.kind_iff_isLine _).mp hline)] at htext
    rw [hparts, htext, Opening.block_of_not_isLine hline]

-- No other blocks cover the lines.
theorem covers_iff {blocks : List DocBlock} : Covers lines blocks ↔ blocksFrom lines = blocks := by
  constructor
  . intro h
    induction h with
    | done => rw [blocksFrom]
    | blank hblank hrest ih => rw [blocksFrom, if_pos hblank, ih]
    | block hspells hrest ih =>
      obtain ⟨line, later, opened, rfl, hshaped, hyields⟩ := hspells.shape
      obtain ⟨first, hfirst, hblank⟩ := hspells.first
      cases hfirst
      rw [List.cons_append, blocksFrom_cons hblank hshaped.opens, hshaped.reaches.extent_eq,
        List.take_left, List.drop_left, ih, hspells.eq_block hyields]
  . rintro rfl
    exact covers_blocksFrom lines

-- A block that is read on its own.
theorem Opens.splitBlocks_block (h : Opens line lines.head? opened) (hblank : isBlank line = false)
    (hclean : ∀ part ∈ line :: lines, Clean part) :
    splitBlocks (opened.block line (lines.take (opened.extent lines))).text
      =
    [opened.block line (lines.take (opened.extent lines))] := by
  rw [List.forall_mem_cons] at hclean
  unfold splitBlocks
  by_cases hline : opened.isLine = true
  . have htrim := h.trim_of_isLine hline
    have hlines : linesOf (trim line) = [trim line] := by
      have hone := linesOf_join (List.cons_ne_nil (trim line) [])
        (List.forall_mem_singleton.mpr (clean_trim hclean.1))
      rw [String.intercalate_singleton] at hone
      exact hone
    rw [Opening.block_of_isLine hline, hlines, blocksFrom_cons (by rw [isBlank_trim, hblank]) htrim,
      Opening.block_of_isLine hline, trim_trim, List.drop_nil, blocksFrom]
  . have hjoin : ∀ line' ∈ line :: lines.take (opened.extent lines), Clean line' := by
      rw [List.forall_mem_cons]
      exact ⟨hclean.1, fun line' hmem => hclean.2 line' (List.mem_of_mem_take hmem)⟩
    rw [Opening.block_of_not_isLine hline, linesOf_join (List.cons_ne_nil _ _) hjoin,
      blocksFrom_cons hblank h.take, h.extent_take, List.take_length, List.drop_length, blocksFrom,
      Opening.block_of_not_isLine hline]

theorem splitBlocks_of_mem (hclean : ∀ line ∈ lines, Clean line) (h : block ∈ blocksFrom lines) :
    splitBlocks block.text = [block] := by
  fun_induction blocksFrom lines with
  | case1 => exact absurd h List.not_mem_nil
  | case2 line lines hblank ih => exact ih (List.forall_mem_cons.mp hclean).2 h
  | case3 line lines hblank opened extent ih =>
    rw [List.mem_cons] at h
    obtain rfl | h := h
    . exact (opens_opening line lines.head?).splitBlocks_block (Bool.eq_false_iff.mpr hblank) hclean
    . apply ih _ h
      intro rest hrest
      exact (List.forall_mem_cons.mp hclean).2 rest (List.mem_of_mem_drop hrest)

/--
No line is lost and the patterns of the lines leave no choice of the blocks. Every block is read as
the same block on its own, and so the text of a block says what it is.
-/
theorem splitBlocks_lossless (markdown : String) (h : OnlyCrlf markdown) :
    (∀ blocks, Covers (linesOf markdown) blocks ↔ splitBlocks markdown = blocks)
      ∧
    (∀ block ∈ splitBlocks markdown, splitBlocks block.text = [block])
      ∧
    ∀ other, OnlyCrlf other →
      ∀ block ∈ splitBlocks markdown, ∀ block' ∈ splitBlocks other, block.text = block'.text →
        block.kind = block'.kind ∧ block.level = block'.level := by
  have halone : ∀ markdown, OnlyCrlf markdown →
      ∀ block ∈ splitBlocks markdown, splitBlocks block.text = [block] :=
    fun markdown h block hblock => splitBlocks_of_mem (clean_linesOf h) hblock
  refine ⟨fun blocks => covers_iff, halone markdown h, ?_⟩
  intro other hother block hblock block' hblock' htext
  have hsame := halone markdown h block hblock
  rw [htext, halone other hother block' hblock', List.cons.injEq] at hsame
  rw [hsame.1]
  exact ⟨rfl, rfl⟩

theorem splitBlocks_lossless_table :
    OnlyCrlf "# A\r\n\r\n| b |\r\n|---|"
      ∧
    Covers (linesOf "# A\r\n\r\n| b |\r\n|---|") (splitBlocks "# A\r\n\r\n| b |\r\n|---|") := by
  have h : OnlyCrlf "# A\r\n\r\n| b |\r\n|---|" := by
    have hall : ∀ i < 19, "# A\r\n\r\n| b |\r\n|---|".toList[i]? = some '\r' →
        "# A\r\n\r\n| b |\r\n|---|".toList[i + 1]? = some '\n' := by decide
    intro i hi
    obtain ⟨hlt, _⟩ := List.getElem?_eq_some_iff.mp hi
    exact hall i hlt hi
  exact ⟨h, ((splitBlocks_lossless _ h).1 _).mpr rfl⟩

end Split

end Reading

end Client

end AgenticPrd
