import AgenticPrd.Client.Diff

/-!
The rows of the line diff spell both texts, and keep as many lines as possible.
-/

namespace AgenticPrd

namespace Client

namespace Diff

open Lcs

variable {source target a b as bs : List String} {steps steps' : List Step} {n k : Nat}

-- The context and removed rows spell the source, the context and added ones the target.
structure Faithful (source target : List String) (rows : List DiffRow) : Prop where
  sourceText : (rows.filter fun row => row.kind ≠ .added).map DiffRow.text = source
  targetText : (rows.filter fun row => row.kind ≠ .removed).map DiffRow.text = target
  sourceLines :
    (rows.filter fun row => row.kind ≠ .added).map DiffRow.sourceLine
      = (List.range' 1 source.length).map some
  targetLines :
    (rows.filter fun row => row.kind ≠ .removed).map DiffRow.targetLine
      = (List.range' 1 target.length).map some

section Trim

theorem countWhile_le {limit : Nat} {cond : Nat → Bool} (hn : n ≤ limit) :
    countWhile limit cond n ≤ limit := by
  fun_induction countWhile limit cond n with
  | case1 n hlt _ ih => exact ih hlt
  | case2 => exact hn
  | case3 => exact hn

theorem countWhile_holds {limit : Nat} {cond : Nat → Bool} (hn : n ≤ k)
    (hk : k < countWhile limit cond n) : cond k = true := by
  fun_induction countWhile limit cond n with
  | case1 n hlt hcond ih =>
    by_cases heq : n = k
    . rw [← heq]
      exact hcond
    . exact ih (by omega) hk
  | case2 => omega
  | case3 => omega

theorem countWhile_all {limit : Nat} {cond : Nat → Bool} (hn : n ≤ limit)
    (hall : ∀ k, k < limit → cond k = true) : countWhile limit cond n = limit := by
  fun_induction countWhile limit cond n with
  | case1 n hlt hcond ih => exact ih hlt
  | case2 n hlt hcond => exact absurd (hall n hlt) hcond
  | case3 n hge => omega

theorem prefixLength_le (source target : List String) :
    prefixLength source target ≤ source.length ∧ prefixLength source target ≤ target.length := by
  have hle : prefixLength source target ≤ min source.length target.length :=
    countWhile_le (Nat.zero_le _)
  omega

theorem suffixLength_le (source target : List String) (start : Nat) :
    suffixLength source target start ≤ source.length - start
      ∧
    suffixLength source target start ≤ target.length - start := by
  have hle : suffixLength source target start
      ≤ min (source.length - start) (target.length - start) :=
    countWhile_le (Nat.zero_le _)
  omega

theorem take_prefixLength (source target : List String) :
    source.take (prefixLength source target) = target.take (prefixLength source target) := by
  apply List.ext_getElem?
  intro k
  rw [List.getElem?_take, List.getElem?_take]
  split
  . next hk =>
    have hsame := countWhile_holds (Nat.zero_le k) hk
    exact of_decide_eq_true hsame
  . rfl

theorem drop_suffixLength (source target : List String) (start : Nat) :
    source.drop (source.length - suffixLength source target start)
      =
    target.drop (target.length - suffixLength source target start) := by
  have hle := suffixLength_le source target start
  generalize hfinish : suffixLength source target start = finish at hle
  apply List.ext_getElem?
  intro k
  rw [List.getElem?_drop, List.getElem?_drop]
  by_cases hk : k < finish
  . have hplace : finish - 1 - k < suffixLength source target start := by omega
    have hsame := of_decide_eq_true (countWhile_holds (Nat.zero_le _) hplace)
    have hsource : source.length - 1 - (finish - 1 - k) = source.length - finish + k := by omega
    have htarget : target.length - 1 - (finish - 1 - k) = target.length - finish + k := by omega
    rw [hsource, htarget] at hsame
    exact hsame
  . rw [List.getElem?_eq_none (by omega), List.getElem?_eq_none (by omega)]

def middle (lines : List String) (start finish : Nat) : List String :=
  (lines.take (lines.length - finish)).drop start

theorem split_middle {lines : List String} {start finish : Nat} (hstart : start ≤ lines.length)
    (hfinish : finish ≤ lines.length - start) :
    lines = lines.take start
      ++ (middle lines start finish ++ lines.drop (lines.length - finish)) := by
  have htake : lines.take start = (lines.take (lines.length - finish)).take start := by
    rw [List.take_take, Nat.min_eq_left (by omega)]
  rw [middle, htake, ← List.append_assoc, List.take_append_drop, List.take_append_drop]

end Trim

section Script

-- The rows that a script stands for, from the given line numbers on.
def rowsFor : Nat → Nat → List Step → List String → List String → List DiffRow
  | sourceLine, targetLine, .keep :: steps, x :: as, _ :: bs =>
    { kind := .context, text := x, sourceLine := some sourceLine, targetLine := some targetLine }
      :: rowsFor (sourceLine + 1) (targetLine + 1) steps as bs
  | sourceLine, targetLine, .drop :: steps, x :: as, b =>
    { kind := .removed, text := x, sourceLine := some sourceLine, targetLine := none }
      :: rowsFor (sourceLine + 1) targetLine steps as b
  | sourceLine, targetLine, .add :: steps, a, y :: bs =>
    { kind := .added, text := y, sourceLine := none, targetLine := some targetLine }
      :: rowsFor sourceLine (targetLine + 1) steps a bs
  | _, _, _, _, _ => []

def kindOf : Step → DiffRowKind
  | .keep => .context
  | .drop => .removed
  | .add => .added

theorem rowsFor_kinds (h : Aligns steps a b) (n k : Nat) :
    (rowsFor n k steps a b).map DiffRow.kind = steps.map kindOf := by
  induction h generalizing n k with
  | nil => rfl
  | keep _ ih => rw [rowsFor, List.map_cons, ih, List.map_cons, kindOf]
  | drop _ ih => rw [rowsFor, List.map_cons, ih, List.map_cons, kindOf]
  | add _ ih => rw [rowsFor, List.map_cons, ih, List.map_cons, kindOf]

theorem rowsFor_count (h : Aligns steps a b) (n k : Nat) (step : Step) :
    (rowsFor n k steps a b).countP (fun row => row.kind = kindOf step) = steps.count step := by
  have hcount : (rowsFor n k steps a b).countP (fun row => row.kind = kindOf step)
      = ((rowsFor n k steps a b).map DiffRow.kind).countP (fun kind => kind = kindOf step) := by
    rw [List.countP_map]
    rfl
  rw [hcount, rowsFor_kinds h, List.countP_map, List.count_eq_countP]
  apply List.countP_congr
  intro other _
  cases other <;> cases step <;> simp [kindOf]

theorem rowsFor_source (h : Aligns steps a b) (n k : Nat) :
    ((rowsFor n k steps a b).filter fun row => row.kind ≠ .added).map DiffRow.text = a
      ∧
    ((rowsFor n k steps a b).filter fun row => row.kind ≠ .added).map DiffRow.sourceLine
      = (List.range' n a.length).map some := by
  induction h generalizing n k with
  | nil => exact ⟨rfl, rfl⟩
  | keep _ ih =>
    rw [rowsFor, List.filter_cons_of_pos (by simp), List.map_cons, List.map_cons, (ih _ _).1,
      (ih _ _).2]
    exact ⟨rfl, rfl⟩
  | drop _ ih =>
    rw [rowsFor, List.filter_cons_of_pos (by simp), List.map_cons, List.map_cons, (ih _ _).1,
      (ih _ _).2]
    exact ⟨rfl, rfl⟩
  | add _ ih =>
    rw [rowsFor, List.filter_cons_of_neg (by simp)]
    exact ih _ _

theorem rowsFor_target (h : Aligns steps a b) (n k : Nat) :
    ((rowsFor n k steps a b).filter fun row => row.kind ≠ .removed).map DiffRow.text = b
      ∧
    ((rowsFor n k steps a b).filter fun row => row.kind ≠ .removed).map DiffRow.targetLine
      = (List.range' k b.length).map some := by
  induction h generalizing n k with
  | nil => exact ⟨rfl, rfl⟩
  | keep _ ih =>
    rw [rowsFor, List.filter_cons_of_pos (by simp), List.map_cons, List.map_cons, (ih _ _).1,
      (ih _ _).2]
    exact ⟨rfl, rfl⟩
  | drop _ ih =>
    rw [rowsFor, List.filter_cons_of_neg (by simp)]
    exact ih _ _
  | add _ ih =>
    rw [rowsFor, List.filter_cons_of_pos (by simp), List.map_cons, List.map_cons, (ih _ _).1,
      (ih _ _).2]
    exact ⟨rfl, rfl⟩

theorem faithful_rowsFor (h : Aligns steps source target) :
    Faithful source target (rowsFor 1 1 steps source target) :=
  ⟨(rowsFor_source h 1 1).1, (rowsFor_target h 1 1).1, (rowsFor_source h 1 1).2,
    (rowsFor_target h 1 1).2⟩

theorem rowsFor_append {a' b' : List String} (h : Aligns steps a b) (steps' : List Step) (n k : Nat) :
    rowsFor n k (steps ++ steps') (a ++ a') (b ++ b')
      =
    rowsFor n k steps a b ++ rowsFor (n + a.length) (k + b.length) steps' a' b' := by
  induction h generalizing n k with
  | nil => rfl
  | keep _ ih =>
    simp only [List.cons_append, rowsFor, ih, List.length_cons]
    rw [Nat.add_right_comm n, Nat.add_right_comm k]
    rfl
  | drop _ ih =>
    simp only [List.cons_append, rowsFor, ih, List.length_cons]
    rw [Nat.add_right_comm n]
    rfl
  | add _ ih =>
    simp only [List.cons_append, rowsFor, ih, List.length_cons]
    rw [Nat.add_right_comm k]
    rfl

end Script

section Follow

-- The cursor once a script was followed.
def Cursor.follow (cursor : Cursor) (steps : List Step) (a b : List String) : Cursor where
  rows := cursor.rows ++ rowsFor cursor.sourceLine cursor.targetLine steps a b
  sourceLine := cursor.sourceLine + a.length
  targetLine := cursor.targetLine + b.length

theorem Cursor.follow_append {a' b' : List String} (cursor : Cursor) (h : Aligns steps a b)
    (steps' : List Step) :
    (cursor.follow steps a b).follow steps' a' b'
      =
    cursor.follow (steps ++ steps') (a ++ a') (b ++ b') := by
  simp only [Cursor.follow, rowsFor_append h, List.append_assoc, List.length_append, Nat.add_assoc]

theorem Cursor.follow_nil (cursor : Cursor) : cursor.follow [] [] [] = cursor := by
  simp [Cursor.follow, rowsFor]

theorem Cursor.follow_keep (cursor : Cursor) (x : String) (steps : List Step) :
    cursor.follow (.keep :: steps) (x :: as) (x :: bs)
      =
    (cursor.context x).follow steps as bs :=
  (cursor.follow_append (.keep .nil) steps).symm

theorem Cursor.follow_drop (cursor : Cursor) (x : String) (steps : List Step) :
    cursor.follow (.drop :: steps) (x :: as) b = (cursor.removed x).follow steps as b :=
  (cursor.follow_append (.drop .nil) steps).symm

theorem Cursor.follow_add (cursor : Cursor) (y : String) (steps : List Step) :
    cursor.follow (.add :: steps) a (y :: bs) = (cursor.added y).follow steps a bs :=
  (cursor.follow_append (.add .nil) steps).symm

theorem getElem!_of_drop {x : String} (h : a.drop n = x :: as) :
    a[n]! = x ∧ a.drop (n + 1) = as := by
  have hx : a[n]? = some x := by
    rw [← List.head?_drop, h]
    rfl
  constructor
  . rw [List.getElem!_eq_getElem?_getD, hx]
    rfl
  . rw [← List.tail_drop, h]
    rfl

-- The walk pushes the rows of the script.
theorem run_visitor (cursor : Cursor) {i j : Nat} (h : Aligns steps as bs) (ha : a.drop i = as)
    (hb : b.drop j = bs) : (visitor a b).run i j steps cursor = cursor.follow steps as bs := by
  induction h generalizing i j cursor with
  | nil => rw [Cursor.follow_nil, Visitor.run]
  | keep _ ih =>
    obtain ⟨rfl, ha'⟩ := getElem!_of_drop ha
    obtain ⟨_, hb'⟩ := getElem!_of_drop hb
    rw [Visitor.run, ih _ ha' hb', Cursor.follow_keep]
    rfl
  | drop _ ih =>
    obtain ⟨rfl, ha'⟩ := getElem!_of_drop ha
    rw [Visitor.run, ih _ ha' hb, Cursor.follow_drop]
    rfl
  | add _ ih =>
    obtain ⟨rfl, hb'⟩ := getElem!_of_drop hb
    rw [Visitor.run, ih _ ha hb', Cursor.follow_add]
    rfl

theorem foldl_removed (a : List String) (cursor : Cursor) :
    a.foldl Cursor.removed cursor = cursor.follow (List.replicate a.length .drop) a [] := by
  induction a generalizing cursor with
  | nil => exact cursor.follow_nil.symm
  | cons x a ih =>
    rw [List.foldl_cons, ih, List.length_cons, List.replicate_succ, Cursor.follow_drop]

theorem foldl_added (b : List String) (cursor : Cursor) :
    b.foldl Cursor.added cursor = cursor.follow (List.replicate b.length .add) [] b := by
  induction b generalizing cursor with
  | nil => exact cursor.follow_nil.symm
  | cons y b ih =>
    rw [List.foldl_cons, ih, List.length_cons, List.replicate_succ, Cursor.follow_add]

theorem follow_context {cursor : Cursor} {x : String} (h : a.length = k) :
    (cursor.follow (List.replicate k .keep) a a).context x
      =
    cursor.follow (List.replicate (k + 1) .keep) (a ++ [x]) (a ++ [x]) := by
  have haligns : Aligns (List.replicate k .keep) a a := h ▸ aligns_keep a
  rw [List.replicate_succ', ← Cursor.follow_append _ haligns, Cursor.follow_keep, Cursor.follow_nil]

-- The first loop numbers the rows by itself.
theorem foldl_start (hk : k ≤ source.length) :
    ((List.range k).foldl (fun rows index =>
      pushRow rows .context source[index]! (some (index + 1)) (some (index + 1))) [] : List DiffRow)
      =
    rowsFor 1 1 (List.replicate k .keep) (source.take k) (source.take k) := by
  induction k with
  | zero => rfl
  | succ k ih =>
    have hlt : k < source.length := hk
    have hlength : (source.take k).length = k := by
      rw [List.length_take, Nat.min_eq_left (Nat.le_of_lt hlt)]
    have haligns : Aligns (List.replicate k .keep) (source.take k) (source.take k) := by
      have := aligns_keep (source.take k)
      rw [hlength] at this
      exact this
    rw [List.range_succ, List.foldl_append, ih (Nat.le_of_lt hlt), List.replicate_succ',
      List.take_succ_eq_append_getElem hlt, rowsFor_append haligns, hlength, Nat.add_comm 1 k,
      List.foldl_cons, List.foldl_nil, pushRow, getElem!_pos source k hlt]
    rfl

theorem foldl_finish {post : List String} (cursor : Cursor) {first : Nat}
    (hpost : source.drop first = post) (hk : k ≤ post.length) :
    (List.range k).foldl (fun cursor index => cursor.context source[first + index]!) cursor
      =
    cursor.follow (List.replicate k .keep) (post.take k) (post.take k) := by
  induction k with
  | zero => exact cursor.follow_nil.symm
  | succ k ih =>
    have hlt : k < post.length := hk
    have hlength : (post.take k).length = k := by
      rw [List.length_take, Nat.min_eq_left (Nat.le_of_lt hlt)]
    have hget : source[first + k]! = post[k] := by
      rw [List.getElem!_eq_getElem?_getD, ← List.getElem?_drop, hpost, List.getElem?_eq_getElem hlt]
      rfl
    rw [List.range_succ, List.foldl_append, ih (Nat.le_of_lt hlt), List.foldl_cons, List.foldl_nil,
      follow_context hlength, List.take_succ_eq_append_getElem hlt, hget]

end Follow

section Result

variable {m : Type → Type} [Monad m] [LawfulMonad m] {read : Array Nat → Nat → m Nat}

def Fits (a b : List String) : Prop :=
  (a.length + 1) * (b.length + 1) ≤ maxLcsCells

instance : Decidable (Fits a b) :=
  inferInstanceAs (Decidable (_ ≤ _))

-- The script between the lines that both texts start and end with.
def middleScript (a b : List String) : List Step :=
  if Fits a b then
    script a b
  else
    List.replicate a.length .drop ++ List.replicate b.length .add

def diffScript (source target : List String) : List Step :=
  let start := prefixLength source target
  let finish := suffixLength source target start
  List.replicate start .keep
    ++ (middleScript (middle source start finish) (middle target start finish)
    ++ List.replicate finish .keep)

theorem aligns_middleScript (a b : List String) : Aligns (middleScript a b) a b := by
  unfold middleScript
  split
  . exact aligns_script a b
  . exact aligns_replace a b

theorem length_lt_of_fits (h : Fits a b) : a.length < 2 ^ 32 := by
  have hle : a.length + 1 ≤ (a.length + 1) * (b.length + 1) := Nat.le_mul_of_pos_right _ (by omega)
  unfold Fits maxLcsCells at h
  omega

theorem middleRows_eq (hread : ReadsInside read) (a b : List String) (cursor : Cursor) :
    middleRows read a b cursor = pure (cursor.follow (middleScript a b) a b) := by
  have hdropped : Aligns (List.replicate a.length .drop) a [] := by
    have := aligns_replace a []
    rw [List.length_nil, List.replicate_zero, List.append_nil] at this
    exact this
  unfold middleRows middleScript
  split
  . next hlarge =>
    have hnot : ¬Fits a b := Nat.not_le.mpr hlarge
    rw [if_neg hnot, foldl_removed, foldl_added, Cursor.follow_append _ hdropped,
      List.append_nil, List.nil_append]
  . next hsmall =>
    have hfits : Fits a b := Nat.not_lt.mp hsmall
    obtain ⟨table, htable, hfilled⟩ := lengths_spec hread (b := b) (length_lt_of_fits hfits)
    rw [if_pos hfits, htable, pure_bind, walk_eq hread _ hfilled (Nat.zero_le _) (Nat.zero_le _),
      List.drop_zero, List.drop_zero, run_visitor _ (aligns_script a b) rfl rfl]

structure Trimmed (source target pre a b post : List String) (start finish : Nat) : Prop where
  splitSource : source = pre ++ (a ++ post)
  splitTarget : target = pre ++ (b ++ post)
  start : pre.length = start
  finish : post.length = finish

-- Both texts start and end with the same lines.
theorem trimmed {start finish : Nat} (hstart : prefixLength source target = start)
    (hfinish : suffixLength source target start = finish) :
    Trimmed source target (source.take start) (middle source start finish)
      (middle target start finish) (source.drop (source.length - finish)) start finish := by
  subst hstart
  subst hfinish
  obtain ⟨hsource, htarget⟩ := prefixLength_le source target
  obtain ⟨hsource', htarget'⟩ := suffixLength_le source target (prefixLength source target)
  constructor
  . exact split_middle hsource hsource'
  . rw [take_prefixLength, drop_suffixLength]
    exact split_middle htarget htarget'
  . rw [List.length_take, Nat.min_eq_left hsource]
  . rw [List.length_drop]
    omega

theorem Trimmed.aligns {pre a b post : List String} {start finish : Nat}
    (h : Trimmed source target pre a b post start finish) :
    Aligns
      (List.replicate start .keep ++ (middleScript a b ++ List.replicate finish .keep))
      source target := by
  have hwhole := (aligns_keep pre).append ((aligns_middleScript a b).append (aligns_keep post))
  rw [← h.splitSource, ← h.splitTarget, h.start, h.finish] at hwhole
  exact hwhole

theorem aligns_diffScript (source target : List String) :
    Aligns (diffScript source target) source target :=
  (trimmed rfl rfl).aligns

/--
The four loops push the rows of one script.
-/
theorem diffRowsWith_eq (hread : ReadsInside read) (source target : List String) :
    diffRowsWith read source target
      =
    pure (rowsFor 1 1 (diffScript source target) source target) := by
  generalize hstart : prefixLength source target = start
  generalize hfinish : suffixLength source target start = finish
  have htrimmed := trimmed hstart hfinish
  have hle : start ≤ source.length := hstart ▸ (prefixLength_le source target).1
  generalize ha : middle source start finish = a at htrimmed
  generalize hb : middle target start finish = b at htrimmed
  have hpre : Aligns (List.replicate start .keep) (source.take start) (source.take start) := by
    have := aligns_keep (source.take start)
    rw [htrimmed.start] at this
    exact this
  have hmiddle := hpre.append (aligns_middleScript a b)
  have hcursor : ({
      rows := (List.range start).foldl (fun rows index =>
        pushRow rows .context source[index]! (some (index + 1)) (some (index + 1))) []
      sourceLine := start + 1
      targetLine := start + 1 } : Cursor)
      = ({ rows := [], sourceLine := 1, targetLine := 1 } : Cursor).follow
        (List.replicate start .keep) (source.take start) (source.take start) := by
    rw [foldl_start hle, Cursor.follow, htrimmed.start, Nat.add_comm 1 start, List.nil_append]
  have hpost : (source.drop (source.length - finish)).take finish
      = source.drop (source.length - finish) :=
    List.take_of_length_le (Nat.le_of_eq htrimmed.finish)
  unfold diffRowsWith diffScript
  dsimp only
  rw [hstart, hfinish, ha, hb]
  unfold middle at ha hb
  rw [ha, hb, hcursor, middleRows_eq hread, pure_bind, Cursor.follow_append _ hpre,
    foldl_finish _ rfl (Nat.le_of_eq htrimmed.finish.symm), hpost, Cursor.follow_append _ hmiddle]
  simp only [List.append_assoc]
  rw [← htrimmed.splitSource, ← htrimmed.splitTarget, Cursor.follow, List.nil_append]

theorem readsInside_readCell : ReadsInside readCell := by
  intro table k v h
  rw [readCell, h]
  rfl

theorem readsInside_checked : ReadsInside fun (table : Array Nat) k => table[k]? :=
  fun _ _ _ h => h

theorem diffRows_eq (source target : List String) :
    diffRows source target = rowsFor 1 1 (diffScript source target) source target := by
  rw [diffRows, diffRowsWith_eq readsInside_readCell]
  rfl

-- No cell outside of the table is read.
theorem checkedRows_eq (source target : List String) :
    checkedRows source target = some (diffRows source target) := by
  rw [checkedRows, diffRowsWith_eq readsInside_checked, diffRows_eq]
  rfl

end Result

section Rows

theorem diffScript_self (lines : List String) :
    diffScript lines lines = List.replicate lines.length .keep := by
  have hstart : prefixLength lines lines = lines.length := by
    unfold prefixLength
    rw [Nat.min_self]
    exact countWhile_all (Nat.zero_le _) (by simp)
  have hfinish : suffixLength lines lines lines.length = 0 := by
    have := (suffixLength_le lines lines lines.length).1
    omega
  have hmiddle : middle lines lines.length 0 = [] := by
    rw [middle, List.drop_eq_nil_iff, List.length_take]
    omega
  have hscript : middleScript [] [] = [] := by
    rw [middleScript, if_pos (by decide), script]
  unfold diffScript
  dsimp only
  rw [hstart, hfinish, hmiddle, hscript, List.replicate_zero, List.append_nil, List.append_nil]

theorem unchanged_iff (sourceContent targetContent : String) :
    (diffLines sourceContent targetContent).unchanged = true
      ↔
    (diffRows (splitLines sourceContent) (splitLines targetContent)).countP
        (fun row => row.kind = .added) = 0
      ∧
    (diffRows (splitLines sourceContent) (splitLines targetContent)).countP
        (fun row => row.kind = .removed) = 0 := by
  unfold diffLines
  dsimp only
  split
  . next hnone => exact ⟨fun _ => hnone, fun _ => rfl⟩
  . next hsome => exact ⟨fun h => absurd h Bool.false_ne_true, fun h => absurd h hsome⟩

theorem Faithful.eq_of_unchanged {rows : List DiffRow} (h : Faithful source target rows)
    (hadded : rows.countP (fun row => row.kind = .added) = 0)
    (hremoved : rows.countP (fun row => row.kind = .removed) = 0) : source = target := by
  have hsource : (rows.filter fun row => row.kind ≠ .added) = rows := by
    rw [List.filter_eq_self]
    intro row hrow
    have := List.countP_eq_zero.mp hadded row hrow
    simpa using this
  have htarget : (rows.filter fun row => row.kind ≠ .removed) = rows := by
    rw [List.filter_eq_self]
    intro row hrow
    have := List.countP_eq_zero.mp hremoved row hrow
    simpa using this
  rw [← h.sourceText, ← h.targetText, hsource, htarget]

theorem faithful_diffRows (source target : List String) :
    Faithful source target (diffRows source target) := by
  rw [diffRows_eq]
  exact faithful_rowsFor (aligns_diffScript source target)

theorem diffRows_count (source target : List String) (step : Step) :
    (diffRows source target).countP (fun row => row.kind = kindOf step)
      =
    (diffScript source target).count step := by
  rw [diffRows_eq]
  exact rowsFor_count (aligns_diffScript source target) 1 1 step

/--
The rows spell both texts, the counts are those of the rows, and the texts are reported as unchanged
exactly if their lines are the same.
-/
theorem diffLines_faithful (sourceContent targetContent : String) :
    Faithful (splitLines sourceContent) (splitLines targetContent)
        (diffRows (splitLines sourceContent) (splitLines targetContent))
      ∧
    (diffLines sourceContent targetContent).addedCount
        = (diffRows (splitLines sourceContent) (splitLines targetContent)).countP
          (fun row => row.kind = .added)
      ∧
    (diffLines sourceContent targetContent).removedCount
        = (diffRows (splitLines sourceContent) (splitLines targetContent)).countP
          (fun row => row.kind = .removed)
      ∧
    ((diffLines sourceContent targetContent).unchanged = true
        ↔ splitLines sourceContent = splitLines targetContent) := by
  have hfaithful := faithful_diffRows (splitLines sourceContent) (splitLines targetContent)
  refine ⟨hfaithful, ?_, ?_, ?_⟩
  . unfold diffLines
    dsimp only
    split <;> rfl
  . unfold diffLines
    dsimp only
    split <;> rfl
  . rw [unchanged_iff]
    constructor
    . exact fun h => hfaithful.eq_of_unchanged h.1 h.2
    . intro hsame
      rw [← hsame]
      have hadded := diffRows_count (splitLines sourceContent) (splitLines sourceContent) .add
      have hremoved := diffRows_count (splitLines sourceContent) (splitLines sourceContent) .drop
      rw [diffScript_self, List.count_replicate, if_neg (by decide)] at hadded hremoved
      exact ⟨hadded, hremoved⟩

end Rows

section Minimal

-- The table for the lines between the common ones is small enough.
def TableFits (source target : List String) : Prop :=
  let start := prefixLength source target
  let finish := suffixLength source target start
  Fits (middle source start finish) (middle target start finish)

theorem longest_trimmed {pre post : List String} {start finish : Nat}
    (h : Trimmed source target pre a b post start finish) :
    longest source target = start + (longest a b + finish) := by
  rw [h.splitSource, h.splitTarget, longest_append_left, longest_append_right, h.start, h.finish]

theorem count_keep_diffScript (hfits : TableFits source target) :
    (diffScript source target).count .keep = longest source target := by
  unfold diffScript
  unfold TableFits at hfits
  dsimp only at hfits ⊢
  rw [longest_trimmed (trimmed rfl rfl), middleScript, if_pos hfits, List.count_append,
    List.count_append, List.count_replicate_self, List.count_replicate_self, count_keep_script]

/--
As many lines as possible are kept, and the table is read inside of its bounds only.
-/
theorem diffRows_minimal (source target : List String) (hfits : TableFits source target) :
    IsLongest source target
        ((diffRows source target).countP (fun row => row.kind = .context))
      ∧
    checkedRows source target = some (diffRows source target) := by
  have hcount := diffRows_count source target .keep
  rw [count_keep_diffScript hfits] at hcount
  refine ⟨?_, checkedRows_eq source target⟩
  rw [kindOf] at hcount
  rw [hcount]
  exact isLongest_longest source target

theorem tableFits_of_small (h : (source.length + 1) * (target.length + 1) ≤ maxLcsCells) :
    TableFits source target := by
  have hmiddle : ∀ lines start finish, (middle lines start finish).length ≤ lines.length := by
    intro lines start finish
    rw [middle, List.length_drop, List.length_take]
    omega
  exact Nat.le_trans (Nat.mul_le_mul (Nat.succ_le_succ (hmiddle _ _ _))
    (Nat.succ_le_succ (hmiddle _ _ _))) h

theorem diffRows_minimal_rewritten :
    TableFits ["a", "b", "c", "d"] ["a", "x", "c", "d", "e"]
      ∧
    IsLongest ["a", "b", "c", "d"] ["a", "x", "c", "d", "e"]
        ((diffRows ["a", "b", "c", "d"] ["a", "x", "c", "d", "e"]).countP
          (fun row => row.kind = .context)) := by
  have hfits : TableFits ["a", "b", "c", "d"] ["a", "x", "c", "d", "e"] :=
    tableFits_of_small (by decide)
  exact ⟨hfits, (diffRows_minimal _ _ hfits).1⟩

end Minimal

end Diff

end Client

end AgenticPrd
