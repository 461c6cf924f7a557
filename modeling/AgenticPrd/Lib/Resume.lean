import AgenticPrd.Lib.Suffix

/-!
A log that is read in pieces, each from the key that the one before has reached. What is read may
hold more than the entries of the log, but the entries among it are the next ones of the log, in
their order and each of them once.
-/

namespace Resume

open Suffix

variable {α : Type} {key : α → Nat} {logged : α → Bool} {log got piece : List α} {start : Nat} {a : α}

-- The key of the last element, or where the reading started.
def reached (key : α → Nat) (start : Nat) (got : List α) : Nat :=
  got.foldl (fun _ a => key a) start

theorem reached_append (start : Nat) (got piece : List α) :
    reached key start (got ++ piece) = reached key (reached key start got) piece :=
  List.foldl_append

theorem start_le_reached (h : Increasing key got) (hlater : ∀ a ∈ got, start < key a) :
    start ≤ reached key start got := by
  induction got generalizing start with
  | nil => exact Nat.le_refl _
  | cons b got ih =>
    obtain ⟨hlt, hrest⟩ := List.pairwise_cons.mp h
    have hstart := hlater b List.mem_cons_self
    have hle : key b ≤ reached key (key b) got := ih hrest hlt
    change start ≤ reached key (key b) got
    omega

theorem le_reached (h : Increasing key got) (ha : a ∈ got) : key a ≤ reached key start got := by
  induction got generalizing start with
  | nil => contradiction
  | cons b got ih =>
    obtain ⟨hlt, hrest⟩ := List.pairwise_cons.mp h
    cases ha with
    | head => exact start_le_reached hrest hlt
    | tail _ hmem => exact ih hrest hmem

-- What has been read is the log from behind `start` on, as far as the reading has come.
structure Covers (key : α → Nat) (logged : α → Bool) (log : List α) (start : Nat)
    (got : List α) : Prop where
  increasing : Increasing key got
  later : ∀ a ∈ got, start < key a
  logged_eq : got.filter logged = log.filter fun a => start < key a ∧ key a ≤ reached key start got

theorem Covers.nil (log : List α) (start : Nat) : Covers key logged log start [] := by
  constructor
  . exact .nil
  . simp
  . symm
    rw [List.filter_nil, List.filter_eq_nil_iff]
    intro a _ hbetween
    have hnot : start < key a ∧ key a ≤ start := of_decide_eq_true hbetween
    omega

theorem Covers.mem_iff (h : Covers key logged log start got) :
    a ∈ got ∧ logged a = true ↔ a ∈ log ∧ start < key a ∧ key a ≤ reached key start got := by
  have hmem : a ∈ got.filter logged
      ↔ a ∈ log.filter fun a => start < key a ∧ key a ≤ reached key start got := by
    rw [h.logged_eq]
  simpa only [List.mem_filter, decide_eq_true_eq] using hmem

theorem Covers.of_mem_iff (hlog : Increasing key log) (hincreasing : Increasing key got)
    (hlater : ∀ a ∈ got, start < key a)
    (hmem : ∀ a, a ∈ got ∧ logged a = true
      ↔ a ∈ log ∧ start < key a ∧ key a ≤ reached key start got) :
    Covers key logged log start got := by
  refine ⟨hincreasing, hlater, ?_⟩
  apply Increasing.ext (hincreasing.filter _) (hlog.filter _)
  intro a
  simpa only [List.mem_filter, decide_eq_true_eq] using hmem a

/--
The next piece is read from where the last one has come to. It holds all of the log that is behind.
-/
theorem Covers.append (hlog : Increasing key log) (h : Covers key logged log start got)
    (hincreasing : Increasing key piece) (hlater : ∀ a ∈ piece, reached key start got < key a)
    (hpiece : piece.filter logged = log.filter fun a => reached key start got < key a) :
    Covers key logged log start (got ++ piece) := by
  have hstart := start_le_reached h.increasing h.later
  have hle := start_le_reached hincreasing hlater
  have hall : Increasing key (got ++ piece) := by
    apply increasing_append h.increasing hincreasing
    intro a ha b hb
    have hup : key a ≤ reached key start got := le_reached h.increasing ha
    have := hlater b hb
    omega
  have hnext : ∀ a, a ∈ piece ∧ logged a = true ↔ a ∈ log ∧ reached key start got < key a := by
    intro a
    have hmem : a ∈ piece.filter logged
        ↔ a ∈ log.filter fun a => reached key start got < key a := by
      rw [hpiece]
    simpa only [List.mem_filter, decide_eq_true_eq] using hmem
  apply Covers.of_mem_iff hlog hall
  . intro a ha
    cases List.mem_append.mp ha with
    | inl hold => exact h.later a hold
    | inr hnew =>
      have := hlater a hnew
      omega
  . intro a
    rw [List.mem_append, or_and_right, h.mem_iff, hnext, reached_append]
    constructor
    . rintro (⟨hmem, hlt, hup⟩ | ⟨hmem, hlt⟩)
      . exact ⟨hmem, hlt, hup.trans hle⟩
      . have hnew : a ∈ piece := ((hnext a).mpr ⟨hmem, hlt⟩).1
        have hup : key a ≤ reached key (reached key start got) piece := le_reached hincreasing hnew
        exact ⟨hmem, by omega, hup⟩
    . rintro ⟨hmem, hlt, _⟩
      by_cases hup : key a ≤ reached key start got
      . exact .inl ⟨hmem, hlt, hup⟩
      . exact .inr ⟨hmem, by omega⟩

theorem Covers.reached_le_append (h : Covers key logged log start (got ++ piece)) :
    reached key start got ≤ reached key start (got ++ piece) := by
  cases List.eq_nil_or_concat' got with
  | inl hnil =>
    subst hnil
    exact start_le_reached h.increasing h.later
  | inr hconcat =>
    obtain ⟨before, last, rfl⟩ := hconcat
    rw [reached_append]
    exact le_reached h.increasing (by simp)

-- What has been read so far, if the reading is broken off.
theorem Covers.of_prefix (hlog : Increasing key log) (h : Covers key logged log start (got ++ piece)) :
    Covers key logged log start got := by
  obtain ⟨hgot, _, hlt⟩ := List.pairwise_append.mp h.increasing
  have hlater : ∀ a ∈ got, start < key a := fun a ha => h.later a (List.mem_append_left _ ha)
  have hle := h.reached_le_append
  apply Covers.of_mem_iff hlog hgot hlater
  intro a
  constructor
  . rintro ⟨ha, hlogged⟩
    have hwhole := h.mem_iff.mp ⟨List.mem_append_left _ ha, hlogged⟩
    exact ⟨hwhole.1, hwhole.2.1, le_reached hgot ha⟩
  . rintro ⟨hmem, hstart, hup⟩
    obtain ⟨hwhole, hlogged⟩ := h.mem_iff.mpr ⟨hmem, hstart, hup.trans hle⟩
    refine ⟨?_, hlogged⟩
    cases List.mem_append.mp hwhole with
    | inl hold => exact hold
    | inr hnew =>
      exfalso
      cases List.eq_nil_or_concat' got with
      | inl hnil =>
        rw [hnil] at hup
        change key a ≤ start at hup
        omega
      | inr hconcat =>
        obtain ⟨before, last, rfl⟩ := hconcat
        rw [reached_append] at hup
        change key a ≤ key last at hup
        have := hlt last (by simp) a hnew
        omega

-- An entry that is appended behind what has been read.
theorem Covers.push (h : Covers key logged log start got) {entry : α}
    (hbehind : key entry ≤ start ∨ reached key start got < key entry) :
    Covers key logged (log ++ [entry]) start got := by
  refine ⟨h.increasing, h.later, ?_⟩
  rw [List.filter_append, h.logged_eq, List.filter_singleton]
  have hnot : ¬(start < key entry ∧ key entry ≤ reached key start got) := by omega
  simp [hnot]

-- The entries of the log that have been read are a prefix of those behind `start`.
theorem Covers.logged_prefix (hlog : Increasing key log) (h : Covers key logged log start got) :
    got.filter logged <+: log.filter fun a => start < key a := by
  refine ⟨log.filter fun a => start < key a ∧ reached key start got < key a, ?_⟩
  rw [h.logged_eq]
  apply Increasing.ext _ (hlog.filter _)
  . intro a
    simp only [List.mem_append, List.mem_filter, decide_eq_true_eq]
    constructor
    . rintro (⟨hmem, hlt, _⟩ | ⟨hmem, hlt, _⟩)
      . exact ⟨hmem, hlt⟩
      . exact ⟨hmem, hlt⟩
    . rintro ⟨hmem, hlt⟩
      by_cases hup : key a ≤ reached key start got
      . exact .inl ⟨hmem, hlt, hup⟩
      . exact .inr ⟨hmem, hlt, by omega⟩
  . apply increasing_append (hlog.filter _) (hlog.filter _)
    intro a ha b hb
    simp only [List.mem_filter, decide_eq_true_eq] at ha hb
    omega

end Resume
