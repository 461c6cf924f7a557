import AgenticPrd.Lib.Record
import Mathlib.Data.List.Nodup

/-!
Values of one type written as values of another, such that reading what was written gives the value
again.
-/

structure Codec (V α : Type) where
  encode : α → V
  decode : V → Option α
  decode_encode : ∀ a, decode (encode a) = some a

namespace Codec

variable {V α β : Type}

-- Only the values that satisfy `p` are read.
def subtype (codec : Codec V α) (p : α → Prop) [DecidablePred p] : Codec V { a // p a } :=
  {
    encode := fun a => codec.encode a
    decode := fun v => (codec.decode v).bind fun a => if h : p a then some ⟨a, h⟩ else none
    decode_encode := by
      intro a
      rw [codec.decode_encode, Option.bind_some, dif_pos a.property]
  }

-- A value is written as another one, from which it can be made again.
def retract (codec : Codec V α) (parts : β → α) (make : α → Option β)
    (hmake : ∀ b, make (parts b) = some b) : Codec V β :=
  {
    encode := fun b => codec.encode (parts b)
    decode := fun v => (codec.decode v).bind make
    decode_encode := by
      intro b
      rw [codec.decode_encode, Option.bind_some, hmake]
  }

theorem injective_of_nodup {all : List α} {name : α → V} (hall : ∀ a, a ∈ all)
    (hnodup : (all.map name).Nodup) {a b : α} (h : name a = name b) : a = b :=
  List.inj_on_of_nodup_map hnodup (hall a) (hall b) h

-- The values are listed, and each is written as its name.
def named [DecidableEq V] (all : List α) (name : α → V) (hall : ∀ a, a ∈ all)
    (hnodup : (all.map name).Nodup) : Codec V α :=
  {
    encode := name
    decode := fun v => all.find? fun a => name a = v
    decode_encode := by
      intro a
      cases hfound : all.find? fun b => name b = name a with
      | none =>
        rw [List.find?_eq_none] at hfound
        have hnot := hfound a (hall a)
        simp at hnot
      | some b =>
        have heq := List.find?_some hfound
        rw [decide_eq_true_eq] at heq
        rw [injective_of_nodup hall hnodup heq]
  }

def list (codec : Codec V α) : Codec (List V) (List α) :=
  {
    encode := fun items => items.map codec.encode
    decode := fun values => values.mapM codec.decode
    decode_encode := by
      intro items
      induction items with
      | nil => rfl
      | cons a items ih =>
        rw [List.map_cons, List.mapM_cons, codec.decode_encode, ih]
        rfl
  }

section Dict

variable {κ : Type} [DecidableEq V] {keys : List κ} {key : κ → V} {f : κ → Option β}

def entries (keys : List κ) (key : κ → V) (f : κ → Option β) : List (V × β) :=
  keys.filterMap fun k => (f k).map fun b => (key k, b)

theorem get?_entries_none (hkey : ∀ k k', key k = key k' → k = k') {k : κ} (hnone : f k = none) :
    Record.get? (entries keys key f) (key k) = none := by
  induction keys with
  | nil => rfl
  | cons k' keys ih =>
    unfold entries at ih ⊢
    rw [List.filterMap_cons]
    cases hvalue : f k' with
    | none => exact ih
    | some b =>
      dsimp only [Option.map_some]
      have hne : key k ≠ key k' := by
        intro heq
        rw [hkey k k' heq, hvalue] at hnone
        contradiction
      rw [Record.get?_cons, if_neg hne]
      exact ih

theorem get?_entries (hkey : ∀ k k', key k = key k' → k = k') {k : κ} (hmem : k ∈ keys) :
    Record.get? (entries keys key f) (key k) = f k := by
  cases hsome : f k with
  | none => exact get?_entries_none hkey hsome
  | some b =>
    induction keys with
    | nil => contradiction
    | cons k' keys ih =>
      unfold entries at ih ⊢
      rw [List.filterMap_cons]
      by_cases heq : k = k'
      . rw [← heq, hsome]
        dsimp only [Option.map_some]
        rw [Record.get?_cons, if_pos rfl]
      . have hrest := ih ((List.mem_cons.mp hmem).resolve_left heq)
        cases f k' with
        | none => exact hrest
        | some b' =>
          dsimp only [Option.map_some]
          rw [Record.get?_cons, if_neg fun hsame => heq (hkey k k' hsame)]
          exact hrest

-- A dictionary whose keys are the names of the listed values.
def dict (keys : List κ) (key : κ → V) (hall : ∀ k, k ∈ keys)
    (hnodup : (keys.map key).Nodup) (codec : Codec β α) :
    Codec (List (V × β)) (κ → Option α) :=
  {
    encode := fun f => entries keys key fun k => (f k).map codec.encode
    decode := fun fields =>
      if (fields.all fun entry => keys.any fun k => key k = entry.1)
          && fields.all fun entry => (codec.decode entry.2).isSome then
        some fun k => (Record.get? fields (key k)).bind codec.decode
      else
        none
    decode_encode := by
      intro f
      have hentries : ∀ entry ∈ entries keys key fun k => (f k).map codec.encode,
          ∃ k a, entry = (key k, codec.encode a) := by
        intro entry hentry
        obtain ⟨k, _, heq⟩ := List.mem_filterMap.mp hentry
        dsimp only at heq
        cases hvalue : f k with
        | none =>
          rw [hvalue] at heq
          contradiction
        | some a =>
          rw [hvalue] at heq
          exact ⟨k, a, (Option.some.inj heq).symm⟩
      rw [if_pos]
      . congr 1
        funext k
        rw [get?_entries (fun _ _ => injective_of_nodup hall hnodup) (hall k), Option.bind_map]
        cases f k with
        | none => rfl
        | some a => exact codec.decode_encode a
      . rw [Bool.and_eq_true, List.all_eq_true, List.all_eq_true]
        constructor
        . intro entry hentry
          obtain ⟨k, a, rfl⟩ := hentries entry hentry
          rw [List.any_eq_true]
          exact ⟨k, hall k, decide_eq_true rfl⟩
        . intro entry hentry
          obtain ⟨k, a, rfl⟩ := hentries entry hentry
          rw [codec.decode_encode]
          rfl
  }

end Dict

end Codec

/--
The fields of a record under their names, written one after the other. A field that is missing is
read as its default, if it has one.
-/
structure Fields {κ : Type} [DecidableEq κ] (V : Type) (names : List κ) (α : Type) where
  encode : α → List (κ × V)
  decode : List (κ × V) → Option α
  named : ∀ a, (encode a).map Prod.fst = names
  faithful :
    ∀ a record, (∀ name ∈ names, Record.get? record name = Record.get? (encode a) name) →
      decode record = some a

namespace Fields

variable {κ V α β : Type} [DecidableEq κ] {names : List κ}

def nil : Fields V ([] : List κ) Unit :=
  {
    encode := fun _ => []
    decode := fun _ => some ()
    named := fun _ => rfl
    faithful := fun _ _ _ => rfl
  }

def read (name : κ) (default : Option α) (codec : Codec V α) (record : List (κ × V)) : Option α :=
  match Record.get? record name with
  | none => default
  | some value => codec.decode value

def cons (name : κ) (default : Option α) (codec : Codec V α) (rest : Fields V names β)
    (hnew : name ∉ names := by decide) : Fields V (name :: names) (α × β) :=
  {
    encode := fun pair => (name, codec.encode pair.1) :: rest.encode pair.2
    decode := fun record =>
      (read name default codec record).bind fun a => (rest.decode record).map fun b => (a, b)
    named := fun pair => by rw [List.map_cons, rest.named]
    faithful := by
      rintro ⟨a, b⟩ record hrecord
      simp only [List.forall_mem_cons, Record.get?_cons] at hrecord
      have hrest : rest.decode record = some b := by
        apply rest.faithful
        intro name' hname'
        have hne : name' ≠ name := by
          rintro rfl
          exact hnew hname'
        rw [hrecord.2 name' hname', if_neg hne]
      unfold read
      rw [hrecord.1, if_pos trivial, hrest]
      dsimp only
      rw [codec.decode_encode]
      rfl
  }

-- A record with no other fields.
def closed (fields : Fields V names α) : Codec (List (κ × V)) α :=
  {
    encode := fields.encode
    decode := fun record =>
      if record.all fun entry => entry.1 ∈ names then fields.decode record else none
    decode_encode := by
      intro a
      rw [if_pos]
      . exact fields.faithful a _ fun _ _ => rfl
      . rw [List.all_eq_true]
        intro entry hentry
        rw [decide_eq_true_eq, ← fields.named a]
        exact List.mem_map_of_mem hentry
  }

end Fields
