import AgenticPrd.Lib.Codec

/-!
Reading a value in two parts. A value is read with some places blanked out, and what stands in these
places is read by itself; both together are what the codec reads. Where the places are read in two
ways, the second one may make something else of what the first one reads, or refuse it.
-/

section Refills

variable {V α β σ τ : Type}

/--
`blank` blanks the places out, `slots` reads them, and `fill` puts what was read into them. `Holds`
tells that a value has it there.
-/
structure Refills (decode : V → Option α) (blank : V → V) (slots : V → Option σ)
    (fill : α → σ → α) (Holds : α → σ → Prop) : Prop where
  decode_eq : ∀ v, decode v = (decode (blank v)).bind fun a => (slots v).map (fill a)
  holds : ∀ {v a x}, decode (blank v) = some a → slots v = some x → Holds (fill a x) x

namespace Refills

variable {decode : V → Option α} {blank : V → V} {slots : V → Option σ} {fill : α → σ → α}
  {Holds : α → σ → Prop}

-- The whole value is one place.
theorem whole {b : V} {a : α} (hblank : decode b = some a) :
    Refills decode (fun _ => b) decode (fun _ x => x) Eq where
  decode_eq := by
    intro v
    rw [hblank]
    simp
  holds := fun _ _ => rfl

-- The value is made of what the codec reads, and `g` puts the places together.
theorem retract {codec : Codec V α} {parts : β → α} {make : α → Option β}
    {hparts : ∀ b, make (parts b) = some b} {slots' : V → Option τ} {fill' : β → τ → β}
    {Holds' : β → τ → Prop} (h : Refills codec.decode blank slots fill Holds) (g : σ → τ)
    (hslots : ∀ v, slots' v = (slots v).map g)
    (hmake : ∀ a x, make (fill a x) = (make a).map fun b => fill' b (g x))
    (hholds : ∀ {a b x}, make a = some b → Holds (fill a x) x → Holds' (fill' b (g x)) (g x)) :
    Refills (codec.retract parts make hparts).decode blank slots' fill' Holds' where
  decode_eq := by
    intro v
    simp only [Codec.retract]
    rw [h.decode_eq v, hslots]
    cases codec.decode (blank v) with
    | none => rfl
    | some a =>
      simp only [Option.bind_some]
      cases slots v with
      | none => cases make a <;> rfl
      | some x =>
        simp only [Option.map_some, Option.bind_some, hmake]
        cases make a <;> rfl
  holds := by
    intro v b x hdecode hx
    simp only [Codec.retract, Option.bind_eq_some_iff] at hdecode
    obtain ⟨a, hdecode, hb⟩ := hdecode
    rw [hslots, Option.map_eq_some_iff] at hx
    obtain ⟨y, hy, rfl⟩ := hx
    exact hholds hb (h.holds hdecode hy)

theorem list (codec : Codec V α) (h : Refills codec.decode blank slots fill Holds) :
    Refills codec.list.decode (List.map blank) (fun vs => vs.mapM slots) (List.zipWith fill)
      (List.Forall₂ Holds) where
  decode_eq := by
    intro vs
    simp only [Codec.list]
    induction vs with
    | nil => rfl
    | cons v vs ih =>
      simp only [List.map_cons, List.mapM_cons, ih, h.decode_eq v, Option.pure_def,
        Option.bind_eq_bind]
      cases codec.decode (blank v) with
      | none => rfl
      | some a =>
        cases slots v with
        | none => cases List.mapM codec.decode (vs.map blank) <;> rfl
        | some x =>
          cases List.mapM codec.decode (vs.map blank) with
          | none => rfl
          | some as => cases List.mapM slots vs <;> rfl
  holds := by
    intro vs as xs hdecode hslots
    simp only [Codec.list] at hdecode
    induction vs generalizing as xs with
    | nil =>
      simp only [List.map_nil, List.mapM_nil, Option.pure_def, Option.some.injEq] at hdecode hslots
      subst hdecode hslots
      exact .nil
    | cons v vs ih =>
      simp only [List.map_cons, List.mapM_cons, Option.pure_def, Option.bind_eq_bind,
        Option.bind_eq_some_iff, Option.some.injEq] at hdecode hslots
      obtain ⟨a, ha, as', has, rfl⟩ := hdecode
      obtain ⟨x, hx, xs', hxs, rfl⟩ := hslots
      exact .cons (h.holds ha hx) (ih has hxs)

end Refills

end Refills

namespace Record

variable {κ V W : Type} [DecidableEq κ]

def mapValues (f : κ → V → W) (record : List (κ × V)) : List (κ × W) :=
  record.map fun entry => (entry.1, f entry.1 entry.2)

theorem get?_mapValues (f : κ → V → W) (record : List (κ × V)) (key : κ) :
    get? (mapValues f record) key = (get? record key).map (f key) := by
  induction record with
  | nil => rfl
  | cons entry record ih =>
    have hcons : mapValues f (entry :: record)
        = (entry.1, f entry.1 entry.2) :: mapValues f record := rfl
    rw [hcons, get?_cons, get?_cons, ih]
    split
    . next h =>
      rw [h]
      rfl
    . rfl

-- Every value is read; one that cannot be read makes the whole record unreadable.
def mapValuesM (f : V → Option W) (record : List (κ × V)) : Option (List (κ × W)) :=
  record.mapM fun entry => (f entry.2).map fun value => (entry.1, value)

omit [DecidableEq κ] in
theorem mapValuesM_cons (f : V → Option W) (key : κ) (value : V) (record : List (κ × V)) :
    mapValuesM f ((key, value) :: record)
      =
    (f value).bind fun w => (mapValuesM f record).map fun rest => (key, w) :: rest := by
  unfold mapValuesM
  rw [List.mapM_cons]
  cases f value with
  | none => rfl
  | some w =>
    cases record.mapM fun entry => (f entry.2).map fun value => (entry.1, value) <;> rfl

theorem get?_mapValuesM {f : V → Option W} {record : List (κ × V)} {record' : List (κ × W)}
    (h : mapValuesM f record = some record') (key : κ) :
    get? record' key = (get? record key).bind f := by
  induction record generalizing record' with
  | nil =>
    cases h
    rfl
  | cons entry record ih =>
    rw [mapValuesM_cons, Option.bind_eq_some_iff] at h
    obtain ⟨w, hw, h⟩ := h
    rw [Option.map_eq_some_iff] at h
    obtain ⟨rest, hrest, rfl⟩ := h
    rw [get?_cons, get?_cons, ih hrest]
    split
    . exact hw.symm
    . rfl

omit [DecidableEq κ] in
theorem isSome_mapValuesM (f : V → Option W) (record : List (κ × V)) :
    (mapValuesM f record).isSome = record.all fun entry => (f entry.2).isSome := by
  induction record with
  | nil => rfl
  | cons entry record ih =>
    rw [mapValuesM_cons, List.all_cons, ← ih]
    cases f entry.2 with
    | none => rfl
    | some w => cases mapValuesM f record <;> rfl

end Record

namespace Refills

variable {κ V α σ : Type} [DecidableEq V] {keys : List κ} {key : κ → V} {hall : ∀ k, k ∈ keys}
  {hnodup : (keys.map key).Nodup} {codec : Codec β α} {blank : β → β} {slots : β → Option σ}
  {fill : α → σ → α} {Holds : α → σ → Prop}

-- Every value of a dictionary has its places.
theorem dict (h : Refills codec.decode blank slots fill Holds) :
    Refills (Codec.dict keys key hall hnodup codec).decode (Record.mapValues fun _ => blank)
      (Record.mapValuesM slots)
      (fun f x k => (f k).bind fun a => (Record.get? x (key k)).map (fill a))
      fun f x => ∀ k, Option.Rel Holds (f k) (Record.get? x (key k)) where
  decode_eq := by
    intro record
    have hkeys : (Record.mapValues (fun _ => blank) record).all
          (fun entry => keys.any fun k => key k = entry.1)
        = record.all fun entry => keys.any fun k => key k = entry.1 := by
      simp [Record.mapValues, List.all_map, Function.comp_def]
    have hvalues : record.all (fun entry => (codec.decode entry.2).isSome)
        = ((Record.mapValues (fun _ => blank) record).all
            (fun entry => (codec.decode entry.2).isSome)
          && (Record.mapValuesM slots record).isSome) := by
      have hentry : ∀ value : β, (codec.decode value).isSome
          = ((codec.decode (blank value)).isSome && (slots value).isSome) := by
        intro value
        rw [h.decode_eq value]
        cases codec.decode (blank value) with
        | none => rfl
        | some a => cases slots value <;> rfl
      calc
        record.all (fun entry => (codec.decode entry.2).isSome)
        _ = record.all (fun entry =>
            (codec.decode (blank entry.2)).isSome && (slots entry.2).isSome) :=
          congrArg record.all (funext fun entry => hentry entry.2)
        _ = (record.all (fun entry => (codec.decode (blank entry.2)).isSome)
            && record.all fun entry => (slots entry.2).isSome) := by
          rw [Bool.eq_iff_iff]
          simp only [Bool.and_eq_true, List.all_eq_true]
          exact forall₂_and
        _ = _ := by
          simp only [Record.isSome_mapValuesM, Record.mapValues, List.all_map, Function.comp_def]
    simp only [Codec.dict, hkeys, hvalues]
    cases hslots : Record.mapValuesM slots record with
    | none => simp
    | some x =>
      simp only [Option.isSome_some, Bool.and_true, Option.map_some]
      split
      . simp only [Option.bind_some, Option.some.injEq]
        funext k
        rw [Record.get?_mapValuesM hslots, Record.get?_mapValues]
        cases Record.get? record (key k) with
        | none => rfl
        | some value => exact h.decode_eq value
      . rfl
  holds := by
    intro record f x hdecode hslots k
    simp only [Codec.dict, Option.ite_none_right_eq_some, Option.some.injEq, Bool.and_eq_true,
      List.all_eq_true] at hdecode
    obtain ⟨⟨_, hsome⟩, rfl⟩ := hdecode
    have hall := Record.isSome_mapValuesM slots record
    rw [hslots, Option.isSome_some, eq_comm, List.all_eq_true] at hall
    simp only [Record.get?_mapValuesM hslots, Record.get?_mapValues]
    cases hvalue : Record.get? record (key k) with
    | none => exact .none
    | some value =>
      have hmem := Record.mem_of_get? hvalue
      obtain ⟨a, ha⟩ := Option.isSome_iff_exists.mp (hsome (key k, blank value)
        (List.mem_map_of_mem (f := fun entry => (entry.1, blank entry.2)) hmem))
      obtain ⟨y, hy⟩ := Option.isSome_iff_exists.mp (hall _ hmem)
      simp only [Option.map_some, Option.bind_some] at ha hy ⊢
      rw [ha, hy]
      exact .some (h.holds ha hy)

end Refills

section Guarded

variable {V σ τ : Type}

/--
What `read` reads is made into something else by `f`, if it is `Ok`, and refused otherwise.
-/
def Guarded (read : V → Option σ) (read' : V → Option τ) (Ok : σ → Prop) (f : σ → τ) : Prop :=
  ∀ v x, read v = some x → (Ok x → read' v = some (f x)) ∧ (¬Ok x → read' v = none)

variable {read : V → Option σ} {read' : V → Option τ} {Ok : σ → Prop} {f : σ → τ}

-- Nothing that is not `Ok` is read by `read'`.
theorem Guarded.ok {v : V} {x : σ} {y : τ} (h : Guarded read read' Ok f) (hread : read v = some x)
    (hread' : read' v = some y) : Ok x := by
  by_contra hnot
  have hnone := (h v x hread).2 hnot
  rw [hread'] at hnone
  contradiction

theorem Guarded.list (h : Guarded read read' Ok f) :
    Guarded (List.mapM read) (List.mapM read') (fun xs => ∀ x ∈ xs, Ok x) (List.map f) := by
  intro vs xs hread
  induction vs generalizing xs with
  | nil =>
    cases hread
    exact ⟨fun _ => rfl, fun hnot => absurd (List.forall_mem_nil _) hnot⟩
  | cons v vs ih =>
    simp only [List.mapM_cons, Option.pure_def, Option.bind_eq_bind, Option.bind_eq_some_iff,
      Option.some.injEq] at hread
    obtain ⟨x, hx, xs, hxs, rfl⟩ := hread
    have hhead := h v x hx
    have htail := ih xs hxs
    simp only [List.forall_mem_cons, List.mapM_cons]
    constructor
    . intro hok
      rw [hhead.1 hok.1, htail.1 hok.2]
      rfl
    . intro hnot
      rw [not_and_or] at hnot
      cases hnot with
      | inl hnot =>
        rw [hhead.2 hnot]
        rfl
      | inr hnot =>
        rw [htail.2 hnot]
        cases read' v <;> rfl

-- A list is read when all of its entries are.
theorem mapM_option (f : σ → Option τ) (l : List σ) :
    ((∀ a ∈ l, (f a).isSome = true) → l.mapM f = some (l.filterMap f))
      ∧ ((¬∀ a ∈ l, (f a).isSome = true) → l.mapM f = none) := by
  induction l with
  | nil => simp
  | cons a l ih =>
    rw [List.forall_mem_cons, List.mapM_cons]
    cases ha : f a with
    | none => simp
    | some b =>
      rw [List.filterMap_cons_some ha]
      constructor
      . intro h
        rw [ih.1 h.2]
        rfl
      . intro h
        rw [ih.2 fun hall => h ⟨rfl, hall⟩]
        rfl

theorem Guarded.mapValuesM {κ : Type} (h : Guarded read read' Ok f) :
    Guarded (Record.mapValuesM read) (Record.mapValuesM read')
      (fun record : List (κ × σ) => ∀ entry ∈ record, Ok entry.2)
      (Record.mapValues fun _ => f) := by
  have hentry : Guarded (fun entry : κ × V => (read entry.2).map fun x => (entry.1, x))
      (fun entry => (read' entry.2).map fun x => (entry.1, x)) (fun entry => Ok entry.2)
      (fun entry => (entry.1, f entry.2)) := by
    intro entry x hread
    rw [Option.map_eq_some_iff] at hread
    obtain ⟨y, hy, rfl⟩ := hread
    have hvalue := h entry.2 y hy
    dsimp only
    constructor
    . intro hok
      rw [hvalue.1 hok]
      rfl
    . intro hnot
      rw [hvalue.2 hnot]
      rfl
  exact hentry.list

end Guarded

namespace Fields

variable {κ V α β σ τ : Type} [DecidableEq κ] {names : List κ}

-- What stands under a name, or `missing` where nothing does.
def slot (name : κ) (missing : σ) (slots : V → Option σ) (record : List (κ × V)) : Option σ :=
  match Record.get? record name with
  | none => some missing
  | some value => slots value

section Refills

variable {name : κ} {default : Option α} {codec : Codec V α} {rest : Fields V names β}
  {hnew : name ∉ names} {blank : κ → V → V} {slots : List (κ × V) → Option τ}
  {fill : β → τ → β} {Holds : β → τ → Prop}

theorem refills_nil :
    Refills (nil : Fields V ([] : List κ) Unit).decode (Record.mapValues blank)
      (fun _ => some ()) (fun a _ => a) fun _ _ => True where
  decode_eq := fun _ => rfl
  holds := fun _ _ => trivial

-- A field without places.
theorem refills_same (hblank : blank name = id)
    (h : Refills rest.decode (Record.mapValues blank) slots fill Holds) :
    Refills (cons name default codec rest hnew).decode (Record.mapValues blank) slots
      (fun p x => (p.1, fill p.2 x)) fun p x => Holds p.2 x where
  decode_eq := by
    intro record
    have hread : read name default codec (Record.mapValues blank record)
        = read name default codec record := by
      unfold read
      rw [Record.get?_mapValues, hblank, Option.map_id]
      rfl
    simp only [cons, hread, h.decode_eq record]
    cases read name default codec record with
    | none => rfl
    | some a =>
      cases rest.decode (Record.mapValues blank record) with
      | none => rfl
      | some b => cases slots record <;> rfl
  holds := by
    intro record p x hdecode hslots
    simp only [cons, Option.bind_eq_some_iff, Option.map_eq_some_iff] at hdecode
    obtain ⟨a, _, b, hb, rfl⟩ := hdecode
    exact h.holds hb hslots

theorem refills_slot (missing : σ) {blank' : V → V} {slots' : V → Option σ} {fill' : α → σ → α}
    {Holds' : α → σ → Prop} (hblank : blank name = blank')
    (hcodec : Refills codec.decode blank' slots' fill' Holds')
    (hmissing : ∀ a ∈ default, fill' a missing = a ∧ Holds' a missing)
    (h : Refills rest.decode (Record.mapValues blank) slots fill Holds) :
    Refills (cons name default codec rest hnew).decode (Record.mapValues blank)
      (fun record =>
        (slot name missing slots' record).bind fun x => (slots record).map fun y => (x, y))
      (fun p x => (fill' p.1 x.1, fill p.2 x.2)) fun p x => Holds' p.1 x.1 ∧ Holds p.2 x.2 where
  decode_eq := by
    intro record
    have hread : read name default codec record
        = (read name default codec (Record.mapValues blank record)).bind fun a =>
          (slot name missing slots' record).map (fill' a) := by
      unfold read slot
      rw [Record.get?_mapValues, hblank]
      cases Record.get? record name with
      | none =>
        cases default with
        | none => rfl
        | some a => simp [(hmissing a rfl).1]
      | some value => exact hcodec.decode_eq value
    simp only [cons, hread, h.decode_eq record]
    cases read name default codec (Record.mapValues blank record) with
    | none => rfl
    | some a =>
      cases slot name missing slots' record with
      | none => cases rest.decode (Record.mapValues blank record) <;> rfl
      | some x =>
        cases rest.decode (Record.mapValues blank record) with
        | none => rfl
        | some b => cases slots record <;> rfl
  holds := by
    intro record p x hdecode hslots
    simp only [cons, Option.bind_eq_some_iff, Option.map_eq_some_iff] at hdecode hslots
    obtain ⟨a, ha, b, hb, rfl⟩ := hdecode
    obtain ⟨x, hx, y, hy, rfl⟩ := hslots
    refine ⟨?_, h.holds hb hy⟩
    unfold read at ha
    unfold slot at hx
    rw [Record.get?_mapValues, hblank] at ha
    cases hvalue : Record.get? record name with
    | none =>
      simp only [hvalue, Option.map_none, Option.some.injEq] at ha hx
      rw [← hx, (hmissing a ha).1]
      exact (hmissing a ha).2
    | some value =>
      simp only [hvalue, Option.map_some] at ha hx
      exact hcodec.holds ha hx

-- Blanking places out leaves the names alone.
theorem refills_closed {fields : Fields V names β}
    (h : Refills fields.decode (Record.mapValues blank) slots fill Holds) :
    Refills fields.closed.decode (Record.mapValues blank) slots fill Holds where
  decode_eq := by
    intro record
    have hnames : (Record.mapValues blank record).all (fun entry => decide (entry.1 ∈ names))
        = record.all fun entry => decide (entry.1 ∈ names) := by
      simp [Record.mapValues, List.all_map, Function.comp_def]
    simp only [closed, hnames]
    split
    . exact h.decode_eq record
    . rfl
  holds := by
    intro record a x hdecode hslots
    simp only [closed, Option.ite_none_right_eq_some] at hdecode
    exact h.holds hdecode.2 hslots

end Refills

section Guarded

variable {name : κ} {missing : σ} {missing' : τ} {slots : V → Option σ} {slots' : V → Option τ}
  {Ok : σ → Prop} {f : σ → τ}

theorem guarded_slot (h : Guarded slots slots' Ok f) (hok : Ok missing)
    (hmissing : f missing = missing') :
    Guarded (slot name missing slots) (slot name missing' slots') Ok f := by
  intro record x hslot
  unfold slot at hslot ⊢
  cases hvalue : Record.get? record name with
  | none =>
    simp only [hvalue, Option.some.injEq] at hslot ⊢
    rw [← hslot, hmissing]
    exact ⟨fun _ => rfl, fun hnot => absurd hok hnot⟩
  | some value =>
    simp only [hvalue] at hslot ⊢
    exact h value x hslot

end Guarded

end Fields
