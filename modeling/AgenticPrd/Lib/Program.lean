import Mathlib.Tactic.Common

/-!
Programs over a mutable state that may raise, as Python code reads: what a program wrote before it
raised stays written. `wp` is the weakest precondition of such a program for a pair of
postconditions, one for returning and one for raising.
-/

def Prog (σ ε α : Type) : Type :=
  σ → Except ε α × σ

namespace Prog

variable {σ ε α β : Type}

def run (x : Prog σ ε α) (s : σ) : Except ε α × σ :=
  x s

protected def pure (a : α) : Prog σ ε α :=
  fun s => (.ok a, s)

protected def bind (x : Prog σ ε α) (f : α → Prog σ ε β) : Prog σ ε β :=
  fun s =>
    match x s with
    | (.ok a, s') => f a s'
    | (.error e, s') => (.error e, s')

protected def throw (e : ε) : Prog σ ε α :=
  fun s => (.error e, s)

-- The handler goes on from the state in which `x` raised.
protected def tryCatch (x : Prog σ ε α) (handler : ε → Prog σ ε α) : Prog σ ε α :=
  fun s =>
    match x s with
    | (.ok a, s') => (.ok a, s')
    | (.error e, s') => handler e s'

instance : Monad (Prog σ ε) where
  pure := Prog.pure
  bind := Prog.bind

instance : MonadExceptOf ε (Prog σ ε) where
  throw := Prog.throw
  tryCatch := Prog.tryCatch

instance : MonadStateOf σ (Prog σ ε) where
  get := fun s => (.ok s, s)
  set := fun s _ => (.ok (), s)
  modifyGet := fun f s => (.ok (f s).1, (f s).2)

instance : LawfulMonad (Prog σ ε) := by
  apply LawfulMonad.mk' _
  . intro _ x
    funext s
    change Prog.bind x _ s = x s
    unfold Prog.bind
    split
    . next heq => rw [heq]; rfl
    . next heq => rw [heq]
  . intro _ _ _ _
    rfl
  . intro _ _ _ x f g
    funext s
    change Prog.bind (Prog.bind x f) g s = Prog.bind x (fun a => Prog.bind (f a) g) s
    unfold Prog.bind
    cases hx : x s with
    | mk r s' => cases r <;> rfl

-- Run a program over one component of a larger state.
def zoom {τ : Type} (view : σ → τ) (update : τ → σ → σ) (x : Prog τ ε α) : Prog σ ε α :=
  fun s =>
    match x.run (view s) with
    | (r, t) => (r, update t s)

/--
`wp x s Q E`: from `s`, `x` either returns some `a` in a state satisfying `Q a`, or raises some `e`
in a state satisfying `E e`.
-/
def wp (x : Prog σ ε α) (s : σ) (Q : α → σ → Prop) (E : ε → σ → Prop) : Prop :=
  match x.run s with
  | (.ok a, s') => Q a s'
  | (.error e, s') => E e s'

variable {Q Q' : α → σ → Prop} {R : β → σ → Prop} {E E' : ε → σ → Prop} {s s' : σ}

theorem wp_of_run_ok {x : Prog σ ε α} {a : α} (h : x.run s = (.ok a, s')) :
    wp x s Q E ↔ Q a s' := by
  simp only [wp, h]

theorem wp_of_run_error {x : Prog σ ε α} {e : ε} (h : x.run s = (.error e, s')) :
    wp x s Q E ↔ E e s' := by
  simp only [wp, h]

theorem wp_error_iff {x : Prog σ ε α} :
    wp x s (fun _ _ => True) E ↔ ∀ e s', x.run s = (.error e, s') → E e s' := by
  unfold wp
  split
  . next heq => simp [heq]
  . next heq => simp [heq]

theorem run_eq_of_wp {x : Prog σ ε α} {a : α} (h : wp x s (fun a' _ => a' = a) fun _ _ => False) :
    (x.run s).1 = .ok a := by
  unfold wp at h
  split at h
  . next heq => rw [heq, h]
  . contradiction

theorem run_bind_of_ok {x : Prog σ ε α} {f : α → Prog σ ε β} {a : α} (h : x.run s = (.ok a, s')) :
    (x >>= f).run s = (f a).run s' := by
  have hbind : (x >>= f).run s = Prog.bind x f s := rfl
  rw [hbind]
  unfold run at h
  unfold Prog.bind run
  rw [h]

theorem run_bind_eq_ok {x : Prog σ ε α} {f : α → Prog σ ε β} {b : β}
    (h : (x >>= f).run s = (.ok b, s')) :
    ∃ a s1, x.run s = (.ok a, s1) ∧ (f a).run s1 = (.ok b, s') := by
  have hbind : (x >>= f).run s = Prog.bind x f s := rfl
  rw [hbind] at h
  unfold Prog.bind at h
  unfold run
  split at h
  . next a s1 heq => exact ⟨a, s1, heq, h⟩
  . cases h

theorem wp_mono {x : Prog σ ε α} (h : wp x s Q E) (hQ : ∀ a s', Q a s' → Q' a s')
    (hE : ∀ e s', E e s' → E' e s') : wp x s Q' E' := by
  unfold wp at *
  split
  . next heq =>
    rw [heq] at h
    apply hQ
    exact h
  . next heq =>
    rw [heq] at h
    apply hE
    exact h

theorem wp_and {x : Prog σ ε α} (h : wp x s Q E) (h' : wp x s Q' E') :
    wp x s (fun a s' => Q a s' ∧ Q' a s') fun e s' => E e s' ∧ E' e s' := by
  unfold wp at *
  split
  . next heq =>
    rw [heq] at h h'
    exact ⟨h, h'⟩
  . next heq =>
    rw [heq] at h h'
    exact ⟨h, h'⟩

-- What both postconditions say whatever the end is.
theorem of_wp {x : Prog σ ε α} {P : Prop} (h : wp x s (fun _ _ => P) fun _ _ => P) : P := by
  unfold wp at h
  split at h
  . exact h
  . exact h

@[simp]
theorem wp_pure (a : α) : wp (pure a : Prog σ ε α) s Q E ↔ Q a s :=
  Iff.rfl

@[simp]
theorem wp_throw (e : ε) : wp (throw e : Prog σ ε α) s Q E ↔ E e s :=
  Iff.rfl

@[simp]
theorem wp_bind (x : Prog σ ε α) (f : α → Prog σ ε β) :
    wp (x >>= f) s R E ↔ wp x s (fun a s' => wp (f a) s' R E) E := by
  have hbind : (x >>= f).run s = Prog.bind x f s := rfl
  unfold wp
  rw [hbind]
  unfold Prog.bind run
  cases hx : x s with
  | mk r s' => cases r <;> rfl

@[simp]
theorem wp_tryCatch (x : Prog σ ε α) (handler : ε → Prog σ ε α) :
    wp (tryCatch x handler) s Q E ↔ wp x s Q (fun e s' => wp (handler e) s' Q E) := by
  have htry : (tryCatch x handler).run s = Prog.tryCatch x handler s := rfl
  unfold wp
  rw [htry]
  unfold Prog.tryCatch run
  cases hx : x s with
  | mk r s' => cases r <;> rfl

@[simp]
theorem wp_get {P : σ → σ → Prop} : wp (get : Prog σ ε σ) s P E ↔ P s s :=
  Iff.rfl

@[simp]
theorem wp_set {P : PUnit → σ → Prop} (t : σ) : wp (set t : Prog σ ε PUnit) s P E ↔ P ⟨⟩ t :=
  Iff.rfl

@[simp]
theorem wp_modify {P : Unit → σ → Prop} (f : σ → σ) :
    wp (modify f : Prog σ ε Unit) s P E ↔ P () (f s) :=
  Iff.rfl

@[simp]
theorem wp_map (f : α → β) (x : Prog σ ε α) :
    wp (f <$> x) s R E ↔ wp x s (fun a s' => R (f a) s') E := by
  have hmap : f <$> x = x >>= fun a => pure (f a) := rfl
  rw [hmap, wp_bind]
  rfl

@[simp]
theorem wp_zoom {τ : Type} (view : σ → τ) (update : τ → σ → σ) (x : Prog τ ε α) :
    wp (zoom view update x) s Q E
      ↔
    wp x (view s) (fun a t => Q a (update t s)) (fun e t => E e (update t s)) := by
  unfold wp
  have hzoom : (zoom view update x).run s
      = ((x.run (view s)).1, update (x.run (view s)).2 s) := rfl
  rw [hzoom]
  cases hx : x.run (view s) with
  | mk r t => cases r <;> rfl

@[simp]
theorem wp_ite {c : Prop} [Decidable c] (x y : Prog σ ε α) :
    wp (if c then x else y) s Q E ↔ if c then wp x s Q E else wp y s Q E := by
  split <;> rfl

section Keeping

variable {τ : Type} {view : σ → τ}

-- Whichever way `x` ends, it leaves `view` of the state as it was.
def Keeping (view : σ → τ) (x : Prog σ ε α) : Prop :=
  ∀ s, wp x s (fun _ s' => view s' = view s) (fun _ s' => view s' = view s)

theorem Keeping.pure (a : α) : Keeping view (pure a : Prog σ ε α) :=
  fun _ => rfl

theorem Keeping.throw (e : ε) : Keeping view (throw e : Prog σ ε α) :=
  fun _ => rfl

theorem Keeping.get : Keeping view (get : Prog σ ε σ) :=
  fun _ => rfl

theorem Keeping.modify {f : σ → σ} (h : ∀ s, view (f s) = view s) :
    Keeping view (modify f : Prog σ ε Unit) :=
  h

theorem Keeping.bind {x : Prog σ ε α} {f : α → Prog σ ε β} (hx : Keeping view x)
    (hf : ∀ a, Keeping view (f a)) : Keeping view (x >>= f) := by
  intro s
  rw [wp_bind]
  apply wp_mono (hx s)
  . intro a s1 h1
    rw [← h1]
    exact hf a s1
  . intro e s1 h1
    exact h1

theorem Keeping.tryCatch {x : Prog σ ε α} {handler : ε → Prog σ ε α} (hx : Keeping view x)
    (hhandler : ∀ e, Keeping view (handler e)) : Keeping view (tryCatch x handler) := by
  intro s
  rw [wp_tryCatch]
  apply wp_mono (hx s)
  . intro a s1 h1
    exact h1
  . intro e s1 h1
    rw [← h1]
    exact hhandler e s1

theorem Keeping.comp {υ : Type} {x : Prog σ ε α} (hx : Keeping view x) (f : τ → υ) :
    Keeping (fun s => f (view s)) x := by
  intro s
  apply wp_mono (hx s)
  . intro _ _ h
    exact congrArg f h
  . intro _ _ h
    exact congrArg f h

theorem Keeping.prod {υ : Type} {view' : σ → υ} {x : Prog σ ε α} (hx : Keeping view x)
    (hx' : Keeping view' x) : Keeping (fun s => (view s, view' s)) x := by
  intro s
  apply wp_mono (wp_and (hx s) (hx' s))
  . intro _ s1 h
    exact Prod.ext h.1 h.2
  . intro _ s1 h
    exact Prod.ext h.1 h.2

theorem Keeping.run {x : Prog σ ε α} (hx : Keeping view x) (s : σ) : view (x.run s).2 = view s := by
  have h := hx s
  unfold wp at h
  split at h
  . next heq =>
    rw [heq]
    exact h
  . next heq =>
    rw [heq]
    exact h

-- What a rule says of a program, and what the program keeps.
theorem wp_keeping {x : Prog σ ε α} (hx : Keeping view x) (h : wp x s Q E)
    (hQ : ∀ a s', Q a s' → view s' = view s → Q' a s')
    (hE : ∀ e s', E e s' → view s' = view s → E' e s') : wp x s Q' E' := by
  apply wp_mono (wp_and h (hx s))
  . rintro a s' ⟨ha, hview⟩
    exact hQ a s' ha hview
  . rintro e s' ⟨he, hview⟩
    exact hE e s' he hview

-- What follows a program that keeps a view starts from the same view.
theorem wp_bind_keeping {x : Prog σ ε α} {f : α → Prog σ ε β} (hx : Keeping view x)
    (hf : ∀ a s', view s' = view s → wp (f a) s' R E) (hE : ∀ e s', view s' = view s → E e s') :
    wp (x >>= f) s R E := by
  rw [wp_bind]
  exact wp_mono (hx s) hf hE

end Keeping

section Returns

variable {P : α → Prop}

-- What `x` returns, if it does, satisfies `P`.
def Returns (P : α → Prop) (x : Prog σ ε α) : Prop :=
  ∀ s, wp x s (fun a _ => P a) (fun _ _ => True)

theorem wp_trivial (x : Prog σ ε α) : wp x s (fun _ _ => True) (fun _ _ => True) := by
  unfold wp
  split <;> trivial

theorem Returns.pure {a : α} (h : P a) : Returns P (pure a : Prog σ ε α) :=
  fun _ => h

theorem Returns.throw (e : ε) : Returns P (throw e : Prog σ ε α) :=
  fun _ => trivial

theorem Returns.mono {P' : α → Prop} {x : Prog σ ε α} (hx : Returns P x) (h : ∀ a, P a → P' a) :
    Returns P' x := by
  intro s
  apply wp_mono (hx s)
  . intro a s1 ha
    exact h a ha
  . intro _ _ _
    trivial

theorem Returns.bind {x : Prog σ ε β} {f : β → Prog σ ε α} (hf : ∀ a, Returns P (f a)) :
    Returns P (x >>= f) := by
  intro s
  rw [wp_bind]
  apply wp_mono (wp_trivial x)
  . intro a s1 _
    exact hf a s1
  . intro _ _ _
    trivial

theorem Returns.tryCatch {x : Prog σ ε α} {handler : ε → Prog σ ε α} (hx : Returns P x)
    (hhandler : ∀ e, Returns P (handler e)) : Returns P (tryCatch x handler) := by
  intro s
  rw [wp_tryCatch]
  apply wp_mono (hx s)
  . intro a s1 h
    exact h
  . intro e s1 _
    exact hhandler e s1

end Returns

section Within

variable {I : σ → Prop} {F : ε → Prop} {P P' : α → Prop} {R' : β → Prop}

/--
From a state of the invariant `I`, `x` ends in one again, however it ends; what it returns satisfies
`P`, and what it raises satisfies `F`.
-/
def Within (I : σ → Prop) (F : ε → Prop) (P : α → Prop) (x : Prog σ ε α) : Prop :=
  ∀ s, I s → wp x s (fun a s' => I s' ∧ P a) (fun e s' => I s' ∧ F e)

theorem Within.pure {a : α} (h : P a) : Within I F P (pure a : Prog σ ε α) :=
  fun _ hs => ⟨hs, h⟩

theorem Within.throw {e : ε} (h : F e) : Within I F P (throw e : Prog σ ε α) :=
  fun _ hs => ⟨hs, h⟩

theorem Within.get : Within I F I (get : Prog σ ε σ) :=
  fun _ hs => ⟨hs, hs⟩

theorem Within.modify {f : σ → σ} (h : ∀ s, I s → I (f s)) :
    Within I F (fun _ => True) (modify f : Prog σ ε Unit) :=
  fun s hs => ⟨h s hs, trivial⟩

theorem Within.mono {x : Prog σ ε α} (hx : Within I F P x) (h : ∀ a, P a → P' a) :
    Within I F P' x := by
  intro s hs
  apply wp_mono (hx s hs)
  . intro a s' ha
    exact ⟨ha.1, h a ha.2⟩
  . intro e s' he
    exact he

theorem Within.bind {x : Prog σ ε α} {f : α → Prog σ ε β} (hx : Within I F P x)
    (hf : ∀ a, P a → Within I F R' (f a)) : Within I F R' (x >>= f) := by
  intro s hs
  rw [wp_bind]
  apply wp_mono (hx s hs)
  . intro a s' ha
    exact hf a ha.2 s' ha.1
  . intro e s' he
    exact he

-- What is caught need not be what is let through.
theorem Within.tryCatch {E : ε → Prop} {x : Prog σ ε α} {handler : ε → Prog σ ε α}
    (hx : Within I E P x) (hhandler : ∀ e, E e → Within I F P (handler e)) :
    Within I F P (tryCatch x handler) := by
  intro s hs
  rw [wp_tryCatch]
  apply wp_mono (hx s hs)
  . intro a s' ha
    exact ha
  . intro e s' he
    exact hhandler e he.2 s' he.1

end Within

section Shifts

variable {I J : σ → Prop} {F E : ε → Prop} {P Q : α → Prop} {R S : β → Prop}

/--
From a state of `I`, `x` either ends in one again, and returns what satisfies `P` or raises what
satisfies `F`, or it moves on to a state of `J`, with `Q` and `E` in their place.
-/
def Shifts (I J : σ → Prop) (F E : ε → Prop) (P Q : α → Prop) (x : Prog σ ε α) : Prop :=
  ∀ s, I s →
    wp x s (fun a s' => I s' ∧ P a ∨ J s' ∧ Q a) (fun e s' => I s' ∧ F e ∨ J s' ∧ E e)

theorem Within.shifts {x : Prog σ ε α} (hx : Within I F P x) : Shifts I J F E P Q x := by
  intro s hs
  apply wp_mono (hx s hs)
  . intro a s' ha
    exact .inl ha
  . intro e s' he
    exact .inl he

theorem Shifts.mono {P' Q' : α → Prop} {x : Prog σ ε α} (hx : Shifts I J F E P Q x)
    (h : ∀ a, P a → P' a) (h' : ∀ a, Q a → Q' a) : Shifts I J F E P' Q' x := by
  intro s hs
  apply wp_mono (hx s hs)
  . rintro a s' (ha | ha)
    . exact .inl ⟨ha.1, h a ha.2⟩
    . exact .inr ⟨ha.1, h' a ha.2⟩
  . intro e s' he
    exact he

-- There is no move where there is nowhere to move to.
theorem Shifts.within {x : Prog σ ε α} (hx : Shifts I (fun _ => False) F E P Q x) :
    Within I F P x := by
  intro s hs
  apply wp_mono (hx s hs)
  . rintro a s' (ha | ha)
    . exact ha
    . exact ha.1.elim
  . rintro e s' (he | he)
    . exact he
    . exact he.1.elim

-- What leads up to the move stays where it is.
theorem Within.bind_shifts {x : Prog σ ε α} {f : α → Prog σ ε β} (hx : Within I F P x)
    (hf : ∀ a, P a → Shifts I J F E R S (f a)) : Shifts I J F E R S (x >>= f) := by
  intro s hs
  rw [wp_bind]
  apply wp_mono (hx s hs)
  . intro a s' ha
    exact hf a ha.2 s' ha.1
  . intro e s' he
    exact .inl he

-- What follows the move stays where it has come to.
theorem Shifts.bind {x : Prog σ ε α} {f : α → Prog σ ε β}
    (hx : Shifts I J F E (fun _ => False) Q x) (hf : ∀ a, Q a → Within J E S (f a)) :
    Shifts I J F E R S (x >>= f) := by
  intro s hs
  rw [wp_bind]
  apply wp_mono (hx s hs)
  . rintro a s' (ha | ha)
    . exact ha.2.elim
    . apply wp_mono (hf a ha.2 s' ha.1)
      . intro b s'' hb
        exact .inr hb
      . intro e s'' he
        exact .inr he
  . intro e s' he
    exact he

end Shifts

end Prog
