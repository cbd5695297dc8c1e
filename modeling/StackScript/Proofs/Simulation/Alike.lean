import Mathlib.Data.List.Forall2

/-! # Results up to a cut

A computation that may be cut short, because no depth is left to it, is compared with another
one. The two are alike if they give the same fault or related values, or if the first one was
cut short. Whether the second one alone may be cut short is a parameter: it may not where the
second one is known to have more depth, and it may where the two need different depths.
-/

namespace StackScript

theorem ok_bind {ε α β : Type} (a : α) (f : α → Except ε β) : (Except.ok a >>= f) = f a := rfl

/-- The results are alike up to the fault `cut`, which the first one may always have, and the
second one if `either` holds. -/
inductive Alike {ε α β : Type} (cut : ε) (either : Prop) (R : α → β → Prop) :
    Except ε α → Except ε β → Prop
  | first (y) : Alike cut either R (.error cut) y
  | second (h : either) (x) : Alike cut either R x (.error cut)
  | error (e) : Alike cut either R (.error e) (.error e)
  | ok {a b} (h : R a b) : Alike cut either R (.ok a) (.ok b)

namespace Alike

variable {ε α β γ δ : Type} {cut : ε} {either : Prop} {R : α → β → Prop} {S : γ → δ → Prop}

theorem refl (x : Except ε α) : Alike cut either Eq x x := by
  cases x with
  | error e => exact .error e
  | ok a => exact .ok rfl

theorem of_eq {x y : Except ε α} (h : x = y) : Alike cut either Eq x y := by
  subst h
  exact refl x

theorem mono {R' : α → β → Prop} {x : Except ε α} {y : Except ε β}
    (h : Alike cut either R x y) (himp : ∀ a b, R a b → R' a b) : Alike cut either R' x y := by
  cases h with
  | first => exact .first _
  | second h => exact .second h _
  | error e => exact .error e
  | ok h => exact .ok (himp _ _ h)

theorem bind {x : Except ε α} {y : Except ε β} {f : α → Except ε γ} {g : β → Except ε δ}
    (h : Alike cut either R x y) (hnext : ∀ a b, R a b → Alike cut either S (f a) (g b)) :
    Alike cut either S (x >>= f) (y >>= g) := by
  cases h with
  | first => exact .first _
  | second h => exact .second h _
  | error e => exact .error e
  | ok h => exact hnext _ _ h

/-- Alike results may be handed on to the same computation. -/
theorem bindEq {x y : Except ε α} {f : α → Except ε γ} {g : α → Except ε δ}
    (h : Alike cut either Eq x y) (hnext : ∀ a, Alike cut either S (f a) (g a)) :
    Alike cut either S (x >>= f) (y >>= g) :=
  h.bind fun a b hab => by
    subst hab
    exact hnext a

/-- What is alike to a result may be handed on as that result. -/
theorem bind_ok {x : Except ε α} {a : α} {f : α → Except ε γ} {y : Except ε δ}
    (h : Alike cut either Eq x (.ok a)) (hnext : Alike cut either S (f a) y) :
    Alike cut either S (x >>= f) y := by
  cases h with
  | first => exact .first _
  | ok h =>
      subst h
      exact hnext

/-- Whatever is made of results keeps them alike, if it passes the cut on. -/
theorem handle {ε' : Type} {cut' : ε'} {g : Except ε α → Except ε' γ} {x y : Except ε α}
    (h : Alike cut either Eq x y) (hcut : g (.error cut) = .error cut') :
    Alike cut' either Eq (g x) (g y) := by
  cases h with
  | first =>
      rw [hcut]
      exact .first _
  | second h =>
      rw [hcut]
      exact .second h _
  | error e => exact .refl _
  | ok h =>
      subst h
      exact .refl _

theorem map {x y : Except ε α} (h : Alike cut either Eq x y) (f : α → γ) :
    Alike cut either Eq (x.map f) (y.map f) := handle (g := Except.map f) h rfl

/-- Lists are worked through alike if their elements are, one by one. -/
theorem mapM_related {f : α → Except ε γ} {g : β → Except ε γ} {items : List α}
    {others : List β} (h : List.Forall₂ (fun a b => Alike cut either Eq (f a) (g b)) items others) :
    Alike cut either Eq (items.mapM f) (others.mapM g) := by
  induction h with
  | nil => exact .refl _
  | cons hhead _ ih =>
      rw [List.mapM_cons, List.mapM_cons]
      exact hhead.bindEq fun b => ih.bindEq fun bs => .refl _

theorem mapM {f : α → Except ε γ} {g : α → Except ε γ} {items : List α}
    (h : ∀ a ∈ items, Alike cut either Eq (f a) (g a)) :
    Alike cut either Eq (items.mapM f) (items.mapM g) :=
  mapM_related (List.forall₂_same.mpr h)

theorem symm {x y : Except ε α} (heither : either) (h : Alike cut either Eq x y) :
    Alike cut either Eq y x := by
  cases h with
  | first => exact .second heither _
  | second => exact .first _
  | error e => exact .error e
  | ok h => exact .ok h.symm

/-- Results that are not cut short are related or the same fault. -/
theorem elim {x : Except ε α} {y : Except ε β} (h : Alike cut either R x y)
    (hx : x ≠ .error cut) (hy : either → y ≠ .error cut) :
    (∃ a b, x = .ok a ∧ y = .ok b ∧ R a b) ∨ ∃ e, x = .error e ∧ y = .error e := by
  cases h with
  | first => exact absurd rfl hx
  | second h => exact absurd rfl (hy h)
  | error e => exact Or.inr ⟨e, rfl, rfl⟩
  | ok h => exact Or.inl ⟨_, _, rfl, rfl, h⟩

end Alike

/-- Whatever fault the computation ends with has the property. -/
def FailsBy {ε α : Type} (P : ε → Prop) (x : Except ε α) : Prop := ∀ e, x = .error e → P e

namespace FailsBy

variable {ε α β : Type} {P : ε → Prop} {x : Except ε α}

theorem imp {Q : ε → Prop} (hx : FailsBy P x) (h : ∀ e, P e → Q e) : FailsBy Q x :=
  fun e he => h e (hx e he)

theorem ok (a : α) : FailsBy P (.ok a : Except ε α) := nofun

theorem error {e : ε} (he : P e) : FailsBy P (.error e : Except ε α) := by
  rintro _ ⟨⟩
  exact he

theorem bind {f : α → Except ε β} (hx : FailsBy P x) (hf : ∀ a, x = .ok a → FailsBy P (f a)) :
    FailsBy P (x >>= f) := by
  cases x with
  | error e => exact error (hx e rfl)
  | ok a => exact hf a rfl

theorem map (hx : FailsBy P x) (f : α → β) : FailsBy P (x.map f) := by
  cases x with
  | error e => exact error (hx e rfl)
  | ok a => exact ok (f a)

theorem mapM {f : α → Except ε β} {items : List α} (hf : ∀ a ∈ items, FailsBy P (f a)) :
    FailsBy P (items.mapM f) := by
  induction items with
  | nil => exact ok []
  | cons a rest ih =>
      obtain ⟨hhead, hrest⟩ := List.forall_mem_cons.mp hf
      rw [List.mapM_cons]
      exact hhead.bind fun b _ => (ih hrest).bind fun bs _ => ok _

end FailsBy

/-- The computation does not end with the given fault. -/
def Avoids {ε α : Type} (e : ε) (x : Except ε α) : Prop := x ≠ .error e

namespace Avoids

variable {ε α β : Type} {e : ε} {x : Except ε α}

theorem iff_failsBy : Avoids e x ↔ FailsBy (· ≠ e) x := by
  constructor
  · rintro hx _ h rfl
    exact hx h
  · exact fun hx h => hx e h rfl

theorem ok (a : α) : Avoids e (.ok a : Except ε α) := nofun

theorem error {e' : ε} (hne : e' ≠ e) : Avoids e (.error e' : Except ε α) :=
  iff_failsBy.mpr (.error hne)

theorem bind {f : α → Except ε β} (hx : Avoids e x) (hf : ∀ a, x = .ok a → Avoids e (f a)) :
    Avoids e (x >>= f) :=
  iff_failsBy.mpr ((iff_failsBy.mp hx).bind fun a ha => iff_failsBy.mp (hf a ha))

theorem map (hx : Avoids e x) (f : α → β) : Avoids e (x.map f) :=
  iff_failsBy.mpr ((iff_failsBy.mp hx).map f)

theorem mapM {f : α → Except ε β} {items : List α} (hf : ∀ a ∈ items, Avoids e (f a)) :
    Avoids e (items.mapM f) :=
  iff_failsBy.mpr (.mapM fun a ha => iff_failsBy.mp (hf a ha))

end Avoids

namespace Alike

variable {ε α : Type} {cut : ε} {x : Except ε α} {a : α}

theorem eq_ok_of_avoids (h : Alike cut True Eq x (.ok a)) (havoids : Avoids cut x) :
    x = .ok a := by
  cases h with
  | first => exact absurd rfl havoids
  | ok h =>
      subst h
      rfl

/-- Only the first of the two can be cut short, and if it is not then they are the same. -/
theorem eq_of_avoids {y : Except ε α} (h : Alike cut False Eq x y) (havoids : Avoids cut x) :
    y = x := by
  cases h with
  | first => exact absurd rfl havoids
  | second h => exact h.elim
  | error e => rfl
  | ok h => rw [h]

theorem eq_ok_of_ok (h : Alike cut False Eq (.ok a) x) : x = .ok a := h.eq_of_avoids (.ok a)

/-- Alike computations that both give a result give the same one. -/
theorem eq_of_ok {either : Prop} {y : Except ε α} {b : α} (h : Alike cut either Eq x y)
    (hx : x = .ok a) (hy : y = .ok b) : a = b := by
  rw [hx, hy] at h
  cases h with
  | ok h => exact h

end Alike

end StackScript
