import StackScript.Proofs.Simulation.Alike
import StackScript.Value.Coerce

/-! # Values at another depth

How a value is shown, written, read and converted depends on the depth only in whether it is
cut short. With more depth it never is where it was not with less.
-/

namespace StackScript

variable {either : Prop} {d e : Nat}

/-! ## Messages -/

namespace Value

theorem inspect_alike (h : either ∨ d ≤ e) (v : Value) :
    Alike .tooDeep either Eq (v.inspect d) (v.inspect e) := by
  induction d generalizing e v with
  | zero => cases v <;> simp only [inspect] <;> first | exact .first _ | exact .refl _
  | succ d ih =>
      cases e with
      | zero =>
          have heither : either := h.resolve_right (by omega)
          cases v <;> simp only [inspect] <;> first | exact .second heither _ | exact .refl _
      | succ e =>
          have hless : either ∨ d ≤ e := h.imp_right Nat.le_of_succ_le_succ
          cases v with
          | list items =>
              simp only [inspect]
              exact (Alike.mapM fun v _ => ih hless v).bindEq fun shown => .refl _
          | object fields =>
              simp only [inspect]
              refine (Alike.mapM fun field _ => ?_).bindEq fun shown => .refl _
              exact (ih hless field.2).bindEq fun shown => .refl _
          | _ => exact .refl _

end Value

/-! ## Matrix texts -/

namespace Json

/-- Two ways to read that are alike on every text. -/
def ReadersAlike {α : Type} (either : Prop) (r r' : Reader α) : Prop :=
  ∀ t, Alike Failure.tooDeep either Eq (r t) (r' t)

variable {r r' : Reader Value}

theorem elements_alike (h : ReadersAlike either r r') (bound : Nat) :
    ReadersAlike either (elements r bound) (elements r' bound) := by
  induction bound with
  | zero => exact fun t => .refl _
  | succ bound ih =>
      intro t
      simp only [elements]
      apply (h t).bindEq
      intro first
      split
      · exact .refl _
      · exact (ih _).bindEq fun more => .refl _
      · exact .refl _

theorem field_alike (h : ReadersAlike either r r') : ReadersAlike either (field r) (field r') := by
  intro t
  unfold field
  split
  · refine Alike.bindEq (.refl _) fun (name, rest) => ?_
    simp only
    split
    · exact (h _).bindEq fun v => .refl _
    · exact .refl _
  · exact .refl _

theorem fields_alike (h : ReadersAlike either r r') (bound : Nat) :
    ReadersAlike either (fields r bound) (fields r' bound) := by
  induction bound with
  | zero => exact fun t => .refl _
  | succ bound ih =>
      intro t
      simp only [fields]
      apply (field_alike h t).bindEq
      intro first
      split
      · exact .refl _
      · exact (ih _).bindEq fun more => .refl _
      · exact .refl _

theorem container_alike (h : ReadersAlike either r r') (opener : Char) :
    ReadersAlike either (container r opener) (container r' opener) := by
  intro t
  simp only [container]
  split
  · split
    · exact .refl _
    · exact (elements_alike h _ _).map _
  · split
    · exact .refl _
    · exact (fields_alike h _ _).map _

theorem value_alike (h : either ∨ d ≤ e) : ReadersAlike either (value d) (value e) := by
  induction d generalizing e with
  | zero =>
      intro t
      cases t with
      | nil => exact .of_eq (by simp [value])
      | cons c rest =>
          cases e <;>
          · simp only [value]
            split
            · exact .first _
            · exact .refl _
  | succ d ih =>
      intro t
      cases t with
      | nil => exact .of_eq (by simp [value])
      | cons c rest =>
          cases e with
          | zero =>
              have heither : either := h.resolve_right (by omega)
              simp only [value]
              split
              · exact .second heither _
              · exact .refl _
          | succ e =>
              simp only [value]
              split
              · exact container_alike (ih (h.imp_right Nat.le_of_succ_le_succ)) c rest
              · exact .refl _

theorem readList?_alike (h : either ∨ d ≤ e) (t : Text) :
    Alike .tooDeep either Eq (readList? d t) (readList? e t) := by
  have hread : Alike .tooDeep either Eq (read d t) (read e t) := by
    exact (value_alike h _).bindEq fun _ => .refl _
  unfold readList?
  generalize read d t = x at hread ⊢
  generalize read e t = y at hread ⊢
  apply hread.handle
  rfl

end Json

/-! ## Array texts -/

namespace ArrayText

theorem element_alike {array array' : Text → Except Fault (List Value)}
    (h : ∀ t, Alike .tooDeep either Eq (array t) (array' t)) (part : Text) :
    Alike .tooDeep either Eq (element array part) (element array' part) := by
  simp only [element]
  split
  · exact .refl _
  · split
    · exact .refl _
    · split
      · exact (h _).bindEq fun items => .refl _
      · exact .refl _

theorem read_alike (h : either ∨ d ≤ e) (t : Text) :
    Alike .tooDeep either Eq (read d t) (read e t) := by
  induction d using Nat.strongRecOn generalizing e t with
  | ind d ih =>
    match d, e with
    | 0, _ | 1, _ | 2, _ => exact .first _
    | d + 3, 0 | d + 3, 1 | d + 3, 2 =>
        have heither : either := h.resolve_right (by omega)
        exact .second heither _
    | d + 3, e + 3 =>
        simp only [read]
        split
        · exact .refl _
        · refine Alike.mapM fun part _ => element_alike (fun t => ?_) part
          exact ih d (by omega) (h.imp_right (by omega)) t

end ArrayText

/-! ## Written forms -/

namespace Value

theorem renderItems_alike {item item' : Value → Except Fault Text}
    (h : ∀ v, Alike .tooDeep either Eq (item v) (item' v)) (items : List Value) :
    Alike .tooDeep either Eq (renderItems item items) (renderItems item' items) :=
  (Alike.mapM fun v _ => h v).bindEq fun _ => .refl _

theorem renderText_alike (hdepth : either ∨ d ≤ e) {item item' : Value → Except Fault Text}
    (h : ∀ v, Alike .tooDeep either Eq (item v) (item' v)) (t : Text) :
    Alike .tooDeep either Eq (renderText d item t) (renderText e item' t) := by
  simp only [renderText]
  split
  · exact .refl _
  split
  · exact .refl _
  split
  · exact .refl _
  split
  · exact (ArrayText.read_alike hdepth t).bindEq fun items => renderItems_alike h items
  split
  · apply (Json.readList?_alike hdepth t).bindEq
    intro found
    split
    · exact renderItems_alike h _
    · exact .refl _
  · exact .refl _

theorem render_alike (h : either ∨ d ≤ e) (v : Value) :
    Alike .tooDeep either Eq (v.render d) (v.render e) := by
  induction d using Nat.strongRecOn generalizing e v with
  | ind d ih =>
    match d, e with
    | 0, _ | 1, _ =>
        cases v <;> simp only [render] <;> first | exact .first _ | exact .refl _
    | d + 2, 0 | d + 2, 1 =>
        have heither : either := h.resolve_right (by omega)
        cases v <;> simp only [render] <;> first | exact .second heither _ | exact .refl _
    | d + 2, e + 2 =>
        -- items and what stands for them in messages have two calls less
        have hless : either ∨ d ≤ e := h.imp_right (by omega)
        have hitem (v : Value) : Alike .tooDeep either Eq (v.render d) (v.render e) :=
          ih d (by omega) hless v
        have hinspect := inspect_alike hless v
        cases v with
        | bool b => exact .of_eq (by simp only [render])
        | number n => exact .of_eq (by simp only [render])
        | list items =>
            simp only [render]
            exact renderItems_alike hitem items
        | text t =>
            simp only [render]
            exact renderText_alike hless hitem t
        | null =>
            simp only [render]
            exact hinspect.map _
        | object fields =>
            simp only [render]
            exact hinspect.map _

theorem textOf_alike (h : either ∨ d ≤ e) (v : Value) :
    Alike .tooDeep either Eq (v.textOf d) (v.textOf e) := by
  cases v <;> simp only [textOf] <;> first | exact .refl _ | exact render_alike h _

/-! ## Conversions -/

theorem convert_alike (h : either ∨ d ≤ e) (k : Kind) (v : Value) :
    Alike .tooDeep either Eq (v.convert d k) (v.convert e k) := by
  unfold convert
  split
  · apply (Json.readList?_alike h _).bindEq
    intro found
    split <;> exact .refl _
  · exact .refl _
  · exact .refl _
  · exact (ArrayText.read_alike h _).bindEq fun items => .refl _
  · exact .refl _
  · exact (textOf_alike h _).bindEq fun t => .refl _
  · exact .refl _

theorem coerce_alike (h : either ∨ d ≤ e) (v : Value) (k : Kind) :
    Alike .tooDeep either Eq (v.coerce d k) (v.coerce e k) := by
  have hconvert := convert_alike h k v
  unfold coerce
  generalize v.convert d k = x at hconvert ⊢
  generalize v.convert e k = y at hconvert ⊢
  apply hconvert.handle
  rfl

theorem toBool_alike (h : either ∨ d ≤ e) (v : Value) :
    Alike .tooDeep either Eq (v.toBool d) (v.toBool e) :=
  (coerce_alike h v .boolean).bindEq fun _ => .refl _

theorem toInt_alike (h : either ∨ d ≤ e) (v : Value) :
    Alike .tooDeep either Eq (v.toInt d) (v.toInt e) := by
  unfold toInt
  split
  · exact .refl _
  · exact .refl _
  · exact .refl _
  · exact (textOf_alike h _).bindEq fun t => .refl _

end Value

end StackScript
