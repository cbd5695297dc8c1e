import StackScript.Proofs.Matrix.Product
import StackScript.Proofs.Session.Success

/-! # Matrix algebra on the stack

Lines of products and transpositions obey the laws of matrix algebra. The laws are stated for lines
in which computed matrices and vectors stand among the words. A product of two matrices has the
upper one for its left factor, and one of a matrix and a vector has the lower one.
-/

namespace StackScript

/-! ## Operations on integer matrices -/

/-- An integer matrix as a value. -/
def Value.ofMatrix {m n : Nat} (A : Matrix (Fin m) (Fin n) Int) : Value :=
  .list (Matrix.gridOf (Matrix.tableOf A))

/-- A vector of integers as a value. -/
def Value.ofVector {n : Nat} (v : Fin n → Int) : Value := .list (Matrix.vectorOf v)

namespace Value

variable {m n : Nat}

theorem kind_ofMatrix (A : Matrix (Fin (m + 1)) (Fin n) Int) : (ofMatrix A).kind = .matrix := by
  simp [ofMatrix, kind, isMatrix, Matrix.gridOf, Matrix.tableOf, isList]

theorem kind_ofVector (v : Fin n → Int) : (ofVector v).kind = .array := by
  cases n with
  | zero => simp [ofVector, kind, isMatrix, Matrix.vectorOf]
  | succ n => simp [ofVector, kind, isMatrix, Matrix.vectorOf, List.ofFn_succ, ofInt, isList]

theorem asList_ofMatrix (A : Matrix (Fin (m + 1)) (Fin n) Int) (depth : Nat) (op : Operator) :
    (ofMatrix A).asList depth op .matrix = .ok (Matrix.gridOf (Matrix.tableOf A)) := by
  rw [asList, isA_eq, kind_ofMatrix]
  rfl

theorem asList_ofVector (v : Fin n → Int) (depth : Nat) (op : Operator) :
    (ofVector v).asList depth op .array = .ok (Matrix.vectorOf v) := by
  rw [asList, isA_eq, kind_ofVector]
  rfl

end Value

namespace Operation

open Value

variable {m k n : Nat} (depth : Nat)

/-- The upper one of two matrices is the left factor. -/
theorem multiply_ofMatrix (B : Matrix (Fin (k + 1)) (Fin n) Int)
    (A : Matrix (Fin (m + 1)) (Fin (k + 1)) Int) :
    multiply depth (ofMatrix B) (ofMatrix A) = .ok (ofMatrix (A * B)) := by
  simp only [multiply, isA_eq, kind_ofMatrix, asList_ofMatrix]
  exact Matrix.mul_gridOf depth A B

/-- A matrix is the left factor of a vector above it. -/
theorem multiply_ofVector (A : Matrix (Fin (m + 1)) (Fin n) Int) (v : Fin n → Int) :
    multiply depth (ofMatrix A) (ofVector v) = .ok (ofVector (A.mulVec v)) := by
  simp only [multiply, isA_eq, kind_ofMatrix, kind_ofVector, asList_ofMatrix, asList_ofVector]
  exact Matrix.mulVector_gridOf depth A v

theorem transposed_ofMatrix (A : Matrix (Fin (m + 1)) (Fin n) Int) :
    transposed depth (ofMatrix A) = .ok (ofMatrix A.transpose) := by
  simp only [transposed, isA_eq, kind_ofMatrix]
  exact Matrix.transpose_gridOf depth A

end Operation

/-! ## Lines in which values stand -/

/-- A word of a line, or a computed value that stands in the place of one. -/
inductive Item where
  | word (token : Text)
  | value (v : Value)

namespace Item

/-- An operator in a line. -/
def operator (op : Operator) : Item := .word op.name.toList

def product : Item := operator (.arithmetic .multiply)

def transposition : Item := operator .transpose

/-- An integer matrix in a line. -/
def matrix {m n : Nat} (A : Matrix (Fin m) (Fin n) Int) : Item := .value (.ofMatrix A)

/-- A vector of integers in a line. -/
def vector {n : Nat} (v : Fin n → Int) : Item := .value (.ofVector v)

end Item

namespace Session

open Evaluation

/-- Runs the words of a line in which computed values stand as well. A value is put on the stack. -/
def runItems (session : Session) : List Item → Session × Except Fault (List Step)
  | [] => (session, .ok [])
  | .value v :: rest => { session with stack := v :: session.stack }.runItems rest
  | .word token :: rest =>
      match session.step token with
      | .error fault => (session, .error fault)
      | .ok (session, step) =>
          let (session, steps) := session.runItems rest
          (session, steps.map (step :: ·))

theorem runItems_word_eq_ok {session middle after : Session} {token : Text} {rest : List Item}
    {result : Step} {steps : List Step} (hstep : session.step token = .ok (middle, result))
    (hrest : middle.runItems rest = (after, .ok steps)) :
    session.runItems (.word token :: rest) = (after, .ok (result :: steps)) := by
  rw [runItems, hstep]
  simp only [hrest]
  rfl

/-- Without values in it a line runs as its words do. -/
theorem runItems_word (session : Session) (tokens : List Text) :
    session.runItems (tokens.map .word) = session.runWords tokens := by
  induction tokens generalizing session with
  | nil => rfl
  | cons token rest ih =>
      rw [List.map_cons, runItems, runWords]
      cases session.step token with
      | error fault => rfl
      | ok reached => simp only [ih]

/-- On any session with stack `s` the line leaves the stack `s'`. All its words succeed, and nothing
is skipped. -/
def Leaves (items : List Item) (s s' : Stack) : Prop :=
  ∀ session : Session, session.stack = s → ∃ after steps,
    session.runItems items = (after, .ok steps) ∧ (∀ step ∈ steps, step.fault = none) ∧
      after.stack = s' ∧ after.skipped = session.skipped

variable {items : List Item} {s s' middle : Stack}

theorem leaves_nil (s : Stack) : Leaves [] s s := fun session hstack =>
  ⟨session, [], rfl, List.forall_mem_nil _, hstack, rfl⟩

theorem leaves_value {v : Value} (h : Leaves items (v :: s) s') :
    Leaves (.value v :: items) s s' := by
  rintro session rfl
  exact h { session with stack := v :: session.stack } rfl

theorem step_operator {session : Session} {op : Operator}
    (happly : op.apply session.limit session.stack = ⟨middle, none⟩) :
    session.step op.name.toList =
      .ok (session.advance { stack := middle }, ⟨op.name.toList, session.lineCount, none⟩) := by
  have hrun := runText_name op session.limit (runNested session.lineCount session.limit)
    session.stack
  rw [happly] at hrun
  obtain ⟨count, hcount⟩ := Operator.reach_of_apply (congrArg Applied.fault happly)
  have hattempt := attempt_of_reaches ((reach_name op session.limit session.stack).trans hcount)
    (hrun ▸ Outcome.Reaches.of_stack middle)
  rw [← attemptWord_of_isProper (isProper_of_isExecutable (isExecutable_name op)), hrun] at hattempt
  exact step_eq_ok.mpr ⟨_, hattempt, rfl, rfl⟩

theorem leaves_operator {op : Operator} (happly : ∀ depth, op.apply depth s = ⟨middle, none⟩)
    (h : Leaves items middle s') : Leaves (.operator op :: items) s s' := by
  rintro session rfl
  obtain ⟨after, steps, hrest, hsteps, hstack, hskipped⟩ :=
    h (session.advance { stack := middle }) rfl
  refine ⟨after, _, runItems_word_eq_ok (step_operator (happly _)) hrest, ?_, hstack, ?_⟩
  · exact List.forall_mem_cons.mpr ⟨rfl, hsteps⟩
  · rw [hskipped, skipped_advance, List.filterMap_nil, List.append_nil]

/-! ## Products and transpositions -/

theorem leaves_binary {op : Operator} {f : Nat → Value → Value → Except Fault Value}
    {a b result : Value} (hop : ∀ depth s, op.apply depth s = Operator.binary op (f depth) s)
    (hf : ∀ depth, f depth b a = .ok result) (h : Leaves items (result :: s) s') :
    Leaves (.operator op :: items) (a :: b :: s) s' := by
  refine leaves_operator (fun depth => ?_) h
  rw [hop, Operator.binary_cons, hf]
  rfl

theorem leaves_unary {op : Operator} {f : Nat → Value → Except Fault Value} {a result : Value}
    (hop : ∀ depth s, op.apply depth s = Operator.unary op (f depth) s)
    (hf : ∀ depth, f depth a = .ok result) (h : Leaves items (result :: s) s') :
    Leaves (.operator op :: items) (a :: s) s' := by
  refine leaves_operator (fun depth => ?_) h
  rw [hop, Operator.unary_cons, hf]
  rfl

section Algebra

variable {k l m n : Nat}

theorem leaves_product {B : Matrix (Fin (k + 1)) (Fin n) Int}
    {A : Matrix (Fin (m + 1)) (Fin (k + 1)) Int} (h : Leaves items (.ofMatrix (A * B) :: s) s') :
    Leaves (.product :: items) (.ofMatrix A :: .ofMatrix B :: s) s' :=
  leaves_binary (fun _ _ => rfl) (fun depth => Operation.multiply_ofMatrix depth B A) h

theorem leaves_product_vector {A : Matrix (Fin (m + 1)) (Fin n) Int} {v : Fin n → Int}
    (h : Leaves items (.ofVector (A.mulVec v) :: s) s') :
    Leaves (.product :: items) (.ofVector v :: .ofMatrix A :: s) s' :=
  leaves_binary (fun _ _ => rfl) (fun depth => Operation.multiply_ofVector depth A v) h

theorem leaves_transposition {A : Matrix (Fin (m + 1)) (Fin n) Int}
    (h : Leaves items (.ofMatrix A.transpose :: s) s') :
    Leaves (.transposition :: items) (.ofMatrix A :: s) s' :=
  leaves_unary (fun _ _ => rfl) (fun depth => Operation.transposed_ofMatrix depth A) h

/-- A transposed product is the product of the transposed factors in the other order, and products
are associative, with vectors too. -/
theorem matrix_lines_agree (s : Stack) (X : Matrix (Fin (l + 1)) (Fin (n + 1)) Int)
    (Y : Matrix (Fin (k + 1)) (Fin (l + 1)) Int) (Z : Matrix (Fin (m + 1)) (Fin (k + 1)) Int)
    (v : Fin (n + 1) → Int) :
    (Leaves [.matrix X, .matrix Y, .product, .transposition] s
        (.ofMatrix (Y * X).transpose :: s) ∧
      Leaves [.matrix Y, .transposition, .matrix X, .transposition, .product] s
        (.ofMatrix (Y * X).transpose :: s)) ∧
    (Leaves [.matrix X, .matrix Y, .product, .matrix Z, .product] s
        (.ofMatrix (Z * Y * X) :: s) ∧
      Leaves [.matrix X, .matrix Y, .matrix Z, .product, .product] s
        (.ofMatrix (Z * Y * X) :: s)) ∧
    (Leaves [.matrix Y, .matrix X, .vector v, .product, .product] s
        (.ofVector ((Y * X).mulVec v) :: s) ∧
      Leaves [.matrix X, .matrix Y, .product, .vector v, .product] s
        (.ofVector ((Y * X).mulVec v) :: s)) := by
  refine ⟨⟨?_, ?_⟩, ⟨?_, ?_⟩, ?_, ?_⟩
  · exact leaves_value (leaves_value (leaves_product (leaves_transposition (leaves_nil _))))
  · rw [Matrix.transpose_mul]
    refine leaves_value (leaves_transposition (leaves_value (leaves_transposition ?_)))
    exact leaves_product (leaves_nil _)
  · rw [Matrix.mul_assoc]
    refine leaves_value (leaves_value (leaves_product (leaves_value ?_)))
    exact leaves_product (leaves_nil _)
  · refine leaves_value (leaves_value (leaves_value (leaves_product ?_)))
    exact leaves_product (leaves_nil _)
  · rw [← Matrix.mulVec_mulVec]
    refine leaves_value (leaves_value (leaves_value (leaves_product_vector ?_)))
    exact leaves_product_vector (leaves_nil _)
  · refine leaves_value (leaves_value (leaves_product (leaves_value ?_)))
    exact leaves_product_vector (leaves_nil _)

end Algebra

end Session

end StackScript
