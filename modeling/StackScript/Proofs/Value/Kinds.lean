import Mathlib.Tactic.Common
import StackScript.Value.Classify

/-! # The kinds exclude one another

A text has at most one of the forms besides that of a literal. The first code point already
tells them apart, except for operators, which are finitely many, and for arrays and matrices,
which differ in the second one.
-/

namespace StackScript

/-! ## Operator names -/

namespace Operator

@[simp]
theorem ofName?_name (op : Operator) : ofName? op.name.toList = some op := by
  cases op with
  | arithmetic operation => cases operation <;> decide
  | compare relation => cases relation <;> decide
  | _ => decide

theorem ofName?_eq_some {t : Text} {op : Operator} : ofName? t = some op ↔ t = op.name.toList := by
  constructor
  · intro hfind
    have hname := List.find?_some hfind
    exact (beq_iff_eq.mp hname).symm
  · rintro rfl
    exact ofName?_name op

end Operator

theorem isOperatorName_iff {t : Text} :
    isOperatorName t = true ↔ (∃ op : Operator, t = op.name.toList) ∨ t = evalWord := by
  simp [isOperatorName, Option.isSome_iff_exists, Operator.ofName?_eq_some]

/-! ## First code points -/

namespace Text

/-- The kind that the first code point of a text allows, if the text is no operator. It does
not tell arrays from matrices. -/
def genus (c : Char) : Kind :=
  if c == '"' then .string
  else if c == '[' then .array
  else if c == '{' then .lambda
  else if c.isDigit || c == '+' || c == '-' || c == '.' then .number
  else .boolean

/-- The kind up to the difference between arrays and matrices. -/
def genusOf : Kind → Kind
  | .matrix => .array
  | k => k

theorem ne_of_isDigit {c d : Char} (hc : c.isDigit = true) (hd : d.isDigit = false) : c ≠ d := by
  rintro rfl
  rw [hd] at hc
  cases hc

theorem genus_of_isDigit {c : Char} (hdigit : c.isDigit = true) : genus c = .number := by
  have hne (d : Char) (hd : d.isDigit = false) : (c == d) = false :=
    beq_false_of_ne (ne_of_isDigit hdigit hd)
  simp [genus, hdigit, hne '"' (by decide), hne '[' (by decide), hne '{' (by decide)]

theorem dropFinalLineFeed_prefix (t : Text) : dropFinalLineFeed t <+: t := by
  unfold dropFinalLineFeed
  split
  · exact List.dropLast_prefix t
  · exact List.prefix_refl t

theorem dropFinalLineFeed_of_getLast?_ne {t : Text} (hlast : t.getLast? ≠ some '\n') :
    dropFinalLineFeed t = t := by
  rw [dropFinalLineFeed, if_neg]
  rwa [beq_iff_eq]

/-- A line feed that is dropped at the end is not the first code point of what remains. -/
theorem eq_cons_of_dropFinalLineFeed {t rest : Text} {c : Char}
    (hdrop : dropFinalLineFeed t = c :: rest) : ∃ rest', t = c :: rest' := by
  obtain ⟨tail, htail⟩ := hdrop ▸ dropFinalLineFeed_prefix t
  exact ⟨rest ++ tail, htail.symm⟩

theorem genus_of_isNumeral {t : Text} (hform : Number.isNumeral t = true) :
    ∃ c rest, t = c :: rest ∧ genus c = .number := by
  unfold Number.isNumeral at hform
  cases hdrop : dropFinalLineFeed t with
  | nil =>
      rw [hdrop] at hform
      cases hform
  | cons c rest =>
      obtain ⟨rest', rfl⟩ := eq_cons_of_dropFinalLineFeed hdrop
      refine ⟨c, rest', rfl, ?_⟩
      by_cases hdigit : c.isDigit = true
      · exact genus_of_isDigit hdigit
      · rw [hdrop] at hform
        by_cases hminus : c = '-'
        · subst hminus
          rfl
        by_cases hplus : c = '+'
        · subst hplus
          rfl
        by_cases hpoint : c = '.'
        · subst hpoint
          rfl
        simp [Numeral.splitSign, hminus, hplus, Numeral.readLayout?, Numeral.spanDigits, hdigit,
          hpoint] at hform

theorem genus_of_isStringLiteral {t : Text} (hform : isStringLiteral t = true) :
    ∃ c rest, t = c :: rest ∧ genus c = .string := by
  unfold isStringLiteral at hform
  split at hform
  next rest hdrop =>
    obtain ⟨rest', rfl⟩ := eq_cons_of_dropFinalLineFeed hdrop
    exact ⟨'"', rest', rfl, rfl⟩
  next => cases hform

theorem toLower_of_isDigit {c : Char} (hdigit : c.isDigit = true) : c.toLower = c := by
  rw [Char.isDigit_iff_toNat] at hdigit
  have hnot : ¬ (c.val ≥ 'A'.val ∧ c.val ≤ 'Z'.val) := by
    intro h
    have hval : 'A'.toNat ≤ c.toNat := UInt32.le_iff_toNat_le.mp h.1
    have hlast : '9'.toNat < 'A'.toNat := by decide
    omega
  exact dif_neg hnot

/-- Only letters have the lower case of a letter. -/
theorem genus_of_lower {c d : Char} (hd : d = 't' ∨ d = 'f')
    (hlower : (if c == '\u212a' then 'k' else c.toLower) = d) : genus c = .boolean := by
  have hne (e : Char) (he : (if e == '\u212a' then 'k' else e.toLower) ≠ 't' ∧
      (if e == '\u212a' then 'k' else e.toLower) ≠ 'f') : (c == e) = false := by
    rw [beq_eq_false_iff_ne]
    rintro rfl
    rcases hd with rfl | rfl
    · exact he.1 hlower
    · exact he.2 hlower
  have hdigit : c.isDigit = false := by
    rw [Bool.eq_false_iff]
    intro hdigit
    rw [toLower_of_isDigit hdigit] at hlower
    -- the sign for kelvin is lowered apart from the others
    have hkelvin : (c == '\u212a') = false := by
      rw [beq_eq_false_iff_ne]
      rintro rfl
      exact absurd hdigit (by decide)
    rw [hkelvin] at hlower
    simp only [Bool.false_eq_true, if_false] at hlower
    subst hlower
    rcases hd with rfl | rfl <;> exact absurd hdigit (by decide)
  simp [genus, hdigit, hne '"' (by decide), hne '[' (by decide), hne '{' (by decide),
    hne '+' (by decide), hne '-' (by decide), hne '.' (by decide)]

theorem genus_of_isBooleanLiteral {t : Text} (hform : isBooleanLiteral t = true) :
    ∃ c rest, t = c :: rest ∧ genus c = .boolean := by
  have hwords : lower t = ['t', 'r', 'u', 'e'] ∨ lower t = ['f', 'a', 'l', 's', 'e'] := by
    simpa [isBooleanLiteral] using hform
  cases t with
  | nil => simp [lower] at hwords
  | cons c rest =>
      refine ⟨c, rest, rfl, ?_⟩
      rcases hwords with h | h
      · exact genus_of_lower (Or.inl rfl) (List.cons.inj h).1
      · exact genus_of_lower (Or.inr rfl) (List.cons.inj h).1

theorem genus_of_isDelimited {first last : Char} {t : Text}
    (hform : isDelimited first last t = true) : ∃ rest, t = first :: rest := by
  simp only [isDelimited, Bool.and_eq_true, beq_iff_eq] at hform
  cases t with
  | nil => simp at hform
  | cons c rest =>
      obtain ⟨hfirst, _⟩ := hform
      exact ⟨rest, by simpa using hfirst⟩

/-- The first code point of a text that is no operator allows only the forms of one genus. -/
theorem genus_of_hasForm {t : Text} {k : Kind} (hform : t.hasForm k = true)
    (hoperator : k ≠ .operator) (hliteral : k ≠ .literal) :
    ∃ c rest, t = c :: rest ∧ genus c = genusOf k := by
  have hbracket (first last : Char) (h : isDelimited first last t = true) :
      ∃ c rest, t = c :: rest ∧ genus c = genus first := by
    obtain ⟨rest, rfl⟩ := genus_of_isDelimited h
    exact ⟨first, rest, rfl, rfl⟩
  cases k with
  | operator => exact absurd rfl hoperator
  | number => exact genus_of_isNumeral hform
  | string => exact genus_of_isStringLiteral hform
  | boolean => exact genus_of_isBooleanLiteral hform
  | array =>
      simp only [hasForm, isArrayLiteral, Bool.and_eq_true] at hform
      exact hbracket '[' ']' hform.1
  | matrix =>
      simp only [hasForm, isMatrixLiteral, Bool.and_eq_true] at hform
      have hopens := hform.1
      unfold opensTwice at hopens
      split at hopens
      next rest => exact ⟨'[', _, rfl, rfl⟩
      next => cases hopens
  | lambda => exact hbracket '{' '}' hform
  | literal => exact absurd rfl hliteral

/-! ## Forms and kinds -/

theorem hasForm_name (op : Operator) {k : Kind} (hform : Text.hasForm op.name.toList k = true) :
    k = .operator ∨ k = .literal := by
  cases op with
  | arithmetic operation => cases operation <;> revert hform <;> cases k <;> decide
  | compare relation => cases relation <;> revert hform <;> cases k <;> decide
  | _ => revert hform; cases k <;> decide

theorem hasForm_evalWord {k : Kind} (hform : Text.hasForm evalWord k = true) :
    k = .operator ∨ k = .literal := by
  revert hform
  cases k <;> decide

/-- A text has at most one form besides that of a literal. -/
theorem hasForm_unique {t : Text} {k k' : Kind} (hform : t.hasForm k = true)
    (hform' : t.hasForm k' = true) (hliteral : k ≠ .literal) (hliteral' : k' ≠ .literal) :
    k = k' := by
  have hoperator {j j' : Kind} (hj : t.hasForm j = true) (hj' : t.hasForm j' = true)
      (hjoperator : j = .operator) (hliteral : j' ≠ .literal) : j = j' := by
    subst hjoperator
    have honly : j' = .operator ∨ j' = .literal := by
      rcases isOperatorName_iff.mp hj with ⟨op, rfl⟩ | rfl
      · exact hasForm_name op hj'
      · exact hasForm_evalWord hj'
    exact (honly.resolve_right hliteral).symm
  by_cases hk : k = .operator
  · exact hoperator hform hform' hk hliteral'
  by_cases hk' : k' = .operator
  · exact (hoperator hform' hform hk' hliteral).symm
  -- all other forms show in the first code point
  obtain ⟨c, rest, rfl, hgenus⟩ := genus_of_hasForm hform hk hliteral
  obtain ⟨_, _, hsame, hgenus'⟩ := genus_of_hasForm hform' hk' hliteral'
  cases hsame
  rw [hgenus] at hgenus'
  -- arrays and matrices begin alike: the second bracket decides
  have htwice (h : hasForm (c :: rest) .array = true) (h' : hasForm (c :: rest) .matrix = true) :
      False := by
    simp only [hasForm, isArrayLiteral, isMatrixLiteral, Bool.and_eq_true,
      Bool.not_eq_true'] at h h'
    rw [h.2] at h'
    exact Bool.false_ne_true h'.1
  cases k <;> cases k' <;> first | rfl | cases hgenus'
  · exact absurd hform' fun h => htwice hform h
  · exact absurd hform fun h => htwice hform' h

/-- The kind of a text is the only one whose form it has, besides that of a literal. -/
theorem hasForm_iff {t : Text} {k : Kind} (hliteral : k ≠ .literal) :
    t.hasForm k = true ↔ Text.kind t = k := by
  constructor
  · intro hform
    -- knowing all forms of the text, the search for its kind can be carried out
    have hforms : t.hasForm = fun k' => decide (k' = k ∨ k' = .literal) := by
      funext k'
      by_cases hk' : k' = .literal
      · subst hk'
        simp [hasForm]
      · cases h : t.hasForm k' with
        | false =>
            have hne : k' ≠ k := by
              rintro rfl
              rw [h] at hform
              cases hform
            simp [hne, hk']
        | true => simp [hasForm_unique h hform hk' hliteral]
    rw [Text.kind, hforms]
    cases k <;> rfl
  · intro hkind
    unfold Text.kind at hkind
    cases hfind : Kind.all.find? t.hasForm with
    | none =>
        rw [hfind] at hkind
        exact absurd hkind.symm hliteral
    | some found =>
        rw [hfind] at hkind
        cases hkind
        exact List.find?_some hfind

theorem kind_of_hasForm {t : Text} {k : Kind} (hform : t.hasForm k = true)
    (hliteral : k ≠ .literal) : Text.kind t = k := (hasForm_iff hliteral).mp hform

end Text

/-- Looking at the form for a single kind agrees with classification. -/
theorem Value.isA_eq (v : Value) (k : Kind) : v.isA k = (v.kind == k) := by
  cases v with
  | text t =>
      by_cases hliteral : k = .literal
      · subst hliteral
        rfl
      · have hform : Value.isA (.text t) k = t.hasForm k := by
          cases k <;> first | rfl | exact absurd rfl hliteral
        rw [hform, Bool.eq_iff_iff, Text.hasForm_iff hliteral, beq_iff_eq]
        rfl
  | _ => rfl

/-! ## The order in which the forms are tried -/

/-- The kinds that show in the form of a text, in the order in which it is tried for them. -/
def Kind.formal : List Kind := Kind.all.filter (· ≠ .literal)

theorem Kind.mem_formal {k : Kind} : k ∈ Kind.formal ↔ k ≠ .literal := by
  cases k <;> decide

/-- A text may be tried for the forms in any order. -/
theorem Text.find?_hasForm {order : List Kind} (horder : ∀ k, k ∈ order ↔ k ≠ .literal)
    (t : Text) : (order.find? t.hasForm).getD .literal = t.kind := by
  cases hfind : order.find? t.hasForm with
  | some k =>
      have hliteral : k ≠ .literal := (horder k).mp (List.mem_of_find?_eq_some hfind)
      exact (kind_of_hasForm (List.find?_some hfind) hliteral).symm
  | none =>
      -- a kind of its own would have been found
      by_contra hne
      have hliteral : t.kind ≠ .literal := fun h => hne h.symm
      have hform : t.hasForm t.kind = true := (hasForm_iff hliteral).mpr rfl
      exact List.find?_eq_none.mp hfind t.kind ((horder t.kind).mpr hliteral) hform

/-- The kinds are disjoint: a value is of the kind that it is classified as and of no other, a text
has at most one of the forms, and the order in which it is tried for them is of no account. -/
theorem kinds_disjoint :
    (∀ (v : Value) (k : Kind), v.isA k = true ↔ v.kind = k) ∧
    (∀ (t : Text), ∀ k ∈ Kind.formal, ∀ k' ∈ Kind.formal,
      t.hasForm k = true → t.hasForm k' = true → k = k') ∧
    (∀ (t : Text) (order : List Kind), order.Perm Kind.formal →
      (order.find? t.hasForm).getD .literal = t.kind) := by
  refine ⟨fun v k => ?_, fun t k hk k' hk' hform hform' => ?_, fun t order hperm => ?_⟩
  · rw [Value.isA_eq, beq_iff_eq]
  · exact Text.hasForm_unique hform hform' (Kind.mem_formal.mp hk) (Kind.mem_formal.mp hk')
  · exact Text.find?_hasForm (fun k => hperm.mem_iff.trans Kind.mem_formal) t

/-- A string before a final line feed, tried for the forms from the last to the first. -/
theorem kinds_disjoint_reversed : Kind.formal.reverse.Perm Kind.formal ∧
    (Kind.formal.reverse.find? (Text.hasForm "\"1\"\n".toList)).getD .literal = .string := by
  have hperm : Kind.formal.reverse.Perm Kind.formal := List.reverse_perm Kind.formal
  have hkind : Text.kind "\"1\"\n".toList = .string := by decide
  exact ⟨hperm, (kinds_disjoint.2.2 _ _ hperm).trans hkind⟩

end StackScript
