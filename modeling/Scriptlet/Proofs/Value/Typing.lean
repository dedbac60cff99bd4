import Scriptlet.Pipeline

/-!
# Types of Computed Values

The typing rules speak of types and the operators compute on values, and
neither looks at the other. Here they meet: an operator that the rules accept
for the types of its operands gives a value of the type that the rules say, or
it fails for an arithmetical reason. A division by zero, an integer out of
range and an integer too large for a double are the only such reasons.

## Main definitions

* `Yields`: A computation that gives a value of a type or fails in arithmetic.

## Theorems

* `Value.yields_arith`, `Value.yields_sign`, `Value.yields_compare`: Operators
  yield what the rules say.
-/

namespace Scriptlet

/-- A computation gives a value of a type, or fails for an arithmetical
    reason. -/
def Yields (ty : Ty) : Except RuntimeError Value → Prop
  | .ok value => value.ty = ty
  | .error e => e.kind = .arithmetic

/-- A sequence yields what its second part yields for every value that the
    first may give. -/
theorem yields_bind {first second : Ty} {x : Except RuntimeError Value}
    {f : Value → Except RuntimeError Value} (hx : Yields first x)
    (hf : ∀ value, value.ty = first → Yields second (f value)) : Yields second (x >>= f) := by
  cases x with
  | ok value => exact hf value hx
  | error e => exact hx

namespace Value

theorem yields_exactInt (n : Int) (line : Nat) : Yields .int (exactInt n line) := by
  unfold exactInt
  cases narrow? n with
  | none => rfl
  | some narrowed => rfl

theorem yields_realArith (op : ArithOp) (a b : Float) (line : Nat) :
    Yields .float (realArith op a b line) := by
  cases op with
  | add => rfl
  | sub => rfl
  | mul => rfl
  | div =>
      rw [realArith]
      split
      · rfl
      · rfl

theorem isNumeric_eq (value : Value) : value.isNumeric = value.ty.isNumeric := by
  cases value with
  | int n => rfl
  | real x => rfl
  | str content => rfl
  | bool flag => rfl

/-- A number is a double, or it is an integer that none holds. -/
theorem asReal_of_numeric {value : Value} (h : value.ty.isNumeric = true) (line : Nat) :
    (∃ x, value.asReal line = .ok x) ∨ value.asReal line = .error (.precisionLoss line) := by
  cases value with
  | int n =>
      rw [asReal]
      cases exactReal? n with
      | none => exact Or.inr rfl
      | some x => exact Or.inl ⟨x, rfl⟩
  | real x => exact Or.inl ⟨x, rfl⟩
  | str content => cases h
  | bool flag => cases h

/-- What the rules say about arithmetic: two numbers, and a double unless both
    are integers that are not divided. -/
theorem arith?_eq_some {op : ArithOp} {left right ty : Ty}
    (h : Ty.arith? op left right = some ty) :
    left.isNumeric = true ∧ right.isNumeric = true ∧
      ty = if op = .div ∨ left = .float ∨ right = .float then .float else .int := by
  unfold Ty.arith? at h
  split at h
  · rename_i hboth
    rw [Bool.and_eq_true] at hboth
    exact ⟨hboth.1, hboth.2, (Option.some.inj h).symm⟩
  · cases h

/-- Two integers that are not divided are computed with exactly, everything
    else as doubles. -/
theorem arith_cases (op : ArithOp) (left right : Value) (line : Nat) :
    (left.ty = .int ∧ right.ty = .int ∧ op ≠ .div ∧
        ∃ n, arith op left right line = exactInt n line) ∨
      (¬ (left.ty = .int ∧ right.ty = .int ∧ op ≠ .div) ∧
        arith op left right line = do
          let a ← left.asReal line
          let b ← right.asReal line
          realArith op a b line) := by
  unfold arith
  split
  · exact Or.inl ⟨rfl, rfl, by decide, _, rfl⟩
  · exact Or.inl ⟨rfl, rfl, by decide, _, rfl⟩
  · exact Or.inl ⟨rfl, rfl, by decide, _, rfl⟩
  -- None of the three exact cases applied.
  · rename_i hadd hsub hmul
    refine Or.inr ⟨?_, rfl⟩
    rintro ⟨hleft, hright, hop⟩
    cases left <;> cases hleft
    cases right <;> cases hright
    cases op with
    | add => exact hadd _ _ rfl rfl rfl
    | sub => exact hsub _ _ rfl rfl rfl
    | mul => exact hmul _ _ rfl rfl rfl
    | div => exact hop rfl

theorem ty_of_numeric {ty : Ty} (h : ty.isNumeric = true) : ty = .int ∨ ty = .float := by
  cases ty with
  | int => exact Or.inl rfl
  | float => exact Or.inr rfl
  | str => cases h
  | bool => cases h

/-- Arithmetic on accepted operands yields what the rules say. -/
theorem yields_arith {op : ArithOp} {left right : Value} {ty : Ty} (line : Nat)
    (h : Ty.arith? op left.ty right.ty = some ty) : Yields ty (arith op left right line) := by
  rcases arith?_eq_some h with ⟨hleft, hright, hty⟩
  rcases arith_cases op left right line with ⟨hl, hr, hop, n, hint⟩ | ⟨hnot, hreal⟩
  -- Two integers that are not divided: the rules say the same.
  · have hexact : ¬ (op = .div ∨ left.ty = .float ∨ right.ty = .float) := by
      rw [hl, hr]
      simp only [hop, reduceCtorEq, or_false, not_false_eq_true]
    rw [hty, if_neg hexact, hint]
    exact yields_exactInt n line
  -- In all other cases the rules say that the result is a double.
  · have hmixed : op = .div ∨ left.ty = .float ∨ right.ty = .float := by
      by_cases hop : op = .div
      · exact Or.inl hop
      · rcases ty_of_numeric hleft with hl | hl
        · rcases ty_of_numeric hright with hr | hr
          · exact absurd ⟨hl, hr, hop⟩ hnot
          · exact Or.inr (Or.inr hr)
        · exact Or.inr (Or.inl hl)
    rw [hty, if_pos hmixed, hreal]
    rcases asReal_of_numeric hleft line with ⟨a, ha⟩ | ha
    · rcases asReal_of_numeric hright line with ⟨b, hb⟩ | hb
      · rw [ha, hb]
        exact yields_realArith op a b line
      · rw [ha, hb]
        rfl
    · rw [ha]
      rfl

/-- A sign before a number yields a number of the same type. -/
theorem yields_sign (sign : Sign) {operand : Value} (line : Nat)
    (h : operand.ty.isNumeric = true) : Yields operand.ty (Value.sign sign operand line) := by
  match sign, operand with
  | .plus, .int n => rfl
  | .plus, .real x => rfl
  | .negate, .int n => exact yields_exactInt _ line
  | .negate, .real x => rfl
  | _, .str _ => cases h
  | _, .bool _ => cases h

/-- Accepted operands can be compared, unless one is an integer that no double
    holds. -/
theorem ordering_of_comparable {left right : Value} (line : Nat)
    (h : left.ty.comparable right.ty = true) :
    (∃ found, ordering left right line = .ok found) ∨
      ordering left right line = .error (.precisionLoss line) := by
  unfold ordering
  split
  · exact Or.inl ⟨_, rfl⟩
  · exact Or.inl ⟨_, rfl⟩
  · rename_i _ hbool
    -- Two truth values were compared above, so these are numbers.
    have hnumeric : left.ty.isNumeric = true ∧ right.ty.isNumeric = true := by
      rw [Ty.comparable, Bool.or_eq_true, Bool.and_eq_true, Bool.and_eq_true, beq_iff_eq,
        beq_iff_eq] at h
      rcases h with h | ⟨hl, hr⟩
      · exact h
      · cases left <;> cases hl
        cases right <;> cases hr
        exact absurd rfl (hbool _ _ rfl)
    rw [isNumeric_eq, isNumeric_eq, hnumeric.1, hnumeric.2]
    rcases asReal_of_numeric hnumeric.1 line with ⟨a, ha⟩ | ha
    · rcases asReal_of_numeric hnumeric.2 line with ⟨b, hb⟩ | hb
      · rw [ha, hb]
        exact Or.inl ⟨_, rfl⟩
      · rw [ha, hb]
        exact Or.inr rfl
    · rw [ha]
      exact Or.inr rfl

/-- Comparison of accepted operands yields a truth value. -/
theorem yields_compare (order : Order) {left right : Value} (line : Nat)
    (h : left.ty.comparable right.ty = true) : Yields .bool (compare order left right line) := by
  unfold compare
  rcases ordering_of_comparable line h with ⟨found, hfound⟩ | hloss
  · rw [hfound]
    rfl
  · rw [hloss]
    rfl

end Value

end Scriptlet
