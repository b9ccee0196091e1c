import KernelTuner.Fingerprint
import KernelTuner.Proofs.Expression.Unfolding
import Mathlib.Data.List.Basic

/-!
Contract: the tokens of fingerprints and their unique readability.

Owns: tokens as data with their texts, and `spelled_injective`: a run of tokens
is determined by its text, although no separator stands between two of them and the
texts overlap. `sc` is an operator in front of a letter and begins a buffer in front
of a digit, and `mc` likewise; every token begins with a letter, so one look ahead
decides.
-/

set_option autoImplicit false

namespace KernelTuner

namespace Extent

/-- What a fingerprint tells of an extent. -/
inductive Kind where
  | scalar | vector | matrix
deriving DecidableEq, Repr

def Kind.code : Kind → Char
  | scalar => 's'
  | vector => 'v'
  | matrix => 'm'

def kind : Extent → Kind
  | .scalar => .scalar
  | .vector _ => .vector
  | .matrix _ _ => .matrix

theorem kindCode_eq (extent : Extent) : extent.kindCode = extent.kind.code := by
  cases extent <;> rfl

theorem kind_eq_iff_rank_eq {left right : Extent} :
    left.kind = right.kind ↔ left.rank = right.rank := by
  cases left <;> cases right <;> simp [kind, rank, dims]

theorem Kind.code_injective {left right : Kind} (same : left.code = right.code) :
    left = right := by
  cases left <;> cases right <;> first | rfl | exact absurd same (by decide)

end Extent

/-- Part of a fingerprint that stands for one item. -/
inductive Token where
  | operator (operator : Operator)
  | scalar (elementType : ElementType)
  | buffer (kind : Extent.Kind) (elementType : ElementType) (number : Nat)
deriving DecidableEq, Repr

namespace Token

def text : Token → String
  | operator found => found.token
  | scalar elementType => String.ofList ['h', elementType.code]
  | buffer kind elementType number =>
      String.ofList [kind.code, elementType.code] ++ toString number

/-- The two letters that a token begins with. -/
def head : Token → Char × Char
  | operator found => (found.token.toList.getD 0 ' ', found.token.toList.getD 1 ' ')
  | scalar elementType => ('h', elementType.code)
  | buffer kind elementType _ => (kind.code, elementType.code)

/-- The digits behind the two letters. -/
def digits : Token → List Char
  | buffer _ _ number => Nat.toDigits 10 number
  | _ => []

theorem text_toList (token : Token) :
    token.text.toList = token.head.1 :: token.head.2 :: token.digits := by
  cases token with
  | operator found => cases found <;> rfl
  | scalar elementType => simp [text, head, digits]
  | buffer kind elementType number =>
      simp [text, head, digits]

theorem head_not_digit (token : Token) : token.head.1.isDigit = false := by
  cases token with
  | operator found => cases found <;> decide
  | scalar elementType => rfl
  | buffer kind elementType number => cases kind <;> rfl

theorem digits_all (token : Token) : ∀ character ∈ token.digits, character.isDigit = true := by
  cases token with
  | operator found => simp [digits]
  | scalar elementType => simp [digits]
  | buffer kind elementType number =>
      intro character member
      exact Nat.isDigit_of_mem_toDigits (by decide) (by decide) member

/-- Without digits the two letters tell operators and host scalars apart. -/
theorem operator_head_ne_scalar (found : Operator) (elementType : ElementType) :
    (operator found).head ≠ (scalar elementType).head := by
  cases found <;> simp [head, Operator.token]

theorem operator_head_injective {left right : Operator}
    (same : (operator left).head = (operator right).head) : left = right := by
  refine Operator.token_injective (String.ext ?_)
  have leftText := text_toList (operator left)
  have rightText := text_toList (operator right)
  simp only [text, digits] at leftText rightText
  rw [leftText, rightText, same]

theorem toDigits_injective {left right : Nat}
    (same : Nat.toDigits 10 left = Nat.toDigits 10 right) : left = right := by
  rw [← Nat.ofDigitChars_ten_toDigits (n := left), same, Nat.ofDigitChars_ten_toDigits]

/-- A token is determined by its letters and its digits. -/
theorem eq_of_head_of_digits {left right : Token} (sameHead : left.head = right.head)
    (sameDigits : left.digits = right.digits) : left = right := by
  cases left with
  | operator leftOperator =>
      cases right with
      | operator rightOperator => rw [operator_head_injective sameHead]
      | scalar _ => exact absurd sameHead (operator_head_ne_scalar _ _)
      | buffer _ _ _ => exact absurd sameDigits.symm Nat.toDigits_ne_nil
  | scalar leftType =>
      cases right with
      | operator _ => exact absurd sameHead.symm (operator_head_ne_scalar _ _)
      | scalar rightType => rw [ElementType.code_injective (congrArg Prod.snd sameHead)]
      | buffer _ _ _ => exact absurd sameDigits.symm Nat.toDigits_ne_nil
  | buffer leftKind leftType leftNumber =>
      cases right with
      | operator _ => exact absurd sameDigits Nat.toDigits_ne_nil
      | scalar _ => exact absurd sameDigits Nat.toDigits_ne_nil
      | buffer rightKind rightType rightNumber =>
          rw [Extent.Kind.code_injective (congrArg Prod.fst sameHead),
            ElementType.code_injective (congrArg Prod.snd sameHead),
            toDigits_injective sameDigits]

/-- The text of tokens one after another. -/
def spelled (tokens : List Token) : List Char := tokens.flatMap (fun token => token.text.toList)

@[simp] theorem spelled_nil : spelled [] = [] := rfl

@[simp] theorem spelled_cons (token : Token) (rest : List Token) :
    spelled (token :: rest) =
      token.head.1 :: token.head.2 :: (token.digits ++ spelled rest) := by
  simp [spelled, text_toList]

/-- No run of tokens begins with a digit, so the digits of a token end where the
next token begins. -/
theorem takeWhile_digits_append (token : Token) (rest : List Token) :
    (token.digits ++ spelled rest).takeWhile Char.isDigit = token.digits := by
  rw [List.takeWhile_append_of_pos (digits_all token)]
  cases rest with
  | nil => simp
  | cons next rest => simp [head_not_digit]

/-- The mark that tells a fallback program from its primary one stands in no token. -/
theorem underscore_not_mem_spelled (tokens : List Token) : '_' ∉ spelled tokens := by
  have typeLetter (elementType : ElementType) : '_' ≠ elementType.code := by
    cases elementType <;> decide
  have kindLetter (kind : Extent.Kind) : '_' ≠ kind.code := by cases kind <;> decide
  have letters (token : Token) : '_' ≠ token.head.1 ∧ '_' ≠ token.head.2 := by
    cases token with
    | operator found => cases found <;> decide
    | scalar elementType =>
        have hostLetter : '_' ≠ 'h' := by decide
        exact ⟨hostLetter, typeLetter elementType⟩
    | buffer kind elementType number => exact ⟨kindLetter kind, typeLetter elementType⟩
  have digits (token : Token) : '_' ∉ token.digits :=
    fun member => absurd (digits_all token '_' member) (by decide)
  induction tokens with
  | nil => exact List.not_mem_nil
  | cons token rest inductionHypothesis =>
      rw [spelled_cons, List.mem_cons, List.mem_cons, List.mem_append]
      rintro (first | second | number | later)
      · exact (letters token).1 first
      · exact (letters token).2 second
      · exact digits token number
      · exact inductionHypothesis later

/-- Tokens can be read back from their text. -/
theorem spelled_injective {left right : List Token} (same : spelled left = spelled right) :
    left = right := by
  induction left generalizing right with
  | nil =>
      cases right with
      | nil => rfl
      | cons token rest => simp at same
  | cons leftToken leftRest inductionHypothesis =>
      cases right with
      | nil => simp at same
      | cons rightToken rightRest =>
          rw [spelled_cons, spelled_cons] at same
          obtain ⟨sameFirst, sameSecond, sameTail⟩ : leftToken.head.1 = rightToken.head.1 ∧
              leftToken.head.2 = rightToken.head.2 ∧
              leftToken.digits ++ spelled leftRest = rightToken.digits ++ spelled rightRest := by
            simpa using same
          have sameDigits : leftToken.digits = rightToken.digits := by
            rw [← takeWhile_digits_append leftToken leftRest, sameTail, takeWhile_digits_append]
          rw [sameDigits] at sameTail
          rw [eq_of_head_of_digits (Prod.ext sameFirst sameSecond) sameDigits,
            inductionHypothesis (List.append_cancel_left sameTail)]

end Token

end KernelTuner
