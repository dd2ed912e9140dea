import NovaC.C.Constants
import NovaC.Expressions.Lexing

namespace NovaC.Expressions

open NovaC.C

/-- `Long.parseLong` -/
def parseLong (text : List Char) : Option Int :=
  let digits := if text.head? = some '-' ∨ text.head? = some '+' then text.tail else text
  let magnitude : Int := Nat.ofDigitChars 10 digits 0
  let value := if text.head? = some '-' then -magnitude else magnitude
  if digits ≠ [] ∧ digits.all Char.isDigit = true ∧ -2 ^ 63 ≤ value ∧ value < 2 ^ 63 then some value
  else none

structure LiteralNode where
  value : List Char
  isWithinExternalContext : Bool
  /-- what the writer of the string's instantiation generates -/
  stringInstantiation : Option (List Char)
  /-- `generateNullOutput`, for a null literal -/
  nullOutput : Option (List Char)
  /-- `SyntaxUtils.isInteger(value)` -/
  isInteger : Bool

/-- There is no text when `parseLong` throws. -/
def LiteralNode.generateUseOutput (node : LiteralNode) : Option (List Char) :=
  match (if node.isWithinExternalContext then none else node.stringInstantiation),
      node.nullOutput with
  | some instantiation, _ => some instantiation
  | none, some null => some null
  | none, none =>
      if node.value = "true".toList then some ['1']
      else if node.value = "false".toList then some ['0']
      else if node.isInteger then do
        let l ← parseLong node.value
        if l = -2 ^ 63 then some ('(' :: (longText (l + 1) ++ "LL".toList ++ " - 1)".toList))
        else if isLongLong l then some (node.value ++ "LL".toList)
        else some node.value
      else some node.value

/-- An optional minus sign and digits, for a value that a `long` of Java holds. -/
structure IntegerText where
  negative : Bool
  digits : List Char
  nonempty : digits ≠ []
  areDigits : digits.all Char.isDigit = true
  range : let magnitude : Int := Nat.ofDigitChars 10 digits 0
    if negative then magnitude ≤ 2 ^ 63 else magnitude < 2 ^ 63

namespace IntegerText

variable (source : IntegerText)

def text : List Char :=
  if source.negative then '-' :: source.digits else source.digits

def value : Int :=
  if source.negative then -(Nat.ofDigitChars 10 source.digits 0 : Int)
  else Nat.ofDigitChars 10 source.digits 0

def node (external : Bool) : LiteralNode where
  value := source.text
  isWithinExternalContext := external
  stringInstantiation := none
  nullOutput := none
  isInteger := true

/-- The text that is written is a constant expression of the value, in a type that holds
it. -/
def Kept (platform : Platform) (external : Bool) : Prop :=
  ∃ output type, (source.node external).generateUseOutput = some output ∧
    constantExpression platform output = some (type, source.value) ∧
    type.Holds platform source.value

/-- A leading zero makes no difference: the text is not written, or the number is the same in
octal. -/
def Unambiguous : Prop :=
  source.value = -2 ^ 63 ∨ source.digits.head? ≠ some '0' ∨ source.value.natAbs < 8

theorem digits_cons :
    ∃ first others, source.digits = first :: others ∧ first.isDigit = true := by
  obtain ⟨first, others, split⟩ := List.exists_cons_of_ne_nil source.nonempty
  have areDigits := source.areDigits
  rw [split, List.all_cons, Bool.and_eq_true] at areDigits
  exact ⟨first, others, split, areDigits.1⟩

theorem value_range : -2 ^ 63 ≤ source.value ∧ source.value < 2 ^ 63 := by
  have range := source.range
  rw [value]
  cases negative : source.negative with
  | true =>
      simp only [negative, if_true] at range ⊢
      omega
  | false =>
      simp only [negative, Bool.false_eq_true, if_false] at range ⊢
      omega

theorem parseLong_text : parseLong source.text = some source.value := by
  have whole : source.digits ≠ [] ∧ source.digits.all Char.isDigit = true ∧
      -2 ^ 63 ≤ source.value ∧ source.value < 2 ^ 63 :=
    ⟨source.nonempty, source.areDigits, source.value_range⟩
  rw [text, parseLong]
  rw [value] at whole ⊢
  cases negative : source.negative with
  | true =>
      simp only [negative, if_true, List.head?_cons, true_or, List.tail_cons] at whole ⊢
      rw [if_pos whole]
  | false =>
      obtain ⟨first, others, split, isDigit⟩ := source.digits_cons
      have unsigned : ∀ sign, sign.isDigit = false → source.digits.head? ≠ some sign := by
        intro sign notDigit leads
        rw [split, List.head?_cons, Option.some.injEq] at leads
        rw [leads, notDigit] at isDigit
        cases isDigit
      simp only [negative, Bool.false_eq_true, if_false, unsigned '-' rfl, unsigned '+' rfl,
        or_false] at whole ⊢
      rw [if_pos whole]

theorem text_ne_letters {word : List Char} {letter : Char} {rest : List Char}
    (spelled : word = letter :: rest) (notDigit : letter.isDigit = false) (notMinus : letter ≠ '-') :
    source.text ≠ word := by
  intro same
  rw [text, spelled] at same
  split at same
  · exact notMinus (List.cons.inj same).1.symm
  · obtain ⟨first, others, split, isDigit⟩ := source.digits_cons
    rw [split] at same
    rw [(List.cons.inj same).1, notDigit] at isDigit
    cases isDigit

theorem generateUseOutput_node (external : Bool) :
    (source.node external).generateUseOutput =
      some (if source.value = -2 ^ 63 then literalText source.value
        else source.text ++ suffix source.value) := by
  have notTrue : source.text ≠ "true".toList :=
    source.text_ne_letters rfl (by decide) (by decide)
  have notFalse : source.text ≠ "false".toList :=
    source.text_ne_letters rfl (by decide) (by decide)
  have chosen : (if external then none else (none : Option (List Char))) = none := by
    cases external <;> rfl
  rw [LiteralNode.generateUseOutput, node]
  dsimp only
  rw [chosen]
  dsimp only
  rw [if_neg notTrue, if_neg notFalse, if_pos rfl, source.parseLong_text, Option.bind_eq_bind,
    Option.bind_some]
  split
  · rename_i least
    rw [literalText, if_pos least]
  · rw [suffix]
    split
    · rfl
    · rw [List.append_nil]

/-- The text of a number without needless zeros. -/
def ofLong (value : Long) : IntegerText where
  negative := decide (value.1 < 0)
  digits := Nat.toDigits 10 value.1.natAbs
  nonempty := Nat.toDigits_ne_nil
  areDigits := List.all_eq_true.mpr fun _ member =>
    Nat.isDigit_of_mem_toDigits (by omega) (by omega) member
  range := by
    have range := value.2
    rw [Nat.ofDigitChars_toDigits (by omega) (by omega)]
    by_cases negative : value.1 < 0 <;> simp only [negative, decide_true, decide_false, if_true,
      Bool.false_eq_true, if_false] <;> omega

theorem generateUseOutput_ofLong (value : Long) (external : Bool) :
    ((ofLong value).node external).generateUseOutput = some (literalText value.1) := by
  have digits : Nat.ofDigitChars 10 (Nat.toDigits 10 value.1.natAbs) 0 = value.1.natAbs :=
    Nat.ofDigitChars_toDigits (by omega) (by omega)
  have same : (ofLong value).value = value.1 := by
    rw [IntegerText.value, ofLong, digits]
    by_cases negative : value.1 < 0 <;> simp only [negative, decide_true, decide_false, if_true,
      Bool.false_eq_true, if_false] <;> omega
  have written : (ofLong value).text = longText value.1 := by
    rw [text, ofLong, longText]
    by_cases negative : value.1 < 0 <;> simp [negative]
  rw [generateUseOutput_node, same, written, Option.some.injEq]
  split
  · rfl
  · rename_i notLeast
    rw [literalText, if_neg notLeast]

theorem constantExpression_of_tokens {platform : Platform} {text : List Char}
    {expression : Expression} (cut : tokenise text = some expression.tokens)
    (grouped : expression.Grouped fun _ => false) :
    constantExpression platform text = expression.constantValue platform := by
  have parsed : parse (fun _ => false) expression.tokens = some expression :=
    parse_eq_some.mpr ⟨rfl, grouped⟩
  rw [constantExpression, cut, Option.bind_eq_bind, Option.bind_some, parsed, Option.bind_eq_bind,
    Option.bind_some]

theorem tokenise_constant (longLong : Bool) :
    tokenise (source.digits ++ if longLong then "LL".toList else []) =
      some [.number (source.digits ++ if longLong then "LL".toList else [])] := by
  obtain ⟨first, others, split, isDigit⟩ := source.digits_cons
  have isNumber : IsNumber (source.digits ++ if longLong then "LL".toList else []) := by
    constructor
    · rw [List.all_append, Bool.and_eq_true, List.all_eq_true]
      refine ⟨fun char member => isNumberChar_digit
        (List.all_eq_true.mp source.areDigits char member), ?_⟩
      cases longLong <;> decide
    · rw [split]
      exact ⟨first, _, rfl, isDigit⟩
  have cut := @tokenise_number _ [] isNumber (by simp)
  rwa [List.append_nil] at cut

theorem constantExpression_text (platform : Platform) (longLong : Bool) :
    constantExpression platform (source.text ++ if longLong then "LL".toList else []) =
      (constantOf platform source.digits longLong).bind fun constant =>
        if source.negative then arithmeticResult platform constant.1.promote (-constant.2)
        else some constant := by
  have cut := source.tokenise_constant longLong
  have number := @constant_append platform _ source.areDigits longLong
  rw [text]
  cases source.negative with
  | true =>
      obtain ⟨first, others, split, isDigit⟩ := source.digits_cons
      have notMinus : ¬Punctuator.minus.Extends first :=
        not_extends_nameChar (by rw [isNameChar, isDigit, Bool.or_true])
      have signed : tokenise ('-' :: (source.digits ++ if longLong then "LL".toList else [])) =
          some (Expression.unary .negate
            (.number (source.digits ++ if longLong then "LL".toList else []))).tokens := by
        rw [split, List.cons_append] at cut ⊢
        rw [tokenise_minus notMinus, cut]
        rfl
      have expression := @constantExpression_of_tokens platform _ _ signed
        ⟨Nat.le_add_left 14 2, trivial⟩
      refine expression.trans ?_
      rw [Expression.constantValue, Expression.constantValue, number]
      rfl
  | false =>
      refine (@constantExpression_of_tokens platform _ (.number _) cut trivial).trans ?_
      rw [Expression.constantValue, number]
      cases constantOf platform source.digits longLong <;> rfl

theorem constantExpression_least (platform : Platform) :
    constantExpression platform (literalText (-2 ^ 63)) = some (.longLong, -2 ^ 63) := by
  have cut : tokenise (literalText (-2 ^ 63)) = some (literalExpression (-2 ^ 63)).tokens := by
    decide +kernel
  have spelled : literalExpression (-2 ^ 63) = .parens (.binary .minus
      (.unary .negate (.number "9223372036854775807LL".toList)) (.number ['1'])) := by
    decide +kernel
  rw [spelled] at cut
  have evaluated := @constantExpression_of_tokens platform _ _ cut
    ⟨⟨by decide, Nat.le_add_left 14 2, trivial⟩, by decide, trivial⟩
  have magnitude : (Nat.ofDigitChars 10 "9223372036854775807".toList 0 : Int) = 2 ^ 63 - 1 := by
    decide +kernel
  have greatest : constant platform "9223372036854775807LL".toList =
      some (.longLong, 2 ^ 63 - 1) := by
    have number := @constant_append platform "9223372036854775807".toList (by decide) true
    rw [constantOf_decimal (by decide) (by decide +kernel), magnitude] at number
    exact number
  have one : constant platform ['1'] = some (.int, 1) := by
    have number := @constant_append platform ['1'] (by decide) false
    rw [constantOf_decimal (by decide) (by decide)] at number
    exact number
  have negated : IntType.longLong.Holds platform (-(2 ^ 63 - 1)) := longLong_holds.mpr (by decide)
  have unit : IntType.longLong.Holds platform 1 := longLong_holds.mpr (by decide)
  have least : IntType.longLong.Holds platform (-(2 ^ 63 - 1) - 1) :=
    longLong_holds.mpr (by decide)
  have common : IntType.arithmetic platform .longLong .int = .longLong := rfl
  have first : arithmeticResult platform IntType.longLong.promote (-(2 ^ 63 - 1)) =
      some (.longLong, -(2 ^ 63 - 1)) :=
    arithmeticResult_signed rfl negated
  rw [evaluated]
  simp only [Expression.constantValue, greatest, one, first, common, Option.bind_eq_bind,
    Option.bind_some, IntType.convert_of_holds platform negated,
    IntType.convert_of_holds platform unit]
  exact arithmeticResult_signed rfl least

theorem constantExpression_some {platform : Platform} {longLong : Bool} {type : IntType}
    (zero : source.digits.head? = some '0')
    (evaluated : constantExpression platform (source.text ++ if longLong then "LL".toList else []) =
      some (type, source.value)) : source.value.natAbs < 8 := by
  have areDigits := List.all_eq_true.mp source.areDigits
  rw [source.constantExpression_text] at evaluated
  obtain ⟨⟨constantType, constantValue⟩, read, result⟩ := Option.bind_eq_some_iff.mp evaluated
  obtain ⟨octal, same, promoted⟩ := constantOf_some zero read
  have magnitude : source.value.natAbs = Nat.ofDigitChars 10 source.digits 0 := by
    rw [value]
    split <;> omega
  rw [magnitude]
  rcases Nat.eq_zero_or_pos (Nat.ofDigitChars 10 source.digits 0) with nothing | positive
  · omega
  apply (octal_iff areDigits).mp
  refine ⟨octal, ?_⟩
  rw [value] at result
  dsimp only at result
  split at result
  · rw [arithmeticResult, promoted] at result
    split at result
    · split at result
      · have negated := (Prod.mk.inj (Option.some.inj result)).2
        omega
      · cases result
    · rename_i unsigned
      have wrapped := (Prod.mk.inj (Option.some.inj result)).2
      have lower := (IntType.convert_holds platform constantType (-constantValue))
      rw [IntType.Holds, if_neg unsigned, wrapped] at lower
      omega
  · have plain := (Prod.mk.inj (Option.some.inj result)).2
    omega

theorem natAbs_value : source.value.natAbs = Nat.ofDigitChars 10 source.digits 0 := by
  rw [value]
  split <;> omega

/-- The type that `generateUseOutput` leaves to C, and that it asks for. -/
def type : IntType :=
  if isLongLong source.value then .longLong else .int

theorem isLongLong_iff (value : Int) :
    isLongLong value = true ↔ 2147483647 < value ∨ value ≤ -2147483648 := by
  simp [isLongLong]

theorem type_holds (platform : Platform) (notLeast : source.value ≠ -2 ^ 63) :
    source.type.Holds platform source.value ∧
      source.type.Holds platform (source.value.natAbs : Int) := by
  have range := source.value_range
  have wide := isLongLong_iff source.value
  rw [type]
  split
  · rw [longLong_holds, longLong_holds]
    omega
  · rename_i narrow
    rw [wide] at narrow
    rw [IntType.int_holds, IntType.int_holds]
    omega

theorem constantOf_digits (platform : Platform) (notLeast : source.value ≠ -2 ^ 63)
    (unambiguous : source.Unambiguous) :
    constantOf platform source.digits (isLongLong source.value) =
      some (source.type, (source.value.natAbs : Int)) := by
  have range := source.value_range
  have wide := isLongLong_iff source.value
  have magnitude := source.natAbs_value
  rcases unambiguous with least | noZero | small
  · exact absurd least notLeast
  · have room : Nat.ofDigitChars 10 source.digits 0 <
        if isLongLong source.value then 2 ^ 63 else 2 ^ 31 := by
      rw [← magnitude]
      split
      · omega
      · rename_i narrow
        rw [wide] at narrow
        omega
    rw [constantOf_decimal noZero room, type, magnitude]
  · have narrow : isLongLong source.value = false := by
      rw [← Bool.not_eq_true, wide]
      omega
    rw [type, narrow, magnitude]
    by_cases zero : source.digits.head? = some '0'
    · exact constantOf_octal zero (List.all_eq_true.mp source.areDigits) (by omega)
    · exact constantOf_decimal zero (by simp only [Bool.false_eq_true, if_false]; omega)

theorem kept_of_unambiguous (platform : Platform) (external : Bool)
    (unambiguous : source.Unambiguous) : source.Kept platform external := by
  by_cases least : source.value = -2 ^ 63
  · refine ⟨literalText source.value, .longLong, ?_, ?_, ?_⟩
    · rw [source.generateUseOutput_node, if_pos least]
    · rw [least]
      exact constantExpression_least platform
    · rw [least, longLong_holds]
      omega
  obtain ⟨holds, magnitudeHolds⟩ := source.type_holds platform least
  refine ⟨source.text ++ suffix source.value, source.type, ?_, ?_, holds⟩
  · rw [source.generateUseOutput_node, if_neg least]
  · rw [suffix, source.constantExpression_text, source.constantOf_digits platform least unambiguous,
      Option.bind_some]
    dsimp only
    obtain ⟨promoted, signed⟩ : source.type.promote = source.type ∧ source.type.signed = true := by
      rw [type]
      split <;> exact ⟨rfl, rfl⟩
    have magnitude := source.natAbs_value
    split
    · rename_i negative
      have negated : -(source.value.natAbs : Int) = source.value := by
        rw [magnitude, value, if_pos negative]
      rw [promoted, negated]
      exact arithmeticResult_signed signed holds
    · rename_i positive
      rw [magnitude, value, if_neg positive]

/-- A literal keeps its value exactly when it has no leading zero, or is a single octal digit
behind its zeros, or is the least `long`. -/
theorem literal_kept_iff (platform : Platform) (external : Bool) :
    source.Kept platform external ↔ source.Unambiguous := by
  constructor
  · intro kept
    obtain ⟨output, type, generated, evaluated, -⟩ := kept
    rw [source.generateUseOutput_node, Option.some.injEq] at generated
    by_cases least : source.value = -2 ^ 63
    · exact .inl least
    rw [if_neg least] at generated
    by_cases zero : source.digits.head? = some '0'
    · rw [← generated] at evaluated
      exact .inr (.inr (source.constantExpression_some zero evaluated))
    · exact .inr (.inl zero)
  · exact source.kept_of_unambiguous platform external

end IntegerText

/-- The text `010` -/
def sampleText : IntegerText where
  negative := false
  digits := "010".toList
  nonempty := by decide
  areDigits := by decide
  range := by decide

/-- `010` is eight in C. -/
theorem leading_zero_octal : ¬sampleText.Kept ⟨true, 64, .inr rfl⟩ false := by
  have written : (sampleText.node false).generateUseOutput = some "010".toList := by
    decide +kernel
  have eight : constantExpression ⟨true, 64, .inr rfl⟩ "010".toList = some (.int, 8) := by
    decide +kernel
  have ten : sampleText.value = 10 := by
    decide +kernel
  intro kept
  obtain ⟨output, type, generated, evaluated, -⟩ := kept
  have same : "010".toList = output := Option.some.inj (written.symm.trans generated)
  rw [← same, eight, ten] at evaluated
  have values := (Prod.mk.inj (Option.some.inj evaluated)).2
  omega

end NovaC.Expressions
