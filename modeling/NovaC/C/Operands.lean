import NovaC.C.Parsing

namespace NovaC.C

variable {isType : List Char → Bool}

/-- Stands for `sizeof(type)` in an expression; no number is spelled like this. -/
def sizeOperand : Expression :=
  .number "sizeof".toList

def parseSize (isType : List Char → Bool) : List Token → Option (TypeName × Expression)
  | .name keyword :: .punctuator .leftParen :: rest =>
      if keyword = "sizeof".toList then do
        let (type, rest) ← typeName isType rest
        let (count, rest) ← parseLoop isType (2 * rest.length + 1) 2 sizeOperand rest
        if rest = [] then some (type, count) else none
      else none
  | _ => none

def product (first : Expression) (factors : List Expression) : Expression :=
  factors.foldl (.binary .times) first

def factorTokens (factors : List Expression) : List Token :=
  factors.flatMap fun factor => .punctuator .star :: factor.tokens

theorem product_tokens (first : Expression) (factors : List Expression) :
    (product first factors).tokens = first.tokens ++ factorTokens factors := by
  induction factors generalizing first with
  | nil => exact (List.append_nil _).symm
  | cons factor factors ih =>
      rw [product, List.foldl_cons, ← product, ih, Expression.tokens, List.append_assoc]
      rfl

theorem product_grouped {first : Expression} (level : 13 ≤ first.level)
    (factors : List Expression) :
    (product first factors).Grouped isType ↔
      first.Grouped isType ∧ ∀ factor ∈ factors, 14 ≤ factor.level ∧ factor.Grouped isType := by
  induction factors generalizing first with
  | nil => simp [product]
  | cons factor factors ih =>
      have step : (Expression.binary .times first factor).Grouped isType ↔
          first.Grouped isType ∧ 14 ≤ factor.level ∧ factor.Grouped isType :=
        and_congr_left' (and_iff_right level)
      have behind : 13 ≤ (Expression.binary .times first factor).level := Nat.le_refl 13
      rw [product, List.foldl_cons, ← product, ih behind, step, List.forall_mem_cons, and_assoc]

theorem parseLoop_product {factors : List Expression}
    (grouped : ∀ factor ∈ factors, 14 ≤ factor.level ∧ factor.Grouped isType)
    {first : Expression} (level : 13 ≤ first.level) {fuel : Nat}
    (enough : 2 * (factorTokens factors).length < fuel) :
    parseLoop isType fuel 2 first (factorTokens factors) = some (product first factors, []) := by
  induction factors generalizing first fuel with
  | nil =>
      obtain ⟨left, rfl⟩ : ∃ left, fuel = left + 1 := ⟨fuel - 1, by omega⟩
      exact parseLoop_stops left first trivial
  | cons factor factors ih =>
      obtain ⟨⟨factorLevel, factorGrouped⟩, others⟩ := List.forall_mem_cons.mp grouped
      have tokens : factorTokens (factor :: factors) =
          .punctuator BinaryOp.times.mark :: (factor.tokens ++ factorTokens factors) := rfl
      rw [tokens, List.length_cons, List.length_append] at enough
      obtain ⟨left, rfl⟩ : ∃ left, fuel = left + 1 := ⟨fuel - 1, by omega⟩
      have ends : Ends (factorTokens factors) ∧ Below 14 (factorTokens factors) := by
        cases factors with
        | nil => exact ⟨trivial, trivial⟩
        | cons next factors =>
            refine ⟨ends_mark (by decide) _, ?_⟩
            intro op isOperator
            have isTimes : some BinaryOp.times = some op := isOperator
            rw [← Option.some.inj isTimes]
            decide
      have read := (completes factorGrouped).whole left _ factorLevel ends.1 ends.2 (by omega)
      have behind : 13 ≤ (Expression.binary .times first factor).level := Nat.le_refl 13
      have further := @ih others _ behind left (by omega)
      rw [tokens, parseLoop, BinaryOp.ofMark_mark]
      dsimp only
      rw [if_pos ⟨by decide, level⟩, show BinaryOp.times.right = 14 from rfl, read,
        Option.bind_eq_bind, Option.bind_some, further]
      rfl

theorem parseSize_eq_some {type : TypeName} {factors : List Expression} {tokens : List Token}
    (nonempty : type.words ≠ []) (areTypes : ∀ word ∈ type.words, isType word = true) :
    parseSize isType (.name "sizeof".toList :: .punctuator .leftParen ::
        (type.tokens ++ .punctuator .rightParen :: tokens)) =
        some (type, product sizeOperand factors) ↔
      tokens = factorTokens factors ∧
        ∀ factor ∈ factors, 14 ≤ factor.level ∧ factor.Grouped isType := by
  rw [parseSize, if_pos rfl, typeName_tokens nonempty areTypes, Option.bind_eq_bind,
    Option.bind_some]
  dsimp only
  have level : 13 ≤ sizeOperand.level := by decide
  have leaf : sizeOperand.Grouped isType := trivial
  have grouped := @product_grouped isType sizeOperand level factors
  rw [and_iff_right leaf] at grouped
  constructor
  · intro parsed
    obtain ⟨⟨count, rest⟩, looped, whole⟩ := Option.bind_eq_some_iff.mp parsed
    dsimp only at whole
    split at whole
    · rename_i empty
      cases whole
      have reads := (sound _).loop leaf (by decide) looped
      have same := reads.tokens_eq
      rw [empty, List.append_nil, product_tokens, List.append_cancel_left_eq] at same
      exact ⟨same, grouped.mp reads.grouped⟩
    · cases whole
  · intro both
    obtain ⟨rfl, tight⟩ := both
    rw [parseLoop_product tight level (Nat.lt_succ_self _)]
    rfl

/-! `for` -/

def parseUpTo (isType : List Char → Bool) (mark : Punctuator) (tokens : List Token) :
    Option (Expression × List Token) := do
  let (expression, rest) ← parseBinary isType (2 * tokens.length) 2 tokens
  let rest ← expect mark rest
  return (expression, rest)

structure ForHeader where
  start : Expression
  condition : Expression
  step : Expression
deriving DecidableEq, Repr

def parseFor (isType : List Char → Bool) : List Token → Option ForHeader
  | .name keyword :: .punctuator .leftParen :: rest =>
      if keyword = "for".toList then do
        let (start, rest) ← parseUpTo isType .semicolon rest
        let (condition, rest) ← parseUpTo isType .semicolon rest
        let (step, rest) ← parseUpTo isType .rightParen rest
        if rest = [] then some ⟨start, condition, step⟩ else none
      else none
  | _ => none

theorem parseUpTo_eq_some {mark : Punctuator} (notOperator : BinaryOp.ofMark mark = none)
    (closes : mark ∉ [.increment, .decrement, .leftParen]) {tokens rest : List Token}
    {expression : Expression} :
    parseUpTo isType mark tokens = some (expression, rest) ↔
      tokens = expression.tokens ++ .punctuator mark :: rest ∧ expression.Grouped isType := by
  rw [parseUpTo, Option.bind_eq_bind]
  constructor
  · intro parsed
    obtain ⟨⟨found, others⟩, read, closed⟩ := Option.bind_eq_some_iff.mp parsed
    obtain ⟨behind, expected, same⟩ := Option.bind_eq_some_iff.mp closed
    cases same
    have reads := (sound _).binary (by decide) read
    exact ⟨by rw [reads.tokens_eq, expect_eq_some.mp expected], reads.grouped⟩
  · intro both
    obtain ⟨rfl, grouped⟩ := both
    have read := (completes grouped).whole (2 * (expression.tokens ++ .punctuator mark :: rest).length)
      (.punctuator mark :: rest) expression.level_le_rightBound.1 (ends_mark closes rest)
      (below_mark notOperator rest) (by rw [List.length_append]; omega)
    rw [read, Option.bind_some]
    simp [expect]

/-- What stands behind the first parenthesis. -/
def ForHeader.clauses (header : ForHeader) : List Token :=
  header.start.tokens ++ .punctuator .semicolon ::
    (header.condition.tokens ++ .punctuator .semicolon ::
      (header.step.tokens ++ [.punctuator .rightParen]))

theorem parseFor_eq_some {header : ForHeader} {tokens : List Token} :
    parseFor isType (.name "for".toList :: .punctuator .leftParen :: tokens) = some header ↔
      tokens = header.clauses ∧ header.start.Grouped isType ∧ header.condition.Grouped isType ∧
        header.step.Grouped isType := by
  have semicolon := @parseUpTo_eq_some isType .semicolon rfl (by decide)
  have rightParen := @parseUpTo_eq_some isType .rightParen rfl (by decide)
  rw [parseFor, if_pos rfl]
  constructor
  · intro parsed
    simp only [Option.bind_eq_bind, Option.bind_eq_some_iff] at parsed
    obtain ⟨⟨start, afterStart⟩, started, ⟨condition, afterCondition⟩, conditioned,
      ⟨step, afterStep⟩, stepped, whole⟩ := parsed
    dsimp only at conditioned stepped whole
    obtain ⟨startTokens, startGrouped⟩ := semicolon.mp started
    obtain ⟨conditionTokens, conditionGrouped⟩ := semicolon.mp conditioned
    obtain ⟨stepTokens, stepGrouped⟩ := rightParen.mp stepped
    split at whole
    · rename_i empty
      cases whole
      refine ⟨?_, startGrouped, conditionGrouped, stepGrouped⟩
      rw [startTokens, conditionTokens, stepTokens, empty, ForHeader.clauses]
    · cases whole
  · intro both
    obtain ⟨rfl, start, condition, step⟩ := both
    rw [ForHeader.clauses, semicolon.mpr ⟨rfl, start⟩, Option.bind_eq_bind, Option.bind_some]
    dsimp only
    rw [semicolon.mpr ⟨rfl, condition⟩, Option.bind_some]
    dsimp only
    rw [rightParen.mpr ⟨rfl, step⟩]
    rfl

/-! Values -/

/-- What the parts of an expression mean, whatever their types are. -/
structure Meaning (V : Type) where
  name : List Char → V
  number : List Char → V
  call : List Char → V → V → V
  unary : UnaryOp → V → V
  postfixed : StepOp → V → V
  cast : TypeName → V → V
  binary : BinaryOp → V → V → V

def Expression.value {V : Type} (meaning : Meaning V) : Expression → V
  | name spelling => meaning.name spelling
  | number spelling => meaning.number spelling
  | parens inner => inner.value meaning
  | call function first second =>
      meaning.call function (first.value meaning) (second.value meaning)
  | unary op operand => meaning.unary op (operand.value meaning)
  | postfixed op operand => meaning.postfixed op (operand.value meaning)
  | cast type operand => meaning.cast type (operand.value meaning)
  | binary op left right => meaning.binary op (left.value meaning) (right.value meaning)

theorem product_value {V : Type} [Monoid V] {meaning : Meaning V}
    (times : ∀ left right, meaning.binary .times left right = left * right) (first : Expression)
    (factors : List Expression) :
    (product first factors).value meaning =
      first.value meaning * (factors.map (Expression.value meaning)).prod := by
  induction factors generalizing first with
  | nil => simp [product]
  | cons factor factors ih =>
      rw [product, List.foldl_cons, ← product, ih, Expression.value, times, List.map_cons,
        List.prod_cons, mul_assoc]

end NovaC.C
