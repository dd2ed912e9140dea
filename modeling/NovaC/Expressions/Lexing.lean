import NovaC.Expressions.Writer

namespace NovaC.Expressions

open NovaC.C

/-! The tokens of an expression's text.

They are those of the expression the text stands for, unless a unary operator is
written directly in front of another one that C reads together with it.
-/

variable {names : TypeNames}

/-- Nothing that a name or a number could go on with. -/
def Delimits (rest : List Char) : Prop :=
  ∀ next, rest.head? = some next → isNameChar next = false ∧ next ≠ '.'

theorem delimits_nil : Delimits [] := by
  simp [Delimits]

theorem delimits_cons {next : Char} (notName : isNameChar next = false) (notDot : next ≠ '.')
    (rest : List Char) : Delimits (next :: rest) := by
  rintro _ ⟨⟩
  exact ⟨notName, notDot⟩

theorem map_append_eq_some {first rest : List Token} {found : Option (List Token)} :
    found.map (first ++ ·) = some (first ++ rest) ↔ found = some rest := by
  simp [Option.map_eq_some_iff]

theorem not_extends_of_longest {mark : Punctuator}
    (longest : ∀ longer ∈ Punctuator.all, mark.text <+: longer.text →
      longer.text.length ≤ mark.text.length) (next : Char) : ¬mark.Extends next := by
  rintro ⟨longer, member, further⟩
  have bound := longest longer member ((List.prefix_append _ _).trans further)
  have longerLength := further.length_le
  rw [List.length_append, List.length_singleton] at longerLength
  omega

theorem not_extends_nameChar {mark : Punctuator} {next : Char} (isName : isNameChar next = true) :
    ¬mark.Extends next := by
  rintro ⟨longer, member, further⟩
  have noNames : Punctuator.all.all (fun longer => longer.text.all (!isNameChar ·)) = true := by
    decide
  have inside : next ∈ longer.text := further.subset (by simp)
  have notName := List.all_eq_true.mp (List.all_eq_true.mp noNames longer member) next inside
  rw [isName] at notName
  exact Bool.noConfusion notName

/-- A mark that no longer one starts with. -/
theorem tokenise_longest (mark : Punctuator)
    (longest : ∀ longer ∈ Punctuator.all, mark.text <+: longer.text →
      longer.text.length ≤ mark.text.length) (notDot : mark ≠ .dot) (rest : List Char) :
    tokenise (mark.text ++ rest) = (tokenise rest).map (Token.punctuator mark :: ·) :=
  tokenise_punctuator mark (fun next _ => not_extends_of_longest longest next) notDot

theorem tokenise_leftParen (rest : List Char) :
    tokenise ('(' :: rest) = (tokenise rest).map (Token.punctuator .leftParen :: ·) :=
  tokenise_longest .leftParen (by decide) (by decide) rest

theorem tokenise_rightParen (rest : List Char) :
    tokenise (')' :: rest) = (tokenise rest).map (Token.punctuator .rightParen :: ·) :=
  tokenise_longest .rightParen (by decide) (by decide) rest

theorem tokenise_comma (rest : List Char) :
    tokenise (',' :: rest) = (tokenise rest).map (Token.punctuator .comma :: ·) :=
  tokenise_longest .comma (by decide) (by decide) rest

theorem tokenise_semicolon (rest : List Char) :
    tokenise (';' :: rest) = (tokenise rest).map (Token.punctuator .semicolon :: ·) :=
  tokenise_longest .semicolon (by decide) (by decide) rest

/-! Casts -/

theorem tokenise_stars (stars : Nat) (rest : List Char) :
    tokenise (List.replicate stars '*' ++ ')' :: rest) =
      (tokenise (')' :: rest)).map (List.replicate stars (.punctuator .star) ++ ·) := by
  induction stars with
  | zero => simp
  | succ stars ih =>
      have first : tokenise (Punctuator.star.text ++ (List.replicate stars '*' ++ ')' :: rest)) =
          (tokenise (List.replicate stars '*' ++ ')' :: rest)).map (.punctuator .star :: ·) := by
        refine tokenise_punctuator .star ?_ (by decide)
        cases stars <;> (rintro next ⟨⟩; decide)
      rw [List.replicate_succ, List.cons_append]
      refine first.trans ?_
      rw [ih, Option.map_map]
      rfl

theorem tokenise_words {words : List (List Char)} (nonempty : words ≠ [])
    (areNames : ∀ word ∈ words, IsName word) (rest : List Char) (delimits : Delimits rest) :
    tokenise ([' '].intercalate words ++ rest) =
      (tokenise rest).map (words.map Token.name ++ ·) := by
  induction words with
  | nil => exact absurd rfl nonempty
  | cons word words ih =>
      obtain ⟨isName, others⟩ := List.forall_mem_cons.mp areNames
      cases words with
      | nil =>
          rw [List.intercalate_singleton]
          exact tokenise_name isName fun next isNext => (delimits next isNext).1
      | cons second words =>
          rw [List.intercalate_cons_cons, List.append_assoc, List.append_assoc,
            tokenise_name isName (by rintro next ⟨⟩; decide), List.singleton_append,
            tokenise_space, ih (List.cons_ne_nil _ _) others, Option.map_map]
          rfl

theorem tokenise_castText (casts : List (CType names)) (rest : List Char) :
    tokenise (castText casts ++ rest) =
      (tokenise rest).map ((casts.flatMap fun type =>
        .punctuator .leftParen :: (type.toTypeName.tokens ++ [.punctuator .rightParen])) ++ ·) := by
  induction casts with
  | nil => simp [castText]
  | cons type casts ih =>
      have words := tokenise_words type.nonempty (fun word member => (type.areTypes word member).1)
        (List.replicate type.stars '*' ++ ')' :: (castText casts ++ rest))
        (by cases type.stars <;> exact delimits_cons rfl (by decide) _)
      rw [castText, List.flatMap_cons, ← castText]
      simp only [typeText, List.cons_append, List.append_assoc, List.nil_append]
      rw [tokenise_leftParen, words, tokenise_stars, tokenise_rightParen, ih]
      simp only [Option.map_map, TypeName.tokens, List.flatMap_cons, List.append_assoc,
        List.cons_append, List.nil_append]
      rfl

theorem castExpression_tokens (casts : List (CType names)) (operand : Expression) :
    (castExpression casts operand).tokens =
      (casts.flatMap fun type =>
        .punctuator .leftParen :: (type.toTypeName.tokens ++ [.punctuator .rightParen])) ++
      operand.tokens := by
  induction casts with
  | nil => rfl
  | cons type casts ih =>
      rw [castExpression, List.foldr_cons, ← castExpression, Expression.tokens, ih]
      simp

theorem tokenise_casts {casts : List (CType names)} {operand : Expression} {text : List Char}
    {tokens : List Token} :
    tokenise (castText casts ++ text) = some ((castExpression casts operand).tokens ++ tokens) ↔
      tokenise text = some (operand.tokens ++ tokens) := by
  rw [tokenise_castText, castExpression_tokens, List.append_assoc, map_append_eq_some]

/-! Literals -/

theorem isNumberChar_digit {char : Char} (isDigit : char.isDigit = true) :
    isNumberChar char = true := by
  have notMark : isExponentMark char = false := by
    rw [← Bool.not_eq_true]
    intro mark
    simp only [isExponentMark, Bool.or_eq_true, beq_iff_eq] at mark
    rcases mark with ((rfl | rfl) | rfl) | rfl <;> exact absurd isDigit (by decide)
  rw [isNumberChar, notMark, isNameChar, isDigit, Bool.or_true]
  rfl

theorem digits_split (number : Nat) :
    ∃ first others, Nat.toDigits 10 number = first :: others ∧ first.isDigit = true := by
  obtain ⟨first, others, split⟩ :=
    List.exists_cons_of_ne_nil (Nat.toDigits_ne_nil (n := number) (b := 10))
  exact ⟨first, others, split,
    Nat.isDigit_of_mem_toDigits (by omega) (by omega) (split ▸ List.mem_cons_self)⟩

theorem isNumber_digits (number : Nat) {ending : List Char}
    (chars : ending.all isNumberChar = true) :
    IsNumber (Nat.toDigits 10 number ++ ending) := by
  obtain ⟨first, others, split, isDigit⟩ := digits_split number
  constructor
  · rw [List.all_append, chars, Bool.and_true, List.all_eq_true]
    exact fun char member => isNumberChar_digit
      (Nat.isDigit_of_mem_toDigits (by omega) (by omega) member)
  · exact ⟨first, others ++ ending, by rw [split, List.cons_append], isDigit⟩

theorem tokenise_digits (number : Nat) {ending rest : List Char}
    (chars : ending.all isNumberChar = true)
    (delimits : Delimits rest) :
    tokenise (Nat.toDigits 10 number ++ (ending ++ rest)) =
      (tokenise rest).map (Token.number (Nat.toDigits 10 number ++ ending) :: ·) := by
  rw [← List.append_assoc]
  exact tokenise_number (isNumber_digits number chars) delimits

theorem suffix_chars (value : Int) : (suffix value).all isNumberChar = true := by
  rw [suffix]
  split
  · decide
  · rfl

theorem tokenise_minus {next : Char} (notMinus : ¬Punctuator.minus.Extends next)
    (rest : List Char) :
    tokenise ('-' :: next :: rest) =
      (tokenise (next :: rest)).map (Token.punctuator .minus :: ·) := by
  refine tokenise_punctuator .minus ?_ (by decide)
  rintro _ ⟨⟩
  exact notMinus

theorem tokenise_negative (number : Nat) {ending rest : List Char}
    (chars : ending.all isNumberChar = true)
    (delimits : Delimits rest) :
    tokenise ('-' :: (Nat.toDigits 10 number ++ (ending ++ rest))) =
      (tokenise rest).map fun tokens =>
        Token.punctuator .minus :: .number (Nat.toDigits 10 number ++ ending) :: tokens := by
  have digits := tokenise_digits number chars delimits
  obtain ⟨first, others, split, isDigit⟩ := digits_split number
  have notMinus : ¬Punctuator.minus.Extends first :=
    not_extends_nameChar (by rw [isNameChar, isDigit, Bool.or_true])
  rw [split, List.cons_append] at digits ⊢
  rw [tokenise_minus notMinus, digits, Option.map_map]
  rfl

theorem tokenise_minusOne (rest : List Char) :
    tokenise (" - 1)".toList ++ rest) =
      (tokenise rest).map ([.punctuator .minus, .number ['1'], .punctuator .rightParen] ++ ·) := by
  have one : tokenise ('1' :: ')' :: rest) =
      (tokenise (')' :: rest)).map (Token.number ['1'] :: ·) :=
    @tokenise_digits 1 [] _ rfl (delimits_cons rfl (by decide) _)
  calc tokenise (" - 1)".toList ++ rest)
      = tokenise ('-' :: ' ' :: '1' :: ')' :: rest) := tokenise_space _
    _ = (tokenise ('1' :: ')' :: rest)).map (Token.punctuator .minus :: ·) := by
        rw [tokenise_minus (by decide), tokenise_space]
    _ = _ := by
        rw [one, tokenise_rightParen, Option.map_map, Option.map_map]
        rfl

theorem tokenise_literal (value : Int) {rest : List Char} (delimits : Delimits rest) :
    tokenise (literalText value ++ rest) =
      (tokenise rest).map ((literalExpression value).tokens ++ ·) := by
  rw [literalText, literalExpression]
  split
  · have negative : value + 1 < 0 := by omega
    have spaced : Delimits (" - 1)".toList ++ rest) := delimits_cons rfl (by decide) _
    rw [longText, if_pos negative]
    simp only [List.cons_append, List.append_assoc]
    rw [tokenise_leftParen, tokenise_negative _ (by decide) spaced, tokenise_minusOne,
      Option.map_map, Option.map_map]
    simp only [Expression.tokens, UnaryOp.mark, BinaryOp.mark, List.cons_append, List.nil_append]
    rfl
  · rw [longText]
    split
    · simp only [List.cons_append, List.append_assoc]
      rw [tokenise_negative _ (suffix_chars value) delimits]
      rfl
    · rw [List.append_assoc, tokenise_digits _ (suffix_chars value) delimits]
      rfl

section Lexing

variable (getTypeInCommon : TypeInCommon names)

/-! Which operands get a cast -/

def comparesTypes (op : Operator) (left right : Returned names) : Bool :=
  checkType op && !(left.literalZero || right.literalZero)

def castsBoth (op : Operator) (left right : Returned names) : Bool :=
  comparesTypes op left right && !left.isPrimitive && left.typeName != right.typeName &&
    (getTypeInCommon left right).isSome

def castsPrimitive (op : Operator) (left right : Returned names) : Bool :=
  comparesTypes op left right && left.isPrimitive != right.isPrimitive &&
    !left.nullLiteral && !right.nullLiteral

def castsLeft (op : Operator) (left right : Returned names) : Bool :=
  op = .urShift || castsBoth getTypeInCommon op left right ||
    if castsPrimitive op left right then left.isPrimitive
    else !castsBoth getTypeInCommon op left right && left.isOriginallyGenericType

def castsRight (op : Operator) (left right : Returned names) : Bool :=
  castsBoth getTypeInCommon op left right ||
    if castsPrimitive op left right then !left.isPrimitive
    else !castsBoth getTypeInCommon op left right && right.isOriginallyGenericType

theorem commonCasts_isEmpty (left right : Returned names) :
    (commonCasts getTypeInCommon left right).1.isEmpty =
        !(!left.isPrimitive && left.typeName != right.typeName &&
          (getTypeInCommon left right).isSome) ∧
      (commonCasts getTypeInCommon left right).2 = (commonCasts getTypeInCommon left right).1 := by
  rw [commonCasts]
  cases !left.isPrimitive && left.typeName != right.typeName
  · exact ⟨rfl, rfl⟩
  · cases getTypeInCommon left right <;> exact ⟨rfl, rfl⟩

theorem primitiveCasts_isEmpty (left right : Returned names)
    (casts : List (CType names) × List (CType names)) :
    (primitiveCasts left right casts).1.isEmpty =
        (casts.1.isEmpty && !(left.isPrimitive != right.isPrimitive && !left.nullLiteral &&
          !right.nullLiteral && left.isPrimitive)) ∧
      (primitiveCasts left right casts).2.isEmpty =
        (casts.2.isEmpty && !(left.isPrimitive != right.isPrimitive && !left.nullLiteral &&
          !right.nullLiteral && !left.isPrimitive)) := by
  rw [primitiveCasts]
  cases left.isPrimitive != right.isPrimitive && !left.nullLiteral && !right.nullLiteral
  · simp
  · cases left.isPrimitive <;> simp [Returned.generateTypeCast]

theorem genericCasts_isEmpty (returned : Returned names) :
    (genericCasts returned).isEmpty = !returned.isOriginallyGenericType := by
  rw [genericCasts]
  cases returned.isOriginallyGenericType <;> rfl

theorem operandCasts_isEmpty (op : Operator) (left right : Returned names) :
    (operandCasts getTypeInCommon op left right).1.isEmpty =
        !castsLeft getTypeInCommon op left right ∧
      (operandCasts getTypeInCommon op left right).2.isEmpty =
        !castsRight getTypeInCommon op left right := by
  obtain ⟨common, sameCommon⟩ := commonCasts_isEmpty getTypeInCommon left right
  obtain ⟨primitiveLeft, primitiveRight⟩ :=
    primitiveCasts_isEmpty left right (commonCasts getTypeInCommon left right)
  rw [sameCommon, common] at primitiveRight
  rw [common] at primitiveLeft
  rw [operandCasts, castsLeft, castsRight, castsBoth, castsPrimitive, comparesTypes]
  cases comparing : checkType op && !(left.literalZero || right.literalZero) with
  | false =>
      have notComparing : (!(left.literalZero || right.literalZero) && checkType op) = false := by
        rw [Bool.and_comm, comparing]
      rw [notComparing]
      by_cases shift : op = .urShift
      · simp [shift, genericCasts_isEmpty]
      · simp [shift, genericCasts_isEmpty]
  | true =>
      have areCompared : (!(left.literalZero || right.literalZero) && checkType op) = true := by
        rw [Bool.and_comm, comparing]
      have notShift : op ≠ .urShift := by
        rintro rfl
        exact absurd comparing (by simp [checkType])
      rw [areCompared]
      simp only [notShift, if_true, if_false, decide_false, Bool.false_or, Bool.true_and,
        primitiveLeft, primitiveRight]
      generalize (!left.isPrimitive && left.typeName != right.typeName &&
        (getTypeInCommon left right).isSome) = both at primitiveLeft primitiveRight ⊢
      generalize (left.isPrimitive != right.isPrimitive && !left.nullLiteral &&
        !right.nullLiteral) = mixed at primitiveLeft primitiveRight ⊢
      cases both <;> cases mixed <;> cases primitive : left.isPrimitive <;>
        simp [primitive, primitiveLeft, primitiveRight, genericCasts_isEmpty]

/-! Unary operators next to each other -/

/-- The unary operator, or the sign of a literal, that the text begins with. -/
def Tree.lead : Tree names → Option UnaryOp
  | .variableName _ => none
  | .literal value => if value.1 < 0 ∧ value.1 ≠ -2 ^ 63 then some .negate else none
  | .prefixed op _ => some op
  | .postfixed _ operand => operand.lead
  | .binary op leftReturned rightReturned left _ =>
      if isFmod op leftReturned rightReturned ||
          castsLeft getTypeInCommon op leftReturned rightReturned then none
      else left.lead
  | .single operand => operand.lead
  | .priority _ => none
  | .cast .. => none

/-- C reads the two operators as another one. -/
def glues : UnaryOp → UnaryOp → Bool
  | .negate, .negate | .negate, .decrement => true
  | .plus, .plus | .plus, .increment => true
  | .address, .address => true
  | _, _ => false

/-- No unary operator is read together with the one after it. -/
def Tree.Unglued : Tree names → Prop
  | .variableName _ => True
  | .literal _ => True
  | .prefixed op operand =>
      (∀ following, operand.lead getTypeInCommon = some following → glues op following = false) ∧
        operand.Unglued
  | .postfixed _ operand => operand.Unglued
  | .binary _ _ _ left right => left.Unglued ∧ right.Unglued
  | .single operand => operand.Unglued
  | .priority contents => contents.Unglued
  | .cast _ _ value => value.Unglued

/-- A text that begins with the operator, or else with a name, a number or a
parenthesis. -/
def Begins : Option UnaryOp → List Char → Prop
  | some op, text => ∃ others, text = op.mark.text ++ others
  | none, text =>
      ∃ first others, text = first :: others ∧ (isNameChar first = true ∨ first = '(')

theorem Begins.append {lead : Option UnaryOp} {text : List Char} (begins : Begins lead text)
    (more : List Char) : Begins lead (text ++ more) := by
  cases lead with
  | some op =>
      obtain ⟨others, rfl⟩ := begins
      exact ⟨others ++ more, List.append_assoc _ _ _⟩
  | none =>
      obtain ⟨first, others, rfl, starts⟩ := begins
      exact ⟨first, others ++ more, rfl, starts⟩

theorem begins_digits (number : Nat) (more : List Char) :
    Begins none (Nat.toDigits 10 number ++ more) := by
  obtain ⟨first, others, split, isDigit⟩ := digits_split number
  refine ⟨first, others ++ more, by rw [split, List.cons_append], .inl ?_⟩
  rw [isNameChar, isDigit, Bool.or_true]

theorem literalText_begins (value : Int) :
    Begins (if value < 0 ∧ value ≠ -2 ^ 63 then some .negate else none) (literalText value) := by
  rw [literalText]
  by_cases least : value = -2 ^ 63
  · rw [if_pos least, if_neg fun sign => sign.2 least]
    exact ⟨_, _, rfl, .inr rfl⟩
  · rw [if_neg least, longText]
    by_cases negative : value < 0
    · rw [if_pos negative, if_pos ⟨negative, least⟩]
      exact ⟨_, rfl⟩
    · rw [if_neg negative, if_neg fun sign => negative sign.1]
      exact begins_digits _ _

theorem begins (tree : Tree names) :
    Begins (tree.lead getTypeInCommon) (tree.generateSourceFragment getTypeInCommon) := by
  induction tree with
  | variableName name =>
      obtain ⟨_, first, others, spelled, letter⟩ := name.isName
      exact ⟨first, others, spelled, .inl (by rw [isNameChar, letter, Bool.true_or])⟩
  | literal value => exact literalText_begins value
  | prefixed op operand _ => exact ⟨_, rfl⟩
  | postfixed op operand ih => exact ih.append _
  | binary op leftReturned rightReturned left right leftIH _ =>
      rw [Tree.lead, Tree.generateSourceFragment]
      by_cases fmod : isFmod op leftReturned rightReturned = true
      · simp only [fmod, Bool.true_or, if_true]
        exact ⟨'f', _, rfl, .inl rfl⟩
      · have empty := (operandCasts_isEmpty getTypeInCommon op leftReturned rightReturned).1
        simp only [fmod, Bool.false_or, Bool.false_eq_true, if_false]
        cases isCast : castsLeft getTypeInCommon op leftReturned rightReturned with
        | false =>
            rw [isCast, Bool.not_false, List.isEmpty_iff] at empty
            simp only [empty, castText, List.flatMap_nil, List.nil_append, List.append_assoc]
            exact leftIH.append _
        | true =>
            obtain ⟨type, others, casts⟩ :=
              List.exists_cons_of_ne_nil (List.isEmpty_eq_false_iff.mp (isCast ▸ empty))
            rw [casts]
            exact ⟨_, _, rfl, .inr rfl⟩
  | single operand ih => exact ih
  | priority contents _ => exact ⟨_, _, rfl, .inr rfl⟩
  | cast type returned value _ => exact ⟨_, _, rfl, .inr rfl⟩

theorem map_cons_eq_some {token : Token} {rest : List Token} {found : Option (List Token)} :
    found.map (token :: ·) = some (token :: rest) ↔ found = some rest :=
  @map_append_eq_some [token] _ _

theorem tokenise_glued {op following : UnaryOp} (glued : glues op following = true)
    (others : List Char) (tokens : List Token) :
    tokenise (op.mark.text ++ (following.mark.text ++ others)) ≠
      some (.punctuator op.mark :: tokens) := by
  have other (mark : Punctuator) (different : mark ≠ op.mark) (rest : List Char)
      (cut : tokenise (op.mark.text ++ (following.mark.text ++ others)) =
        (tokenise rest).map (Token.punctuator mark :: ·)) :
      tokenise (op.mark.text ++ (following.mark.text ++ others)) ≠
        some (.punctuator op.mark :: tokens) := by
    rw [cut]
    intro same
    obtain ⟨_, _, joined⟩ := Option.map_eq_some_iff.mp same
    exact different (Token.punctuator.inj (List.cons.inj joined).1)
  revert other
  cases op <;> cases following <;> first | exact absurd glued (by decide) | intro other
  · exact other .decrement (by decide) others (tokenise_longest .decrement (by decide) (by decide) _)
  · exact other .decrement (by decide) ('-' :: others)
      (tokenise_longest .decrement (by decide) (by decide) _)
  · exact other .increment (by decide) others (tokenise_longest .increment (by decide) (by decide) _)
  · exact other .increment (by decide) ('+' :: others)
      (tokenise_longest .increment (by decide) (by decide) _)
  · exact other .andAnd (by decide) others (tokenise_longest .andAnd (by decide) (by decide) _)

theorem tokenise_unglued {op : UnaryOp} {lead : Option UnaryOp} {text : List Char}
    (begins : Begins lead text)
    (unglued : ∀ following, lead = some following → glues op following = false) :
    tokenise (op.mark.text ++ text) = (tokenise text).map (Token.punctuator op.mark :: ·) := by
  refine tokenise_punctuator op.mark ?_ (by cases op <;> decide)
  cases lead with
  | none =>
      obtain ⟨first, others, rfl, isName | rfl⟩ := begins
      · rintro _ ⟨⟩
        exact not_extends_nameChar isName
      · rintro _ ⟨⟩
        cases op <;> decide
  | some following =>
      obtain ⟨others, rfl⟩ := begins
      have apart := unglued following rfl
      revert apart
      cases op <;> cases following <;> rintro ⟨⟩ _ ⟨⟩ <;> decide

theorem tokenise_prefixed {op : UnaryOp} {lead : Option UnaryOp} {text : List Char}
    (begins : Begins lead text) (tokens : List Token) :
    tokenise (op.mark.text ++ text) = some (.punctuator op.mark :: tokens) ↔
      (∀ following, lead = some following → glues op following = false) ∧
        tokenise text = some tokens := by
  by_cases unglued : ∀ following, lead = some following → glues op following = false
  · rw [tokenise_unglued begins unglued, map_cons_eq_some]
    exact ⟨fun rest => ⟨unglued, rest⟩, fun both => both.2⟩
  · refine iff_of_false (fun read => unglued ?_) fun both => unglued both.1
    rintro following rfl
    obtain ⟨others, rfl⟩ := begins
    rw [← Bool.not_eq_true]
    exact fun glued => tokenise_glued glued others tokens read

theorem delimits_step (op : StepOp) (rest : List Char) : Delimits (op.mark.text ++ rest) := by
  cases op <;> exact delimits_cons rfl (by decide) _

theorem tokenise_step (op : StepOp) (rest : List Char) :
    tokenise (op.mark.text ++ rest) = (tokenise rest).map (Token.punctuator op.mark :: ·) := by
  cases op
  · exact tokenise_longest .increment (by decide) (by decide) rest
  · exact tokenise_longest .decrement (by decide) (by decide) rest

theorem tokenise_operator (op : BinaryOp) (rest : List Char) :
    tokenise (' ' :: (op.mark.text ++ ' ' :: rest)) =
      (tokenise rest).map (Token.punctuator op.mark :: ·) := by
  rw [tokenise_space, tokenise_punctuator _ _ (by cases op <;> decide), tokenise_space]
  rintro _ ⟨⟩
  cases op <;> decide

theorem tokenise_fmod (rest : List Char) (tokens : List Token) :
    tokenise ("fmod(".toList ++ rest) =
        some (.name "fmod".toList :: .punctuator .leftParen :: tokens) ↔
      tokenise rest = some tokens := by
  have callee : tokenise ("fmod(".toList ++ rest) =
      (tokenise ('(' :: rest)).map (Token.name "fmod".toList :: ·) :=
    @tokenise_name_cons "fmod".toList ⟨by decide, _, _, rfl, rfl⟩ '(' rfl rest
  rw [callee, map_cons_eq_some, tokenise_leftParen, map_cons_eq_some]

theorem delimits_separator (rest : List Char) : Delimits (", ".toList ++ rest) :=
  delimits_cons rfl (by decide) _

theorem tokenise_separator (rest : List Char) :
    tokenise (", ".toList ++ rest) = (tokenise rest).map (Token.punctuator .comma :: ·) := by
  refine (tokenise_comma (' ' :: rest)).trans ?_
  rw [tokenise_space]

theorem tokenise_tree (tree : Tree names) {rest : List Char} (delimits : Delimits rest)
    (tokens : List Token) :
    tokenise (tree.generateSourceFragment getTypeInCommon ++ rest) =
        some ((tree.expression getTypeInCommon).tokens ++ tokens) ↔
      tree.Unglued getTypeInCommon ∧ tokenise rest = some tokens := by
  induction tree generalizing rest tokens with
  | variableName name =>
      rw [Tree.generateSourceFragment, Tree.expression, Expression.tokens,
        tokenise_name name.isName fun next isNext => (delimits next isNext).1]
      simp [Tree.Unglued]
  | literal value =>
      rw [Tree.generateSourceFragment, Tree.expression, tokenise_literal _ delimits,
        map_append_eq_some, Tree.Unglued, true_and]
  | prefixed op operand ih =>
      rw [Tree.generateSourceFragment, Tree.expression, Expression.tokens, List.append_assoc,
        List.cons_append, tokenise_prefixed ((begins getTypeInCommon operand).append rest),
        ih delimits, Tree.Unglued, and_assoc]
  | postfixed op operand ih =>
      rw [Tree.generateSourceFragment, Tree.expression, Expression.tokens, List.append_assoc,
        List.append_assoc, ih (delimits_step op rest), tokenise_step, List.singleton_append,
        map_cons_eq_some, Tree.Unglued]
  | binary op leftReturned rightReturned left right leftIH rightIH =>
      rw [Tree.generateSourceFragment, Tree.expression]
      split
      · simp only [Expression.tokens, List.append_assoc, List.cons_append, List.nil_append]
        rw [tokenise_fmod, tokenise_casts, leftIH (delimits_separator _),
          tokenise_separator, map_cons_eq_some, tokenise_casts,
          rightIH (delimits_cons rfl (by decide) _), tokenise_rightParen, map_cons_eq_some,
          Tree.Unglued, and_assoc]
      · simp only [Expression.tokens, List.append_assoc, List.cons_append, List.nil_append]
        rw [tokenise_casts, leftIH (delimits_cons rfl (by decide) _), tokenise_operator,
          map_cons_eq_some, tokenise_casts, rightIH delimits, Tree.Unglued, and_assoc]
  | single operand ih => exact ih delimits tokens
  | priority contents ih =>
      rw [Tree.generateSourceFragment, Tree.expression, Expression.tokens]
      simp only [List.append_assoc, List.cons_append, List.nil_append]
      rw [tokenise_leftParen, map_cons_eq_some, ih (delimits_cons rfl (by decide) _),
        tokenise_rightParen, map_cons_eq_some, Tree.Unglued]
  | cast type returned value ih =>
      rw [Tree.generateSourceFragment, Tree.expression, List.append_assoc, tokenise_casts,
        ih delimits, Tree.Unglued]

end Lexing

end NovaC.Expressions
