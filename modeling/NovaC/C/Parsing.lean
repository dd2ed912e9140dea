import NovaC.C.Expression

namespace NovaC.C

variable {isType : List Char → Bool}

/-- `expression` is one that the grammar has at level `min`, and the tokens in
front of `rest` are its own. -/
structure Reads (isType : List Char → Bool) (min : Nat) (tokens : List Token)
    (expression : Expression) (rest : List Token) : Prop where
  tokens_eq : tokens = expression.tokens ++ rest
  grouped : expression.Grouped isType
  level : min ≤ expression.level

theorem expect_eq_some {mark : Punctuator} {tokens rest : List Token} :
    expect mark tokens = some rest ↔ tokens = .punctuator mark :: rest := by
  constructor
  · intro found
    match tokens with
    | .punctuator other :: others =>
        rw [expect] at found
        split at found
        · rename_i same
          rw [same, Option.some.inj found]
        · cases found
    | [] | .name _ :: _ | .number _ :: _ => cases found
  · rintro rfl
    exact if_pos rfl

theorem typeWords_reads (tokens : List Token) :
    tokens = (typeWords isType tokens).1.map Token.name ++ (typeWords isType tokens).2 ∧
      ∀ word ∈ (typeWords isType tokens).1, isType word = true := by
  induction tokens with
  | nil => exact ⟨rfl, by simp [typeWords]⟩
  | cons token rest ih =>
      cases token with
      | name word =>
          rw [typeWords]
          split
          · rename_i isWord
            exact ⟨congrArg _ ih.1, List.forall_mem_cons.mpr ⟨isWord, ih.2⟩⟩
          · exact ⟨rfl, by simp⟩
      | number _ | punctuator _ => exact ⟨rfl, by simp [typeWords]⟩

theorem typeStars_reads (tokens : List Token) :
    tokens = List.replicate (typeStars tokens).1 (.punctuator .star) ++ (typeStars tokens).2 := by
  fun_induction typeStars with
  | case1 rest ih =>
      rw [List.replicate_succ, List.cons_append, ← ih]
  | case2 => rfl

theorem typeName_reads {tokens rest : List Token} {type : TypeName}
    (found : typeName isType tokens = some (type, rest)) :
    tokens = type.tokens ++ .punctuator .rightParen :: rest ∧
      type.words ≠ [] ∧ ∀ word ∈ type.words, isType word = true := by
  obtain ⟨split, areTypes⟩ := @typeWords_reads isType tokens
  rw [typeName] at found
  rcases words : typeWords isType tokens with ⟨spellings, others⟩
  rw [words] at found split areTypes
  cases spellings with
  | nil => cases found
  | cons word spellings =>
      have stars := typeStars_reads others
      dsimp only at found
      split at found
      · rename_i count remaining counted
        cases found
        rw [counted] at stars
        refine ⟨?_, List.cons_ne_nil _ _, areTypes⟩
        rw [split, stars, TypeName.tokens, List.append_assoc]
      · cases found

theorem postfixes_reads {operand : Expression} (level : operand.level = 16)
    (grouped : operand.Grouped isType) (tokens : List Token) :
    Reads isType 16 (operand.tokens ++ tokens) (postfixes operand tokens).1
      (postfixes operand tokens).2 := by
  fun_induction postfixes with
  | case1 operand rest ih | case2 operand rest ih =>
      have further := ih rfl ⟨level.ge, grouped⟩
      rwa [Expression.tokens, List.append_assoc] at further
  | case3 operand tokens => exact ⟨rfl, grouped, level.ge⟩

theorem reads_of_postfixes (operand : Expression) {expression : Expression} {tokens rest : List Token}
    (level : operand.level = 16) (grouped : operand.Grouped isType)
    (result : some (postfixes operand tokens) = some (expression, rest)) :
    Reads isType 14 (operand.tokens ++ tokens) expression rest := by
  have reads := postfixes_reads level grouped tokens
  rw [Option.some.inj result] at reads
  exact ⟨reads.tokens_eq, reads.grouped, Nat.le_trans (by decide) reads.level⟩

section Soundness

structure Sound (isType : List Char → Bool) (fuel : Nat) : Prop where
  binary : ∀ {min tokens expression rest}, min ≤ 14 →
    parseBinary isType fuel min tokens = some (expression, rest) →
      Reads isType min tokens expression rest
  loop : ∀ {min left tokens expression rest}, left.Grouped isType → min ≤ left.level →
    parseLoop isType fuel min left tokens = some (expression, rest) →
      Reads isType min (left.tokens ++ tokens) expression rest
  cast : ∀ {tokens expression rest}, parseCast isType fuel tokens = some (expression, rest) →
    Reads isType 14 tokens expression rest

theorem sound_binary {fuel : Nat} (sound : Sound isType fuel) {min : Nat} {tokens : List Token}
    {expression : Expression} {rest : List Token} (bound : min ≤ 14)
    (parsed : parseBinary isType (fuel + 1) min tokens = some (expression, rest)) :
    Reads isType min tokens expression rest := by
  rw [parseBinary, Option.bind_eq_bind, Option.bind_eq_some_iff] at parsed
  obtain ⟨⟨left, others⟩, first, looped⟩ := parsed
  have leftRead := sound.cast first
  rw [leftRead.tokens_eq]
  exact sound.loop leftRead.grouped (bound.trans leftRead.level) looped

theorem sound_loop {fuel : Nat} (sound : Sound isType fuel) {min : Nat} {left : Expression}
    {tokens : List Token} {expression : Expression} {rest : List Token}
    (grouped : left.Grouped isType) (level : min ≤ left.level)
    (parsed : parseLoop isType (fuel + 1) min left tokens = some (expression, rest)) :
    Reads isType min (left.tokens ++ tokens) expression rest := by
  have stopped : some (left, tokens) = some (expression, rest) →
      Reads isType min (left.tokens ++ tokens) expression rest := by
    rintro ⟨⟩
    exact ⟨rfl, grouped, level⟩
  match tokens with
  | .punctuator mark :: others =>
      rw [parseLoop] at parsed
      split at parsed
      · rename_i op isOperator
        split at parsed
        · rename_i allowed
          rw [Option.bind_eq_bind, Option.bind_eq_some_iff] at parsed
          obtain ⟨⟨right, remaining⟩, second, looped⟩ := parsed
          have rightRead := sound.binary op.right_le second
          have group : (Expression.binary op left right).Grouped isType :=
            ⟨⟨allowed.2, grouped⟩, rightRead.level, rightRead.grouped⟩
          have whole := sound.loop group allowed.1 looped
          rwa [Expression.tokens, BinaryOp.mark_of_ofMark isOperator, List.append_assoc,
            List.cons_append, ← rightRead.tokens_eq] at whole
        · exact stopped parsed
      · exact stopped parsed
  | [] | .name _ :: _ | .number _ :: _ => exact stopped parsed

theorem sound_call {fuel : Nat} (sound : Sound isType fuel) {function : List Char}
    {tokens : List Token} {expression : Expression} {rest : List Token}
    (parsed : parseCast isType (fuel + 1)
      (.name function :: .punctuator .leftParen :: tokens) = some (expression, rest)) :
    Reads isType 14 (.name function :: .punctuator .leftParen :: tokens) expression rest := by
  rw [parseCast] at parsed
  split at parsed
  · cases parsed
  · rename_i notType
    simp only [Option.bind_eq_bind, Option.bind_eq_some_iff, expect_eq_some] at parsed
    obtain ⟨⟨first, afterFirst⟩, firstParsed, _, rfl, ⟨second, afterSecond⟩, secondParsed, after,
      rfl, result⟩ := parsed
    have firstRead := sound.binary (by omega) firstParsed
    have secondRead := sound.binary (by omega) secondParsed
    have whole := reads_of_postfixes (.call function first second) rfl
      ⟨eq_false_of_ne_true notType, firstRead.grouped, secondRead.grouped⟩ result
    simp only [Expression.tokens, List.cons_append, List.append_assoc, List.nil_append] at whole
    rwa [firstRead.tokens_eq, secondRead.tokens_eq]

theorem sound_paren {fuel : Nat} (sound : Sound isType fuel)
    {tokens : List Token} {expression : Expression} {rest : List Token}
    (parsed : parseCast isType (fuel + 1)
      (.punctuator .leftParen :: tokens) = some (expression, rest)) :
    Reads isType 14 (.punctuator .leftParen :: tokens) expression rest := by
  rw [parseCast] at parsed
  split at parsed
  · rename_i type others isCast
    simp only [Option.bind_eq_bind, Option.bind_eq_some_iff] at parsed
    obtain ⟨⟨operand, remaining⟩, operandParsed, result⟩ := parsed
    cases result
    obtain ⟨typeRead, isTypeName⟩ := typeName_reads isCast
    have operandRead := sound.cast operandParsed
    refine ⟨?_, ⟨isTypeName, operandRead.level, operandRead.grouped⟩, Nat.le_refl _⟩
    rw [typeRead, operandRead.tokens_eq]
    simp only [Expression.tokens, List.cons_append, List.append_assoc]
  · simp only [Option.bind_eq_bind, Option.bind_eq_some_iff, expect_eq_some] at parsed
    obtain ⟨⟨inner, afterInner⟩, innerParsed, after, rfl, result⟩ := parsed
    have innerRead := sound.binary (by omega) innerParsed
    have whole := reads_of_postfixes (.parens inner) rfl innerRead.grouped result
    simp only [Expression.tokens, List.cons_append, List.append_assoc, List.nil_append] at whole
    rwa [innerRead.tokens_eq]

theorem sound_cast {fuel : Nat} (sound : Sound isType fuel)
    {tokens : List Token} {expression : Expression} {rest : List Token}
    (parsed : parseCast isType (fuel + 1) tokens = some (expression, rest)) :
    Reads isType 14 tokens expression rest := by
  cases tokens with
  | nil => cases parsed
  | cons token others =>
      cases token with
      | number spelling => exact reads_of_postfixes (.number spelling) rfl trivial parsed
      | name spelling =>
          by_cases isCall : ∃ arguments, others = .punctuator .leftParen :: arguments
          · obtain ⟨arguments, rfl⟩ := isCall
            exact sound_call sound parsed
          · rw [parseCast] at parsed
            · split at parsed
              · cases parsed
              · rename_i notType
                exact reads_of_postfixes (.name spelling) rfl (eq_false_of_ne_true notType) parsed
            · intro arguments same
              exact isCall ⟨arguments, same⟩
      | punctuator mark =>
          by_cases isParen : mark = .leftParen
          · subst isParen
            exact sound_paren sound parsed
          · rw [parseCast.eq_6 _ _ _ _ isParen] at parsed
            simp only [Option.bind_eq_bind, Option.bind_eq_some_iff] at parsed
            obtain ⟨op, isOperator, ⟨operand, remaining⟩, operandParsed, result⟩ := parsed
            split at result
            · rename_i allowed
              cases result
              have operandRead := sound.cast operandParsed
              refine ⟨?_, ⟨allowed, operandRead.grouped⟩, Nat.le_succ 14⟩
              rw [Expression.tokens, UnaryOp.mark_of_ofMark isOperator, operandRead.tokens_eq]
              rfl
            · cases result

theorem sound (fuel : Nat) : Sound isType fuel := by
  induction fuel with
  | zero =>
      exact ⟨fun _ => by simp [parseBinary], fun _ _ => by simp [parseLoop],
        by simp [parseCast]⟩
  | succ fuel ih => exact ⟨sound_binary ih, sound_loop ih, sound_cast ih⟩

end Soundness

section Completeness

/-- No postfix expression goes on with these tokens. -/
def Ends : List Token → Prop
  | .punctuator mark :: _ => mark ≠ .increment ∧ mark ≠ .decrement ∧ mark ≠ .leftParen
  | _ => True

theorem ends_mark {mark : Punctuator} (closes : mark ∉ [.increment, .decrement, .leftParen])
    (rest : List Token) : Ends (.punctuator mark :: rest) := by
  simpa [Ends] using closes

/-- A binary operator that comes next binds less tightly than `bound`. -/
def Below (bound : Nat) : List Token → Prop
  | .punctuator mark :: _ => ∀ op, BinaryOp.ofMark mark = some op → op.level < bound
  | _ => True

theorem below_mark {mark : Punctuator} (notOperator : BinaryOp.ofMark mark = none)
    (rest : List Token) {bound : Nat} : Below bound (.punctuator mark :: rest) := by
  intro op isOperator
  rw [notOperator] at isOperator
  cases isOperator

theorem postfixes_ends (operand : Expression) {rest : List Token} (ends : Ends rest) :
    postfixes operand rest = (operand, rest) := by
  match rest with
  | .punctuator mark :: others =>
      rw [postfixes]
      · rintro remaining ⟨⟩
        exact ends.1 rfl
      · rintro remaining ⟨⟩
        exact ends.2.1 rfl
  | [] | .name _ :: _ | .number _ :: _ => rfl

theorem parseLoop_stops (fuel : Nat) {min : Nat} (left : Expression) {rest : List Token}
    (below : Below min rest) : parseLoop isType (fuel + 1) min left rest = some (left, rest) := by
  match rest with
  | .punctuator mark :: others =>
      rw [parseLoop]
      split
      · rename_i op isOperator
        have lower := below op isOperator
        exact if_neg (by omega)
      · rfl
  | [] | .name _ :: _ | .number _ :: _ => rfl

theorem typeWords_of_grouped {expression : Expression} (grouped : expression.Grouped isType)
    (rest : List Token) : (typeWords isType (expression.tokens ++ rest)).1 = [] := by
  induction expression generalizing rest with
  | name spelling =>
      have notType : isType spelling = false := grouped
      simp [Expression.tokens, typeWords, notType]
  | call function first second =>
      simp [Expression.tokens, typeWords, grouped.1]
  | number _ | parens _ | unary _ _ | cast _ _ => rfl
  | postfixed op operand ih =>
      rw [Expression.tokens, List.append_assoc]
      exact ih grouped.2 _
  | binary op left right leftIH _ =>
      rw [Expression.tokens, List.append_assoc]
      exact leftIH grouped.1.2 _

theorem typeName_of_grouped {expression : Expression} (grouped : expression.Grouped isType)
    (rest : List Token) : typeName isType (expression.tokens ++ rest) = none := by
  have noWords := typeWords_of_grouped grouped rest
  rw [typeName]
  rcases words : typeWords isType (expression.tokens ++ rest) with ⟨spellings, others⟩
  rw [words] at noWords
  rw [show spellings = [] from noWords]

theorem typeWords_words {words : List (List Char)} (areTypes : ∀ word ∈ words, isType word = true)
    (mark : Punctuator) (rest : List Token) :
    typeWords isType (words.map Token.name ++ .punctuator mark :: rest) =
      (words, .punctuator mark :: rest) := by
  induction words with
  | nil => rfl
  | cons word words ih =>
      obtain ⟨isWord, others⟩ := List.forall_mem_cons.mp areTypes
      rw [List.map_cons, List.cons_append, typeWords, if_pos isWord, ih others]

theorem typeStars_replicate (stars : Nat) (rest : List Token) :
    typeStars (List.replicate stars (.punctuator .star) ++ .punctuator .rightParen :: rest) =
      (stars, .punctuator .rightParen :: rest) := by
  induction stars with
  | zero => rfl
  | succ stars ih => rw [List.replicate_succ, List.cons_append, typeStars, ih]

theorem typeName_tokens {type : TypeName} (nonempty : type.words ≠ [])
    (areTypes : ∀ word ∈ type.words, isType word = true) (rest : List Token) :
    typeName isType (type.tokens ++ .punctuator .rightParen :: rest) = some (type, rest) := by
  have stars := typeStars_replicate type.stars rest
  have words : typeWords isType (type.tokens ++ .punctuator .rightParen :: rest) =
      (type.words, List.replicate type.stars (.punctuator .star) ++
        .punctuator .rightParen :: rest) := by
    rw [TypeName.tokens, List.append_assoc]
    cases type.stars with
    | zero => exact typeWords_words areTypes _ _
    | succ count => exact typeWords_words areTypes _ _
  rw [typeName, words]
  obtain ⟨spellings, count⟩ := type
  cases spellings with
  | nil => exact absurd rfl nonempty
  | cons word spellings =>
      dsimp only at stars ⊢
      rw [stars]

namespace Expression

/-- The operators met on the way to the first operand, and one. -/
def spine : Expression → Nat
  | binary _ left _ => left.spine + 1
  | _ => 1

/-- How tightly the last operand is held. -/
def rightBound : Expression → Nat
  | binary op _ _ => op.right
  | _ => 17

theorem spine_le (expression : Expression) :
    1 ≤ expression.spine ∧ expression.spine ≤ expression.tokens.length := by
  induction expression with
  | binary op left right leftIH _ =>
      rw [spine, tokens, List.length_append, List.length_cons]
      omega
  | postfixed op operand ih =>
      refine ⟨Nat.le_refl 1, ?_⟩
      rw [tokens, List.length_append, List.length_singleton]
      exact Nat.le_add_left 1 _
  | name _ | number _ | parens _ | call _ _ _ | unary _ _ | cast _ _ =>
      exact ⟨Nat.le_refl 1, Nat.le_add_left 1 _⟩

theorem level_le_rightBound (expression : Expression) :
    2 ≤ expression.level ∧ expression.level ≤ expression.rightBound := by
  cases expression with
  | binary op left right => exact ⟨op.two_le_level, op.level_le_right⟩
  | _ => exact ⟨by simp only [level]; omega, by simp only [level, rightBound]; omega⟩

end Expression

theorem Expression.level_le (expression : Expression) : expression.level ≤ 16 := by
  cases expression with
  | binary op left right =>
      have bounds := op.level_le_right.trans op.right_le
      exact bounds.trans (by decide)
  | _ => simp only [level]; omega

theorem Below.mono {lower upper : Nat} (le : lower ≤ upper) {rest : List Token}
    (below : Below lower rest) : Below upper rest := by
  match rest with
  | .punctuator mark :: others => exact fun op isOperator => (below op isOperator).trans_le le
  | [] | .name _ :: _ | .number _ :: _ => trivial

/-- The parser reads the expression back, in the places where the grammar
allows it, and goes on behind it. -/
structure Completes (isType : List Char → Bool) (expression : Expression) : Prop where
  primary : expression.level = 16 → ∀ {fuel rest}, rest.head? ≠ some (.punctuator .leftParen) →
    2 * expression.tokens.length ≤ fuel + 1 →
      parseCast isType fuel (expression.tokens ++ rest) = some (postfixes expression rest)
  cast : 14 ≤ expression.level → ∀ {fuel rest}, Ends rest →
    2 * expression.tokens.length ≤ fuel + 1 →
      parseCast isType fuel (expression.tokens ++ rest) = some (expression, rest)
  binary : ∀ {min} fuel {rest}, min ≤ expression.level → Ends rest →
    Below expression.rightBound rest → 2 * expression.tokens.length ≤ fuel + expression.spine →
      parseBinary isType (fuel + expression.spine) min (expression.tokens ++ rest) =
        parseLoop isType fuel min expression rest

theorem Completes.whole {expression : Expression} (completes : Completes isType expression)
    {min : Nat} (fuel : Nat) (rest : List Token) (level : min ≤ expression.level)
    (ends : Ends rest) (below : Below min rest)
    (enough : 2 * expression.tokens.length ≤ fuel) :
    parseBinary isType fuel min (expression.tokens ++ rest) = some (expression, rest) := by
  have spine := expression.spine_le
  obtain ⟨left, rfl⟩ : ∃ left, fuel = left + 1 + expression.spine :=
    ⟨fuel - 1 - expression.spine, by omega⟩
  rw [completes.binary (left + 1) level ends
    (below.mono (level.trans expression.level_le_rightBound.2)) enough]
  exact parseLoop_stops left expression below

theorem ends_head {rest : List Token} (ends : Ends rest) :
    rest.head? ≠ some (.punctuator .leftParen) := by
  match rest with
  | .punctuator mark :: others =>
      rintro ⟨⟩
      exact ends.2.2 rfl
  | [] | .name _ :: _ | .number _ :: _ => rintro ⟨⟩

/-- An expression that a cast can stand in front of is the first operand of
whatever follows. -/
theorem completes_of_cast {expression : Expression} (spine : expression.spine = 1)
    (notPrimary : expression.level ≠ 16)
    (cast : ∀ {fuel rest}, Ends rest → 2 * expression.tokens.length ≤ fuel + 1 →
      parseCast isType fuel (expression.tokens ++ rest) = some (expression, rest)) :
    Completes isType expression where
  primary level := absurd level notPrimary
  cast _ := cast
  binary _ _ _ ends _ enough := by
    rw [spine] at enough ⊢
    rw [parseBinary, cast ends enough, Option.bind_eq_bind, Option.bind_some]

theorem completes_of_primary {expression : Expression} (spine : expression.spine = 1)
    (primary : ∀ {fuel rest}, rest.head? ≠ some (.punctuator .leftParen) →
      2 * expression.tokens.length ≤ fuel + 1 →
        parseCast isType fuel (expression.tokens ++ rest) = some (postfixes expression rest)) :
    Completes isType expression where
  primary _ := primary
  cast _ _ _ ends enough := by rw [primary (ends_head ends) enough, postfixes_ends _ ends]
  binary _ _ _ ends _ enough := by
    rw [spine] at enough ⊢
    rw [parseBinary, primary (ends_head ends) enough, postfixes_ends _ ends, Option.bind_eq_bind,
      Option.bind_some]

theorem completes_name {spelling : List Char} (notType : isType spelling = false) :
    Completes isType (.name spelling) := by
  refine completes_of_primary rfl fun {fuel rest} noParen enough => ?_
  obtain ⟨left, rfl⟩ : ∃ left, fuel = left + 1 := ⟨fuel - 1, by simp [Expression.tokens] at enough; omega⟩
  rw [Expression.tokens, List.singleton_append, parseCast, notType, if_neg Bool.false_ne_true]
  rintro arguments rfl
  exact noParen rfl

theorem completes_number (spelling : List Char) : Completes isType (.number spelling) := by
  refine completes_of_primary rfl fun {fuel rest} _ enough => ?_
  obtain ⟨left, rfl⟩ : ∃ left, fuel = left + 1 := ⟨fuel - 1, by simp [Expression.tokens] at enough; omega⟩
  rfl

theorem completes_parens {inner : Expression} (grouped : inner.Grouped isType)
    (ih : Completes isType inner) : Completes isType (.parens inner) := by
  refine completes_of_primary rfl fun {fuel rest} _ enough => ?_
  simp only [Expression.tokens, List.length_cons, List.length_append, List.length_nil] at enough
  obtain ⟨left, rfl⟩ : ∃ left, fuel = left + 1 := ⟨fuel - 1, by omega⟩
  have read := ih.whole left (.punctuator .rightParen :: rest)
    inner.level_le_rightBound.1 (ends_mark (by decide) _) (below_mark rfl _) (by omega)
  simp only [Expression.tokens, List.cons_append, List.append_assoc, List.nil_append, parseCast,
    typeName_of_grouped grouped, read, Option.bind_eq_bind, Option.bind_some, expect]
  rfl

theorem completes_call {function : List Char} {first second : Expression}
    (notType : isType function = false) (firstIH : Completes isType first)
    (secondIH : Completes isType second) : Completes isType (.call function first second) := by
  refine completes_of_primary rfl fun {fuel rest} _ enough => ?_
  simp only [Expression.tokens, List.length_cons, List.length_append, List.length_nil] at enough
  obtain ⟨left, rfl⟩ : ∃ left, fuel = left + 1 := ⟨fuel - 1, by omega⟩
  have secondRead := secondIH.whole left (.punctuator .rightParen :: rest)
    second.level_le_rightBound.1 (ends_mark (by decide) _) (below_mark rfl _) (by omega)
  have firstRead := firstIH.whole left
    (.punctuator .comma :: (second.tokens ++ .punctuator .rightParen :: rest))
    first.level_le_rightBound.1 (ends_mark (by decide) _) (below_mark rfl _) (by omega)
  simp only [Expression.tokens, List.cons_append, List.append_assoc, List.nil_append, parseCast,
    notType, firstRead, secondRead, Option.bind_eq_bind, Option.bind_some, expect,
    Bool.false_eq_true, if_false, if_true]
  rfl

theorem completes_postfixed {op : StepOp} {operand : Expression}
    (isPrimary : operand.level = 16) (ih : Completes isType operand) :
    Completes isType (.postfixed op operand) := by
  refine completes_of_primary rfl fun {fuel rest} _ enough => ?_
  simp only [Expression.tokens, List.length_append, List.length_singleton] at enough
  rw [Expression.tokens, List.append_assoc,
    ih.primary isPrimary (by cases op <;> simp [StepOp.mark]) (by omega)]
  cases op <;> rfl

theorem completes_unary {op : UnaryOp} {operand : Expression} (level : op.operand ≤ operand.level)
    (ih : Completes isType operand) : Completes isType (.unary op operand) := by
  refine completes_of_cast rfl (by simp [Expression.level]) fun {fuel rest} ends enough => ?_
  rw [Expression.tokens, List.length_cons] at enough
  obtain ⟨left, rfl⟩ : ∃ left, fuel = left + 1 := ⟨fuel - 1, by omega⟩
  have isCast : 14 ≤ operand.level := by
    cases op <;> exact Nat.le_trans (by decide) level
  have notParen : op.mark ≠ .leftParen := by
    cases op <;> decide
  rw [Expression.tokens, List.cons_append, parseCast.eq_6 _ _ _ _ notParen, UnaryOp.ofMark_mark,
    ih.cast isCast ends (by omega)]
  exact if_pos level

theorem completes_casted {type : TypeName} {operand : Expression} (nonempty : type.words ≠ [])
    (areTypes : ∀ word ∈ type.words, isType word = true) (level : 14 ≤ operand.level)
    (ih : Completes isType operand) : Completes isType (.cast type operand) := by
  refine completes_of_cast rfl (by simp [Expression.level]) fun {fuel rest} ends enough => ?_
  simp only [Expression.tokens, List.length_cons, List.length_append] at enough
  obtain ⟨left, rfl⟩ : ∃ left, fuel = left + 1 := ⟨fuel - 1, by omega⟩
  simp only [Expression.tokens, List.cons_append, List.append_assoc, parseCast,
    typeName_tokens nonempty areTypes, ih.cast level ends (show _ ≤ left + 1 by omega),
    Option.bind_eq_bind, Option.bind_some]
  rfl

theorem completes_binary {op : BinaryOp} {left right : Expression}
    (leftLevel : op.left ≤ left.level) (rightLevel : op.right ≤ right.level)
    (leftIH : Completes isType left) (rightIH : Completes isType right) :
    Completes isType (.binary op left right) where
  primary level := by
    cases op <;> exact absurd level (by simp [Expression.level, BinaryOp.level])
  cast level := by
    cases op <;> exact absurd level (by simp [Expression.level, BinaryOp.level])
  binary {min} fuel {rest} level ends below enough := by
    have leftSpine := left.spine_le
    simp only [Expression.tokens, Expression.spine, List.length_append, List.length_cons] at enough
    have here : Below left.rightBound (.punctuator op.mark :: (right.tokens ++ rest)) := by
      intro other isOperator
      rw [BinaryOp.ofMark_mark, Option.some.injEq] at isOperator
      subst isOperator
      cases left with
      | binary inner _ _ => exact BinaryOp.level_lt_right leftLevel
      | _ =>
          have bounds := op.level_le_right.trans op.right_le
          exact Nat.lt_of_le_of_lt bounds (show 14 < 17 by omega)
    have behind : Ends (.punctuator op.mark :: (right.tokens ++ rest)) := by
      cases op <;> exact ends_mark (by decide) _
    have first := leftIH.binary (fuel + 1) (level.trans (op.level_le_left.trans leftLevel)) behind here
      (by omega)
    have second := rightIH.whole fuel rest rightLevel ends below (by omega)
    rw [Expression.tokens, Expression.spine, List.append_assoc, List.cons_append,
      show fuel + (left.spine + 1) = fuel + 1 + left.spine by omega, first, parseLoop,
      BinaryOp.ofMark_mark]
    dsimp only
    rw [if_pos ⟨level, leftLevel⟩, second, Option.bind_eq_bind, Option.bind_some]

theorem completes {expression : Expression} (grouped : expression.Grouped isType) :
    Completes isType expression := by
  induction expression with
  | name spelling => exact completes_name grouped
  | number spelling => exact completes_number spelling
  | parens inner ih => exact completes_parens grouped (ih grouped)
  | call function first second firstIH secondIH =>
      exact completes_call grouped.1 (firstIH grouped.2.1) (secondIH grouped.2.2)
  | unary op operand ih => exact completes_unary grouped.1 (ih grouped.2)
  | postfixed op operand ih =>
      exact completes_postfixed (operand.level_le.antisymm grouped.1) (ih grouped.2)
  | cast type operand ih =>
      exact completes_casted grouped.1.1 grouped.1.2 grouped.2.1 (ih grouped.2.2)
  | binary op left right leftIH rightIH =>
      exact completes_binary grouped.1.1 grouped.2.1 (leftIH grouped.1.2) (rightIH grouped.2.2)

end Completeness

/-- Parsing is the inverse of writing down the tokens, on grouped expressions. -/
theorem parse_eq_some {tokens : List Token} {expression : Expression} :
    parse isType tokens = some expression ↔
      tokens = expression.tokens ∧ expression.Grouped isType := by
  constructor
  · intro parsed
    rw [parse] at parsed
    split at parsed
    · rename_i whole
      cases parsed
      have reads := (sound _).binary (by decide) whole
      exact ⟨by simpa using reads.tokens_eq, reads.grouped⟩
    · cases parsed
  · rintro ⟨rfl, grouped⟩
    have whole := (completes grouped).whole _ [] expression.level_le_rightBound.1 trivial
      trivial (Nat.le_refl _)
    rw [List.append_nil] at whole
    rw [parse, whole]

end NovaC.C
