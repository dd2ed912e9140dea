import NovaC.C.Parsing
import NovaC.Expressions.Lexing

namespace NovaC.Expressions

open NovaC.C

variable {names : TypeNames}

namespace Tree

def isOperation : Tree names → Bool
  | prefixed .. | postfixed .. | binary .. => true
  | single operand => operand.isOperation
  | _ => false

/-- The level of the operator that an operation is written with. -/
def sourceLevel : Tree names → Nat
  | prefixed .. => 15
  | binary op .. => op.generated.level
  | single operand => operand.sourceLevel
  | _ => 16

/-- The level of the C expression, a call of `fmod` being one of `%`'s. -/
def level : Tree names → Nat
  | literal value => if value.1 < 0 ∧ value.1 ≠ -2 ^ 63 then 15 else 16
  | prefixed .. => 15
  | binary op leftReturned rightReturned _ _ =>
      if isFmod op leftReturned rightReturned then 16 else op.generated.level
  | single operand => operand.level
  | cast .. => 14
  | _ => 16

/-- An operand that is an operation has no Priority node only where C groups it
that way. -/
def SourceGrouped : Tree names → Prop
  | variableName _ => True
  | literal _ => True
  | prefixed op operand =>
      (operand.isOperation = true → op.operand ≤ operand.sourceLevel) ∧ operand.SourceGrouped
  | postfixed _ operand =>
      (operand.isOperation = true → 16 ≤ operand.sourceLevel) ∧ operand.SourceGrouped
  | binary op _ _ left right =>
      ((left.isOperation = true → op.generated.left ≤ left.sourceLevel) ∧ left.SourceGrouped) ∧
        (right.isOperation = true → op.generated.right ≤ right.sourceLevel) ∧ right.SourceGrouped
  | single operand => operand.SourceGrouped
  | priority contents => contents.SourceGrouped
  | cast _ _ value => value.SourceGrouped

/-- An operand that gets a cast must be a cast expression itself, in a place
that allows one; a literal or a cast that gets none must be allowed where it
stands. -/
def Sits (bound : Nat) (isCast : Bool) (operand : Tree names) : Prop :=
  if isCast then bound ≤ 14 ∧ 14 ≤ operand.level
  else operand.isOperation = false → bound ≤ operand.level

instance (bound : Nat) (isCast : Bool) (operand : Tree names) :
    Decidable (operand.Sits bound isCast) :=
  inferInstanceAs (Decidable (if isCast then _ else _))

end Tree

section Grouping

variable (getTypeInCommon : TypeInCommon names)

def Tree.Fits : Tree names → Prop
  | variableName _ => True
  | literal _ => True
  | prefixed op operand => operand.Sits op.operand false ∧ operand.Fits
  | postfixed _ operand => operand.Sits 16 false ∧ operand.Fits
  | binary op leftReturned rightReturned left right =>
      let fmod := isFmod op leftReturned rightReturned
      (left.Sits (if fmod then 2 else op.generated.left)
          (castsLeft getTypeInCommon op leftReturned rightReturned) ∧ left.Fits) ∧
        right.Sits (if fmod then 2 else op.generated.right)
          (castsRight getTypeInCommon op leftReturned rightReturned) ∧ right.Fits
  | single operand => operand.Fits
  | priority contents => contents.Fits
  | cast _ _ value => value.Sits 14 true ∧ value.Fits

theorem literalExpression_level (value : Int) :
    (literalExpression value).level = if value < 0 ∧ value ≠ -2 ^ 63 then 15 else 16 := by
  rw [literalExpression]
  by_cases least : value = -2 ^ 63
  · rw [if_pos least, if_neg fun sign => sign.2 least]
    rfl
  · rw [if_neg least]
    by_cases negative : value < 0
    · rw [if_pos negative, if_pos ⟨negative, least⟩]
      rfl
    · rw [if_neg negative, if_neg fun sign => negative sign.1]
      rfl

theorem expression_level (tree : Tree names) :
    (tree.expression getTypeInCommon).level = tree.level := by
  induction tree with
  | literal value => exact literalExpression_level value
  | binary op leftReturned rightReturned left right _ _ =>
      rw [Tree.expression, Tree.level]
      split <;> rfl
  | single operand ih => exact ih
  | variableName _ | prefixed _ _ | postfixed _ _ | priority _ | cast _ _ _ => rfl

theorem sourceLevel_le_level {tree : Tree names} (isOperation : tree.isOperation = true) :
    tree.sourceLevel ≤ tree.level := by
  induction tree with
  | binary op leftReturned rightReturned left right _ _ =>
      rw [Tree.sourceLevel, Tree.level]
      split
      · exact (Expression.binary op.generated (.name []) (.name [])).level_le
      · exact Nat.le_refl _
  | single operand ih => exact ih isOperation
  | prefixed _ _ | postfixed _ _ => exact Nat.le_refl _
  | variableName _ | literal _ | priority _ | cast _ _ _ => cases isOperation

theorem Tree.two_le_sourceLevel (tree : Tree names) : 2 ≤ tree.sourceLevel := by
  induction tree with
  | binary op _ _ _ _ _ _ => exact op.generated.two_le_level
  | single operand ih => exact ih
  | prefixed _ _ => exact Nat.le_add_left 2 13
  | variableName _ | literal _ | postfixed _ _ | priority _ | cast _ _ _ =>
      exact Nat.le_add_left 2 14

theorem castExpression_level (casts : List (CType names)) (operand : Expression) :
    (castExpression casts operand).level = if casts.isEmpty then operand.level else 14 := by
  cases casts <;> rfl

theorem castExpression_grouped (casts : List (CType names)) (operand : Expression) :
    (castExpression casts operand).Grouped names.isType ↔
      (casts.isEmpty = false → 14 ≤ operand.level) ∧ operand.Grouped names.isType := by
  induction casts with
  | nil => simp [castExpression]
  | cons type casts ih =>
      have isType : type.words ≠ [] ∧ ∀ word ∈ type.words, names.isType word = true :=
        ⟨type.nonempty, fun word member => (type.areTypes word member).2⟩
      rw [castExpression, List.foldr_cons, ← castExpression, Expression.Grouped, ih,
        castExpression_level, and_iff_right isType]
      cases casts <;> simp

/-- The casts and the operand are grouped as the grammar asks, in a place of the
given level. -/
theorem sits_iff {bound : Nat} {operand : Tree names} {casts : List (CType names)} {isCast : Bool}
    (empty : casts.isEmpty = !isCast)
    (sourceGrouped : operand.isOperation = true → bound ≤ operand.sourceLevel)
    (grouped : (operand.expression getTypeInCommon).Grouped names.isType ↔
      operand.Fits getTypeInCommon) :
    bound ≤ (castExpression casts (operand.expression getTypeInCommon)).level ∧
        (castExpression casts (operand.expression getTypeInCommon)).Grouped names.isType ↔
      operand.Sits bound isCast ∧ operand.Fits getTypeInCommon := by
  rw [castExpression_level, castExpression_grouped, expression_level, grouped, ← and_assoc,
    Tree.Sits, empty]
  refine and_congr_left' ?_
  cases isCast with
  | true => simp
  | false =>
      simp only [Bool.not_false, if_true, Bool.true_eq_false, Bool.false_eq_true, if_false,
        false_imp_iff, and_true]
      refine ⟨fun level _ => level, fun level => ?_⟩
      cases isOperation : operand.isOperation with
      | true => exact (sourceGrouped isOperation).trans (sourceLevel_le_level isOperation)
      | false => exact level isOperation

theorem literalExpression_grouped (value : Int) :
    (literalExpression value).Grouped names.isType := by
  rw [literalExpression]
  split
  · exact ⟨⟨by simp only [Expression.level]; decide, Nat.le_add_left 14 2, trivial⟩,
      by simp only [Expression.level]; decide, trivial⟩
  · split
    · exact ⟨Nat.le_add_left 14 2, trivial⟩
    · trivial

theorem expression_grouped {tree : Tree names} (sourceGrouped : tree.SourceGrouped) :
    (tree.expression getTypeInCommon).Grouped names.isType ↔ tree.Fits getTypeInCommon := by
  have noCasts : ([] : List (CType names)).isEmpty = !false := rfl
  induction tree with
  | variableName name => exact iff_of_true name.notType trivial
  | literal value => exact iff_of_true (literalExpression_grouped value) trivial
  | prefixed op operand ih =>
      exact sits_iff getTypeInCommon noCasts sourceGrouped.1 (ih sourceGrouped.2)
  | postfixed op operand ih =>
      exact sits_iff getTypeInCommon noCasts sourceGrouped.1 (ih sourceGrouped.2)
  | binary op leftReturned rightReturned left right leftIH rightIH =>
      obtain ⟨⟨leftGrouped, leftSource⟩, rightGrouped, rightSource⟩ := sourceGrouped
      have low : 2 ≤ op.generated.left ∧ 2 ≤ op.generated.right :=
        ⟨op.generated.two_le_level.trans op.generated.level_le_left,
          op.generated.two_le_level.trans op.generated.level_le_right⟩
      obtain ⟨leftEmpty, rightEmpty⟩ :=
        operandCasts_isEmpty getTypeInCommon op leftReturned rightReturned
      rw [Tree.expression, Tree.Fits]
      split
      · rw [← sits_iff getTypeInCommon leftEmpty (fun operation => low.1.trans (leftGrouped operation))
            (leftIH leftSource),
          ← sits_iff getTypeInCommon rightEmpty (fun operation => low.2.trans (rightGrouped operation))
            (rightIH rightSource), Expression.Grouped]
        simp only [names.fmod, true_and, (Expression.level_le_rightBound _).1]
      · rw [← sits_iff getTypeInCommon leftEmpty leftGrouped (leftIH leftSource),
          ← sits_iff getTypeInCommon rightEmpty rightGrouped (rightIH rightSource), Expression.Grouped]
  | single operand ih => exact ih sourceGrouped
  | priority contents ih => exact ih sourceGrouped
  | cast type returned value ih =>
      refine (castExpression_grouped _ _).trans (and_congr ?_ (ih sourceGrouped))
      rw [expression_level, Tree.Sits]
      simp

end Grouping

/-! `>>>` -/

/-- A shift by `>>` behind a cast to `unsigned int` shifts the value, promoted
to at least an `int`, logically. -/
def ShiftsWhole (width : Nat) : Prop :=
  ∀ (value : BitVec (max 32 width)) (count : Nat), count < 32 →
    (value.setWidth 32 >>> count).toNat = (value >>> count).toNat

theorem shiftsWhole_iff (width : Nat) : ShiftsWhole width ↔ width ≤ 32 := by
  constructor
  · intro shifts
    by_contra wide
    have small : 2 ^ 32 < 2 ^ max 32 width := Nat.pow_lt_pow_right (by omega) (by omega)
    have bad := shifts (BitVec.ofNat _ (2 ^ 32)) 0 (by omega)
    rw [BitVec.toNat_ushiftRight, BitVec.toNat_ushiftRight, BitVec.toNat_setWidth,
      BitVec.toNat_ofNat, Nat.mod_eq_of_lt small, Nat.mod_self, Nat.shiftRight_zero,
      Nat.shiftRight_zero] at bad
    omega
  · intro narrow value count _
    have small : value.toNat < 2 ^ 32 :=
      value.isLt.trans_le (Nat.pow_le_pow_right (by omega) (by omega))
    rw [BitVec.toNat_ushiftRight, BitVec.toNat_ushiftRight, BitVec.toNat_setWidth,
      Nat.mod_eq_of_lt small]

/-- `holds` of the width of every left operand of `>>>`. -/
def Tree.ShiftWidths (holds : Nat → Prop) : Tree names → Prop
  | variableName _ => True
  | literal _ => True
  | prefixed _ operand => operand.ShiftWidths holds
  | postfixed _ operand => operand.ShiftWidths holds
  | binary op leftReturned _ left right =>
      (op = .urShift → holds leftReturned.width) ∧
        left.ShiftWidths holds ∧ right.ShiftWidths holds
  | single operand => operand.ShiftWidths holds
  | priority contents => contents.ShiftWidths holds
  | cast _ _ value => value.ShiftWidths holds

/-! Emission -/

section Emission

variable (getTypeInCommon : TypeInCommon names)

/-- The text, cut into tokens and parsed, is the expression it stands for, and
`>>>` shifts what it is applied to. -/
structure Tree.Kept (tree : Tree names) : Prop where
  parsed : (tokenise (tree.generateSourceFragment getTypeInCommon)).bind (parse names.isType) =
    some (tree.expression getTypeInCommon)
  shifts : tree.ShiftWidths ShiftsWhole

structure Tree.Writable (tree : Tree names) : Prop where
  unglued : tree.Unglued getTypeInCommon
  fits : tree.Fits getTypeInCommon
  narrow : tree.ShiftWidths (· ≤ 32)

structure Return.Kept (node : Return names) : Prop where
  parsed : (tokenise (node.generateSourceFragment getTypeInCommon)).bind
    (parseReturn names.isType) = some (node.expression getTypeInCommon)
  shifts : node.value.ShiftWidths ShiftsWhole

structure Return.Writable (node : Return names) : Prop where
  value : node.value.Writable getTypeInCommon
  sits : node.value.Sits 2 node.needsCast

theorem shiftWidths_iff (tree : Tree names) :
    tree.ShiftWidths ShiftsWhole ↔ tree.ShiftWidths (· ≤ 32) := by
  rw [show ShiftsWhole = (· ≤ 32) from funext fun width => propext (shiftsWhole_iff width)]

/-- Text that stands for an expression is parsed as that expression when its
tokens are the expression's, and the expression is grouped. -/
theorem parsed_iff {text : List Char} {expression : Expression} {Lexed : Prop}
    (lexed : tokenise text = some expression.tokens ↔ Lexed) :
    (tokenise text).bind (parse names.isType) = some expression ↔
      Lexed ∧ expression.Grouped names.isType := by
  rw [Option.bind_eq_some_iff, ← lexed]
  constructor
  · rintro ⟨tokens, cut, parsed⟩
    obtain ⟨rfl, grouped⟩ := parse_eq_some.mp parsed
    exact ⟨cut, grouped⟩
  · rintro ⟨cut, grouped⟩
    exact ⟨_, cut, parse_eq_some.mpr ⟨rfl, grouped⟩⟩

theorem tokenise_fragment (tree : Tree names) (casts : List (CType names)) :
    tokenise (castText casts ++ tree.generateSourceFragment getTypeInCommon) =
        some (castExpression casts (tree.expression getTypeInCommon)).tokens ↔
      tree.Unglued getTypeInCommon := by
  have lexed := tokenise_tree getTypeInCommon tree delimits_nil []
  rw [List.append_nil, List.append_nil, and_iff_left (show tokenise [] = some [] from rfl)] at lexed
  have casted := @tokenise_casts _ casts (tree.expression getTypeInCommon)
    (tree.generateSourceFragment getTypeInCommon) []
  rwa [List.append_nil, List.append_nil, lexed] at casted

theorem kept_iff {tree : Tree names} (sourceGrouped : tree.SourceGrouped) :
    tree.Kept getTypeInCommon ↔ tree.Writable getTypeInCommon := by
  have parsed := @parsed_iff names _ _ _ (tokenise_fragment getTypeInCommon tree [])
  rw [castExpression, List.foldr_nil, expression_grouped getTypeInCommon sourceGrouped] at parsed
  constructor
  · intro kept
    obtain ⟨unglued, fits⟩ := parsed.mp kept.parsed
    exact ⟨unglued, fits, (shiftWidths_iff tree).mp kept.shifts⟩
  · intro writable
    exact ⟨parsed.mpr ⟨writable.unglued, writable.fits⟩, (shiftWidths_iff tree).mpr writable.narrow⟩

theorem tokenise_return (rest : List Char) :
    tokenise ("return ".toList ++ rest) =
      (tokenise rest).map (Token.name "return".toList :: ·) := by
  have keyword : tokenise ("return ".toList ++ rest) =
      (tokenise (' ' :: rest)).map (Token.name "return".toList :: ·) :=
    @tokenise_name_cons "return".toList ⟨by decide, _, _, rfl, rfl⟩ ' ' rfl rest
  rw [keyword, tokenise_space]

theorem parseReturn_return (tokens : List Token) :
    parseReturn names.isType (.name "return".toList :: tokens) = parse names.isType tokens := by
  rw [parseReturn, if_pos rfl]

theorem Return.casts_isEmpty (node : Return names) : node.casts.isEmpty = !node.needsCast := by
  rw [casts]
  cases node.needsCast <;> rfl

theorem return_kept_iff {node : Return names} (sourceGrouped : node.value.SourceGrouped) :
    node.Kept getTypeInCommon ↔ node.Writable getTypeInCommon := by
  have stripped : (tokenise (node.generateSourceFragment getTypeInCommon)).bind
      (parseReturn names.isType) =
      (tokenise (castText node.casts ++ node.value.generateSourceFragment getTypeInCommon)).bind
        (parse names.isType) := by
    have split : node.generateSourceFragment getTypeInCommon = "return ".toList ++
        (castText node.casts ++ node.value.generateSourceFragment getTypeInCommon) :=
      List.append_assoc _ _ _
    rw [split, tokenise_return, Option.bind_map]
    refine Option.bind_congr fun tokens _ => ?_
    rw [Function.comp_apply, parseReturn_return]
  have sits := sits_iff getTypeInCommon node.casts_isEmpty
    (fun _ => node.value.two_le_sourceLevel) (expression_grouped getTypeInCommon sourceGrouped)
  rw [and_iff_right (Expression.level_le_rightBound _).1] at sits
  have parsed := @parsed_iff names _ _ _
    (tokenise_fragment getTypeInCommon node.value node.casts)
  rw [sits] at parsed
  constructor
  · intro kept
    obtain ⟨unglued, sits, fits⟩ := parsed.mp (stripped.symm.trans kept.parsed)
    exact ⟨⟨unglued, fits, (shiftWidths_iff _).mp kept.shifts⟩, sits⟩
  · rintro ⟨⟨unglued, fits, narrow⟩, sits⟩
    exact ⟨stripped.trans (parsed.mpr ⟨unglued, sits, fits⟩), (shiftWidths_iff _).mpr narrow⟩

/-- On trees that need no parentheses in C, the text of an expression or of a
returned value is parsed as the expression exactly when no unary operator is
read together with the next one, every operand behind a cast is a cast
expression, every literal and cast is allowed where it stands, and `>>>` shifts
nothing wider than an `int`. -/
theorem emission_kept_iff :
    (∀ tree : Tree names, tree.SourceGrouped →
      (tree.Kept getTypeInCommon ↔ tree.Writable getTypeInCommon)) ∧
    (∀ node : Return names, node.value.SourceGrouped →
      (node.Kept getTypeInCommon ↔ node.Writable getTypeInCommon)) :=
  ⟨fun _ sourceGrouped => kept_iff getTypeInCommon sourceGrouped,
    fun _ sourceGrouped => return_kept_iff getTypeInCommon sourceGrouped⟩

end Emission

def sampleNames : TypeNames where
  isType word := word ∈ ["intptr_t".toList, "unsigned".toList, "int".toList]
  intptr_t := by decide
  unsigned := by decide
  int := by decide
  fmod := by decide

def sampleInt : CType sampleNames where
  words := ["int".toList]
  stars := 0
  nonempty := List.cons_ne_nil _ _
  areTypes := by
    rintro word (_ | ⟨_, ⟨⟩⟩)
    exact ⟨⟨by decide, _, _, rfl, rfl⟩, by decide⟩

/-- what an `Int` variable answers -/
def sampleReturned : Returned sampleNames where
  literalZero := false
  nullLiteral := false
  isPrimitive := true
  typeName := "Int".toList
  isOriginallyGenericType := false
  realNumber := false
  type := sampleInt
  typeNoReference := sampleInt
  pointerToValue := false
  width := 32

def sampleVariable (letter : Char) (isLetter : isLetter letter = true)
    (notType : sampleNames.isType [letter] = false) : Tree sampleNames :=
  .variableName ⟨[letter], ⟨by simp [isNameChar, isLetter], letter, [], rfl, isLetter⟩, notType⟩

/-- `a + b` -/
def sampleSum : Tree sampleNames :=
  .binary (.common .plus) sampleReturned sampleReturned
    (sampleVariable 'a' rfl (by decide)) (sampleVariable 'b' rfl (by decide))

/-- `left >>> c` -/
def sampleShift (left : Tree sampleNames) : Tree sampleNames :=
  .binary .urShift sampleReturned sampleReturned left (sampleVariable 'c' rfl (by decide))

theorem sampleSum_grouped : sampleSum.SourceGrouped :=
  ⟨⟨fun _ => by decide, trivial⟩, fun _ => by decide, trivial⟩

/-- `(a + b) >>> c` shifts the sum, and `return` casts what is in parentheses. -/
theorem emission_kept_iff_priority :
    (sampleShift (.priority sampleSum)).Kept (fun _ _ => none) ∧
      (Return.mk sampleReturned sampleReturned false false none (.priority sampleSum)).Kept
        (fun _ _ => none) := by
  have unglued : sampleSum.Unglued (fun _ _ => none) := ⟨trivial, trivial⟩
  have fits : sampleSum.Fits (fun _ _ => none) :=
    ⟨⟨by decide +kernel, trivial⟩, by decide +kernel, trivial⟩
  have narrow : sampleSum.ShiftWidths (· ≤ 32) := ⟨by simp, trivial, trivial⟩
  have shiftGrouped : (sampleShift (.priority sampleSum)).SourceGrouped :=
    ⟨⟨fun _ => by decide, sampleSum_grouped⟩, fun _ => by decide, trivial⟩
  have both := @emission_kept_iff sampleNames (fun _ _ => none)
  constructor
  · exact (both.1 _ shiftGrouped).mpr
      ⟨⟨unglued, trivial⟩, ⟨⟨by decide +kernel, fits⟩, by decide +kernel, trivial⟩,
        fun _ => by decide, narrow, trivial⟩
  · exact (both.2 _ sampleSum_grouped).mpr ⟨⟨unglued, fits, narrow⟩, by decide +kernel⟩

/-- `a + b >>> c` is written as `(unsigned int)a + b >> c`, in which the cast
applies to `a`. -/
theorem urShift_casts_first :
    (sampleShift sampleSum).SourceGrouped ∧
      (sampleShift sampleSum).generateSourceFragment (fun _ _ => none) =
        "(unsigned int)a + b >> c".toList ∧
      ¬(sampleShift sampleSum).Kept (fun _ _ => none) := by
  have text : (sampleShift sampleSum).generateSourceFragment (fun _ _ => none) =
      "(unsigned int)a + b >> c".toList := by
    decide +kernel
  have parsed : (tokenise "(unsigned int)a + b >> c".toList).bind (parse sampleNames.isType) =
      some (.binary .shiftRight
        (.binary .plus (.cast ⟨["unsigned".toList, "int".toList], 0⟩ (.name ['a'])) (.name ['b']))
        (.name ['c'])) := by
    decide +kernel
  refine ⟨⟨⟨fun _ => by decide, sampleSum_grouped⟩, fun _ => by decide, trivial⟩, text, fun kept => ?_⟩
  have same := kept.parsed
  rw [text, parsed] at same
  cases same

end NovaC.Expressions
