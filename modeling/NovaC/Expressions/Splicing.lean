import NovaC.C.Operands
import NovaC.Expressions.Emission

namespace NovaC.Expressions

open NovaC.C

variable {names : TypeNames}

/-- What `ArrayWriter` asks of an array creation. -/
structure ArrayNode (names : TypeNames) where
  /-- `generateTypeCast` -/
  typeCast : List (CType names)
  /-- `generateTypeName` -/
  typeName : CType names
  /-- `generateTypeClassName` -/
  typeClassName : List Char
  dimensions : List (Tree names)

/-- What `RepeatWriter` asks of a `repeat`; without a value it goes on forever. -/
structure RepeatNode (names : TypeNames) where
  name : SourceName names
  valueNode : Option (Tree names)
  /-- the text that the scope's writer generates -/
  scope : List Char

section Writers

variable (getTypeInCommon : TypeInCommon names)

/-- `DimensionsWriter.generateSourceFragment` -/
def dimensionsFragment (before after : List Char) (dimensions : List (Tree names)) : List Char :=
  dimensions.flatMap fun child =>
    before ++ (child.generateSourceFragment getTypeInCommon ++ after)

namespace ArrayNode

/-- The argument of `NOVA_MALLOC`. -/
def byteCount (node : ArrayNode names) : List Char :=
  "sizeof".toList ++ (castText [node.typeName] ++
    dimensionsFragment getTypeInCommon " * ".toList [] node.dimensions)

def generateSourceFragment (node : ArrayNode names) : List Char :=
  let several := decide (node.dimensions.length > 1)
  castText node.typeCast ++ (if several then "nova_gen_array(".toList else []) ++
    "NOVA_MALLOC(".toList ++ node.byteCount getTypeInCommon ++
    (if several then
      "), (int[]) \x7b ".toList ++
        ", ".toList.intercalate
          (node.dimensions.map fun child => child.generateSourceFragment getTypeInCommon) ++
        " \x7d, 0, ".toList ++ Nat.toDigits 10 (node.dimensions.length - 1) ++
        ", sizeof(".toList ++ node.typeClassName ++ [')']
    else []) ++ [')']

end ArrayNode

namespace RepeatNode

/-- What stands before the scope. -/
def header (node : RepeatNode names) : List Char :=
  match node.valueNode with
  | some value =>
      "for (".toList ++ (node.name.spelling ++ (" = 0; ".toList ++ (node.name.spelling ++
        (" < ".toList ++ (value.generateSourceFragment getTypeInCommon ++ ("; ".toList ++
          (node.name.spelling ++ "++)".toList)))))))
  | none => "for (;;)".toList

def generateSource (node : RepeatNode names) : List Char :=
  node.header getTypeInCommon ++ '\n' :: node.scope

end RepeatNode

end Writers

section Splicing

variable (getTypeInCommon : TypeInCommon names)

/-- The argument of `NOVA_MALLOC` is a product of which every dimension is a single factor,
and so is its value. -/
def ArrayNode.Spliced (node : ArrayNode names) : Prop :=
  let dimensions := node.dimensions.map (Tree.expression getTypeInCommon)
  ∃ before after count, node.generateSourceFragment getTypeInCommon =
      before ++ ("NOVA_MALLOC(".toList ++ (node.byteCount getTypeInCommon ++ ')' :: after)) ∧
    (tokenise (node.byteCount getTypeInCommon)).bind (parseSize names.isType) =
      some (node.typeName.toTypeName, count) ∧
    count = product sizeOperand dimensions ∧
    ∀ (V : Type) [Monoid V] (meaning : Meaning V),
      (∀ left right, meaning.binary .times left right = left * right) →
        count.value meaning =
          sizeOperand.value meaning * (dimensions.map (Expression.value meaning)).prod

/-- The condition compares the counter with the bound, and so do the values. -/
def RepeatNode.Spliced (node : RepeatNode names) : Prop :=
  ∀ value, node.valueNode = some value →
    let bound := value.expression getTypeInCommon
    ∃ header, (tokenise (node.header getTypeInCommon)).bind (parseFor names.isType) = some header ∧
      header = ⟨.binary .assign (.name node.name.spelling) (.number ['0']),
        .binary .less (.name node.name.spelling) bound,
        .postfixed .increment (.name node.name.spelling)⟩ ∧
      ∀ (V : Type) (meaning : Meaning V), header.condition.value meaning =
        meaning.binary .less (meaning.name node.name.spelling) (bound.value meaning)

/-- The tree is written as C groups it, and may stand where the grammar asks for the given
level. -/
structure Tree.Tight (tree : Tree names) (level : Nat) : Prop where
  unglued : tree.Unglued getTypeInCommon
  grouped : (tree.expression getTypeInCommon).Grouped names.isType
  level : level ≤ tree.level

theorem delimits_dimensions (dimensions : List (Tree names)) :
    Delimits (dimensionsFragment getTypeInCommon " * ".toList [] dimensions) := by
  cases dimensions with
  | nil => exact delimits_nil
  | cons _ _ => exact delimits_cons rfl (by decide) _

theorem tokenise_dimensions (dimensions : List (Tree names)) :
    tokenise (dimensionsFragment getTypeInCommon " * ".toList [] dimensions) =
        some (factorTokens (dimensions.map (Tree.expression getTypeInCommon))) ↔
      ∀ dimension ∈ dimensions, dimension.Unglued getTypeInCommon := by
  induction dimensions with
  | nil => exact iff_of_true rfl (by simp)
  | cons dimension dimensions ih =>
      have text : dimensionsFragment getTypeInCommon " * ".toList [] (dimension :: dimensions) =
          ' ' :: (BinaryOp.times.mark.text ++ ' ' ::
            (dimension.generateSourceFragment getTypeInCommon ++
              dimensionsFragment getTypeInCommon " * ".toList [] dimensions)) := by
        simp only [dimensionsFragment, List.flatMap_cons, List.append_nil]
        rfl
      rw [text, tokenise_operator, List.map_cons, factorTokens, List.flatMap_cons, ← factorTokens,
        List.forall_mem_cons]
      exact map_cons_eq_some.trans
        ((tokenise_tree getTypeInCommon dimension (delimits_dimensions getTypeInCommon dimensions)
          _).trans (and_congr_right' ih))

theorem tokenise_byteCount (node : ArrayNode names) :
    tokenise (node.byteCount getTypeInCommon) =
      (tokenise (dimensionsFragment getTypeInCommon " * ".toList [] node.dimensions)).map
        fun tokens => .name "sizeof".toList :: .punctuator .leftParen ::
          (node.typeName.toTypeName.tokens ++ .punctuator .rightParen :: tokens) := by
  have keyword : ∀ rest, tokenise ("sizeof".toList ++ '(' :: rest) =
      (tokenise ('(' :: rest)).map (Token.name "sizeof".toList :: ·) :=
    @tokenise_name_cons "sizeof".toList ⟨by decide, _, _, rfl, rfl⟩ '(' rfl
  have type := tokenise_castText [node.typeName]
    (dimensionsFragment getTypeInCommon " * ".toList [] node.dimensions)
  have cast : castText [node.typeName] ++
      dimensionsFragment getTypeInCommon " * ".toList [] node.dimensions = '(' ::
      (typeText node.typeName.toTypeName ++ ')' ::
        dimensionsFragment getTypeInCommon " * ".toList [] node.dimensions) := by
    simp only [castText, List.flatMap_cons, List.flatMap_nil, List.append_nil, List.cons_append,
      List.append_assoc, List.nil_append]
  rw [cast] at type
  change tokenise ("sizeof".toList ++ (castText [node.typeName] ++
    dimensionsFragment getTypeInCommon " * ".toList [] node.dimensions)) = _
  rw [cast]
  refine (keyword _).trans ?_
  rw [type, Option.map_map]
  simp only [Function.comp_def, List.flatMap_cons, List.flatMap_nil, List.append_nil,
    List.cons_append, List.append_assoc, List.nil_append]

theorem generateSourceFragment_malloc (node : ArrayNode names) :
    ∃ before after, node.generateSourceFragment getTypeInCommon =
      before ++ ("NOVA_MALLOC(".toList ++ (node.byteCount getTypeInCommon ++ ')' :: after)) := by
  by_cases several : node.dimensions.length > 1
  · -- The call of `nova_gen_array` goes on behind the allocation.
    refine ⟨castText node.typeCast ++ "nova_gen_array(".toList,
      ", (int[]) \x7b ".toList ++ (", ".toList.intercalate
        (node.dimensions.map fun child => child.generateSourceFragment getTypeInCommon) ++
          (" \x7d, 0, ".toList ++ (Nat.toDigits 10 (node.dimensions.length - 1) ++
            (", sizeof(".toList ++ (node.typeClassName ++ ([')'] ++ [')'])))))), ?_⟩
    simp only [ArrayNode.generateSourceFragment, several, decide_true, if_true, List.append_assoc]
    rfl
  · refine ⟨castText node.typeCast, [], ?_⟩
    simp only [ArrayNode.generateSourceFragment, several, decide_false, Bool.false_eq_true,
      if_false, List.append_nil, List.append_assoc]

theorem array_spliced_iff (node : ArrayNode names) :
    node.Spliced getTypeInCommon ↔
      ∀ dimension ∈ node.dimensions, dimension.Tight getTypeInCommon 14 := by
  have areTypes := fun word member => (node.typeName.areTypes word member).2
  have parses := fun tokens => @parseSize_eq_some names.isType node.typeName.toTypeName
    (node.dimensions.map (Tree.expression getTypeInCommon)) tokens node.typeName.nonempty areTypes
  have counted : ∀ count, (tokenise (node.byteCount getTypeInCommon)).bind
      (parseSize names.isType) = some (node.typeName.toTypeName, count) ∧
        count = product sizeOperand (node.dimensions.map (Tree.expression getTypeInCommon)) ↔
      count = product sizeOperand (node.dimensions.map (Tree.expression getTypeInCommon)) ∧
        ∀ dimension ∈ node.dimensions, dimension.Tight getTypeInCommon 14 := by
    intro count
    constructor
    · intro both
      obtain ⟨parsed, rfl⟩ := both
      refine ⟨rfl, ?_⟩
      rw [tokenise_byteCount, Option.bind_map] at parsed
      obtain ⟨tokens, cut, read⟩ := Option.bind_eq_some_iff.mp parsed
      obtain ⟨rfl, tight⟩ := (parses tokens).mp read
      have unglued := (tokenise_dimensions getTypeInCommon node.dimensions).mp cut
      intro dimension member
      have factor := tight _ (List.mem_map_of_mem member)
      rw [expression_level] at factor
      exact ⟨unglued dimension member, factor.2, factor.1⟩
    · intro both
      obtain ⟨rfl, tight⟩ := both
      refine ⟨?_, rfl⟩
      have cut := (tokenise_dimensions getTypeInCommon node.dimensions).mpr
        fun dimension member => (tight dimension member).unglued
      rw [tokenise_byteCount, cut, Option.map_some, Option.bind_some]
      refine (parses _).mpr ⟨rfl, ?_⟩
      intro factor isFactor
      obtain ⟨dimension, member, rfl⟩ := List.mem_map.mp isFactor
      rw [expression_level]
      exact ⟨(tight dimension member).level, (tight dimension member).grouped⟩
  constructor
  · intro spliced
    obtain ⟨-, -, count, -, parsed, whole, -⟩ := spliced
    exact ((counted count).mp ⟨parsed, whole⟩).2
  · intro tight
    obtain ⟨parsed, whole⟩ := (counted _).mpr ⟨rfl, tight⟩
    obtain ⟨before, after, text⟩ := generateSourceFragment_malloc getTypeInCommon node
    exact ⟨before, after, _, text, parsed, whole, fun V _ meaning times =>
      product_value times _ _⟩

theorem tokenise_header {node : RepeatNode names} {value : Tree names}
    (bounded : node.valueNode = some value) :
    tokenise (node.header getTypeInCommon) =
      (tokenise (value.generateSourceFragment getTypeInCommon ++
          ("; ".toList ++ (node.name.spelling ++ "++)".toList)))).map
        fun tokens => .name "for".toList :: .punctuator .leftParen :: .name node.name.spelling ::
          .punctuator .assign :: .number ['0'] :: .punctuator .semicolon ::
          .name node.name.spelling :: .punctuator .less :: tokens := by
  have keyword : ∀ rest, tokenise ("for".toList ++ ' ' :: rest) =
      (tokenise (' ' :: rest)).map (Token.name "for".toList :: ·) :=
    @tokenise_name_cons "for".toList ⟨by decide, _, _, rfl, rfl⟩ ' ' rfl
  have counter : ∀ rest, tokenise (node.name.spelling ++ ' ' :: rest) =
      (tokenise (' ' :: rest)).map (Token.name node.name.spelling :: ·) :=
    @tokenise_name_cons node.name.spelling node.name.isName ' ' rfl
  have zero : ∀ rest, tokenise (['0'] ++ ';' :: rest) =
      (tokenise (';' :: rest)).map (Token.number ['0'] :: ·) := fun rest =>
    @tokenise_digits 0 [] (';' :: rest) rfl (delimits_cons rfl (by decide) rest)
  have semicolon : ∀ rest, tokenise (';' :: ' ' :: rest) =
      (tokenise rest).map (Token.punctuator .semicolon :: ·) := fun rest =>
    (tokenise_semicolon _).trans (by rw [tokenise_space])
  have assign := tokenise_operator .assign
  have less := tokenise_operator .less
  have text : node.header getTypeInCommon = "for".toList ++ ' ' :: '(' :: (node.name.spelling ++
      ' ' :: (BinaryOp.assign.mark.text ++ ' ' :: (['0'] ++ ';' :: ' ' :: (node.name.spelling ++
        ' ' :: (BinaryOp.less.mark.text ++ ' ' :: (value.generateSourceFragment getTypeInCommon ++
          ("; ".toList ++ (node.name.spelling ++ "++)".toList)))))))) := by
    rw [RepeatNode.header, bounded]
    rfl
  rw [text, keyword, tokenise_space, tokenise_leftParen, counter, assign, zero, semicolon,
    counter, less]
  simp only [Option.map_map, Function.comp_def]
  rfl

theorem tokenise_step_clause (name : SourceName names) :
    tokenise ("; ".toList ++ (name.spelling ++ "++)".toList)) =
      some [.punctuator .semicolon, .name name.spelling, .punctuator .increment,
        .punctuator .rightParen] := by
  have semicolon := tokenise_semicolon (' ' :: (name.spelling ++ "++)".toList))
  have counter : tokenise (name.spelling ++ "++)".toList) =
      (tokenise "++)".toList).map (Token.name name.spelling :: ·) :=
    @tokenise_name_cons name.spelling name.isName '+' rfl ['+', ')']
  have closing : tokenise "++)".toList =
      some [.punctuator .increment, .punctuator .rightParen] := by
    decide +kernel
  rw [tokenise_space, counter, closing] at semicolon
  exact semicolon

theorem repeat_spliced_iff (node : RepeatNode names) :
    node.Spliced getTypeInCommon ↔
      ∀ value, node.valueNode = some value → value.Tight getTypeInCommon 11 := by
  refine forall_congr' fun value => imp_congr_right fun bounded => ?_
  have counter : (Expression.name node.name.spelling).Grouped names.isType := node.name.notType
  have delimits : Delimits ("; ".toList ++ (node.name.spelling ++ "++)".toList)) :=
    delimits_cons rfl (by decide) _
  have lexed := tokenise_tree getTypeInCommon value delimits
    [.punctuator .semicolon, .name node.name.spelling, .punctuator .increment,
      .punctuator .rightParen]
  rw [and_iff_left (tokenise_step_clause node.name)] at lexed
  have clauses : ForHeader.clauses ⟨.binary .assign (.name node.name.spelling) (.number ['0']),
      .binary .less (.name node.name.spelling) (value.expression getTypeInCommon),
      .postfixed .increment (.name node.name.spelling)⟩ =
      .name node.name.spelling :: .punctuator .assign :: .number ['0'] :: .punctuator .semicolon ::
        .name node.name.spelling :: .punctuator .less ::
          ((value.expression getTypeInCommon).tokens ++ [.punctuator .semicolon,
            .name node.name.spelling, .punctuator .increment, .punctuator .rightParen]) := rfl
  dsimp only
  constructor
  · intro spliced
    obtain ⟨header, parsed, rfl, -⟩ := spliced
    rw [tokenise_header getTypeInCommon bounded, Option.bind_map] at parsed
    obtain ⟨tokens, cut, read⟩ := Option.bind_eq_some_iff.mp parsed
    obtain ⟨same, -, condition, -⟩ := parseFor_eq_some.mp read
    rw [clauses] at same
    simp only [List.cons.injEq, true_and] at same
    rw [same] at cut
    have level := condition.2.1
    rw [expression_level] at level
    exact ⟨lexed.mp cut, condition.2.2, level⟩
  · intro tight
    refine ⟨_, ?_, rfl, fun _ _ => rfl⟩
    have level := tight.level
    rw [← expression_level getTypeInCommon] at level
    rw [tokenise_header getTypeInCommon bounded, lexed.mpr tight.unglued, Option.map_some,
      Option.bind_some]
    have leaf : ∀ bound ≤ 16, bound ≤ (Expression.name node.name.spelling).level :=
      fun _ below => below
    exact parseFor_eq_some.mpr ⟨clauses.symm,
      ⟨⟨leaf _ (by decide), counter⟩, by decide, trivial⟩,
      ⟨⟨leaf _ (by decide), counter⟩, level, tight.grouped⟩, ⟨leaf _ (by decide), counter⟩⟩

/-- The operands of array creations and of repeats stay whole exactly when they are grouped
as C groups them and bind more tightly than the operator that they are written behind. -/
theorem spliced_iff :
    (∀ node : ArrayNode names, node.Spliced getTypeInCommon ↔
      ∀ dimension ∈ node.dimensions, dimension.Tight getTypeInCommon 14) ∧
    (∀ node : RepeatNode names, node.Spliced getTypeInCommon ↔
      ∀ value, node.valueNode = some value → value.Tight getTypeInCommon 11) :=
  ⟨array_spliced_iff getTypeInCommon, repeat_spliced_iff getTypeInCommon⟩

end Splicing

/-- `new Int[a + b]` -/
def sampleArray : ArrayNode sampleNames where
  typeCast := []
  typeName := sampleInt
  typeClassName := "int".toList
  dimensions := [sampleSum]

/-- The byte count of `a + b` elements is `sizeof(int) * a + b`, to which `b` is added. -/
theorem sum_spliced_apart :
    sampleArray.byteCount (fun _ _ => none) = "sizeof(int) * a + b".toList ∧
      ¬sampleArray.Spliced (fun _ _ => none) := by
  have text : sampleArray.byteCount (fun _ _ => none) = "sizeof(int) * a + b".toList := by
    decide +kernel
  have parsed : (tokenise "sizeof(int) * a + b".toList).bind (parseSize sampleNames.isType) =
      some (⟨["int".toList], 0⟩,
        .binary .plus (.binary .times sizeOperand (.name ['a'])) (.name ['b'])) := by
    decide +kernel
  refine ⟨text, fun spliced => ?_⟩
  obtain ⟨-, -, count, -, counted, whole, -⟩ := spliced
  rw [text, parsed, Option.some.injEq, Prod.mk.injEq] at counted
  rw [whole] at counted
  have apart := counted.2
  cases apart

end NovaC.Expressions
