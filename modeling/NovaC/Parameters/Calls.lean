import NovaC.Parameters.Default

namespace NovaC.Parameters

open NovaC.C

variable (platform : Platform) (address : Int)

def Primitive.Holds : Primitive → Int → Prop
  | int, value => IntType.int.Holds platform value
  | long, value => IntType.longLong.Holds platform value
  | short, value => IntType.short.Holds platform value
  | byte, value => (IntType.char platform).Holds platform value
  | char, value => (IntType.char platform).Holds platform value
  | bool, value => value = 0 ∨ value = 1

def Argument.Suits : Parameter → Argument → Prop
  | _, defaultArgument => True
  | .optional type _, given values =>
      ∃ expressionType value, values = [(.integer expressionType, value)] ∧
        type.Holds platform value
  | parameter, given values => values.length = (parameter.types platform).length

/-- A call of a method, as the frontend accepts it. -/
structure Call where
  parameters : List Parameter
  arguments : List Argument
  notMore : arguments.length ≤ parameters.length
  suits : ∀ pair ∈ parameters.zip arguments, pair.2.Suits platform pair.1
  defaults : ∀ type default, .optional type default ∈ parameters → type.Holds platform default.2

/-- The value of `(int)(intptr_t)nova_null`. -/
def sentinelValue : Int :=
  IntType.int.convert platform address

theorem nullSentinel_eval (parameter : CType) (received : Int) :
    nullSentinel.eval platform parameter address received = sentinelValue platform address := by
  simp only [nullSentinel, Expression.eval, CType.convert, sentinelValue]
  exact IntType.convert_convert platform .int .longLong address (by simp [IntType.bits,
    IntType.int, IntType.longLong, Rank.bits])

theorem nullSentinel_type (parameter : CType) :
    nullSentinel.type platform parameter = .integer .int :=
  rfl

theorem sentinelValue_holds : IntType.int.Holds platform (sentinelValue platform address) :=
  IntType.convert_holds platform .int address

namespace Primitive

theorem promote_generateTypeName (type : Primitive) :
    (type.generateTypeName platform).promote.signed = true := by
  cases type <;> rfl

variable {platform} in
theorem Holds.generateTypeName {type : Primitive} {value : Int} (holds : type.Holds platform value) :
    (type.generateTypeName platform).Holds platform value := by
  cases type with
  | int => exact holds
  | long => exact holds
  | short => exact holds
  | byte => exact holds
  | char => exact IntType.holds_promote platform holds
  | bool =>
      apply (IntType.int_holds platform).mpr
      rcases holds with rfl | rfl <;> omega

end Primitive

theorem convert_arithmetic_int_inj {type : IntType} (signed : type.promote.signed = true)
    {value other : Int} (holds : type.Holds platform value)
    (otherHolds : IntType.int.Holds platform other) :
    (IntType.arithmetic platform type .int).convert platform value =
        (IntType.arithmetic platform type .int).convert platform other ↔ value = other := by
  have kept := (@IntType.holds_arithmetic platform value type .int signed rfl).1 holds
  have otherKept := (@IntType.holds_arithmetic platform other type .int signed rfl).2 otherHolds
  rw [IntType.convert_of_holds platform kept, IntType.convert_of_holds platform otherKept]

/-- The callee's statement takes the sentinel, and only the sentinel, for a missing argument. -/
theorem slotValue_optional (type : Primitive) (default : IntType × Int)
    (holds : type.Holds platform default.2) (passed : Expression) :
    slotValue platform address (.integer (type.generateTypeName platform)) passed
        (some (generateAssignment (.integer (type.generateTypeName platform))
          (.integer default.1, default.2))) =
      let received := (type.generateTypeName platform).convert platform
        (passed.eval platform (.integer (type.generateTypeName platform)) address 0)
      if received = sentinelValue platform address then default.2 else received := by
  have wide := (IntType.bits_le_arithmetic platform default.1 (type.generateTypeName platform)).2
  have fits := type.promote_generateTypeName platform
  generalize ctype : type.generateTypeName platform = target at wide fits ⊢
  have defaultHolds : target.Holds platform default.2 := ctype ▸ holds.generateTypeName
  have receivedHolds := IntType.convert_holds platform target
    (passed.eval platform (.integer target) address 0)
  have compares := convert_arithmetic_int_inj platform fits receivedHolds
    (sentinelValue_holds platform address)
  simp only [slotValue, generateAssignment, sentinel, reduceCtorEq, if_false, Expression.eval,
    Expression.type, CType.common, CType.convert, nullSentinel_eval, nullSentinel_type, compares,
    IntType.convert_convert platform target _ _ wide,
    IntType.convert_convert platform target target _ (Nat.le_refl _)]
  by_cases missing : target.convert platform (passed.eval platform (.integer target) address 0) =
      sentinelValue platform address
  · simp only [missing, if_true, ne_eq, one_ne_zero, not_false_iff,
      IntType.convert_of_holds platform defaultHolds]
  · simp only [missing, if_false, ne_eq, not_true, IntType.convert_of_holds platform receivedHolds]

/-- The explicit argument, or else the default value. -/
def wanted (default : Int) : Option Argument → Int
  | some (.given [(_, value)]) => value
  | _ => default

/-- Each optional primitive parameter holds what it should. -/
def DefaultsKept (method : Call platform) : Prop :=
  ∃ values, call platform address method.parameters
      (generateArguments platform method.parameters method.arguments) = some values ∧
    ∀ (index : Nat) (type : Primitive) (default : IntType × Int),
      method.parameters[index]? = some (.optional type default) →
        values[index]? = some [wanted default.2 method.arguments[index]?]

/-- An explicit argument is not the sentinel, and the sentinel of a missing one is a
value of the C type; where that fails, the value is the default by chance. -/
def ToldApart (type : Primitive) (default : Int) : Option Argument → Prop
  | some (.given [(_, value)]) => value ≠ sentinelValue platform address ∨ value = default
  | _ =>
      (type.generateTypeName platform).Holds platform (sentinelValue platform address) ∨
        (type.generateTypeName platform).convert platform (sentinelValue platform address) = default

theorem generateArguments_cons (parameter : Parameter) (parameters : List Parameter)
    (arguments : List Argument) :
    generateArguments platform (parameter :: parameters) arguments =
      (arguments.head?.getD .defaultArgument).generateSource platform parameter ++
        generateArguments platform parameters arguments.tail := by
  cases arguments with
  | nil =>
      cases parameters <;>
        simp [generateArguments, Argument.generateSource, Parameter.generateDefaultArgumentOutput]
  | cons argument arguments => rfl

variable {platform}

theorem Argument.Suits.length {argument : Argument} {parameter : Parameter}
    (suits : argument.Suits platform parameter) :
    (argument.generateSource platform parameter).length = (parameter.types platform).length := by
  cases argument with
  | defaultArgument =>
      simp only [generateSource, Parameter.generateDefaultArgumentOutput, List.length_map]
  | given values =>
      rw [generateSource, List.length_map]
      cases parameter with
      | optional type default =>
          obtain ⟨expressionType, value, rfl, -⟩ := suits
          rfl
      | required type => exact suits
      | object default => exact suits
      | closure default => exact suits

theorem generateInitialization_length (parameter : Parameter) :
    (parameter.generateInitialization platform).length = (parameter.types platform).length := by
  cases parameter with
  | closure default => cases default <;> rfl
  | _ => rfl

theorem slotValues_isSome {types : List CType} {expressions : List Expression}
    {initializations : List (Option Expression)} (sized : expressions.length = types.length)
    (assigned : initializations.length = types.length) :
    ∃ values, slotValues platform address types expressions initializations = some values := by
  induction types generalizing expressions initializations with
  | nil =>
      obtain rfl := List.length_eq_zero_iff.mp sized
      obtain rfl := List.length_eq_zero_iff.mp assigned
      exact ⟨[], rfl⟩
  | cons type types ih =>
      cases expressions with
      | nil => cases sized
      | cons expression expressions =>
          cases initializations with
          | nil => cases assigned
          | cons initialization initializations =>
              obtain ⟨values, found⟩ := ih (Nat.succ.inj sized) (Nat.succ.inj assigned)
              exact ⟨_, by rw [slotValues, found, Option.map_some]⟩

theorem call_generateArguments {parameters : List Parameter} {arguments : List Argument}
    (notMore : arguments.length ≤ parameters.length)
    (suits : ∀ pair ∈ parameters.zip arguments, pair.2.Suits platform pair.1) :
    ∃ values, call platform address parameters (generateArguments platform parameters arguments) =
        some values ∧
      ∀ (index : Nat) (parameter : Parameter), parameters[index]? = some parameter →
        values[index]? = slotValues platform address (parameter.types platform)
          ((arguments[index]?.getD .defaultArgument).generateSource platform parameter)
          (parameter.generateInitialization platform) := by
  induction parameters generalizing arguments with
  | nil =>
      obtain rfl := List.length_eq_zero_iff.mp (Nat.le_zero.mp notMore)
      exact ⟨[], rfl, by simp⟩
  | cons parameter parameters ih =>
      have headSuits : (arguments.head?.getD .defaultArgument).Suits platform parameter := by
        cases arguments with
        | nil => cases parameter <;> trivial
        | cons argument arguments => exact suits (parameter, argument) (by simp)
      have tailSuits : ∀ pair ∈ parameters.zip arguments.tail, pair.2.Suits platform pair.1 := by
        cases arguments with
        | nil => simp
        | cons argument arguments =>
            intro pair member
            exact suits pair (List.mem_cons_of_mem _ member)
      obtain ⟨rest, called, others⟩ := @ih arguments.tail
        (by simp only [List.length_tail, List.length_cons] at notMore ⊢; omega) tailSuits
      obtain ⟨values, passed⟩ := slotValues_isSome address headSuits.length
        (generateInitialization_length parameter)
      refine ⟨values :: rest, ?_, ?_⟩
      · rw [generateArguments_cons, call, ← headSuits.length, List.take_left, List.drop_left,
          passed, called]
        rfl
      · intro index other found
        cases index with
        | zero =>
            obtain rfl := Option.some.inj found
            rw [← List.head?_eq_getElem? (l := arguments), passed]
            rfl
        | succ index =>
            have tail := others index other found
            rw [List.getElem?_tail] at tail
            exact tail

theorem optional_wanted_iff {type : Primitive} {default : IntType × Int}
    (holds : type.Holds platform default.2) {argument : Option Argument}
    (suits : ∀ explicit, argument = some explicit →
      explicit.Suits platform (.optional type default)) :
    slotValues platform address (Parameter.types platform (.optional type default))
        ((argument.getD .defaultArgument).generateSource platform (.optional type default))
        (Parameter.generateInitialization platform (.optional type default)) =
      some [wanted default.2 argument] ↔ ToldApart platform address type default.2 argument := by
  have missing : slotValues platform address (Parameter.types platform (.optional type default))
        (Parameter.generateDefaultArgumentOutput platform (.optional type default))
        (Parameter.generateInitialization platform (.optional type default)) =
      some [default.2] ↔
        (type.generateTypeName platform).Holds platform (sentinelValue platform address) ∨
          (type.generateTypeName platform).convert platform (sentinelValue platform address) =
            default.2 := by
    simp only [Parameter.types, Parameter.generateDefaultArgumentOutput, List.map_cons,
      List.map_nil, Parameter.generateInitialization, slotValues, Option.map_some, sentinel,
      slotValue_optional platform address type default holds, nullSentinel_eval, Option.some.injEq,
      List.cons.injEq, and_true, ← IntType.convert_eq_iff platform]
    split
    · rename_i same
      simp only [same, true_or]
    · rename_i changed
      simp only [changed, false_or]
  cases argument with
  | none => exact missing
  | some argument =>
      cases argument with
      | defaultArgument => exact missing
      | given values =>
          obtain ⟨expressionType, value, rfl, inRange⟩ := suits _ rfl
          have received := IntType.convert_of_holds platform inRange.generateTypeName
          simp only [Option.getD_some, Argument.generateSource, Parameter.types, List.map_cons,
            List.map_nil, Parameter.generateInitialization, slotValues, Option.map_some,
            slotValue_optional platform address type default holds, Expression.eval, received,
            wanted, ToldApart, Option.some.injEq, List.cons.injEq, and_true]
          by_cases clash : value = sentinelValue platform address
          · simp only [clash, if_true, ne_eq, not_true, false_or, eq_comm]
          · simp only [clash, if_false, ne_eq, not_false_iff, true_or]

variable (platform) in
/-- The parameters hold what they should exactly where the sentinel tells a missing
argument from an explicit one. -/
theorem defaults_kept_iff (method : Call platform) :
    DefaultsKept platform address method ↔
      ∀ (index : Nat) (type : Primitive) (default : IntType × Int),
        method.parameters[index]? = some (.optional type default) →
          ToldApart platform address type default.2 method.arguments[index]? := by
  obtain ⟨values, called, held⟩ := call_generateArguments address method.notMore method.suits
  have each : ∀ (index : Nat) (type : Primitive) (default : IntType × Int),
      method.parameters[index]? = some (.optional type default) →
        (values[index]? = some [wanted default.2 method.arguments[index]?] ↔
          ToldApart platform address type default.2 method.arguments[index]?) := by
    intro index type default found
    rw [held index _ found]
    apply optional_wanted_iff address (method.defaults type default (List.mem_of_getElem? found))
    intro explicit given
    apply method.suits (.optional type default, explicit)
    exact List.mem_of_getElem? (i := index) (by rw [List.getElem?_zip_eq_some]; exact ⟨found, given⟩)
  constructor
  · intro kept index type default found
    obtain ⟨others, calledToo, holds⟩ := kept
    obtain rfl := Option.some.inj (called.symm.trans calledToo)
    exact (each index type default found).mp (holds index type default found)
  · intro apart
    exact ⟨values, called, fun index type default found =>
      (each index type default found).mpr (apart index type default found)⟩

/-- A method with a `Short` parameter that is 7 by default, called without it. -/
def omittedShort (platform : Platform) : Call platform where
  parameters := [.optional .short (.int, 7)]
  arguments := []
  notMore := by simp
  suits := by simp
  defaults := by
    intro type default member
    obtain ⟨rfl, rfl⟩ := Parameter.optional.inj (List.mem_singleton.mp member)
    simp [Primitive.Holds, IntType.Holds, IntType.short, IntType.bits, Rank.bits]

/-- A method with an `Int` parameter that is 7 by default, called with 65536. -/
def explicitInt (platform : Platform) : Call platform where
  parameters := [.optional .int (.int, 7)]
  arguments := [.given [(.integer .int, 65536)]]
  notMore := by simp
  suits := by
    intro pair member
    obtain rfl := List.mem_singleton.mp member
    exact ⟨.int, 65536, rfl, (IntType.int_holds platform).mpr (by omega)⟩
  defaults := by
    intro type default member
    obtain ⟨rfl, rfl⟩ := Parameter.optional.inj (List.mem_singleton.mp member)
    exact (IntType.int_holds platform).mpr (by omega)

def linux : Platform where
  charSigned := true
  longBits := 64
  longBits_eq := .inr rfl

/-- With the null object at 65536 the `Short` parameter is 0, and the `Int` one is 7. -/
theorem sentinel_taken_for_value :
    ¬DefaultsKept linux 65536 (omittedShort linux) ∧ ¬DefaultsKept linux 65536 (explicitInt linux) := by
  constructor
  · intro kept
    obtain ⟨values, called, holds⟩ := kept
    have received : call linux 65536 (omittedShort linux).parameters
        (generateArguments linux (omittedShort linux).parameters []) = some [[0]] := by decide
    obtain rfl := Option.some.inj (received.symm.trans called)
    have wrong := holds 0 .short (.int, 7) rfl
    cases wrong
  · intro kept
    obtain ⟨values, called, holds⟩ := kept
    have received : call linux 65536 (explicitInt linux).parameters
        (generateArguments linux (explicitInt linux).parameters (explicitInt linux).arguments) =
          some [[7]] := by decide
    obtain rfl := Option.some.inj (received.symm.trans called)
    have wrong := holds 0 .int (.int, 7) rfl
    cases wrong

end NovaC.Parameters
