import NovaC.C.Types

namespace NovaC.Parameters

open NovaC.C

inductive CType where
  | integer (type : IntType)
  | pointer
deriving DecidableEq

/-- The C expressions that the writers put together; `use` is the parameter. -/
inductive Expression where
  | null
  | use
  | constant (type : CType) (value : Int)
  | cast (type : CType) (operand : Expression)
  | equal (left right : Expression)
  | conditional (condition yes no : Expression)
deriving DecidableEq

inductive Primitive where
  | int
  | long
  | short
  | byte
  | char
  | bool
deriving DecidableEq

/-- A default value is the type of its expression and the value. -/
inductive Parameter where
  | required (type : CType)
  | optional (type : Primitive) (default : IntType × Int)
  | object (default : Int)
  /-- the function, its reference and its context -/
  | closure (default : Option (Int × Int × Int))
deriving DecidableEq

inductive Argument where
  | defaultArgument
  /-- the types and the values of the expressions; a closure has three -/
  | given (values : List (CType × Int))
deriving DecidableEq

section Writers

/-- `(int)(intptr_t)nova_null` -/
def nullSentinel : Expression :=
  .cast (.integer .int) (.cast (.integer .longLong) .null)

/-- What stands for a missing value of a primitive type, and of another one. -/
def sentinel : CType → Expression
  | .integer _ => nullSentinel
  | .pointer => .constant (.integer .int) 0

/-- `ParameterWriter.generateTypeName` of an optional parameter -/
def Primitive.generateTypeName (platform : Platform) : Primitive → IntType
  | int => .int
  | long => .longLong
  | short => .short
  | byte => .char platform
  | char => .int
  | bool => .int

def Parameter.types (platform : Platform) : Parameter → List CType
  | required type => [type]
  | optional type _ => [.integer (type.generateTypeName platform)]
  | object _ => [.pointer]
  | closure _ => [.pointer, .pointer, .pointer]

/-- `DefaultArgumentWriter.generateDefaultArgumentOutput` -/
def Parameter.generateDefaultArgumentOutput (platform : Platform) (parameter : Parameter) :
    List Expression :=
  (parameter.types platform).map sentinel

def Argument.generateSource (platform : Platform) (parameter : Parameter) :
    Argument → List Expression
  | defaultArgument => parameter.generateDefaultArgumentOutput platform
  | given values => values.map fun value => .constant value.1 value.2

/-- The loops of `MethodCallArgumentListWriter.generateSourceFragment`: the arguments,
and then the parameters that are left. -/
def generateArguments (platform : Platform) : List Parameter → List Argument → List Expression
  | parameter :: parameters, argument :: arguments =>
      argument.generateSource platform parameter ++
        generateArguments platform parameters arguments
  | parameters, [] => parameters.flatMap (·.generateDefaultArgumentOutput platform)
  | [], _ :: _ => []

/-- `DefaultParameterInitializationWriter.generateAssignment`: the value that is
assigned; values that are not primitive are cast to `nova_Nova_Object*`. -/
def generateAssignment (type : CType) (default : CType × Int) : Expression :=
  let value := Expression.constant default.1 default.2
  .cast type (.conditional (.equal .use (sentinel type))
    (if default.1 = .pointer then .cast .pointer value else value)
    (if default.1 = .pointer then .cast .pointer .use else .use))

/-- The assignment to one of the three C parameters of a closure. -/
def generateClosureAssignment (default : Int) : Expression :=
  .cast .pointer (.conditional (.equal .use (sentinel .pointer))
    (.cast .pointer (.constant .pointer default)) .use)

/-- The assignments of `DefaultParameterInitializationWriter`, one for each C
parameter. -/
def Parameter.generateInitialization (platform : Platform) : Parameter → List (Option Expression)
  | required _ => [none]
  | optional type default =>
      [some (generateAssignment (.integer (type.generateTypeName platform))
        (.integer default.1, default.2))]
  | object default => [some (generateAssignment .pointer (.pointer, default))]
  | closure none => [none, none, none]
  | closure (some (function, reference, context)) =>
      [function, reference, context].map fun default => some (generateClosureAssignment default)

end Writers

section Meaning

variable (platform : Platform)

/-- A pointer is its address. -/
def CType.convert : CType → Int → Int
  | .integer type, value => type.convert platform value
  | .pointer, value => value

def CType.common : CType → CType → CType
  | .integer first, .integer second => .integer (IntType.arithmetic platform first second)
  | _, _ => .pointer

/-- The type of an expression where the parameter has the given type. -/
def Expression.type (parameter : CType) : Expression → CType
  | null => .pointer
  | use => parameter
  | constant type _ => type
  | cast type _ => type
  | equal _ _ => .integer .int
  | conditional _ yes no => (yes.type parameter).common platform (no.type parameter)

/-- `address` is that of the null object, and `received` is the parameter's value. -/
def Expression.eval (parameter : CType) (address received : Int) : Expression → Int
  | null => address
  | use => received
  | constant _ value => value
  | cast type operand => type.convert platform (operand.eval parameter address received)
  | equal left right =>
      let common := (left.type platform parameter).common platform (right.type platform parameter)
      if common.convert platform (left.eval parameter address received) =
          common.convert platform (right.eval parameter address received) then 1 else 0
  | conditional condition yes no =>
      ((yes.type platform parameter).common platform (no.type platform parameter)).convert platform
        (if condition.eval parameter address received ≠ 0 then yes.eval parameter address received
          else no.eval parameter address received)

/-- The caller's expression, converted to the C parameter's type, and what the callee's
statement makes of it. -/
def slotValue (address : Int) (type : CType) (passed : Expression)
    (initialization : Option Expression) : Int :=
  let received := type.convert platform (passed.eval platform type address 0)
  match initialization with
  | none => received
  | some expression => type.convert platform (expression.eval platform type address received)

/-- One C argument for each C parameter. -/
def slotValues (address : Int) : List CType → List Expression → List (Option Expression) →
    Option (List Int)
  | [], [], [] => some []
  | type :: types, passed :: expressions, initialization :: initializations =>
      (slotValues address types expressions initializations).map
        (slotValue platform address type passed initialization :: ·)
  | _, _, _ => none

/-- The C parameters' values when the body of the method begins, grouped by the
parameter they belong to. -/
def call (address : Int) : List Parameter → List Expression → Option (List (List Int))
  | [], [] => some []
  | [], _ :: _ => none
  | parameter :: parameters, expressions => do
      let types := parameter.types platform
      let values ← slotValues platform address types (expressions.take types.length)
        (parameter.generateInitialization platform)
      let rest ← call address parameters (expressions.drop types.length)
      pure (values :: rest)

end Meaning

end NovaC.Parameters
