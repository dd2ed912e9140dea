import NovaC.C.Expression

namespace NovaC.Expressions

open NovaC.C

/-- The names that C reads as types, those that the writers know among them. -/
structure TypeNames where
  isType : List Char → Bool
  intptr_t : isType "intptr_t".toList = true
  unsigned : isType "unsigned".toList = true
  int : isType "int".toList = true
  fmod : isType "fmod".toList = false

variable {names : TypeNames}

/-- The text of a type: words, and the stars of a pointer. -/
structure CType (names : TypeNames) extends TypeName where
  nonempty : words ≠ []
  areTypes : ∀ word ∈ words, IsName word ∧ names.isType word = true

structure SourceName (names : TypeNames) where
  spelling : List Char
  isName : IsName spelling
  notType : names.isType spelling = false

abbrev Long := { value : Int // -2 ^ 63 ≤ value ∧ value < 2 ^ 63 }

/-- What the writers ask of the node that `getReturnedNode()` gives for an
operand, and of its writer. -/
structure Returned (names : TypeNames) where
  /-- a `Literal` with the value `"0"` -/
  literalZero : Bool
  nullLiteral : Bool
  isPrimitive : Bool
  /-- `getType()` -/
  typeName : List Char
  isOriginallyGenericType : Bool
  /-- the type class is a `nova/primitive/number/RealNumber` -/
  realNumber : Bool
  /-- `generateType` with and without the star of a value reference -/
  type : CType names
  typeNoReference : CType names
  /-- `generatePointerToValueConversion` appends its cast -/
  pointerToValue : Bool
  /-- how many bits a value of the type has -/
  width : Nat

inductive Operator where
  | common (op : BinaryOp)
  | urShift
deriving DecidableEq

namespace Operator

/-- `OperatorWriter.generateSourceFragment`; `>>>` is `UR_SHIFT_C`. -/
def generated : Operator → BinaryOp
  | common op => op
  | urShift => .shiftRight

end Operator

/-- Each node holds what the writers ask of its operands' returned nodes. -/
inductive Tree (names : TypeNames) where
  | variableName (name : SourceName names)
  | literal (value : Long)
  | prefixed (op : UnaryOp) (operand : Tree names)
  | postfixed (op : StepOp) (operand : Tree names)
  | binary (op : Operator) (leftReturned rightReturned : Returned names)
      (left right : Tree names)
  /-- a `BinaryOperation` with one child -/
  | single (operand : Tree names)
  | priority (contents : Tree names)
  | cast (type : CType names) (returned : Returned names) (value : Tree names)

def CType.intptr_t (names : TypeNames) : CType names where
  words := ["intptr_t".toList]
  stars := 0
  nonempty := List.cons_ne_nil _ _
  areTypes := by
    rintro word (_ | ⟨_, ⟨⟩⟩)
    exact ⟨⟨by decide, _, _, rfl, rfl⟩, names.intptr_t⟩

def CType.unsignedInt (names : TypeNames) : CType names where
  words := ["unsigned".toList, "int".toList]
  stars := 0
  nonempty := List.cons_ne_nil _ _
  areTypes := by
    rintro word (_ | ⟨_, (_ | ⟨_, ⟨⟩⟩)⟩)
    · exact ⟨⟨by decide, _, _, rfl, rfl⟩, names.unsigned⟩
    · exact ⟨⟨by decide, _, _, rfl, rfl⟩, names.int⟩

namespace Returned

def generatePointerToValueConversion (returned : Returned names) : List (CType names) :=
  if returned.pointerToValue then [.intptr_t names] else []

/-- The casts that `generateTypeCast` writes. -/
def generateTypeCast (returned : Returned names) (checkValueReference : Bool) :
    List (CType names) :=
  (if checkValueReference then returned.type else returned.typeNoReference) ::
    returned.generatePointerToValueConversion

end Returned

/-- `SyntaxUtils.getTypeInCommon` -/
abbrev TypeInCommon (names : TypeNames) := Returned names → Returned names → Option (Returned names)

section Casts

variable (getTypeInCommon : TypeInCommon names)

/-- `checkType` of `BinaryOperationWriter` -/
def checkType (op : Operator) : Bool :=
  op = .common .equal || op = .common .notEqual

/-- The casts to a type that both operands have in common. -/
def commonCasts (left right : Returned names) : List (CType names) × List (CType names) :=
  if !left.isPrimitive && left.typeName != right.typeName then
    match getTypeInCommon left right with
    | some common => (common.generateTypeCast false, common.generateTypeCast false)
    | none => ([], [])
  else ([], [])

/-- A primitive operand is cast to the type of one that is not. -/
def primitiveCasts (left right : Returned names)
    (casts : List (CType names) × List (CType names)) :
    List (CType names) × List (CType names) :=
  if left.isPrimitive != right.isPrimitive && !left.nullLiteral && !right.nullLiteral then
    if left.isPrimitive then
      (right.generateTypeCast true ++ .intptr_t names :: casts.1, casts.2)
    else (casts.1, left.generateTypeCast true ++ .intptr_t names :: casts.2)
  else casts

def genericCasts (returned : Returned names) : List (CType names) :=
  if returned.isOriginallyGenericType then returned.generateTypeCast false else []

/-- `leftCast` and `rightCast` of `BinaryOperationWriter` -/
def operandCasts (op : Operator) (left right : Returned names) :
    List (CType names) × List (CType names) :=
  let checked :=
    if !(left.literalZero || right.literalZero) && checkType op then
      primitiveCasts left right (commonCasts getTypeInCommon left right)
    else ([], [])
  let casts :=
    if checked.1.isEmpty && checked.2.isEmpty then (genericCasts left, genericCasts right)
    else checked
  if op = .urShift then (.unsignedInt names :: casts.1, casts.2) else casts

/-- `%` on real numbers is a call of `fmod`. -/
def isFmod (op : Operator) (left right : Returned names) : Bool :=
  op = .common .remainder && (left.realNumber || right.realNumber)

end Casts

/-! The text -/

def typeText (type : TypeName) : List Char :=
  [' '].intercalate type.words ++ List.replicate type.stars '*'

def castText (casts : List (CType names)) : List Char :=
  casts.flatMap fun type => '(' :: (typeText type.toTypeName ++ [')'])

def longText (value : Int) : List Char :=
  if value < 0 then '-' :: Nat.toDigits 10 value.natAbs else Nat.toDigits 10 value.natAbs

/-- A literal outside the `int` range, and the least `int`, is written as a
`long long`. -/
def isLongLong (value : Int) : Bool :=
  value > 2 ^ 31 - 1 || value ≤ -2 ^ 31

def suffix (value : Int) : List Char :=
  if isLongLong value then "LL".toList else []

def literalText (value : Int) : List Char :=
  if value = -2 ^ 63 then '(' :: (longText (value + 1) ++ "LL".toList ++ " - 1)".toList)
  else longText value ++ suffix value

section Text

variable (getTypeInCommon : TypeInCommon names)

def Tree.generateSourceFragment : Tree names → List Char
  | .variableName name => name.spelling
  | .literal value => literalText value
  | .prefixed op operand => op.mark.text ++ operand.generateSourceFragment
  | .postfixed op operand => operand.generateSourceFragment ++ op.mark.text
  | .binary op leftReturned rightReturned left right =>
      let casts := operandCasts getTypeInCommon op leftReturned rightReturned
      if isFmod op leftReturned rightReturned then
        "fmod(".toList ++ castText casts.1 ++ left.generateSourceFragment ++ ", ".toList ++
          castText casts.2 ++ right.generateSourceFragment ++ [')']
      else
        castText casts.1 ++ left.generateSourceFragment ++ [' '] ++ op.generated.mark.text ++ [' '] ++
          castText casts.2 ++ right.generateSourceFragment
  | .single operand => operand.generateSourceFragment
  | .priority contents => '(' :: (contents.generateSourceFragment ++ [')'])
  | .cast type returned value =>
      castText (type :: returned.generatePointerToValueConversion) ++ value.generateSourceFragment

end Text

structure Return (names : TypeNames) where
  /-- the parent method, as a value -/
  method : Returned names
  returned : Returned names
  /-- `returned.isGenericType(true)` -/
  genericType : Bool
  /-- the method and the returned value have the same type -/
  sameType : Bool
  /-- for a returned `MethodCall`: it has the type of the method it calls -/
  sameCallType : Option Bool
  value : Tree names

namespace Return

def needsCast (node : Return names) : Bool :=
  node.genericType || !node.sameType || node.sameCallType == some false

def casts (node : Return names) : List (CType names) :=
  if node.needsCast then
    node.method.generateTypeCast true ++ node.returned.generatePointerToValueConversion
  else []

def generateSourceFragment (getTypeInCommon : TypeInCommon names) (node : Return names) :
    List Char :=
  "return ".toList ++ castText node.casts ++ node.value.generateSourceFragment getTypeInCommon

end Return

/-! The C expression that the text stands for: every cast around the whole of
its operand. -/

def castExpression (casts : List (CType names)) (operand : Expression) : Expression :=
  casts.foldr (fun type inner => .cast type.toTypeName inner) operand

def literalExpression (value : Int) : Expression :=
  if value = -2 ^ 63 then
    .parens (.binary .minus
      (.unary .negate (.number (Nat.toDigits 10 (value + 1).natAbs ++ "LL".toList)))
      (.number ['1']))
  else if value < 0 then .unary .negate (.number (Nat.toDigits 10 value.natAbs ++ suffix value))
  else .number (Nat.toDigits 10 value.natAbs ++ suffix value)

variable (getTypeInCommon : TypeInCommon names)

def Tree.expression : Tree names → Expression
  | .variableName name => .name name.spelling
  | .literal value => literalExpression value
  | .prefixed op operand => .unary op operand.expression
  | .postfixed op operand => .postfixed op operand.expression
  | .binary op leftReturned rightReturned left right =>
      let casts := operandCasts getTypeInCommon op leftReturned rightReturned
      if isFmod op leftReturned rightReturned then
        .call "fmod".toList (castExpression casts.1 left.expression)
          (castExpression casts.2 right.expression)
      else
        .binary op.generated (castExpression casts.1 left.expression)
          (castExpression casts.2 right.expression)
  | .single operand => operand.expression
  | .priority contents => .parens contents.expression
  | .cast type returned value =>
      castExpression (type :: returned.generatePointerToValueConversion) value.expression

def Return.expression (node : Return names) : Expression :=
  castExpression node.casts (node.value.expression getTypeInCommon)

/-- The tokens after `return` make up the value. -/
def parseReturn (isType : List Char → Bool) : List Token → Option Expression
  | .name keyword :: rest => if keyword = "return".toList then parse isType rest else none
  | _ => none

end NovaC.Expressions
