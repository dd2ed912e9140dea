import NovaC.C.Tokens

namespace NovaC.C

/-! C expressions, the tokens they are written with, and a parser.

A level counts how tightly an expression holds together, from 2 for an
assignment to 16 for a postfix expression.  Conditional and comma expressions,
`sizeof`, subscripts and member access are left out; a call has two arguments.
-/

structure TypeName where
  words : List (List Char)
  stars : Nat
deriving DecidableEq, Repr

def TypeName.tokens (type : TypeName) : List Token :=
  type.words.map Token.name ++ List.replicate type.stars (.punctuator .star)

inductive BinaryOp where
  | times | divide | remainder | plus | minus | shiftLeft | shiftRight
  | less | greater | lessEqual | greaterEqual | equal | notEqual
  | bitAnd | bitXor | bitOr | logicalAnd | logicalOr
  | assign | timesAssign | divideAssign | remainderAssign | plusAssign | minusAssign
  | shiftLeftAssign | shiftRightAssign | andAssign | xorAssign | orAssign
deriving DecidableEq, Repr

namespace BinaryOp

def mark : BinaryOp → Punctuator
  | times => .star | divide => .slash | remainder => .percent | plus => .plus | minus => .minus
  | shiftLeft => .shiftLeft | shiftRight => .shiftRight | less => .less | greater => .greater
  | lessEqual => .lessEqual | greaterEqual => .greaterEqual | equal => .equal
  | notEqual => .notEqual | bitAnd => .ampersand | bitXor => .caret | bitOr => .bar
  | logicalAnd => .andAnd | logicalOr => .orOr | assign => .assign | timesAssign => .starAssign
  | divideAssign => .slashAssign | remainderAssign => .percentAssign | plusAssign => .plusAssign
  | minusAssign => .minusAssign | shiftLeftAssign => .shiftLeftAssign
  | shiftRightAssign => .shiftRightAssign | andAssign => .ampersandAssign
  | xorAssign => .caretAssign | orAssign => .barAssign

def all : List BinaryOp :=
  [times, divide, remainder, plus, minus, shiftLeft, shiftRight, less, greater, lessEqual,
    greaterEqual, equal, notEqual, bitAnd, bitXor, bitOr, logicalAnd, logicalOr, assign,
    timesAssign, divideAssign, remainderAssign, plusAssign, minusAssign, shiftLeftAssign,
    shiftRightAssign, andAssign, xorAssign, orAssign]

def ofMark (mark : Punctuator) : Option BinaryOp :=
  all.find? fun op => op.mark = mark

@[simp] theorem ofMark_mark (op : BinaryOp) : ofMark op.mark = some op := by
  cases op <;> rfl

theorem mark_of_ofMark {mark : Punctuator} {op : BinaryOp} (read : ofMark mark = some op) :
    op.mark = mark := by
  simpa using List.find?_some read

def level : BinaryOp → Nat
  | times | divide | remainder => 13
  | plus | minus => 12
  | shiftLeft | shiftRight => 11
  | less | greater | lessEqual | greaterEqual => 10
  | equal | notEqual => 9
  | bitAnd => 8
  | bitXor => 7
  | bitOr => 6
  | logicalAnd => 5
  | logicalOr => 4
  | _ => 2

/-- What the grammar asks of the left operand: a unary expression for an
assignment, an expression of the operator's own level for the others. -/
def left (op : BinaryOp) : Nat :=
  if op.level = 2 then 15 else op.level

/-- Assignments group from the right, the others from the left. -/
def right (op : BinaryOp) : Nat :=
  if op.level = 2 then 2 else op.level + 1

theorem two_le_level (op : BinaryOp) : 2 ≤ op.level := by
  cases op <;> decide

theorem level_le_left (op : BinaryOp) : op.level ≤ op.left := by
  cases op <;> decide

theorem level_le_right (op : BinaryOp) : op.level ≤ op.right := by
  cases op <;> decide

theorem right_le (op : BinaryOp) : op.right ≤ 14 := by
  cases op <;> decide

/-- An operator that may stand behind an operation of `inner` does not belong
to its right operand. -/
theorem level_lt_right {op inner : BinaryOp} (allowed : op.left ≤ inner.level) :
    op.level < inner.right := by
  revert allowed
  cases op <;> cases inner <;> decide

end BinaryOp

inductive UnaryOp where
  | negate | plus | logicalNot | complement | address | indirection | increment | decrement
deriving DecidableEq, Repr

namespace UnaryOp

def mark : UnaryOp → Punctuator
  | negate => .minus | plus => .plus | logicalNot => .bang | complement => .tilde
  | address => .ampersand | indirection => .star | increment => .increment
  | decrement => .decrement

def all : List UnaryOp :=
  [negate, plus, logicalNot, complement, address, indirection, increment, decrement]

def ofMark (mark : Punctuator) : Option UnaryOp :=
  all.find? fun op => op.mark = mark

@[simp] theorem ofMark_mark (op : UnaryOp) : ofMark op.mark = some op := by
  cases op <;> rfl

theorem mark_of_ofMark {mark : Punctuator} {op : UnaryOp} (read : ofMark mark = some op) :
    op.mark = mark := by
  simpa using List.find?_some read

/-- `++` and `--` stand before a unary expression, the others before a cast
expression. -/
def operand : UnaryOp → Nat
  | increment | decrement => 15
  | _ => 14

end UnaryOp

inductive StepOp where
  | increment | decrement
deriving DecidableEq, Repr

def StepOp.mark : StepOp → Punctuator
  | increment => .increment
  | decrement => .decrement

inductive Expression where
  | name (spelling : List Char)
  | number (spelling : List Char)
  | parens (inner : Expression)
  | call (function : List Char) (first second : Expression)
  | unary (op : UnaryOp) (operand : Expression)
  | postfixed (op : StepOp) (operand : Expression)
  | cast (type : TypeName) (operand : Expression)
  | binary (op : BinaryOp) (left right : Expression)
deriving DecidableEq, Repr

namespace Expression

def level : Expression → Nat
  | name _ | number _ | parens _ | call .. | postfixed .. => 16
  | unary .. => 15
  | cast .. => 14
  | binary op _ _ => op.level

def tokens : Expression → List Token
  | name spelling => [.name spelling]
  | number spelling => [.number spelling]
  | parens inner => .punctuator .leftParen :: (inner.tokens ++ [.punctuator .rightParen])
  | call function first second =>
      .name function :: .punctuator .leftParen ::
        (first.tokens ++ .punctuator .comma :: (second.tokens ++ [.punctuator .rightParen]))
  | unary op operand => .punctuator op.mark :: operand.tokens
  | postfixed op operand => operand.tokens ++ [.punctuator op.mark]
  | cast type operand =>
      .punctuator .leftParen :: (type.tokens ++ .punctuator .rightParen :: operand.tokens)
  | binary op left right => left.tokens ++ .punctuator op.mark :: right.tokens

variable (isType : List Char → Bool)

/-- Every operand is of the form that C's grammar has in its place. -/
def Grouped : Expression → Prop
  | name spelling => isType spelling = false
  | number _ => True
  | parens inner => inner.Grouped
  | call function first second => isType function = false ∧ first.Grouped ∧ second.Grouped
  | unary op operand => op.operand ≤ operand.level ∧ operand.Grouped
  | postfixed _ operand => 16 ≤ operand.level ∧ operand.Grouped
  | cast type operand =>
      (type.words ≠ [] ∧ ∀ word ∈ type.words, isType word = true) ∧
        14 ≤ operand.level ∧ operand.Grouped
  | binary op left right =>
      (op.left ≤ left.level ∧ left.Grouped) ∧ op.right ≤ right.level ∧ right.Grouped

end Expression

section Parser

variable (isType : List Char → Bool)

def typeWords : List Token → List (List Char) × List Token
  | .name word :: rest =>
      if isType word then (word :: (typeWords rest).1, (typeWords rest).2)
      else ([], .name word :: rest)
  | tokens => ([], tokens)

def typeStars : List Token → Nat × List Token
  | .punctuator .star :: rest => ((typeStars rest).1 + 1, (typeStars rest).2)
  | tokens => (0, tokens)

/-- A type name and the closing parenthesis of a cast. -/
def typeName (tokens : List Token) : Option (TypeName × List Token) :=
  match typeWords isType tokens with
  | ([], _) => none
  | (words, rest) =>
      match typeStars rest with
      | (stars, .punctuator .rightParen :: rest) => some (⟨words, stars⟩, rest)
      | _ => none

def postfixes (operand : Expression) : List Token → Expression × List Token
  | .punctuator .increment :: rest => postfixes (.postfixed .increment operand) rest
  | .punctuator .decrement :: rest => postfixes (.postfixed .decrement operand) rest
  | tokens => (operand, tokens)

def expect (mark : Punctuator) : List Token → Option (List Token)
  | .punctuator found :: rest => if found = mark then some rest else none
  | _ => none

mutual

def parseBinary : Nat → Nat → List Token → Option (Expression × List Token)
  | 0, _, _ => none
  | fuel + 1, min, tokens => do
      let (left, rest) ← parseCast fuel tokens
      parseLoop fuel min left rest

/-- Goes on after `left` as long as an operator of level at least `min` may
follow it. -/
def parseLoop : Nat → Nat → Expression → List Token → Option (Expression × List Token)
  | 0, _, _, _ => none
  | fuel + 1, min, left, .punctuator mark :: rest =>
      match BinaryOp.ofMark mark with
      | some op =>
          if min ≤ op.level ∧ op.left ≤ left.level then do
            let (right, rest) ← parseBinary fuel op.right rest
            parseLoop fuel min (.binary op left right) rest
          else some (left, .punctuator mark :: rest)
      | none => some (left, .punctuator mark :: rest)
  | _ + 1, _, left, tokens => some (left, tokens)

def parseCast : Nat → List Token → Option (Expression × List Token)
  | 0, _ => none
  | fuel + 1, .name function :: .punctuator .leftParen :: rest =>
      if isType function then none
      else do
        let (first, rest) ← parseBinary fuel 2 rest
        let rest ← expect .comma rest
        let (second, rest) ← parseBinary fuel 2 rest
        let rest ← expect .rightParen rest
        return postfixes (.call function first second) rest
  | _ + 1, .name spelling :: rest =>
      if isType spelling then none else some (postfixes (.name spelling) rest)
  | _ + 1, .number spelling :: rest => some (postfixes (.number spelling) rest)
  | fuel + 1, .punctuator .leftParen :: rest =>
      match typeName isType rest with
      | some (type, rest) => do
          let (operand, rest) ← parseCast fuel rest
          return (.cast type operand, rest)
      | none => do
          let (inner, rest) ← parseBinary fuel 2 rest
          let rest ← expect .rightParen rest
          return postfixes (.parens inner) rest
  | fuel + 1, .punctuator mark :: rest => do
      let op ← UnaryOp.ofMark mark
      let (operand, rest) ← parseCast fuel rest
      if op.operand ≤ operand.level then some (.unary op operand, rest) else none
  | _ + 1, [] => none

end

def parse (tokens : List Token) : Option Expression :=
  match parseBinary isType (2 * tokens.length) 2 tokens with
  | some (expression, []) => some expression
  | _ => none

end Parser

end NovaC.C
