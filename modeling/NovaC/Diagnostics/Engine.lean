import Mathlib

namespace NovaC.Diagnostics

/-! `CCompileEngine`: its constructor, `checkArgument`, and the listener that receives
the messages of the C compiler.

Each text keeps the messages that it was put together from, so that a message can be
found again in what is printed.
-/

abbrev Text := List Char

inductive Compiler where
  | gcc
  | tcc
  | clang
deriving DecidableEq

def NO_ERRORS : Nat := 0x10000
def NO_WARNINGS : Nat := 0x01000
def NO_NOTES : Nat := 0x00100
def LINE_NUMBERS : Nat := 0x00010
def FORCE_RECOMPILE : Nat := 0x00001

structure Engine where
  compiler : Compiler
  flags : Nat
  hiddenCompilerMessages : List Text
  forceRecompile : Bool
  forceCheck : Bool
  singleFile : Bool
deriving DecidableEq

def compileMessages (flags : Nat) : List Text :=
  (if flags &&& NO_NOTES ≠ 0 then ["note".toList] else []) ++
    ((if flags &&& NO_WARNINGS ≠ 0 then ["warning".toList] else []) ++
      (if flags &&& NO_ERRORS ≠ 0 then ["error".toList, "fatal error".toList] else []))

/-- The constructor; a new object's flags are 0. -/
def Engine.new : Engine where
  compiler := .gcc
  flags := 0
  hiddenCompilerMessages := compileMessages 0
  forceRecompile := false
  forceCheck := false
  singleFile := false

def Engine.checkArgument (engine : Engine) (arg : Text) : Engine × Bool :=
  if arg = "-gcc".toList then ({ engine with compiler := .gcc }, true)
  else if arg = "-tcc".toList then ({ engine with compiler := .tcc }, true)
  else if arg = "-clang".toList then ({ engine with compiler := .clang }, true)
  else if arg = "-no-notes".toList then ({ engine with flags := engine.flags ||| NO_NOTES }, true)
  else if arg = "-no-warnings".toList then
    ({ engine with flags := engine.flags ||| NO_WARNINGS }, true)
  else if arg = "-no-errors".toList then ({ engine with flags := engine.flags ||| NO_ERRORS }, true)
  else if arg = "-line-numbers".toList then
    ({ engine with flags := engine.flags ||| LINE_NUMBERS }, true)
  else if arg = "-f".toList ∨ arg = "-force".toList then
    ({ engine with flags := engine.flags ||| FORCE_RECOMPILE, forceRecompile := true }, true)
  else if arg = "-force-check".toList then ({ engine with forceCheck := true }, true)
  else if arg = "-single-file".toList then ({ engine with singleFile := true }, true)
  else (engine, false)

def Engine.checkArguments (engine : Engine) (args : List Text) : Engine :=
  args.foldl (fun engine arg => (engine.checkArgument arg).1) engine

/-- `String.contains` -/
def contains (text part : Text) : Bool :=
  text.tails.any fun rest => part.isPrefixOf rest

/-- `String.trim` -/
def trim (text : Text) : Text :=
  ((text.dropWhile (· ≤ ' ')).reverse.dropWhile (· ≤ ' ')).reverse

/-- What a text is put together from: the message with that number, or a line end. -/
inductive Piece where
  | message (number : Nat) (text : Text)
  | newline
deriving DecidableEq

def Piece.text : Piece → Text
  | message _ text => text
  | newline => ['\n']

def textOf (pieces : List Piece) : Text :=
  pieces.flatMap (·.text)

/-- The pieces of a text without the blanks in front of it. -/
def trimStart : List Piece → List Piece
  | [] => []
  | .newline :: pieces => trimStart pieces
  | .message number text :: pieces =>
      match text.dropWhile (· ≤ ' ') with
      | [] => trimStart pieces
      | first :: rest => .message number (first :: rest) :: pieces

def Piece.reverse : Piece → Piece
  | message number text => message number text.reverse
  | newline => newline

def reversed (pieces : List Piece) : List Piece :=
  pieces.reverse.map Piece.reverse

/-- The pieces of `String.trim`; a message may lose its ends. -/
def trimPieces (pieces : List Piece) : List Piece :=
  reversed (trimStart (reversed (trimStart pieces)))

theorem textOf_trimStart (pieces : List Piece) :
    textOf (trimStart pieces) = (textOf pieces).dropWhile (· ≤ ' ') := by
  induction pieces with
  | nil => rfl
  | cons piece pieces ih =>
      have split : textOf (piece :: pieces) = piece.text ++ textOf pieces := List.flatMap_cons
      rw [split, List.dropWhile_append]
      cases piece with
      | newline => exact ih
      | message number text =>
          rw [trimStart, Piece.text]
          cases text.dropWhile (· ≤ ' ') with
          | nil => exact ih
          | cons first rest => rfl

theorem textOf_reversed (pieces : List Piece) : textOf (reversed pieces) = (textOf pieces).reverse := by
  induction pieces with
  | nil => rfl
  | cons piece pieces ih =>
      have split : textOf (piece :: pieces) = piece.text ++ textOf pieces := List.flatMap_cons
      have ends : piece.reverse.text = piece.text.reverse := by cases piece <;> rfl
      rw [split, List.reverse_append, ← ih, reversed, reversed, List.reverse_cons, List.map_append,
        textOf, List.flatMap_append, ← ends]
      simp [textOf]

theorem textOf_trimPieces (pieces : List Piece) : textOf (trimPieces pieces) = trim (textOf pieces) := by
  rw [trimPieces, textOf_reversed, textOf_trimStart, textOf_reversed, textOf_trimStart, trim]

/-- The listener; `printed` is what was printed to `System.err`, up to the line ends. -/
structure Listener where
  failed : Bool
  errorCount : Nat
  warningCount : Nat
  currentMessage : List Piece
  printed : List (List Piece)
deriving DecidableEq

def Listener.start : Listener where
  failed := false
  errorCount := 0
  warningCount := 0
  currentMessage := []
  printed := []

section

variable (engine : Engine)

/-- `message.trim().startsWith("^")` -/
def isPosition (message : Text) : Bool :=
  "^".toList.isPrefixOf (trim message)

/-- `x + ":"` in the message -/
def mentions (message kind : Text) : Bool :=
  contains message (kind ++ [':'])

def Listener.addError (listener : Listener) (number : Nat) (message : Text) : Listener :=
  let current := listener.currentMessage ++ [.message number message]
  if isPosition message then
    let kinds := (engine.hiddenCompilerMessages.filter fun kind =>
      !mentions (textOf current) kind).map fun kind => kind.map Char.toLower
    if 0 < kinds.length then
      { failed := true
        errorCount := listener.errorCount +
          kinds.countP fun kind => contains kind "error".toList
        warningCount := listener.warningCount +
          kinds.countP fun kind => !contains kind "error".toList && contains kind "warning".toList
        currentMessage := []
        printed := listener.printed ++ [current] }
    else { listener with failed := true, currentMessage := [] }
  else { listener with failed := true, currentMessage := current ++ [.newline] }

/-- The test that depends on the compiler. -/
def acceptedByCompiler (compiler : Compiler) (message : Text) : Bool :=
  match compiler with
  | .tcc => contains message "error: ".toList
  | .gcc =>
      contains message "\nerror: ".toList || contains message ": error: ".toList ||
        contains message ": fatal error: ".toList
  | .clang => true

/-- The test for messages of `make` and of the linker. -/
def acceptedByMake (message : Text) : Bool :=
  contains message ": ***".toList || contains message "ld.exe: ".toList

def Listener.errorReceived (listener : Listener) (number : Nat) (message : Text) : Listener :=
  let listener :=
    if acceptedByCompiler engine.compiler message then listener.addError engine number message
    else listener
  if acceptedByMake message then listener.addError engine number message else listener

def Listener.resultReceived (listener : Listener) : Listener :=
  if engine.hiddenCompilerMessages.any (mentions (textOf listener.currentMessage)) then listener
  else { listener with printed := listener.printed ++ [trimPieces listener.currentMessage] }

/-- The messages, numbered from `number` on. -/
def Listener.receive (listener : Listener) (number : Nat) : List Text → Listener
  | [] => listener
  | message :: messages =>
      (listener.errorReceived engine number message).receive (number + 1) messages

end

/-- What the listener has done when the command was executed. -/
def run (args messages : List Text) : Listener :=
  let engine := Engine.new.checkArguments args
  (Listener.start.receive engine 0 messages).resultReceived engine

end NovaC.Diagnostics
