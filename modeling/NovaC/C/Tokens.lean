import Mathlib

namespace NovaC.C

/-! C's preprocessing tokens, cut off a text by maximal munch.

Only the characters that expressions are made of are known: comments, string
and character constants are left out.
-/

inductive Punctuator where
  | leftParen | rightParen | leftBracket | rightBracket | comma | semicolon | colon | question
  | dot | ellipsis | arrow | increment | decrement
  | ampersand | star | plus | minus | tilde | bang | slash | percent
  | shiftLeft | shiftRight | less | greater | lessEqual | greaterEqual | equal | notEqual
  | caret | bar | andAnd | orOr
  | assign | starAssign | slashAssign | percentAssign | plusAssign | minusAssign
  | shiftLeftAssign | shiftRightAssign | ampersandAssign | caretAssign | barAssign
deriving DecidableEq, Repr

namespace Punctuator

def text : Punctuator → List Char
  | leftParen => ['('] | rightParen => [')'] | leftBracket => ['['] | rightBracket => [']']
  | comma => [','] | semicolon => [';'] | colon => [':'] | question => ['?']
  | dot => ['.'] | ellipsis => ['.', '.', '.'] | arrow => ['-', '>']
  | increment => ['+', '+'] | decrement => ['-', '-']
  | ampersand => ['&'] | star => ['*'] | plus => ['+'] | minus => ['-'] | tilde => ['~']
  | bang => ['!'] | slash => ['/'] | percent => ['%']
  | shiftLeft => ['<', '<'] | shiftRight => ['>', '>'] | less => ['<'] | greater => ['>']
  | lessEqual => ['<', '='] | greaterEqual => ['>', '='] | equal => ['=', '=']
  | notEqual => ['!', '='] | caret => ['^'] | bar => ['|'] | andAnd => ['&', '&']
  | orOr => ['|', '|'] | assign => ['='] | starAssign => ['*', '='] | slashAssign => ['/', '=']
  | percentAssign => ['%', '='] | plusAssign => ['+', '='] | minusAssign => ['-', '=']
  | shiftLeftAssign => ['<', '<', '='] | shiftRightAssign => ['>', '>', '=']
  | ampersandAssign => ['&', '='] | caretAssign => ['^', '='] | barAssign => ['|', '=']

/-- The longer ones first. -/
def all : List Punctuator :=
  [ellipsis, shiftLeftAssign, shiftRightAssign,
    arrow, increment, decrement, shiftLeft, shiftRight, lessEqual, greaterEqual, equal, notEqual,
    andAnd, orOr, starAssign, slashAssign, percentAssign, plusAssign, minusAssign,
    ampersandAssign, caretAssign, barAssign,
    leftParen, rightParen, leftBracket, rightBracket, comma, semicolon, colon, question, dot,
    ampersand, star, plus, minus, tilde, bang, slash, percent, less, greater, caret, bar, assign]

theorem mem_all (punctuator : Punctuator) : punctuator ∈ all := by
  cases punctuator <;> decide

theorem all_longestFirst :
    all.Pairwise fun earlier later => later.text.length ≤ earlier.text.length := by
  decide

theorem text_injective {one other : Punctuator} (same : one.text = other.text) : one = other := by
  revert same
  cases one <;> cases other <;> decide

/-- Some punctuator goes on with `next`. -/
def Extends (punctuator : Punctuator) (next : Char) : Prop :=
  ∃ longer ∈ all, punctuator.text ++ [next] <+: longer.text

instance (punctuator : Punctuator) (next : Char) : Decidable (punctuator.Extends next) :=
  inferInstanceAs (Decidable (∃ longer ∈ all, _))

/-- The longest punctuator that the text starts with. -/
def munch (text : List Char) : Option Punctuator :=
  all.find? fun punctuator => punctuator.text.isPrefixOf text

theorem munch_text {punctuator : Punctuator} {rest : List Char}
    (stops : ∀ next, rest.head? = some next → ¬punctuator.Extends next) :
    munch (punctuator.text ++ rest) = some punctuator := by
  obtain ⟨earlier, later, split⟩ := List.append_of_mem (mem_all punctuator)
  refine List.find?_eq_some_iff_append.mpr
    ⟨List.isPrefixOf_iff_prefix.mpr (List.prefix_append _ _), earlier, later, split, ?_⟩
  intro longer inEarlier
  rw [Bool.not_eq_true', ← Bool.not_eq_true, List.isPrefixOf_iff_prefix]
  intro found
  have length : punctuator.text.length ≤ longer.text.length := by
    have ordered := all_longestFirst
    rw [split, List.pairwise_append] at ordered
    exact ordered.2.2 longer inEarlier punctuator List.mem_cons_self
  obtain ⟨more, extended⟩ :=
    List.prefix_of_prefix_length_le (List.prefix_append _ rest) found length
  cases more with
  | nil =>
      have distinct : all.Nodup := by decide
      rw [split, List.nodup_append] at distinct
      rw [List.append_nil] at extended
      exact distinct.2.2 longer inEarlier punctuator List.mem_cons_self
        (text_injective extended.symm)
  | cons next more =>
      apply stops next
      · obtain ⟨remaining, same⟩ := found
        rw [← extended, List.append_assoc, List.append_cancel_left_eq] at same
        rw [← same]
        rfl
      · refine ⟨longer, mem_all longer, more, ?_⟩
        rw [← extended, List.append_assoc]
        rfl

end Punctuator

/-! Names and numbers -/

def isLetter (char : Char) : Bool :=
  char.isAlpha || char == '_'

def isNameChar (char : Char) : Bool :=
  isLetter char || char.isDigit

def isExponentMark (char : Char) : Bool :=
  char == 'e' || char == 'E' || char == 'p' || char == 'P'

def isSign (char : Char) : Bool :=
  char == '+' || char == '-'

theorem isNameChar_of_exponentMark {char : Char} (mark : isExponentMark char = true) :
    isNameChar char = true := by
  simp only [isExponentMark, Bool.or_eq_true, beq_iff_eq] at mark
  rcases mark with ((rfl | rfl) | rfl) | rfl <;> rfl

/-- The rest of a preprocessing number, in which an exponent has its sign. -/
def numberTail : List Char → List Char
  | [] => []
  | [char] => if isNameChar char || char == '.' then [char] else []
  | char :: next :: rest =>
      if isExponentMark char && isSign next then char :: next :: numberTail rest
      else if isNameChar char || char == '.' then char :: numberTail (next :: rest)
      else []

inductive Token where
  | name (spelling : List Char)
  | number (spelling : List Char)
  | punctuator (mark : Punctuator)
deriving DecidableEq, Repr

def Token.text : Token → List Char
  | .name spelling => spelling
  | .number spelling => spelling
  | .punctuator mark => mark.text

/-- The first token of a text that starts with no space. -/
def munch (text : List Char) : Option Token :=
  match text with
  | [] => none
  | first :: rest =>
      if isLetter first then some (.name (text.takeWhile isNameChar))
      else if first.isDigit then some (.number (numberTail text))
      else if first == '.' && (rest.head?.map Char.isDigit).getD false then
        some (.number (numberTail text))
      else (Punctuator.munch text).map Token.punctuator

/-- The tokens after the first `skip` characters. -/
def tokeniseFrom : Nat → List Char → Option (List Token)
  | _, [] => some []
  | skip + 1, _ :: rest => tokeniseFrom skip rest
  | 0, char :: rest =>
      if char = ' ' then tokeniseFrom 0 rest
      else do
        let token ← munch (char :: rest)
        let tokens ← tokeniseFrom (token.text.length - 1) rest
        return token :: tokens

def tokenise (text : List Char) : Option (List Token) :=
  tokeniseFrom 0 text

theorem tokeniseFrom_drop (skip : Nat) (text : List Char) :
    tokeniseFrom skip text = tokenise (text.drop skip) := by
  induction text generalizing skip with
  | nil => simp [tokenise, tokeniseFrom]
  | cons char rest ih =>
      cases skip with
      | zero => rfl
      | succ skip => rw [tokeniseFrom, ih, List.drop_succ_cons]

@[simp] theorem tokenise_space (rest : List Char) : tokenise (' ' :: rest) = tokenise rest := by
  rw [tokenise, tokeniseFrom, if_pos rfl, tokenise]

theorem tokenise_munch (token : Token) {rest : List Char} {first : Char} {others : List Char}
    (spelled : token.text = first :: others) (notSpace : first ≠ ' ')
    (munched : munch (token.text ++ rest) = some token) :
    tokenise (token.text ++ rest) = (tokenise rest).map (token :: ·) := by
  rw [spelled, List.cons_append] at munched ⊢
  rw [tokenise, tokeniseFrom, if_neg notSpace, munched, Option.bind_eq_bind, Option.bind_some,
    tokeniseFrom_drop, spelled, List.length_cons, Nat.add_sub_cancel, List.drop_left]
  cases tokenise rest <;> rfl

/-! One lemma for each kind of token: what follows it may not belong to it. -/

theorem tokenise_punctuator (mark : Punctuator) {rest : List Char}
    (stops : ∀ next, rest.head? = some next → ¬mark.Extends next) (notDot : mark ≠ .dot) :
    tokenise (mark.text ++ rest) = (tokenise rest).map (Token.punctuator mark :: ·) := by
  have found := congrArg (Option.map Token.punctuator) (Punctuator.munch_text stops)
  have munched : munch (mark.text ++ rest) = some (.punctuator mark) := by
    cases mark <;> first
      | exact absurd rfl notDot
      | exact found
  obtain ⟨first, others, spelled, notSpace⟩ :
      ∃ first others, mark.text = first :: others ∧ first ≠ ' ' := by
    cases mark <;> exact ⟨_, _, rfl, by decide⟩
  exact tokenise_munch (.punctuator mark) spelled notSpace munched

theorem takeWhile_stops {p : Char → Bool} {inside rest : List Char}
    (kept : ∀ char ∈ inside, p char = true) (stops : ∀ next, rest.head? = some next → p next = false) :
    (inside ++ rest).takeWhile p = inside := by
  rw [List.takeWhile_append_of_pos kept]
  cases rest with
  | nil => simp
  | cons next rest => simp [stops next rfl]

/-- A spelling that a C compiler reads as one name. -/
def IsName (spelling : List Char) : Prop :=
  spelling.all isNameChar = true ∧
    ∃ first others, spelling = first :: others ∧ isLetter first = true

theorem tokenise_name {spelling rest : List Char} (isName : IsName spelling)
    (stops : ∀ next, rest.head? = some next → isNameChar next = false) :
    tokenise (spelling ++ rest) = (tokenise rest).map (Token.name spelling :: ·) := by
  obtain ⟨chars, first, others, spelled, letter⟩ := isName
  have notSpace : first ≠ ' ' := by
    rintro rfl
    exact absurd letter (by decide)
  refine tokenise_munch (.name spelling) spelled notSpace ?_
  have munched : munch (spelling ++ rest) =
      some (.name ((spelling ++ rest).takeWhile isNameChar)) := by
    rw [spelled, List.cons_append, munch, if_pos letter]
  rw [Token.text, munched, takeWhile_stops (List.all_eq_true.mp chars) stops]

theorem tokenise_name_cons {spelling : List Char} (isName : IsName spelling) {next : Char}
    (notName : isNameChar next = false) (rest : List Char) :
    tokenise (spelling ++ next :: rest) =
      (tokenise (next :: rest)).map (Token.name spelling :: ·) := by
  refine tokenise_name isName ?_
  intro char isNext
  cases isNext
  exact notName

def isNumberChar (char : Char) : Bool :=
  isNameChar char && !isExponentMark char

/-- A spelling that a C compiler reads as one number, whatever sign follows. -/
def IsNumber (spelling : List Char) : Prop :=
  spelling.all isNumberChar = true ∧
    ∃ first others, spelling = first :: others ∧ first.isDigit = true

theorem numberTail_stops {inside rest : List Char}
    (kept : inside.all isNumberChar = true)
    (stops : ∀ next, rest.head? = some next → isNameChar next = false ∧ next ≠ '.') :
    numberTail (inside ++ rest) = inside := by
  induction inside with
  | nil =>
      match rest with
      | [] => rfl
      | [next] => simp [numberTail, stops next rfl]
      | next :: after :: rest =>
          obtain ⟨notName, notDot⟩ := stops next rfl
          have notMark : isExponentMark next = false := by
            rw [← Bool.not_eq_true]
            intro mark
            rw [isNameChar_of_exponentMark mark] at notName
            exact Bool.noConfusion notName
          simp [numberTail, notName, notDot, notMark]
  | cons char inside ih =>
      rw [List.all_cons, Bool.and_eq_true, isNumberChar, Bool.and_eq_true, Bool.not_eq_true'] at kept
      obtain ⟨⟨isName, notMark⟩, others⟩ := kept
      have tail := ih others
      rw [List.cons_append]
      cases following : inside ++ rest with
      | nil =>
          have empty := (List.append_eq_nil_iff.mp following).1
          simp [numberTail, isName, empty]
      | cons next others =>
          rw [numberTail, notMark, Bool.false_and, if_neg Bool.false_ne_true, isName, Bool.true_or,
            if_pos rfl, ← following, tail]

theorem tokenise_number {spelling rest : List Char} (isNumber : IsNumber spelling)
    (stops : ∀ next, rest.head? = some next → isNameChar next = false ∧ next ≠ '.') :
    tokenise (spelling ++ rest) = (tokenise rest).map (Token.number spelling :: ·) := by
  obtain ⟨chars, first, others, spelled, digit⟩ := isNumber
  have notSpace : first ≠ ' ' := by
    rintro rfl
    exact absurd digit (by decide)
  have notLetter : ¬isLetter first = true := by
    intro letter
    have bounds : 48 ≤ first.toNat ∧ first.toNat ≤ 57 := by
      simpa [Char.isDigit, UInt32.le_iff_toNat_le] using digit
    rw [isLetter, Bool.or_eq_true, beq_iff_eq, Char.isAlpha, Bool.or_eq_true] at letter
    rcases letter with (upper | lower) | rfl
    · have capital : 65 ≤ first.toNat ∧ first.toNat ≤ 90 := by
        simpa [Char.isUpper, UInt32.le_iff_toNat_le] using upper
      omega
    · have small : 97 ≤ first.toNat ∧ first.toNat ≤ 122 := by
        simpa [Char.isLower, UInt32.le_iff_toNat_le] using lower
      omega
    · exact absurd digit (by decide)
  refine tokenise_munch (.number spelling) spelled notSpace ?_
  have munched : munch (spelling ++ rest) = some (.number (numberTail (spelling ++ rest))) := by
    rw [spelled, List.cons_append, munch, if_neg notLetter, if_pos digit]
  rw [Token.text, munched, numberTail_stops chars stops]

end NovaC.C
