import NovaC.Diagnostics.Engine

namespace NovaC.Diagnostics

def acceptedBy (compiler : Compiler) (message : Text) : Bool :=
  acceptedByCompiler compiler message || acceptedByMake message

def hiddenBy (args : List Text) (message : Text) : Bool :=
  args.contains "-no-notes".toList && mentions message "note".toList ||
    (args.contains "-no-warnings".toList && mentions message "warning".toList ||
      args.contains "-no-errors".toList && mentions message "error".toList)

/-- A character that `trim` does not take away. -/
def visible (text : Text) : Bool :=
  text.any fun char => !(char ≤ ' ')

def startsVisible (text : Text) : Bool :=
  text.head?.any fun char => !(char ≤ ' ')

def Piece.isOf (number : Nat) : Piece → Bool
  | message other _ => other = number
  | newline => false

section

variable (args messages : List Text)

def chosenCompiler : Compiler :=
  (Engine.new.checkArguments args).compiler

def shown (message : Text) : Bool :=
  acceptedBy (chosenCompiler args) message && !hiddenBy args message

/-- Each message that should be printed is printed once, as a whole, and the errors and
warnings among them are counted. -/
def Reported : Prop :=
  (∀ number message, messages[number]? = some message → shown args message = true →
      (run args messages).printed.flatten.filter (Piece.isOf number) = [.message number message]) ∧
    (run args messages).errorCount =
      messages.countP (fun message => shown args message && mentions message "error".toList) ∧
    (run args messages).warningCount =
      messages.countP (fun message => shown args message && mentions message "warning".toList)

/-- From there on no position indicator is accepted. -/
def Uncleared (number : Nat) : Prop :=
  ∀ later ∈ messages.drop number,
    isPosition later = true → acceptedBy (chosenCompiler args) later = false

/-- Some message before it is still there and is not blank. -/
def VisibleBefore (number : Nat) : Prop :=
  ∃ earlier text, earlier < number ∧ messages[earlier]? = some text ∧
    acceptedBy (chosenCompiler args) text = true ∧ visible text = true ∧ Uncleared args messages earlier

def VisibleBehind (number : Nat) : Prop :=
  ∃ text ∈ messages.drop (number + 1),
    acceptedBy (chosenCompiler args) text = true ∧ visible text = true

/-- A message that should be printed is no error and no warning, passes one test only, and
from it on no position indicator is accepted; where the message begins or ends with a blank,
another one stands before or behind it. -/
def Undisturbed : Prop :=
  ∀ number message, messages[number]? = some message → shown args message = true →
    mentions message "error".toList = false ∧ mentions message "warning".toList = false ∧
      acceptedByCompiler (chosenCompiler args) message ≠ acceptedByMake message ∧
      Uncleared args messages number ∧
      (startsVisible message = true ∨ VisibleBefore args messages number) ∧
      (startsVisible message.reverse = true ∨ VisibleBehind args messages number)

end

theorem checkArgument_hidden (engine : Engine) (arg : Text) :
    (engine.checkArgument arg).1.hiddenCompilerMessages = engine.hiddenCompilerMessages := by
  unfold Engine.checkArgument
  repeat' split
  all_goals rfl

/-- The constructor has seen no flags, and nothing asks for them later. -/
theorem checkArguments_hidden (engine : Engine) (args : List Text) :
    (engine.checkArguments args).hiddenCompilerMessages = engine.hiddenCompilerMessages := by
  induction args generalizing engine with
  | nil => rfl
  | cons arg args ih => exact (ih _).trans (checkArgument_hidden engine arg)

theorem nothing_hidden (args : List Text) :
    (Engine.new.checkArguments args).hiddenCompilerMessages = [] :=
  checkArguments_hidden Engine.new args

section Trim

variable {number : Nat} {text : Text} {pieces front back : List Piece}

def Piece.visible : Piece → Bool
  | message _ text => Diagnostics.visible text
  | newline => false

theorem dropWhile_blank_iff : text.dropWhile (· ≤ ' ') = [] ↔ visible text = false := by
  simp [visible, List.dropWhile_eq_nil_iff]

theorem trimStart_message : trimStart (.message number text :: pieces) =
    if visible text then .message number (text.dropWhile (· ≤ ' ')) :: pieces
    else trimStart pieces := by
  have blank := @dropWhile_blank_iff text
  rw [trimStart]
  cases rest : text.dropWhile (· ≤ ' ') with
  | nil => rw [blank.mp rest, if_neg Bool.false_ne_true]
  | cons first rest' =>
      have isVisible : visible text = true := by
        cases isBlank : visible text with
        | true => rfl
        | false => rw [blank.mpr isBlank] at rest; cases rest
      rw [if_pos isVisible]

theorem trimStart_append : trimStart (front ++ back) =
    if front.any Piece.visible then trimStart front ++ back else trimStart back := by
  induction front with
  | nil => rfl
  | cons piece front ih =>
      cases piece with
      | newline => exact ih
      | message number text =>
          rw [List.cons_append, trimStart_message, trimStart_message, List.any_cons, Piece.visible]
          cases visible text with
          | true => rfl
          | false => exact ih

theorem trimStart_isOf (absent : ∀ piece ∈ pieces, piece.isOf number = false) :
    ∀ piece ∈ trimStart pieces, piece.isOf number = false := by
  induction pieces with
  | nil => exact absent
  | cons piece pieces ih =>
      obtain ⟨here, others⟩ := List.forall_mem_cons.mp absent
      cases piece with
      | newline => exact ih others
      | message other text =>
          rw [trimStart_message]
          split
          · exact List.forall_mem_cons.mpr ⟨here, others⟩
          · exact ih others

theorem reversed_isOf (absent : ∀ piece ∈ pieces, piece.isOf number = false) :
    ∀ piece ∈ reversed pieces, piece.isOf number = false := by
  intro piece member
  obtain ⟨original, isPiece, rfl⟩ := List.mem_map.mp member
  have here := absent original (List.mem_reverse.mp isPiece)
  cases original <;> exact here

theorem reversed_visible : (reversed pieces).any Piece.visible = pieces.any Piece.visible := by
  have same (piece : Piece) : piece.reverse.visible = piece.visible := by
    cases piece with
    | newline => rfl
    | message number text => exact List.any_reverse
  rw [reversed, List.any_map, List.any_reverse]
  exact congrArg (List.any pieces) (funext same)

theorem reversed_append : reversed (front ++ back) = reversed back ++ reversed front := by
  rw [reversed, List.reverse_append, List.map_append, reversed, reversed]

theorem startsVisible_iff :
    startsVisible text = true ↔ visible text = true ∧ text.dropWhile (· ≤ ' ') = text := by
  cases text with
  | nil => simp [startsVisible, visible]
  | cons first rest =>
      by_cases blank : first ≤ ' '
      · have shorter := List.length_dropWhile_le (fun char : Char => decide (char ≤ ' ')) rest
        simp only [startsVisible, List.head?_cons, Option.any_some, blank, decide_true, Bool.not_true,
          List.dropWhile_cons, if_true, Bool.false_eq_true, false_iff, not_and]
        intro _ same
        rw [same] at shorter
        simp at shorter
      · simp [startsVisible, visible, blank]

theorem visible_reverse : visible text.reverse = visible text :=
  List.any_reverse

theorem filter_single (noneBefore : ∀ piece ∈ front, piece.isOf number = false)
    (noneBehind : ∀ piece ∈ back, piece.isOf number = false) :
    (front ++ .message number text :: back).filter (Piece.isOf number) = [.message number text] := by
  have here : (Piece.message number text).isOf number = true := decide_eq_true rfl
  rw [List.filter_append, List.filter_cons_of_pos here,
    List.filter_eq_nil_iff.mpr fun piece member => by simp [noneBefore piece member],
    List.filter_eq_nil_iff.mpr fun piece member => by simp [noneBehind piece member],
    List.nil_append]

theorem filter_none (absent : ∀ piece ∈ pieces, piece.isOf number = false) :
    pieces.filter (Piece.isOf number) = [] :=
  List.filter_eq_nil_iff.mpr fun piece member => by simp [absent piece member]

/-- What the end of the text leaves of one message. -/
theorem filter_trimEnd (noneBefore : ∀ piece ∈ front, piece.isOf number = false)
    (noneBehind : ∀ piece ∈ back, piece.isOf number = false) :
    (reversed (trimStart (reversed (front ++ .message number text :: back)))).filter
        (Piece.isOf number) =
      if back.any Piece.visible then [.message number text]
      else if visible text then
        [.message number (text.reverse.dropWhile (· ≤ ' ')).reverse]
      else [] := by
  have split : reversed (front ++ .message number text :: back) =
      reversed back ++ .message number text.reverse :: reversed front := by
    rw [reversed_append, reversed, List.reverse_cons, List.map_append, List.append_assoc]
    rfl
  have single (more : List Piece) (shown : Text) : reversed (more ++ .message number shown ::
      reversed front) = reversed (reversed front) ++ .message number shown.reverse :: reversed more := by
    rw [reversed_append, reversed, List.reverse_cons, List.map_append, List.append_assoc]
    rfl
  have noneFront := reversed_isOf (reversed_isOf noneBefore)
  rw [split, trimStart_append, reversed_visible]
  cases back.any Piece.visible with
  | true =>
      rw [if_pos rfl, if_pos rfl, single, List.reverse_reverse]
      exact filter_single noneFront (reversed_isOf (trimStart_isOf (reversed_isOf noneBehind)))
  | false =>
      rw [if_neg Bool.false_ne_true, if_neg Bool.false_ne_true, trimStart_message, visible_reverse]
      cases visible text with
      | true =>
          rw [if_pos rfl, if_pos rfl, ← List.nil_append (_ :: _), single]
          exact filter_single noneFront fun _ member => absurd member List.not_mem_nil
      | false =>
          rw [if_neg Bool.false_ne_true, if_neg Bool.false_ne_true]
          exact filter_none (reversed_isOf (trimStart_isOf (reversed_isOf noneBefore)))

theorem visible_dropWhile (isVisible : visible text = true) :
    visible (text.dropWhile (· ≤ ' ')) = true := by
  rw [← Bool.not_eq_false, ← dropWhile_blank_iff] at isVisible ⊢
  rwa [List.dropWhile_idempotent]

/-- Both ends of a text stay where nothing is dropped at either. -/
theorem trim_eq_self_iff : trim text = text ↔
    text.dropWhile (· ≤ ' ') = text ∧ text.reverse.dropWhile (· ≤ ' ') = text.reverse := by
  rw [trim, List.reverse_eq_iff]
  constructor
  · intro same
    have isSuffix := List.dropWhile_suffix (l := text) fun char : Char => decide (char ≤ ' ')
    have shorter := List.length_dropWhile_le (fun char : Char => decide (char ≤ ' '))
      (text.dropWhile (· ≤ ' ')).reverse
    rw [same, List.length_reverse, List.length_reverse] at shorter
    have front := isSuffix.eq_of_length (Nat.le_antisymm isSuffix.length_le shorter)
    rw [front] at same
    exact ⟨front, same⟩
  · rintro ⟨front, back⟩
    rw [front, back]

/-- One message stays whole in the trimmed text where it has no blank at an end, or there is
something visible beyond. -/
theorem filter_trimPieces (noneBefore : ∀ piece ∈ front, piece.isOf number = false)
    (noneBehind : ∀ piece ∈ back, piece.isOf number = false) :
    (trimPieces (front ++ .message number text :: back)).filter (Piece.isOf number) =
        [.message number text] ↔
      (startsVisible text = true ∨ front.any Piece.visible = true) ∧
        (startsVisible text.reverse = true ∨ back.any Piece.visible = true) := by
  have starts := @startsVisible_iff text
  have ends := @startsVisible_iff text.reverse
  have whole := @trim_eq_self_iff text
  rw [visible_reverse] at ends
  rw [trim] at whole
  rw [trimPieces, trimStart_append, trimStart_message]
  cases front.any Piece.visible with
  | true =>
      rw [if_pos rfl, filter_trimEnd (trimStart_isOf noneBefore) noneBehind, ends]
      cases back.any Piece.visible <;> cases visible text <;> simp [List.reverse_eq_iff]
  | false =>
      rw [if_neg Bool.false_ne_true, starts]
      cases isVisible : visible text with
      | false =>
          rw [if_neg Bool.false_ne_true, filter_none (reversed_isOf (trimStart_isOf
            (reversed_isOf (trimStart_isOf noneBehind))))]
          simp
      | true =>
          rw [if_pos rfl, ← List.nil_append (_ :: _),
            filter_trimEnd (fun _ member => absurd member List.not_mem_nil) noneBehind,
            visible_dropWhile isVisible, ends]
          cases back.any Piece.visible with
          | true => simp
          | false => simp [whole, isVisible]

/-- A visible message stays as often as it is there. -/
theorem countP_trimStart : (trimStart pieces).countP (fun piece => piece.isOf number && piece.visible) =
    pieces.countP fun piece => piece.isOf number && piece.visible := by
  induction pieces with
  | nil => rfl
  | cons piece pieces ih =>
      cases piece with
      | newline => exact ih
      | message other text =>
          rw [trimStart_message, List.countP_cons]
          cases isVisible : visible text with
          | true =>
              rw [if_pos rfl, List.countP_cons]
              simp [Piece.visible, Piece.isOf, visible_dropWhile isVisible, isVisible]
          | false =>
              rw [if_neg Bool.false_ne_true, ih]
              simp [Piece.visible, isVisible]

theorem countP_reversed : (reversed pieces).countP (fun piece => piece.isOf number && piece.visible) =
    pieces.countP fun piece => piece.isOf number && piece.visible := by
  have same (piece : Piece) :
      (piece.reverse.isOf number && piece.reverse.visible) = (piece.isOf number && piece.visible) := by
    cases piece with
    | newline => rfl
    | message other text => exact congrArg (decide (other = number) && ·) visible_reverse
  rw [reversed, List.countP_map, List.countP_reverse]
  exact congrArg (List.countP · pieces) (funext same)

theorem filter_trimPieces_twice (isVisible : visible text = true) (more : List Piece) :
    (trimPieces (front ++ .message number text :: more ++ .message number text :: back)).filter
      (Piece.isOf number) ≠ [.message number text] := by
  intro once
  have here : ((Piece.message number text).isOf number && (Piece.message number text).visible) = true := by
    simp [Piece.isOf, Piece.visible, isVisible]
  have atMost := List.countP_mono_left
    (l := trimPieces (front ++ .message number text :: more ++ .message number text :: back))
    (p := fun piece => piece.isOf number && piece.visible) (q := Piece.isOf number)
    fun _ _ both => (Bool.and_eq_true_iff.mp both).1
  rw [List.countP_eq_length_filter (p := Piece.isOf number), once, trimPieces, countP_reversed,
    countP_trimStart, countP_reversed, countP_trimStart, List.countP_append, List.countP_append,
    List.countP_cons, List.countP_cons, here] at atMost
  simp at atMost
  omega

end Trim

/-- How often `addError` is called for the message. -/
def times (compiler : Compiler) (message : Text) : Nat :=
  (if acceptedByCompiler compiler message then 1 else 0) + if acceptedByMake message then 1 else 0

/-- An accepted position indicator is among the messages. -/
def cleared (compiler : Compiler) (messages : List Text) : Bool :=
  messages.any fun message => isPosition message && acceptedBy compiler message

section Unfiltered

variable {engine : Engine}

theorem addError_unfiltered (unfiltered : engine.hiddenCompilerMessages = [])
    (listener : Listener) (number : Nat) (message : Text) :
    listener.addError engine number message =
      { listener with
        failed := true
        currentMessage :=
          if isPosition message then []
          else listener.currentMessage ++ [.message number message] ++ [.newline] } := by
  simp only [Listener.addError, unfiltered, List.filter_nil, List.map_nil, List.length_nil,
    Nat.lt_irrefl, if_false]
  split <;> rfl

theorem errorReceived_unfiltered (unfiltered : engine.hiddenCompilerMessages = [])
    (listener : Listener) (number : Nat) (message : Text) :
    (listener.errorReceived engine number message).printed = listener.printed ∧
      (listener.errorReceived engine number message).errorCount = listener.errorCount ∧
      (listener.errorReceived engine number message).warningCount = listener.warningCount := by
  simp only [Listener.errorReceived, addError_unfiltered unfiltered]
  split <;> split <;> exact ⟨rfl, rfl, rfl⟩

theorem receive_unfiltered (unfiltered : engine.hiddenCompilerMessages = [])
    (listener : Listener) (number : Nat) (messages : List Text) :
    (listener.receive engine number messages).printed = listener.printed ∧
      (listener.receive engine number messages).errorCount = listener.errorCount ∧
      (listener.receive engine number messages).warningCount = listener.warningCount := by
  induction messages generalizing listener number with
  | nil => exact ⟨rfl, rfl, rfl⟩
  | cons message messages ih =>
      obtain ⟨printed, errors, warnings⟩ := errorReceived_unfiltered unfiltered listener number message
      obtain ⟨laterPrinted, laterErrors, laterWarnings⟩ :=
        ih (listener.errorReceived engine number message) (number + 1)
      exact ⟨laterPrinted.trans printed, laterErrors.trans errors, laterWarnings.trans warnings⟩

/-- What one message puts behind the text when it does not clear it. -/
def copies (compiler : Compiler) (number : Nat) (message : Text) : List Piece :=
  (List.replicate (times compiler message) [.message number message, .newline]).flatten

theorem copies_isOf {compiler : Compiler} {number other : Nat} (different : other ≠ number)
    (message : Text) : ∀ piece ∈ copies compiler other message, piece.isOf number = false := by
  intro piece member
  obtain ⟨copy, isCopy, inCopy⟩ := List.mem_flatten.mp member
  rw [List.eq_of_mem_replicate isCopy] at inCopy
  simp only [List.mem_cons, List.not_mem_nil, or_false] at inCopy
  obtain rfl | rfl := inCopy
  · exact decide_eq_false different
  · rfl

theorem copies_visible {compiler : Compiler} {number : Nat} {message : Text} :
    (copies compiler number message).any Piece.visible =
      (acceptedBy compiler message && visible message) := by
  rw [copies, times, acceptedBy]
  cases acceptedByCompiler compiler message <;> cases acceptedByMake message <;>
    simp [Piece.visible]

theorem errorReceived_current (unfiltered : engine.hiddenCompilerMessages = [])
    (listener : Listener) (number : Nat) (message : Text) :
    (listener.errorReceived engine number message).currentMessage =
      if isPosition message && acceptedBy engine.compiler message then []
      else listener.currentMessage ++ copies engine.compiler number message := by
  rw [Listener.errorReceived, acceptedBy, copies, times]
  by_cases byCompiler : acceptedByCompiler engine.compiler message = true <;>
    by_cases byMake : acceptedByMake message = true <;>
      by_cases position : isPosition message = true <;>
        simp [byCompiler, byMake, position, addError_unfiltered unfiltered]

theorem receive_append (listener : Listener) (start : Nat) (before later : List Text) :
    listener.receive engine start (before ++ later) =
      (listener.receive engine start before).receive engine (start + before.length) later := by
  induction before generalizing listener start with
  | nil => rfl
  | cons message before ih =>
      rw [List.cons_append, Listener.receive, Listener.receive, ih, List.length_cons]
      congr 1
      omega

theorem cleared_append {compiler : Compiler} (before later : List Text) :
    cleared compiler (before ++ later) = (cleared compiler before || cleared compiler later) :=
  List.any_append

/-- While nothing clears the text, the messages are put behind it. -/
theorem receive_kept (unfiltered : engine.hiddenCompilerMessages = []) (listener : Listener)
    (start : Nat) {messages : List Text} (kept : cleared engine.compiler messages = false) :
    (listener.receive engine start messages).currentMessage =
      listener.currentMessage ++ (Listener.start.receive engine start messages).currentMessage := by
  induction messages generalizing listener start with
  | nil => exact (List.append_nil _).symm
  | cons message messages ih =>
      obtain ⟨here, later⟩ := Bool.or_eq_false_iff.mp (cleared_append [message] messages ▸ kept)
      have stays : (isPosition message && acceptedBy engine.compiler message) = false := by
        simpa [cleared] using here
      rw [Listener.receive, Listener.receive, ih _ _ later,
        ih (Listener.start.errorReceived engine start message) _ later,
        errorReceived_current unfiltered, errorReceived_current unfiltered, stays,
        if_neg Bool.false_ne_true, if_neg Bool.false_ne_true, List.append_assoc]
      rfl

/-- A message that was not there or is cleared does not come back. -/
theorem receive_isOf (unfiltered : engine.hiddenCompilerMessages = []) {number : Nat}
    (listener : Listener) (start : Nat) (messages : List Text)
    (outside : number < start ∨ start + messages.length ≤ number)
    (gone : cleared engine.compiler messages = true ∨
      ∀ piece ∈ listener.currentMessage, piece.isOf number = false) :
    ∀ piece ∈ (listener.receive engine start messages).currentMessage,
      piece.isOf number = false := by
  induction messages generalizing listener start with
  | nil => exact gone.resolve_left Bool.false_ne_true
  | cons message messages ih =>
      rw [List.length_cons] at outside
      apply ih _ _ (by omega)
      rw [errorReceived_current unfiltered]
      cases clears : isPosition message && acceptedBy engine.compiler message with
      | true => exact .inr fun _ member => absurd member List.not_mem_nil
      | false =>
          rw [cleared, List.any_cons, clears, Bool.false_or] at gone
          refine gone.imp_right fun absent piece member => ?_
          rcases List.mem_append.mp member with isOld | isNew
          · exact absent piece isOld
          · exact copies_isOf (by omega) message piece isNew

/-- What is visible in the text at the end: a visible message from before or one that was
accepted, with no clearing since. -/
theorem receive_visible (unfiltered : engine.hiddenCompilerMessages = []) (listener : Listener)
    (start : Nat) (messages : List Text) :
    (listener.receive engine start messages).currentMessage.any Piece.visible = true ↔
      (cleared engine.compiler messages = false ∧
          listener.currentMessage.any Piece.visible = true) ∨
        ∃ number text, messages[number]? = some text ∧ acceptedBy engine.compiler text = true ∧
          visible text = true ∧ cleared engine.compiler (messages.drop number) = false := by
  induction messages generalizing listener start with
  | nil => simp [Listener.receive, cleared]
  | cons message messages ih =>
      have first : (∃ number text, (message :: messages)[number]? = some text ∧
            acceptedBy engine.compiler text = true ∧ visible text = true ∧
            cleared engine.compiler ((message :: messages).drop number) = false) ↔
          (acceptedBy engine.compiler message = true ∧ visible message = true ∧
            cleared engine.compiler (message :: messages) = false) ∨
          ∃ number text, messages[number]? = some text ∧ acceptedBy engine.compiler text = true ∧
            visible text = true ∧ cleared engine.compiler (messages.drop number) = false := by
        constructor
        · rintro ⟨number, text, found, rest⟩
          cases number with
          | zero => exact .inl (Option.some.inj found ▸ rest)
          | succ number => exact .inr ⟨number, text, found, rest⟩
        · rintro (here | ⟨number, text, found, rest⟩)
          · exact ⟨0, message, rfl, here⟩
          · exact ⟨number + 1, text, found, rest⟩
      rw [Listener.receive, ih, first, errorReceived_current unfiltered, ← or_assoc]
      refine or_congr_left ?_
      rw [cleared, cleared, List.any_cons]
      cases isPosition message && acceptedBy engine.compiler message with
      | true => simp
      | false =>
          rw [if_neg Bool.false_ne_true, List.any_append, copies_visible]
          simp only [Bool.or_eq_true, Bool.and_eq_true, Bool.false_or]
          tauto

end Unfiltered

theorem cleared_eq_false_iff {compiler : Compiler} {messages : List Text} :
    cleared compiler messages = false ↔
      ∀ later ∈ messages, isPosition later = true → acceptedBy compiler later = false := by
  simp [cleared]

/-- The tests of `make` find no blank message. -/
theorem visible_of_acceptedByMake {message : Text} (accepted : acceptedByMake message = true) :
    visible message = true := by
  have found {part : Text} (isPart : contains message part = true)
      (partVisible : visible part = true) : visible message = true := by
    obtain ⟨rest, isRest, isFront⟩ := List.any_eq_true.mp isPart
    have isSublist := (List.isPrefixOf_iff_prefix.mp isFront).sublist.trans
      ((List.mem_tails _ _).mp isRest).sublist
    obtain ⟨char, member, isVisible⟩ := List.any_eq_true.mp partVisible
    exact List.any_eq_true.mpr ⟨char, isSublist.subset member, isVisible⟩
  rcases Bool.or_eq_true_iff.mp accepted with stars | linker
  · exact found stars (by decide)
  · exact found linker (by decide)

/-- Among other pieces, a message is printed once and as a whole where it passes one test only
and keeps its ends. -/
theorem filter_copies {compiler : Compiler} {number : Nat} {message : Text} {front back : List Piece}
    (noneBefore : ∀ piece ∈ front, piece.isOf number = false)
    (noneBehind : ∀ piece ∈ back, piece.isOf number = false)
    (accepted : acceptedBy compiler message = true) :
    (trimPieces (front ++ (copies compiler number message ++ back))).filter (Piece.isOf number) =
        [.message number message] ↔
      acceptedByCompiler compiler message ≠ acceptedByMake message ∧
        (startsVisible message = true ∨ front.any Piece.visible = true) ∧
        (startsVisible message.reverse = true ∨ back.any Piece.visible = true) := by
  have once := @filter_trimPieces number message front (.newline :: back) noneBefore
    (List.forall_mem_cons.mpr ⟨rfl, noneBehind⟩)
  have twice (isVisible : visible message = true) :=
    @filter_trimPieces_twice number message front (.newline :: back) isVisible [.newline]
  rw [copies, times]
  cases byMake : acceptedByMake message with
  | true =>
      cases acceptedByCompiler compiler message with
      | true => simpa using twice (visible_of_acceptedByMake byMake)
      | false => simpa [Piece.visible] using once
  | false =>
      have byCompiler : acceptedByCompiler compiler message = true := by
        simpa [acceptedBy, byMake] using accepted
      simpa [byCompiler, Piece.visible] using once

section

variable (args messages : List Text)

theorem run_eq :
    (run args messages).printed.flatten = trimPieces
        (Listener.start.receive (Engine.new.checkArguments args) 0 messages).currentMessage ∧
      (run args messages).errorCount = 0 ∧ (run args messages).warningCount = 0 := by
  obtain ⟨printed, errors, warnings⟩ :=
    receive_unfiltered (nothing_hidden args) Listener.start 0 messages
  simp only [run, Listener.resultReceived, nothing_hidden, List.any_nil, Bool.false_eq_true,
    if_false, printed, errors, warnings]
  simp [Listener.start]

theorem uncleared_iff (number : Nat) : Uncleared args messages number ↔
    cleared (chosenCompiler args) (messages.drop number) = false :=
  cleared_eq_false_iff.symm

variable {args messages} {number : Nat} {message : Text}

theorem drop_eq_cons (found : messages[number]? = some message) :
    messages.drop number = message :: messages.drop (number + 1) := by
  obtain ⟨inRange, rfl⟩ := List.getElem?_eq_some_iff.mp found
  exact List.drop_eq_getElem_cons inRange

theorem visibleBefore_iff (found : messages[number]? = some message)
    (uncleared : Uncleared args messages number) :
    (Listener.start.receive (Engine.new.checkArguments args) 0
        (messages.take number)).currentMessage.any Piece.visible = true ↔
      VisibleBefore args messages number := by
  have inRange := (List.getElem?_eq_some_iff.mp found).1
  have length : (messages.take number).length = number := by
    rw [List.length_take]
    omega
  have still {earlier : Nat} (isEarlier : earlier < number) :
      cleared (chosenCompiler args) ((messages.take number).drop earlier) = false ↔
        Uncleared args messages earlier := by
    rw [uncleared_iff, ← List.take_append_drop number messages,
      List.drop_append_of_le_length (by omega), cleared_append,
      (uncleared_iff args messages number).mp uncleared, Bool.or_false, List.take_append_drop]
  rw [receive_visible (nothing_hidden args)]
  simp only [Listener.start, List.any_nil, Bool.false_eq_true, and_false, false_or]
  constructor
  · rintro ⟨earlier, text, isText, accepted, isVisible, kept⟩
    have isEarlier := length ▸ (List.getElem?_eq_some_iff.mp isText).1
    rw [List.getElem?_take_of_lt isEarlier] at isText
    exact ⟨earlier, text, isEarlier, isText, accepted, isVisible, (still isEarlier).mp kept⟩
  · rintro ⟨earlier, text, isEarlier, isText, accepted, isVisible, kept⟩
    rw [← List.getElem?_take_of_lt isEarlier] at isText
    exact ⟨earlier, text, isText, accepted, isVisible, (still isEarlier).mpr kept⟩

theorem visibleBehind_iff
    (kept : cleared (chosenCompiler args) (messages.drop (number + 1)) = false) :
    (Listener.start.receive (Engine.new.checkArguments args) (number + 1)
        (messages.drop (number + 1))).currentMessage.any Piece.visible = true ↔
      VisibleBehind args messages number := by
  rw [receive_visible (nothing_hidden args)]
  simp only [Listener.start, List.any_nil, Bool.false_eq_true, and_false, false_or]
  constructor
  · rintro ⟨later, text, isText, accepted, isVisible, -⟩
    exact ⟨text, List.mem_of_getElem? isText, accepted, isVisible⟩
  · rintro ⟨text, member, accepted, isVisible⟩
    obtain ⟨later, isText⟩ := List.mem_iff_getElem?.mp member
    refine ⟨later, text, isText, accepted, isVisible, ?_⟩
    rw [← List.take_append_drop later (messages.drop (number + 1)), cleared_append] at kept
    exact (Bool.or_eq_false_iff.mp kept).2

theorem receive_at {engine : Engine} (found : messages[number]? = some message) :
    Listener.start.receive engine 0 messages =
      ((Listener.start.receive engine 0 (messages.take number)).errorReceived engine number
        message).receive engine (number + 1) (messages.drop (number + 1)) := by
  have inRange := (List.getElem?_eq_some_iff.mp found).1
  have start : 0 + (messages.take number).length = number := by
    rw [List.length_take]
    omega
  have split := @receive_append engine Listener.start 0 (messages.take number)
    (messages.drop number)
  rw [List.take_append_drop, start, drop_eq_cons found] at split
  exact split

theorem cleared_drop (found : messages[number]? = some message) :
    cleared (chosenCompiler args) (messages.drop number) =
      ((isPosition message && acceptedBy (chosenCompiler args) message) ||
        cleared (chosenCompiler args) (messages.drop (number + 1))) := by
  rw [drop_eq_cons found]
  rfl

/-- An accepted message that is cleared is gone. -/
theorem receive_gone (found : messages[number]? = some message)
    (gone : cleared (chosenCompiler args) (messages.drop number) = true) :
    ∀ piece ∈ (Listener.start.receive (Engine.new.checkArguments args) 0 messages).currentMessage,
      piece.isOf number = false := by
  rw [cleared_drop found, chosenCompiler] at gone
  rw [receive_at found]
  apply receive_isOf (nothing_hidden args) _ _ _ (.inl (Nat.lt_succ_self number))
  rw [errorReceived_current (nothing_hidden args)]
  cases clears : isPosition message && acceptedBy (Engine.new.checkArguments args).compiler message with
  | true => exact .inr fun _ member => absurd member List.not_mem_nil
  | false => exact .inl (by rwa [clears, Bool.false_or] at gone)

/-- An accepted message that is not cleared stands between the others. -/
theorem receive_split (found : messages[number]? = some message)
    (kept : cleared (chosenCompiler args) (messages.drop number) = false) :
    (Listener.start.receive (Engine.new.checkArguments args) 0 messages).currentMessage =
      (Listener.start.receive (Engine.new.checkArguments args) 0
          (messages.take number)).currentMessage ++
        (copies (chosenCompiler args) number message ++
          (Listener.start.receive (Engine.new.checkArguments args) (number + 1)
            (messages.drop (number + 1))).currentMessage) := by
  rw [cleared_drop found, Bool.or_eq_false_iff, chosenCompiler] at kept
  rw [receive_at found, receive_kept (nothing_hidden args) _ _ kept.2,
    errorReceived_current (nothing_hidden args), kept.1, if_neg Bool.false_ne_true,
    List.append_assoc]
  rfl

/-- An accepted message is printed once and as a whole. -/
theorem printed_once_iff (found : messages[number]? = some message)
    (accepted : acceptedBy (chosenCompiler args) message = true) :
    (run args messages).printed.flatten.filter (Piece.isOf number) = [.message number message] ↔
      acceptedByCompiler (chosenCompiler args) message ≠ acceptedByMake message ∧
        Uncleared args messages number ∧
        (startsVisible message = true ∨ VisibleBefore args messages number) ∧
        (startsVisible message.reverse = true ∨ VisibleBehind args messages number) := by
  rw [(run_eq args messages).1]
  cases kept : cleared (chosenCompiler args) (messages.drop number) with
  | true =>
      have gone : ¬Uncleared args messages number := by
        rw [uncleared_iff, kept]
        exact Bool.noConfusion
      rw [trimPieces, filter_none (reversed_isOf (trimStart_isOf (reversed_isOf
        (trimStart_isOf (receive_gone found kept)))))]
      simp [gone]
  | false =>
      have inRange := (List.getElem?_eq_some_iff.mp found).1
      have uncleared := (uncleared_iff args messages number).mpr kept
      have laterKept := (Bool.or_eq_false_iff.mp (cleared_drop found ▸ kept)).2
      have noneBefore := @receive_isOf _ (nothing_hidden args) number Listener.start 0
        (messages.take number) (.inr (by rw [List.length_take]; omega))
        (.inr fun _ member => absurd member List.not_mem_nil)
      have noneBehind := @receive_isOf _ (nothing_hidden args) number Listener.start
        (number + 1) (messages.drop (number + 1)) (.inl (Nat.lt_succ_self number))
        (.inr fun _ member => absurd member List.not_mem_nil)
      rw [receive_split found kept, filter_copies noneBefore noneBehind accepted,
        visibleBefore_iff found uncleared, visibleBehind_iff laterKept]
      simp [uncleared]

end

/-- The messages are reported exactly where nothing disturbs them: errors and warnings
are never counted, an accepted position indicator throws the text away, a message that passes
both tests is there twice, and the blanks at the ends of the whole text are not printed. -/
theorem reported_iff (args messages : List Text) :
    Reported args messages ↔ Undisturbed args messages := by
  obtain ⟨-, errors, warnings⟩ := run_eq args messages
  have accepted {message : Text} (isShown : shown args message = true) :
      acceptedBy (chosenCompiler args) message = true :=
    (Bool.and_eq_true_iff.mp isShown).1
  have none : ∀ kind : Text,
      (0 = messages.countP (fun message => shown args message && mentions message kind) ↔
        ∀ (number : Nat) (message : Text), messages[number]? = some message →
          shown args message = true → mentions message kind = false) := by
    intro kind
    rw [eq_comm, List.countP_eq_zero]
    constructor
    · intro absent number message found isShown
      have silent := absent message (List.mem_of_getElem? found)
      simpa [isShown] using silent
    · intro silent message member
      obtain ⟨number, found⟩ := List.mem_iff_getElem?.mp member
      cases isShown : shown args message with
      | false => simp
      | true => simp [silent number message found isShown]
  rw [Reported, errors, warnings, none, none, Undisturbed]
  constructor
  · intro reported
    obtain ⟨once, noErrors, noWarnings⟩ := reported
    intro number message found isShown
    exact ⟨noErrors number message found isShown, noWarnings number message found isShown,
      (printed_once_iff found (accepted isShown)).mp (once number message found isShown)⟩
  · intro undisturbed
    refine ⟨fun number message found isShown => ?_, fun number message found isShown =>
      (undisturbed number message found isShown).1, fun number message found isShown =>
      (undisturbed number message found isShown).2.1⟩
    exact (printed_once_iff found (accepted isShown)).mpr
      (undisturbed number message found isShown).2.2

/-- An error of clang, and the line that points to its place. -/
def oneError : List Text :=
  ["a.c:1:2: error: expected ';'".toList, "  int x".toList, "       ^".toList]

theorem error_not_reported : ¬Reported ["-clang".toList] oneError := by
  intro reported
  have once := reported.1 0 "a.c:1:2: error: expected ';'".toList rfl (by decide)
  exact absurd once (by decide)

/-- The line of the source that is printed alone loses its indentation. -/
example : (run ["-clang".toList] ["  int x".toList]).printed = [[.message 0 "int x".toList]] := by
  decide

end NovaC.Diagnostics
