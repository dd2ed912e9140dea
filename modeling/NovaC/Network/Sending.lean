import NovaC.Network.NativeSocket

namespace NovaC.Network

open NovaC.C

theorem numDigitsFrom_natCast (number : Nat) (size : Int) :
    numDigitsFrom ((number : Int).tdiv 10) size + 1 = size + (decimal number).length := by
  induction number using Nat.strongRecOn generalizing size with
  | ind number ih =>
      have quotient : (number : Int).tdiv 10 = ((number / 10 : Nat) : Int) := by
        rw [Int.tdiv_eq_ediv_of_nonneg (by omega)]
        rfl
      rw [numDigitsFrom, quotient, decimal_length]
      by_cases small : number < 10
      · rw [if_neg (by omega), if_pos small]
        rfl
      · rw [if_pos (by omega), ih (number / 10) (by omega), if_neg small]
        omega

theorem numDigits_natCast (number : Nat) : numDigits number = (decimal number).length := by
  have digits := numDigitsFrom_natCast number 1
  rw [numDigits]
  omega

/-- The message with its length in front. -/
def frame (message : List UInt8) : List UInt8 :=
  decimal message.length ++ 32 :: message

theorem frame_length (message : List UInt8) :
    (frame message).length = (decimal message.length).length + 1 + message.length := by
  simp only [frame, List.length_append, List.length_cons]
  omega

theorem frame_nulFree {message : List UInt8} (nulFree : 0 ∉ message) : 0 ∉ frame message := by
  intro member
  rcases List.mem_append.mp member with inDigits | member
  · have digits := decimal_digits inDigits
    exact absurd digits (by decide)
  · rcases List.mem_cons.mp member with space | inMessage
    · cases space
    · exact nulFree inMessage

theorem novaSocketSend_frame {message : List UInt8} (nulFree : 0 ∉ message)
    (fits : (frame message).length < 2147483647) :
    novaSocketSend (Buffer.ofString message) = some (frame message) := by
  rw [frame_length] at fits
  generalize digitsEq : decimal message.length = digits at fits
  have read : (Buffer.ofString message).cString = some message := Buffer.cString_append nulFree []
  have len : toInt message.length = message.length := toInt_of_isInt ⟨by omega, by omega⟩
  have print : printInt message.length = digits := by
    rw [printInt, if_neg (by omega), Int.toNat_natCast, digitsEq]
  have size : toSize ((message.length + digits.length + 2 : Nat) : Int) =
      digits.length + 2 + message.length := by
    rw [toSize_natCast]
    omega
  have copy : (Buffer.ofString message).loadAll message.length = some message :=
    Buffer.loadAll_append message [some 0]
  have two : addInt ((message.length + digits.length : Nat) : Int) 2 =
      some ((message.length + digits.length + 2 : Nat) : Int) :=
    @addInt_natCast (message.length + digits.length) 2 (by omega)
  -- the last two bytes of the block: the end that `sprintf` writes, moved behind the message
  obtain ⟨gone, last, split⟩ : ∃ (gone : Buffer) (last : Option UInt8),
      some 0 :: List.replicate message.length none = gone ++ [last] :=
    ⟨_, _, (List.dropLast_concat_getLast (List.cons_ne_nil _ _)).symm⟩
  have goneLength : gone.length = message.length := by
    simpa using (congrArg List.length split).symm
  have printed : (Buffer.malloc (digits.length + 2 + message.length)).storeAll 0
      (digits ++ [32, 0]) = some ((digits ++ [32]).map some ++ (gone ++ [last])) := by
    have stored := Buffer.storeAll_append [] (List.replicate (digits.length + 2) none)
      (List.replicate message.length none) (show _ = (digits ++ [32, 0]).length by simp)
    rw [List.nil_append, List.replicate_append_replicate] at stored
    rw [Buffer.malloc, ← split]
    simpa using stored
  have copied : Buffer.storeAll ((digits ++ [32]).map some ++ (gone ++ [last]))
      ((digits.length : Int) + 1) message =
        some ((frame message).map some ++ [last]) := by
    have stored := Buffer.storeAll_append ((digits ++ [32]).map some) gone [last] goneLength
    have position : (((digits ++ [32]).map some).length : Int) = (digits.length : Int) + 1 := by
      rw [List.length_map, List.length_append, List.length_singleton]
      rfl
    rw [position] at stored
    simpa [frame, digitsEq] using stored
  have ended : Buffer.store ((frame message).map some ++ [last])
      ((message.length : Int) + digits.length + 1) 0 =
        some (Buffer.ofString (frame message)) := by
    have stored := Buffer.store_append ((frame message).map some) [] last 0
    have position : (((frame message).map some).length : Int) =
        (message.length : Int) + digits.length + 1 := by
      rw [List.length_map, frame_length, digitsEq]
      omega
    rwa [position] at stored
  unfold novaSocketSend
  dsimp only [Option.bind_eq_bind]
  rw [read, Option.bind_some, len, numDigits_natCast, digitsEq, addInt_natCast (by omega),
    Option.bind_some, two, Option.bind_some, print, size, printed, Option.bind_some,
    toSize_natCast, Nat.mod_eq_of_lt (by omega), copy, Option.bind_some, copied,
    Option.bind_some, ended, Option.bind_some]
  exact Buffer.cString_append (frame_nulFree nulFree) []

theorem novaSocketSend_nulFree {message : Buffer} {sent : List UInt8}
    (sends : novaSocketSend message = some sent) : 0 ∉ sent := by
  unfold novaSocketSend at sends
  dsimp only [Option.bind_eq_bind] at sends
  obtain ⟨text, _, sends⟩ := Option.bind_eq_some_iff.mp sends
  obtain ⟨unterminated, _, sends⟩ := Option.bind_eq_some_iff.mp sends
  obtain ⟨size, _, sends⟩ := Option.bind_eq_some_iff.mp sends
  obtain ⟨printed, _, sends⟩ := Option.bind_eq_some_iff.mp sends
  obtain ⟨copied, _, sends⟩ := Option.bind_eq_some_iff.mp sends
  obtain ⟨filled, _, sends⟩ := Option.bind_eq_some_iff.mp sends
  obtain ⟨new, _, sends⟩ := Option.bind_eq_some_iff.mp sends
  exact Buffer.cString_nulFree sends

/-- A string whose length is an `int`. -/
structure Message where
  text : List UInt8
  nulFree : 0 ∉ text
  length : IsInt text.length

theorem numDigits_printInt (number : Nat) : numDigits number = (printInt number).length := by
  rw [numDigits_natCast, printInt, if_neg (by omega), Int.toNat_natCast]

theorem novaSocketSend_range {text sent : List UInt8} (nulFree : 0 ∉ text)
    (range : IsInt text.length) (sends : novaSocketSend (Buffer.ofString text) = some sent) :
    text.length + (decimal text.length).length + 2 < 2147483648 := by
  have read : (Buffer.ofString text).cString = some text := Buffer.cString_append nulFree []
  unfold novaSocketSend at sends
  dsimp only [Option.bind_eq_bind] at sends
  rw [read, Option.bind_some, toInt_of_isInt range, numDigits_natCast] at sends
  obtain ⟨unterminated, sum, sends⟩ := Option.bind_eq_some_iff.mp sends
  obtain ⟨size, sizeSum, _⟩ := Option.bind_eq_some_iff.mp sends
  obtain ⟨rfl, _⟩ := addInt_some sum
  obtain ⟨rfl, _, upper⟩ := addInt_some sizeSum
  omega

theorem ten_digits {length : Nat} (long : 2147483635 < length) : 10 ≤ (decimal length).length := by
  have notNine : ¬ (decimal length).length ≤ 9 := by
    rw [decimal_length_le (by omega)]
    omega
  omega

/-- Digits are counted as they are printed, and a message is framed exactly when
the size of its frame with the final NUL is an `int`. -/
theorem encoder_exact_iff (message : Message) :
    ((∀ number : Nat, numDigits number = (printInt number).length) ∧
        novaSocketSend (Buffer.ofString message.text) = some (frame message.text)) ↔
      message.text.length ≤ 2147483635 := by
  constructor
  · intro exact
    have range := novaSocketSend_range message.nulFree message.length exact.2
    by_contra long
    have digits := ten_digits (Nat.lt_of_not_le long)
    omega
  · intro short
    have digits : (decimal message.text.length).length ≤ 10 :=
      (decimal_length_le (by omega)).mpr (by omega)
    refine ⟨numDigits_printInt, novaSocketSend_frame message.nulFree ?_⟩
    rw [frame_length]
    omega

/-- A message that leaves no room for its length, the space and the NUL. -/
def longMessage : Message where
  text := List.replicate 2147483636 97
  nulFree member := absurd (List.eq_of_mem_replicate member) (by decide)
  length := by
    rw [List.length_replicate]
    decide

theorem size_overflows :
    novaSocketSend (Buffer.ofString longMessage.text) ≠ some (frame longMessage.text) := by
  intro sends
  have size := novaSocketSend_range longMessage.nulFree longMessage.length sends
  have length : longMessage.text.length = 2147483636 := List.length_replicate
  rw [length] at size
  have digits := @ten_digits 2147483636 (by omega)
  omega

end NovaC.Network
