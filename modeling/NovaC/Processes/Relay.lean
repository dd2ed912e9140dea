import NovaC.C.Buffer
import NovaC.Processes.GetPipe

namespace NovaC.Processes

open NovaC.C

/-- What a call of `read` gives. -/
inductive ReadResult where
  | bytes (chunk : List UInt8)
  | endOfFile
  | error
deriving DecidableEq

namespace ReadResult

def chunk : ReadResult → List UInt8
  | bytes chunk => chunk
  | endOfFile => []
  | error => []

/-- `buf` after the call -/
def store (result : ReadResult) (buf : Buffer) : Buffer :=
  result.chunk.map some ++ buf.drop result.chunk.length

end ReadResult

/-- A call of `printf("%s\n", buf)`: the string in `buf`, and the number of bytes that the
read before it has stored there. -/
structure Print where
  text : List UInt8
  stored : Nat
deriving DecidableEq

def Print.output (print : Print) : List UInt8 :=
  print.text ++ [10]

/-- At most `rounds` rounds of the loop, the first with the read of this number. There is no
result when the loop is not over by then, or when `printf` comes to a byte without a value
or to the end of `buf`. -/
def readLoop (reads : Nat → ReadResult) : Nat → Nat → Buffer → Option (List Print)
  | 0, _, _ => none
  | rounds + 1, number, buf =>
      if reads number = .endOfFile then some []
      else do
        let buf := (reads number).store buf
        let text ← buf.cString
        let prints ← readLoop reads rounds (number + 1) buf
        pure (⟨text, (reads number).chunk.length⟩ :: prints)

/-- The bytes of so many reads, the first with this number. -/
def delivered (reads : Nat → ReadResult) : Nat → Nat → List UInt8
  | _, 0 => []
  | number, count + 1 => (reads number).chunk ++ delivered reads (number + 1) count

/-- The results of the reads from the pipe of a child that writes `output`. -/
structure Delivers (output : List UInt8) (reads : Nat → ReadResult) : Prop where
  sizes : ∀ number chunk, reads number = .bytes chunk →
    0 < chunk.length ∧ chunk.length ≤ bufferSize
  inOrder : ∀ count, delivered reads 0 count <+: output
  complete : ∀ count, reads count = .endOfFile → delivered reads 0 count = output

/-- The bytes that are printed are those of the child, each from the read before it. -/
structure Relayed (output : List UInt8) (prints : List Print) : Prop where
  same : prints.flatMap Print.output = output
  fromRead : ∀ print ∈ prints, print.text.length ≤ print.stored

section Loop

variable {reads : Nat → ReadResult} {rounds number : Nat} {buf : Buffer} {prints : List Print}

/-- A round of a loop that ends. -/
theorem readLoop_some (ran : readLoop reads (rounds + 1) number buf = some prints) :
    (reads number = .endOfFile ∧ prints = []) ∨
      ∃ text later, ((reads number).store buf).cString = some text ∧
        readLoop reads rounds (number + 1) ((reads number).store buf) = some later ∧
        prints = ⟨text, (reads number).chunk.length⟩ :: later := by
  rw [readLoop] at ran
  split at ran
  · rename_i ended
    cases ran
    exact .inl ⟨ended, rfl⟩
  · obtain ⟨text, read, ran⟩ := Option.bind_eq_some_iff.mp ran
    obtain ⟨later, continued, ran⟩ := Option.bind_eq_some_iff.mp ran
    cases ran
    exact .inr ⟨text, later, read, continued, rfl⟩

theorem readLoop_ends (ran : readLoop reads rounds number buf = some prints) :
    reads (number + prints.length) = .endOfFile := by
  induction rounds generalizing number buf prints with
  | zero => cases ran
  | succ rounds ih =>
      rcases readLoop_some ran with ⟨ended, rfl⟩ | ⟨text, later, -, continued, rfl⟩
      · exact ended
      · rw [List.length_cons, Nat.add_comm later.length, ← Nat.add_assoc]
        exact ih continued

theorem readLoop_nulFree (ran : readLoop reads rounds number buf = some prints) :
    0 ∉ prints.flatMap Print.output := by
  induction rounds generalizing number buf prints with
  | zero => cases ran
  | succ rounds ih =>
      rcases readLoop_some ran with ⟨-, rfl⟩ | ⟨text, later, read, continued, rfl⟩
      · exact List.not_mem_nil
      · rw [List.flatMap_cons, List.mem_append, not_or, Print.output, List.mem_append, not_or]
        exact ⟨⟨Buffer.cString_nulFree read, by decide⟩, ih continued⟩

/-- Every print adds a newline to the bytes of its read, when these have no NUL. -/
theorem readLoop_longer (ran : readLoop reads rounds number buf = some prints)
    (nulFree : 0 ∉ delivered reads number prints.length) :
    (delivered reads number prints.length).length + prints.length ≤
      (prints.flatMap Print.output).length := by
  induction rounds generalizing number buf prints with
  | zero => cases ran
  | succ rounds ih =>
      rcases readLoop_some ran with ⟨-, rfl⟩ | ⟨text, later, read, continued, rfl⟩
      · exact Nat.le_refl 0
      · rw [List.length_cons, delivered, List.mem_append, not_or] at nulFree
        have whole := (Buffer.cString_starts nulFree.1 read).length_le
        have others := ih continued nulFree.2
        simp only [List.length_cons, delivered, List.flatMap_cons, List.length_append, Print.output,
          List.length_nil]
        omega

end Loop

section Relay

variable {output : List UInt8} {reads : Nat → ReadResult} {rounds : Nat} {buf : Buffer}
  {prints : List Print}

/-- A loop that relays the output prints nothing. -/
theorem relayed_nothing (delivers : Delivers output reads)
    (ran : readLoop reads rounds 0 buf = some prints) (relayed : Relayed output prints) :
    prints = [] := by
  have ended := readLoop_ends ran
  rw [Nat.zero_add] at ended
  have whole := delivers.complete prints.length ended
  have nulFree := readLoop_nulFree ran
  rw [relayed.same, ← whole] at nulFree
  have longer := readLoop_longer ran nulFree
  rw [relayed.same, whole] at longer
  exact List.length_eq_zero_iff.mp (by omega)

/-- The output is relayed when the first read finds the end of the file, and never else. -/
theorem relayed_iff (delivers : Delivers output reads) (buf : Buffer) :
    (∃ rounds prints, readLoop reads rounds 0 buf = some prints ∧ Relayed output prints) ↔
      reads 0 = .endOfFile := by
  refine ⟨?_, fun ended => ?_⟩
  · rintro ⟨rounds, prints, ran, relayed⟩
    have ended := readLoop_ends ran
    rwa [relayed_nothing delivers ran relayed] at ended
  · have silent : output = [] := (delivers.complete 0 ended).symm
    refine ⟨1, [], by rw [readLoop, if_pos ended], silent.symm, fun print member => ?_⟩
    exact absurd member List.not_mem_nil

theorem delivered_ended {number : Nat} (ended : ∀ later, number ≤ later → reads later = .endOfFile)
    (count : Nat) : delivered reads number count = [] := by
  induction count generalizing number with
  | zero => rfl
  | succ count ih =>
      rw [delivered, ended number (Nat.le_refl _), ih fun later behind => ended later (by omega)]
      rfl

theorem silent_delivers : Delivers [] fun _ => .endOfFile where
  sizes := fun _ _ read => by cases read
  inOrder := fun count => by rw [delivered_ended (fun _ _ => rfl) count]
  complete := fun count _ => delivered_ended (fun _ _ => rfl) count

end Relay

/-- A child that writes `hi`, which one read gets. -/
def hi : Nat → ReadResult
  | 0 => .bytes [104, 105]
  | _ + 1 => .endOfFile

theorem hi_delivers : Delivers [104, 105] hi := by
  have ended : ∀ count, delivered hi 0 (count + 1) = [104, 105] := by
    intro count
    rw [delivered, delivered_ended fun later behind => by
      obtain ⟨earlier, rfl⟩ := Nat.exists_eq_add_of_le behind
      rw [Nat.zero_add, Nat.add_comm]
      rfl]
    rfl
  refine ⟨fun number chunk read => ?_, fun count => ?_, fun count atEnd => ?_⟩
  · cases number with
    | zero =>
        cases read
        decide
    | succ number => cases read
  · cases count with
    | zero => exact List.nil_prefix
    | succ count => rw [ended count]
  · cases count with
    | zero => cases atEnd
    | succ count => exact ended count

/-- Of a child that writes nothing, and of the one that writes `hi`. -/
theorem relayed_iff_silent_hi :
    ((∃ rounds prints, readLoop (fun _ => .endOfFile) rounds 0 (Buffer.malloc bufferSize) =
        some prints ∧ Relayed [] prints) ↔ ReadResult.endOfFile = .endOfFile) ∧
      ((∃ rounds prints, readLoop hi rounds 0 (Buffer.malloc bufferSize) = some prints ∧
        Relayed [104, 105] prints) ↔ hi 0 = .endOfFile) :=
  ⟨relayed_iff silent_delivers (Buffer.malloc bufferSize),
    relayed_iff hi_delivers (Buffer.malloc bufferSize)⟩

/-- `hi` is printed with a newline behind it where `buf` was cleared, and is not relayed
whatever `buf` held. -/
theorem hi_not_relayed :
    Delivers [104, 105] hi ∧
      readLoop hi 2 0 (List.replicate bufferSize (some 0)) = some [⟨[104, 105], 2⟩] ∧
      ∀ buf, ¬ ∃ rounds prints, readLoop hi rounds 0 buf = some prints ∧
        Relayed [104, 105] prints := by
  refine ⟨hi_delivers, by decide, fun buf found => ?_⟩
  obtain ⟨rounds, prints, ran, relayed⟩ := found
  have ended := readLoop_ends ran
  rw [relayed_nothing hi_delivers ran relayed] at ended
  cases ended

end NovaC.Processes
