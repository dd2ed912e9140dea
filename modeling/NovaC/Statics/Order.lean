import NovaC.Statics.Blocks
import Mathlib.Data.Finset.Card

namespace NovaC.Statics

/-! The order in which static blocks run.

The flags make the calls a depth-first search. While it runs, the classes whose
flag is set are the finished ones and the `active` ones, whose functions have
been entered and not left; every active class leads to the one called now.
-/

variable {Class Code : Type} [DecidableEq Class] {program : Program Class Code}
  {active frame : Class → Prop} {state middle after : State Class Code} {depth : Nat}
  {clazz : Class}

def Program.DependsOn (program : Program Class Code) (clazz dependency : Class) : Prop :=
  ∃ block ∈ program.staticBlockList clazz, dependency ∈ block.dependencies

def Program.Reaches (program : Program Class Code) : Class → Class → Prop :=
  Relation.ReflTransGen program.DependsOn

structure Program.WellFormed (program : Program Class Code) : Prop where
  hasBlocks : ∀ clazz ∈ program.classes, program.HasStaticBlocks clazz
  closed : ∀ clazz ∈ program.classes, ∀ dependency, program.DependsOn clazz dependency →
    dependency ∈ program.classes

/-- The blocks of one class, in the order in which they ran. -/
def blocksOf (clazz : Class) (ran : List (Class × StaticBlock Class Code)) :
    List (StaticBlock Class Code) :=
  (ran.filter (·.1 = clazz)).map Prod.snd

@[simp] theorem blocksOf_concat_self (ran : List (Class × StaticBlock Class Code))
    (block : StaticBlock Class Code) :
    blocksOf clazz (ran ++ [(clazz, block)]) = blocksOf clazz ran ++ [block] := by
  simp [blocksOf]

theorem blocksOf_concat_of_ne {other : Class} (different : other ≠ clazz)
    (ran : List (Class × StaticBlock Class Code)) (block : StaticBlock Class Code) :
    blocksOf other (ran ++ [(clazz, block)]) = blocksOf other ran := by
  simp [blocksOf, Ne.symm different]

theorem mem_blocksOf {ran : List (Class × StaticBlock Class Code)} {block : StaticBlock Class Code} :
    block ∈ blocksOf clazz ran ↔ (clazz, block) ∈ ran := by
  simp [blocksOf]

/-- Where a dependency does not lead back to the class of a block, all its blocks
ran before that block. -/
def Ordered (program : Program Class Code) (ran : List (Class × StaticBlock Class Code)) : Prop :=
  ∀ before clazz block after, ran = before ++ (clazz, block) :: after →
    ∀ dependency ∈ block.dependencies, ¬ program.Reaches dependency clazz →
      blocksOf dependency before = program.staticBlockList dependency

theorem Ordered.concat {ran : List (Class × StaticBlock Class Code)}
    {block : StaticBlock Class Code} (ordered : Ordered program ran)
    (finished : ∀ dependency ∈ block.dependencies, ¬ program.Reaches dependency clazz →
      blocksOf dependency ran = program.staticBlockList dependency) :
    Ordered program (ran ++ [(clazz, block)]) := by
  intro before clazz' block' rest split
  rcases List.eq_nil_or_concat rest with rfl | ⟨rest, last, rfl⟩
  · obtain ⟨rfl, same⟩ := List.append_inj' split rfl
    cases same
    exact finished
  · rw [List.concat_eq_append, ← List.cons_append, ← List.append_assoc] at split
    exact ordered before clazz' block' rest (List.append_inj' split rfl).1

structure Invariant (program : Program Class Code) (active : Class → Prop)
    (state : State Class Code) : Prop where
  listed : ∀ clazz, state.inited clazz = true → clazz ∈ program.classes
  entered : ∀ clazz, active clazz → state.inited clazz = true
  unstarted : ∀ clazz, state.inited clazz = false → blocksOf clazz state.ran = []
  finished : ∀ clazz, state.inited clazz = true → ¬ active clazz →
    blocksOf clazz state.ran = program.staticBlockList clazz
  ordered : Ordered program state.ran

theorem Invariant.mem_classes {event : Class × StaticBlock Class Code}
    (holds : Invariant program active state) (member : event ∈ state.ran) :
    event.1 ∈ program.classes := by
  apply holds.listed
  by_contra fresh
  have ranHere := mem_blocksOf.mpr member
  rw [holds.unstarted event.1 (by simpa using fresh)] at ranHere
  cases ranHere

/-- What running a part of the emitted code does; the classes of `frame` are left
alone. -/
structure Advances (program : Program Class Code) (active frame : Class → Prop)
    (state after : State Class Code) : Prop where
  holds : Invariant program active after
  kept : ∀ clazz, state.inited clazz = true → after.inited clazz = true
  untouched : ∀ clazz, frame clazz → blocksOf clazz after.ran = blocksOf clazz state.ran

theorem Advances.refl (holds : Invariant program active state) :
    Advances program active frame state state :=
  ⟨holds, fun _ inited => inited, fun _ _ => rfl⟩

theorem Advances.trans (first : Advances program active frame state middle)
    (second : Advances program active frame middle after) :
    Advances program active frame state after where
  holds := second.holds
  kept clazz inited := second.kept clazz (first.kept clazz inited)
  untouched clazz framed := (second.untouched clazz framed).trans (first.untouched clazz framed)

theorem Advances.mono {smaller : Class → Prop} (advances : Advances program active frame state after)
    (inFrame : ∀ clazz, smaller clazz → frame clazz) :
    Advances program active smaller state after :=
  ⟨advances.holds, advances.kept, fun clazz framed => advances.untouched clazz (inFrame clazz framed)⟩

/-- The classes whose functions have not been entered bound the depth of calls. -/
def unentered (program : Program Class Code) (state : State Class Code) : Finset Class :=
  program.classes.toFinset.filter fun clazz => state.inited clazz = false

theorem Advances.unentered_le (advances : Advances program active frame state after) :
    (unentered program after).card ≤ (unentered program state).card := by
  apply Finset.card_le_card
  apply Finset.monotone_filter_right
  intro clazz _ fresh
  cases inited : state.inited clazz with
  | false => rfl
  | true => rw [advances.kept clazz inited] at fresh; cases fresh

theorem unentered_enter (listed : clazz ∈ program.classes) (fresh : state.inited clazz = false) :
    (unentered program { state with inited := Function.update state.inited clazz true }).card <
      (unentered program state).card := by
  apply Finset.card_lt_card
  apply (Finset.ssubset_iff_of_subset _).mpr
  · exact ⟨clazz, by simp [unentered, listed, fresh], by simp [unentered]⟩
  · apply Finset.monotone_filter_right
    intro other _ still
    by_cases same : other = clazz
    · simp [same] at still
    · simpa [same] using still

/-- What calls of functions do, up to a depth. -/
def CallsAdvance (program : Program Class Code) (depth : Nat) : Prop :=
  ∀ clazz ∈ program.classes, ∀ (active : Class → Prop) (state : State Class Code),
    Invariant program active state → (∀ other, active other → program.Reaches other clazz) →
    (unentered program state).card < depth →
      ∃ after, callStaticBlocks program depth clazz state = some after ∧
        Advances program active active state after ∧ after.inited clazz = true

theorem runCalls (calls : CallsAdvance program depth) (targets : List Class)
    (listed : ∀ target ∈ targets, target ∈ program.classes)
    (leads : ∀ target ∈ targets, ∀ other, active other → program.Reaches other target)
    (holds : Invariant program active state) (deep : (unentered program state).card < depth) :
    ∃ after, runStatements (callStaticBlocks program depth) (targets.map .call) state = some after ∧
      Advances program active active state after ∧
      ∀ target ∈ targets, after.inited target = true := by
  induction targets generalizing state with
  | nil => exact ⟨state, rfl, .refl holds, fun _ member => by cases member⟩
  | cons target targets ih =>
      obtain ⟨middle, called, advances, inited⟩ := calls target (listed target List.mem_cons_self)
        active state holds (leads target List.mem_cons_self) deep
      have lower := advances.unentered_le
      obtain ⟨after, ran, rest, restInited⟩ := ih
        (fun target member => listed target (List.mem_cons_of_mem _ member))
        (fun target member => leads target (List.mem_cons_of_mem _ member))
        advances.holds (by omega)
      refine ⟨after, ?_, advances.trans rest, ?_⟩
      · rw [List.map_cons, runStatements, called, Option.bind_some, ran]
      · intro other member
        rcases List.mem_cons.mp member with rfl | member
        · exact rest.kept other inited
        · exact restInited other member

section Body

variable (wellFormed : program.WellFormed) (listed : clazz ∈ program.classes)
  (entered : active clazz) (leads : ∀ other, active other → program.Reaches other clazz)
  (framed : ∀ other, frame other → active other ∧ other ≠ clazz)

include entered in
theorem Invariant.concat {block : StaticBlock Class Code} (holds : Invariant program active state)
    (done : ∀ dependency ∈ block.dependencies, ¬ program.Reaches dependency clazz →
      blocksOf dependency state.ran = program.staticBlockList dependency) :
    Invariant program active { state with ran := state.ran ++ [(clazz, block)] } where
  listed := holds.listed
  entered := holds.entered
  unstarted other fresh := by
    have different : other ≠ clazz := by
      intro same
      rw [same, holds.entered clazz entered] at fresh
      cases fresh
    rw [blocksOf_concat_of_ne different, holds.unstarted other fresh]
  finished other inited left := by
    have different : other ≠ clazz := fun same => left (same ▸ entered)
    rw [blocksOf_concat_of_ne different, holds.finished other inited left]
  ordered := holds.ordered.concat done

include wellFormed listed entered leads framed

theorem runBlock (calls : CallsAdvance program depth) {block : StaticBlock Class Code}
    (member : block ∈ program.staticBlockList clazz) (holds : Invariant program active state)
    (deep : (unentered program state).card < depth) :
    ∃ after, runStatements (callStaticBlocks program depth) (program.staticBlockSource clazz block)
        state = some after ∧ Advances program active frame state after ∧
      blocksOf clazz after.ran = blocksOf clazz state.ran ++ [block] := by
  have depends : ∀ dependency ∈ block.dependencies, program.DependsOn clazz dependency :=
    fun dependency inBlock => ⟨block, member, inBlock⟩
  obtain ⟨middle, ran, advances, inited⟩ := runCalls calls
    (block.dependencies.filter (program.HasStaticBlocks ·))
    (fun target inFilter =>
      wellFormed.closed clazz listed target (depends target (List.mem_of_mem_filter inFilter)))
    (fun target inFilter other isActive =>
      (leads other isActive).tail (depends target (List.mem_of_mem_filter inFilter)))
    holds deep
  have done : ∀ dependency ∈ block.dependencies, ¬ program.Reaches dependency clazz →
      blocksOf dependency middle.ran = program.staticBlockList dependency := by
    intro dependency inBlock noPath
    have called : dependency ∈ block.dependencies.filter (program.HasStaticBlocks ·) := by
      have hasBlocks := wellFormed.hasBlocks dependency
        (wellFormed.closed clazz listed dependency (depends dependency inBlock))
      exact List.mem_filter.mpr ⟨inBlock, decide_eq_true hasBlocks⟩
    exact advances.holds.finished dependency (inited dependency called)
      fun isActive => noPath (leads dependency isActive)
  refine ⟨{ middle with ran := middle.ran ++ [(clazz, block)] }, ?_, ?_, ?_⟩
  · rw [Program.staticBlockSource, runStatements_append, ran, Option.bind_some]
    rfl
  · refine ⟨advances.holds.concat entered done, advances.kept, ?_⟩
    intro other inFrame
    obtain ⟨isActive, different⟩ := framed other inFrame
    rw [blocksOf_concat_of_ne different, advances.untouched other isActive]
  · rw [blocksOf_concat_self, advances.untouched clazz entered]

theorem runBlocks (calls : CallsAdvance program depth) (blocks : List (StaticBlock Class Code))
    (members : ∀ block ∈ blocks, block ∈ program.staticBlockList clazz)
    (holds : Invariant program active state) (deep : (unentered program state).card < depth) :
    ∃ after, runStatements (callStaticBlocks program depth)
        (blocks.flatMap (program.staticBlockSource clazz)) state = some after ∧
      Advances program active frame state after ∧
      blocksOf clazz after.ran = blocksOf clazz state.ran ++ blocks := by
  induction blocks generalizing state with
  | nil => exact ⟨state, rfl, .refl holds, (List.append_nil _).symm⟩
  | cons block blocks ih =>
      obtain ⟨middle, ran, advances, ranBlock⟩ := runBlock wellFormed listed entered leads framed
        calls (members block List.mem_cons_self) holds deep
      have lower := advances.unentered_le
      obtain ⟨after, ranRest, restAdvances, ranBlocks⟩ :=
        ih (fun block member => members block (List.mem_cons_of_mem _ member)) advances.holds
          (by omega)
      refine ⟨after, ?_, advances.trans restAdvances, ?_⟩
      · rw [List.flatMap_cons, runStatements_append, ran, Option.bind_some, ranRest]
      · rw [ranBlocks, ranBlock, List.append_assoc, List.singleton_append]

end Body

theorem Invariant.enter (holds : Invariant program active state)
    (listed : clazz ∈ program.classes) :
    Invariant program (fun other => active other ∨ other = clazz)
      { state with inited := Function.update state.inited clazz true } where
  listed other inited := by
    by_cases same : other = clazz
    · exact same ▸ listed
    · exact holds.listed other (by simpa [same] using inited)
  entered other isActive := by
    by_cases same : other = clazz
    · simp [same]
    · simpa [same] using holds.entered other (isActive.resolve_right same)
  unstarted other otherFresh := by
    have different : other ≠ clazz := by
      intro same
      simp [same] at otherFresh
    exact holds.unstarted other (by simpa [different] using otherFresh)
  finished other inited left := by
    rw [not_or] at left
    exact holds.finished other (by simpa [left.2] using inited) left.1
  ordered := holds.ordered

theorem Advances.leave (holds : Invariant program active state)
    (advances : Advances program (fun other => active other ∨ other = clazz) active
      { state with inited := Function.update state.inited clazz true } after)
    (complete : blocksOf clazz after.ran = program.staticBlockList clazz) :
    Advances program active active state after ∧ after.inited clazz = true := by
  have kept : ∀ other, state.inited other = true → after.inited other = true := by
    intro other inited
    apply advances.kept
    by_cases same : other = clazz
    · simp [same]
    · simpa [same] using inited
  refine ⟨⟨⟨advances.holds.listed, ?_, advances.holds.unstarted, ?_, advances.holds.ordered⟩, kept,
    advances.untouched⟩, advances.kept clazz (by simp)⟩
  · intro other isActive
    exact kept other (holds.entered other isActive)
  · intro other inited left
    by_cases same : other = clazz
    · rw [same, complete]
    · exact advances.holds.finished other inited (by simp [left, same])

theorem callsAdvance (wellFormed : program.WellFormed) (depth : Nat) :
    CallsAdvance program depth := by
  induction depth with
  | zero => exact fun _ _ _ _ _ _ deep => absurd deep (Nat.not_lt_zero _)
  | succ depth ih =>
      intro clazz listed active state holds leads deep
      have hasBlocks := wellFormed.hasBlocks clazz listed
      cases inited : state.inited clazz with
      | true =>
          exact ⟨state, callStaticBlocks_inited hasBlocks inited, .refl holds, inited⟩
      | false =>
          have different : ∀ other, active other → other ≠ clazz := by
            intro other isActive same
            rw [← same, holds.entered other isActive] at inited
            cases inited
          have lower := unentered_enter listed inited
          obtain ⟨after, ran, advances, complete⟩ := runBlocks wellFormed listed (.inr rfl)
            (fun other isActive => isActive.elim (leads other) fun same => same ▸ .refl)
            (fun other isActive => ⟨.inl isActive, different other isActive⟩) ih
            (program.staticBlockList clazz) (fun _ member => member) (holds.enter listed)
            (by omega)
          rw [show blocksOf clazz state.ran = [] from holds.unstarted clazz inited,
            List.nil_append] at complete
          rw [callStaticBlocks_first hasBlocks inited]
          exact ⟨after, ran, advances.leave holds complete⟩

theorem Invariant.initial : Invariant program (fun _ => False) .initial where
  listed _ inited := by cases inited
  entered _ isActive := isActive.elim
  unstarted _ _ := rfl
  finished _ inited := by cases inited
  ordered before _ _ _ split := by simp [State.initial] at split

/-- Calling the static blocks of a program terminates and runs each block of each
class once, in the order of declaration, after those it depends on. -/
theorem novaCallStaticBlocks_runs (wellFormed : program.WellFormed) :
    ∃ ran, (∀ depth, program.classes.length < depth →
        novaCallStaticBlocks program depth = some ran) ∧
      (∀ clazz ∈ program.classes, blocksOf clazz ran = program.staticBlockList clazz) ∧
      (∀ event ∈ ran, event.1 ∈ program.classes) ∧
      ((∀ clazz, ¬ Relation.TransGen program.DependsOn clazz clazz) →
        ∀ before clazz block after, ran = before ++ (clazz, block) :: after →
          ∀ dependency ∈ block.dependencies,
            blocksOf dependency before = program.staticBlockList dependency) := by
  obtain ⟨final, ran, advances, inited⟩ := runCalls (callsAdvance wellFormed _) program.classes
    (fun _ listed => listed) (fun _ _ _ isActive => isActive.elim) .initial (Nat.lt_succ_self _)
  have complete : ∀ clazz ∈ program.classes,
      blocksOf clazz final.ran = program.staticBlockList clazz :=
    fun clazz listed => advances.holds.finished clazz (inited clazz listed) id
  refine ⟨final.ran, fun depth deep => ?_, complete, fun _ => advances.holds.mem_classes, ?_⟩
  · have calls : program.generateStaticBlockCalls = program.classes.map .call := by
      rw [Program.generateStaticBlockCalls, Program.classes, List.map_flatten]
      rfl
    apply novaCallStaticBlocks_mono (Nat.succ_le_of_lt (Nat.lt_of_le_of_lt _ deep))
    · rw [novaCallStaticBlocks, calls, ran, Option.map_some]
    · exact Nat.le_trans (Finset.card_filter_le _ _) (List.toFinset_card_le _)
  · intro acyclic before clazz block after split dependency inBlock
    apply advances.holds.ordered before clazz block after split dependency inBlock
    intro path
    have member : (clazz, block) ∈ final.ran := by simp [split]
    have declared := mem_blocksOf.mpr member
    rw [complete clazz (advances.holds.mem_classes member)] at declared
    exact acyclic clazz (.head' ⟨block, declared, inBlock⟩ path)

/-- Two classes that depend on each other. -/
theorem novaCallStaticBlocks_runs_cycle :
    let program : Program Bool String :=
      ⟨[[true], [false]], fun clazz => [⟨[!clazz], "first"⟩, ⟨[], "second"⟩]⟩
    ∃ ran, (∀ depth, 2 < depth → novaCallStaticBlocks program depth = some ran) ∧
      blocksOf true ran = program.staticBlockList true ∧
      blocksOf false ran = program.staticBlockList false := by
  intro program
  have everyClass : ∀ clazz, clazz ∈ program.classes := by decide
  have wellFormed : program.WellFormed := ⟨by decide, fun _ _ dependency _ => everyClass dependency⟩
  obtain ⟨ran, terminates, complete, _⟩ := novaCallStaticBlocks_runs wellFormed
  exact ⟨ran, terminates, complete true (everyClass true), complete false (everyClass false)⟩

end NovaC.Statics
