import NovaC.Names.Writers

namespace NovaC.Names

/-! Which declarations get the same C name.

A C name is read as its words, the pieces between the underscores. A class has a path, a
member what its name goes on with behind the path of its class; both are put together here
from what is declared.
-/

abbrev Word := List Char

/-- The pieces between the underscores. -/
def words (text : Text) : List Word :=
  text.splitOn '_'

theorem words_append (text rest : Text) : words (text ++ '_' :: rest) = words text ++ words rest :=
  List.splitOn_append_cons_self text rest

theorem words_injective {first second : Text} : words first = words second ↔ first = second := by
  constructor
  · intro same
    have joined := congrArg (List.intercalate ['_']) same
    simpa only [words, List.intercalate_splitOn] using joined
  · exact congrArg words

theorem words_of_not_mem {word : Text} (plain : '_' ∉ word) : words word = [word] :=
  List.splitOn_eq_singleton plain

theorem words_single_append {word : Text} (plain : '_' ∉ word) (rest : Text) :
    words (word ++ '_' :: rest) = word :: words rest := by
  rw [words_append, words_of_not_mem plain, List.singleton_append]

/-- The pieces of a package location between its slashes, dots and underscores. -/
def locationWords (location : Option Text) : List Word :=
  (location.getD []).splitOnP fun char => char = '/' || char = '.' || char = '_'

theorem words_generateLocation (location : Option Text) :
    words (generateLocation location) = locationWords location := by
  cases location with
  | none => rfl
  | some location =>
      simp only [words, generateLocation, replace, locationWords, Option.getD_some,
        List.splitOn_eq_splitOnP, List.map_map]
      induction location with
      | nil => rfl
      | cons char location ih =>
          rw [List.map_cons, List.splitOnP_cons_eq_if_modifyHead,
            List.splitOnP_cons_eq_if_modifyHead, ih]
          by_cases slash : char = '/'
          · simp [slash]
          · by_cases dot : char = '.'
            · simp [dot]
            · by_cases underscore : char = '_' <;> simp [slash, dot, underscore]

theorem typePrefix_append (types : List Text) (rest : Text) :
    typePrefix types ++ rest = ['_'].intercalate (types ++ [rest]) := by
  induction types with
  | nil => exact List.intercalate_singleton.symm
  | cons type types ih =>
      rw [List.cons_append, List.intercalate_cons_of_ne_nil (List.append_ne_nil_of_right_ne_nil _
        (List.cons_ne_nil _ _)), ← ih]
      simp [typePrefix]

theorem words_intercalate {pieces : List Text} (some : pieces ≠ []) :
    words (['_'].intercalate pieces) = pieces.flatMap words := by
  induction pieces with
  | nil => contradiction
  | cons piece pieces ih =>
      cases pieces with
      | nil => rw [List.intercalate_singleton, List.flatMap_singleton]
      | cons next pieces =>
          rw [List.intercalate_cons_cons, List.append_assoc, List.singleton_append, words_append,
            ih (List.cons_ne_nil _ _), @List.flatMap_cons _ _ _ (next :: pieces)]

theorem intercalate_eq_nil_iff {pieces : List Text} (some : pieces ≠ []) :
    ['_'].intercalate pieces = [] ↔ pieces = [[]] := by
  cases pieces with
  | nil => contradiction
  | cons piece pieces =>
      cases pieces with
      | nil => simp
      | cons next pieces => simp [List.intercalate_cons_cons]

theorem words_language_name (rest : Text) :
    words (LANGUAGE_NAME ++ '_' :: rest) = LANGUAGE_NAME :: words rest :=
  words_single_append (by decide) rest

namespace ClassDeclaration

variable (clazz : ClassDeclaration)

/-- The words in front of the `Nova` of a class. -/
def owner : List Word :=
  locationWords clazz.location ++ (clazz.primitiveOverloadTypes.getD []).flatMap words

def path : List Word :=
  clazz.owner ++ LANGUAGE_NAME :: words clazz.name

theorem words_generateSourceName : words (clazz.generateSourceName none) = clazz.path := by
  have split : clazz.generateSourceName none =
      generateLocation clazz.location ++ '_' ::
        (typePrefix (clazz.primitiveOverloadTypes.getD []) ++
          (LANGUAGE_NAME ++ '_' :: clazz.name)) := by
    simp [generateSourceName, generateUniquePrefix, getPrimitiveOverloadPrefix]
  rw [split, words_append, words_generateLocation, typePrefix_append,
    words_intercalate (List.append_ne_nil_of_right_ne_nil _ (List.cons_ne_nil _ _)),
    List.flatMap_append, List.flatMap_singleton, words_language_name, path, owner,
    List.append_assoc]

end ClassDeclaration

namespace MethodDeclaration

variable (clazz : ClassDeclaration) (method : MethodDeclaration)

/-- What comes first behind the class, run together. -/
def kind : Text :=
  [method.methodPrefix.getD [],
    if (clazz.fields.map (·.name) ++ clazz.inheritedFields).contains method.name then "func".toList
      else [],
    if clazz.functionMap ∧ method.writer = .novaMethod then "functionMap".toList else [],
    method.constructorType.getD []].flatten

def number : Text :=
  if method.overloadID = -1 then [] else (toString method.overloadID).toList

/-- What is joined by `_` behind the class. -/
def pieces : List Text :=
  match method.primitiveOverload with
  | none => [method.kind clazz ++ method.number]
  | some overload =>
      (if method.kind clazz = [] then [] else [method.kind clazz]) ++
        (overload.parameters ++ [overload.type.getD "void".toList ++ method.number])

/-- The words that tell a method from other members of its name. -/
def mark : List Word :=
  if method.pieces clazz = [[]] then [] else (method.pieces clazz).flatMap words

theorem getFunctionMapPrefix_eq : method.getFunctionMapPrefix clazz =
    if clazz.functionMap ∧ method.writer = .novaMethod then "functionMap".toList else [] := by
  rw [getFunctionMapPrefix]
  cases method.writer <;> simp only [and_true, reduceCtorEq, and_false, if_false]

theorem hasField_eq (name : Text) : clazz.hasField name =
    (clazz.fields.map (·.name) ++ clazz.inheritedFields).contains name := by
  rw [Bool.eq_iff_iff, ClassDeclaration.hasField, Bool.or_eq_true, List.any_eq_true,
    List.contains_iff_mem, List.contains_iff_mem, List.mem_append, List.mem_map]
  simp only [decide_eq_true_eq]

theorem number_ne_nil (numbered : method.overloadID ≠ -1) : method.number ≠ [] := by
  rw [number, if_neg numbered]
  rw [Int.toString_eq_repr, Int.repr_eq_if]
  split
  · exact fun empty => Nat.repr_ne_empty (String.toList_inj.mp empty)
  · simp

theorem pieces_ne_nil : method.pieces clazz ≠ [] := by
  rw [pieces]
  split
  · exact List.cons_ne_nil _ _
  · exact List.append_ne_nil_of_right_ne_nil _ (List.append_ne_nil_of_right_ne_nil _
      (List.cons_ne_nil _ _))

theorem typed_number :
    method.addPrimitiveOverloadPrefix (method.kind clazz) ++ method.number =
      ['_'].intercalate (method.pieces clazz) := by
  rw [addPrimitiveOverloadPrefix, pieces]
  cases method.primitiveOverload with
  | none => exact List.intercalate_singleton.symm
  | some overload =>
      dsimp only
      rw [getPrimitiveOverloadPrefix, List.append_assoc, List.append_assoc, typePrefix_append]
      cases method.kind clazz with
      | nil => rfl
      | cons first rest =>
          rw [if_neg (List.cons_ne_nil _ _), List.singleton_append,
            List.intercalate_cons_of_ne_nil (List.append_ne_nil_of_right_ne_nil _
              (List.cons_ne_nil _ _))]
          rfl

theorem uniquePrefix_eq : method.uniquePrefix clazz =
    if method.pieces clazz = [[]] then none
    else some (['_'].intercalate (method.pieces clazz)) := by
  have start : method.methodPrefix.getD [] ++
      ((if clazz.hasField method.name then "func".toList else []) ++
        (method.getFunctionMapPrefix clazz ++ method.constructorType.getD [])) =
      method.kind clazz := by
    simp only [getFunctionMapPrefix_eq, hasField_eq, kind, List.flatten_cons, List.flatten_nil,
      List.append_nil]
  have joined := method.typed_number clazz
  have empty := intercalate_eq_nil_iff (method.pieces_ne_nil clazz)
  rw [uniquePrefix, start]
  simp only [← empty, ← joined]
  by_cases unnumbered : method.overloadID = -1
  · simp only [unnumbered, number, if_true, List.append_nil, List.length_eq_zero_iff]
  · have numbered := method.number_ne_nil unnumbered
    rw [if_neg unnumbered, if_neg (List.append_ne_nil_of_right_ne_nil _ numbered), number,
      if_neg unnumbered]

/-- The prefix that the writer puts together is read as the words of the mark. -/
theorem uniquePrefix_words : (method.uniquePrefix clazz).elim [] words = method.mark clazz := by
  rw [uniquePrefix_eq, mark]
  split
  · rfl
  · exact words_intercalate (method.pieces_ne_nil clazz)

end MethodDeclaration

namespace Member

variable (clazz : ClassDeclaration) (member : Member)

def mark : Member → List Word
  | field _ => []
  | method declaration => declaration.mark clazz

def isInstance : Member → Bool
  | field declaration => declaration.isInstance
  | method declaration => declaration.isInstance

def name : Member → Text
  | field declaration => declaration.name
  | method declaration => declaration.getName

def externalName : Member → Option Text
  | field declaration => declaration.externalName
  | method declaration => declaration.externalName

/-- The words between those of the class and the last `Nova`. -/
def front : List Word :=
  member.mark clazz ++ if member.isInstance then [] else ["static".toList]

def tail : List Word :=
  member.front clazz ++ LANGUAGE_NAME :: words member.name

end Member

theorem words_generateIdentifierSourceName (className name : Text) (isInstance : Bool)
    (uniquePrefix : Option Text) :
    words (generateIdentifierSourceName className name isInstance none uniquePrefix) =
      words className ++ (uniquePrefix.elim [] words ++
        ((if isInstance then [] else ["static".toList]) ++ LANGUAGE_NAME :: words name)) := by
  have static : words ((if isInstance then [] else "static_".toList) ++
      (LANGUAGE_NAME ++ '_' :: name)) =
      (if isInstance then [] else ["static".toList]) ++ LANGUAGE_NAME :: words name := by
    cases isInstance with
    | true => exact words_language_name name
    | false =>
        have first := @words_single_append "static".toList (by decide)
          (LANGUAGE_NAME ++ '_' :: name)
        rw [words_language_name] at first
        exact first
  simp only [generateIdentifierSourceName]
  rw [words_append]
  cases uniquePrefix with
  | none => simp only [Option.elim_none, List.nil_append, static]
  | some uniquePrefix =>
      simp only [Option.elim_some, List.append_assoc, List.cons_append, List.nil_append]
      rw [words_append, static]

section Member

variable (clazz : ClassDeclaration) {member : Member}

theorem Member.words_generateSourceName (unforced : member.externalName = none) :
    words (member.generateSourceName clazz) = clazz.path ++ member.tail clazz := by
  cases member with
  | field declaration =>
      change declaration.externalName = none at unforced
      rw [generateSourceName, FieldDeclaration.generateSourceName, unforced,
        words_generateIdentifierSourceName, clazz.words_generateSourceName]
      rfl
  | method declaration =>
      change declaration.externalName = none at unforced
      rw [generateSourceName, MethodDeclaration.generateSourceName, unforced,
        words_generateIdentifierSourceName, clazz.words_generateSourceName,
        declaration.uniquePrefix_words, ← List.append_assoc (declaration.mark clazz)]
      rfl

theorem Member.generateSourceName_external {external : Text}
    (forced : member.externalName = some external) :
    member.generateSourceName clazz = external := by
  cases member with
  | field declaration =>
      change declaration.externalName = some external at forced
      rw [generateSourceName, FieldDeclaration.generateSourceName, forced]
      rfl
  | method declaration =>
      change declaration.externalName = some external at forced
      rw [generateSourceName, MethodDeclaration.generateSourceName, forced]
      rfl

end Member

/-- The longer owner is the shorter one, a `Nova`, and words with which the other
name begins; that name goes on with a `Nova` as well. -/
def Continues (owner : List Word) (name : Text) (longer : List Word) (rest : Text) : Prop :=
  ∃ between, longer = owner ++ LANGUAGE_NAME :: between ∧
    words name = between ++ LANGUAGE_NAME :: words rest

/-- The same words in front of `Nova` and the same name, or one owner continues the other. -/
def Confusable (owner : List Word) (name : Text) (other : List Word) (otherName : Text) : Prop :=
  (owner = other ∧ name = otherName) ∨
    Continues owner name other otherName ∨ Continues other otherName owner name

theorem append_cons_eq_append_cons {α : Type} {element : α} {before after left right : List α} :
    before ++ element :: after = left ++ element :: right ↔
      (before = left ∧ after = right) ∨
        (∃ between, left = before ++ element :: between ∧
          after = between ++ element :: right) ∨
        ∃ between, before = left ++ element :: between ∧
          right = between ++ element :: after := by
  rw [List.append_eq_append_iff]
  constructor
  · intro cut
    rcases cut with ⟨between, rfl, same⟩ | ⟨between, rfl, same⟩
    · cases between with
      | nil => exact .inl ⟨(List.append_nil _).symm, (List.cons.inj same).2⟩
      | cons head between =>
          obtain ⟨rfl, rfl⟩ := List.cons.inj same
          exact .inr (.inl ⟨between, rfl, rfl⟩)
    · cases between with
      | nil => exact .inl ⟨List.append_nil _, (List.cons.inj same).2.symm⟩
      | cons head between =>
          obtain ⟨rfl, rfl⟩ := List.cons.inj same
          exact .inr (.inr ⟨between, rfl, rfl⟩)
  · intro cut
    rcases cut with ⟨rfl, rfl⟩ | ⟨between, rfl, rfl⟩ | ⟨between, rfl, rfl⟩
    · exact .inl ⟨[], (List.append_nil _).symm, rfl⟩
    · exact .inl ⟨element :: between, rfl, rfl⟩
    · exact .inr ⟨element :: between, rfl, rfl⟩

theorem confusable_iff {owner other : List Word} {name otherName : Text} :
    Confusable owner name other otherName ↔
      owner ++ LANGUAGE_NAME :: words name = other ++ LANGUAGE_NAME :: words otherName := by
  rw [append_cons_eq_append_cons, words_injective]
  rfl

/-- Classes in different packages or with different names, a class and a member, or
two members. -/
def Different : Declaration → Declaration → Prop
  | .ofClass first, .ofClass second => first.location ≠ second.location ∨ first.name ≠ second.name
  | first, second => first ≠ second

def NamesUnique (program : Program) : Prop :=
  ∀ first ∈ program.declarations, ∀ second ∈ program.declarations, Different first second →
    first.generateSourceName ≠ second.generateSourceName

/-- What in the declarations tells their C names apart. -/
structure ToldApart (program : Program) : Prop where
  classes : ∀ first ∈ program, ∀ second ∈ program,
    first.location ≠ second.location ∨ first.name ≠ second.name →
      ¬Confusable first.owner first.name second.owner second.name
  /-- in each class -/
  members : ∀ clazz ∈ program, ∀ first ∈ clazz.members, ∀ second ∈ clazz.members,
    first ≠ second → first.externalName = none → second.externalName = none →
      ¬Confusable (first.front clazz) first.name (second.front clazz) second.name
  /-- where the path of one class goes on with more words than that of another -/
  continued : ∀ first ∈ program, ∀ second ∈ program, first ≠ second →
    ∀ more, second.path = first.path ++ more →
      ∀ member ∈ first.members, member.externalName = none →
        member.tail first ≠ more ∧
          ∀ other ∈ second.members, other.externalName = none →
            member.tail first ≠ more ++ other.tail second
  /-- a forced name is not that of a class, of another member or of another forced one -/
  external : ∀ clazz ∈ program, ∀ member ∈ clazz.members, ∀ external,
    member.externalName = some external → ∀ other ∈ program,
      words external ≠ other.path ∧
        ∀ namesake ∈ other.members, (clazz ≠ other ∨ member ≠ namesake) →
          match namesake.externalName with
          | none => words external ≠ other.path ++ namesake.tail other
          | some otherExternal => external ≠ otherExternal

theorem forall_declarations {program : Program} {holds : Declaration → Prop} :
    (∀ declaration ∈ program.declarations, holds declaration) ↔
      ∀ clazz ∈ program, holds (.ofClass clazz) ∧
        ∀ member ∈ clazz.members, holds (.ofMember clazz member) := by
  simp only [Program.declarations, List.forall_mem_flatMap, List.forall_mem_cons,
    List.forall_mem_map]

/-- Two classes, or a member and a class or another member. -/
theorem namesUnique_iff_members {program : Program} :
    NamesUnique program ↔
      (∀ first ∈ program, ∀ second ∈ program,
        first.location ≠ second.location ∨ first.name ≠ second.name →
          first.generateSourceName none ≠ second.generateSourceName none) ∧
      ∀ clazz ∈ program, ∀ member ∈ clazz.members, ∀ other ∈ program,
        member.generateSourceName clazz ≠ other.generateSourceName none ∧
          ∀ namesake ∈ other.members, (clazz ≠ other ∨ member ≠ namesake) →
            member.generateSourceName clazz ≠ namesake.generateSourceName other := by
  simp only [NamesUnique, forall_declarations, Different, Declaration.generateSourceName]
  constructor
  · intro unique
    refine ⟨fun first inFirst second inSecond => ((unique first inFirst).1 second inSecond).1,
      fun clazz inProgram member isMember other inOther => ?_⟩
    obtain ⟨fromClass, fromMember⟩ := (unique clazz inProgram).2 member isMember other inOther
    refine ⟨fromClass Declaration.noConfusion, fun namesake isNamesake different => ?_⟩
    refine fromMember namesake isNamesake fun same => ?_
    obtain ⟨sameClass, sameMember⟩ := Declaration.ofMember.inj same
    exact different.elim (· sameClass) (· sameMember)
  · rintro ⟨classes, members⟩ first inFirst
    refine ⟨fun second inSecond => ⟨classes first inFirst second inSecond,
      fun member isMember _ => ((members second inSecond member isMember first inFirst).1).symm⟩,
      fun member isMember second inSecond => ?_⟩
    obtain ⟨fromClass, fromMember⟩ := members first inFirst member isMember second inSecond
    refine ⟨fun _ => fromClass, fun namesake isNamesake different => ?_⟩
    refine fromMember namesake isNamesake (or_iff_not_imp_left.mpr fun sameClass sameMember => ?_)
    exact different (by rw [not_not.mp sameClass, sameMember])

section Spelled

variable {clazz other : ClassDeclaration} {member namesake : Member}

theorem classes_eq_iff :
    clazz.generateSourceName none = other.generateSourceName none ↔
      Confusable clazz.owner clazz.name other.owner other.name := by
  rw [← words_injective, clazz.words_generateSourceName, other.words_generateSourceName,
    confusable_iff]
  rfl

theorem member_class_eq_iff (unforced : member.externalName = none) :
    member.generateSourceName clazz = other.generateSourceName none ↔
      other.path = clazz.path ++ member.tail clazz := by
  rw [← words_injective, member.words_generateSourceName clazz unforced,
    other.words_generateSourceName, eq_comm]

theorem members_eq_iff (unforced : member.externalName = none)
    (alsoUnforced : namesake.externalName = none) :
    member.generateSourceName clazz = namesake.generateSourceName other ↔
      clazz.path ++ member.tail clazz = other.path ++ namesake.tail other := by
  rw [← words_injective, member.words_generateSourceName clazz unforced,
    namesake.words_generateSourceName other alsoUnforced]

end Spelled

theorem NamesUnique.toldApart {program : Program} (unique : NamesUnique program) :
    ToldApart program := by
  obtain ⟨classes, members⟩ := namesUnique_iff_members.mp unique
  refine ⟨?_, ?_, ?_, ?_⟩
  · intro first inFirst second inSecond different confusable
    exact classes first inFirst second inSecond different (classes_eq_iff.mpr confusable)
  · intro clazz inProgram first isFirst second isSecond different unforced alsoUnforced confusable
    refine (members clazz inProgram first isFirst clazz inProgram).2 second isSecond
      (.inr different) ((members_eq_iff unforced alsoUnforced).mpr ?_)
    rw [Member.tail, Member.tail, confusable_iff.mp confusable]
  · intro first inFirst second inSecond different more goesOn member isMember unforced
    obtain ⟨fromClass, fromMember⟩ := members first inFirst member isMember second inSecond
    refine ⟨fun same => fromClass ((member_class_eq_iff unforced).mpr (same ▸ goesOn)), ?_⟩
    intro other isOther alsoUnforced same
    refine fromMember other isOther (.inl different) ((members_eq_iff unforced alsoUnforced).mpr ?_)
    rw [goesOn, same, List.append_assoc]
  · intro clazz inProgram member isMember external forced other inOther
    obtain ⟨fromClass, fromMember⟩ := members clazz inProgram member isMember other inOther
    rw [member.generateSourceName_external clazz forced] at fromClass fromMember
    refine ⟨fun same => fromClass ?_, fun namesake isNamesake different => ?_⟩
    · rw [← words_injective, other.words_generateSourceName, same]
    · have apart := fromMember namesake isNamesake different
      split
      · next unforced =>
          rwa [ne_eq, ← words_injective, namesake.words_generateSourceName other unforced] at apart
      · next otherExternal alsoForced =>
          rwa [namesake.generateSourceName_external other alsoForced] at apart

theorem ToldApart.member_class {program : Program} (apart : ToldApart program)
    {clazz other : ClassDeclaration} (inProgram : clazz ∈ program) (inOther : other ∈ program)
    {member : Member} (isMember : member ∈ clazz.members) :
    member.generateSourceName clazz ≠ other.generateSourceName none := by
  cases forced : member.externalName with
  | some external =>
      rw [member.generateSourceName_external clazz forced, ne_eq, ← words_injective,
        other.words_generateSourceName]
      exact (apart.external clazz inProgram member isMember external forced other inOther).1
  | none =>
      intro same
      have goesOn := (member_class_eq_iff forced).mp same
      by_cases sameClass : clazz = other
      · subst sameClass
        have empty := List.self_eq_append_right.mp goesOn
        exact List.append_ne_nil_of_right_ne_nil _ (List.cons_ne_nil _ _) empty
      · exact (apart.continued clazz inProgram other inOther sameClass _ goesOn member isMember
          forced).1 rfl

theorem ToldApart.members_ne {program : Program} (apart : ToldApart program)
    {clazz other : ClassDeclaration} (inProgram : clazz ∈ program) (inOther : other ∈ program)
    {member namesake : Member} (isMember : member ∈ clazz.members)
    (isNamesake : namesake ∈ other.members) (different : clazz ≠ other ∨ member ≠ namesake) :
    member.generateSourceName clazz ≠ namesake.generateSourceName other := by
  cases forced : member.externalName with
  | some external =>
      have here := (apart.external clazz inProgram member isMember external forced other inOther).2
        namesake isNamesake different
      rw [member.generateSourceName_external clazz forced]
      split at here
      · next unforced =>
          rwa [ne_eq, ← words_injective, namesake.words_generateSourceName other unforced]
      · next otherExternal alsoForced =>
          rwa [namesake.generateSourceName_external other alsoForced]
  | none =>
      cases otherForced : namesake.externalName with
      | some external =>
          have here := (apart.external other inOther namesake isNamesake external otherForced clazz
            inProgram).2 member isMember (different.imp Ne.symm Ne.symm)
          rw [forced] at here
          rw [namesake.generateSourceName_external other otherForced, ne_comm, ne_eq,
            ← words_injective, member.words_generateSourceName clazz forced]
          exact here
      | none =>
          intro same
          have spelled := (members_eq_iff forced otherForced).mp same
          by_cases sameClass : clazz = other
          · subst sameClass
            have tails := List.append_cancel_left spelled
            exact apart.members clazz inProgram member isMember namesake isNamesake
              (different.resolve_left (· rfl)) forced otherForced (confusable_iff.mpr tails)
          · rcases List.append_eq_append_iff.mp spelled with ⟨more, goesOn, tail⟩ | ⟨more, goesOn, tail⟩
            · exact (apart.continued clazz inProgram other inOther sameClass more goesOn member
                isMember forced).2 namesake isNamesake otherForced tail
            · exact (apart.continued other inOther clazz inProgram (Ne.symm sameClass) more goesOn
                namesake isNamesake otherForced).2 member isMember forced tail

/-- A program's C names are unique exactly where its declarations are told apart: the classes
by their words, the members of one class by theirs, and the members of a class from what is
declared in a class whose path continues its own. -/
theorem names_unique_iff (program : Program) : NamesUnique program ↔ ToldApart program := by
  refine ⟨NamesUnique.toldApart, fun apart => namesUnique_iff_members.mpr ⟨?_, ?_⟩⟩
  · intro first inFirst second inSecond different same
    exact apart.classes first inFirst second inSecond different (classes_eq_iff.mp same)
  · intro clazz inProgram member isMember other inOther
    refine ⟨apart.member_class inProgram inOther isMember, fun namesake isNamesake different => ?_⟩
    exact apart.members_ne inProgram inOther isMember isNamesake different

def isIdentifier (text : Text) : Bool :=
  !text.isEmpty && !(text.head?.any Char.isDigit) &&
    text.all fun char => char.isAlphanum || char = '_'

/-- Locations are identifiers between slashes, and names are identifiers. -/
def WellNamed (program : Program) : Bool :=
  program.all fun clazz =>
    ((clazz.location.getD []).splitOn '/').all isIdentifier && isIdentifier clazz.name &&
      clazz.fields.all (isIdentifier ·.name) && clazz.methods.all (isIdentifier ·.name)

def emptyClass (location name : Text) : ClassDeclaration :=
  { location := some location, primitiveOverloadTypes := none, name, functionMap := false,
    fields := [], methods := [], inheritedFields := [] }

/-- `C` in the package `a/b` and in the package `a_b`. -/
def sameUnderscores : Program :=
  [emptyClass "a/b".toList "C".toList, emptyClass "a_b".toList "C".toList]

theorem package_slash_clashes :
    WellNamed sameUnderscores = true ∧ ¬NamesUnique sameUnderscores := by
  refine ⟨by decide, fun unique => ?_⟩
  exact unique (.ofClass (emptyClass "a/b".toList "C".toList)) (by decide)
    (.ofClass (emptyClass "a_b".toList "C".toList)) (by decide) (.inl (by decide)) (by decide)

end NovaC.Names
