import NovaC.Names.Clashes

namespace NovaC.Names

/-- `CCodeGeneratorEngine.KEYWORDS` -/
def KEYWORDS : List Text :=
  ["auto", "break", "case", "char", "const", "continue", "default", "do", "double", "else", "enum",
    "extern", "float", "for", "goto", "if", "int", "long", "register", "return", "short", "signed",
    "sizeof", "static", "struct", "switch", "typedef", "union", "unsigned", "void", "volatile",
    "while"].map String.toList

def CONTEXT_VARIABLE_NAME : Text :=
  "context".toList

structure ClosureDeclaration where
  name : Text
  isInstance : Bool
  /-- set when `doesForceOriginalName()` -/
  externalName : Option Text
  id : Nat
  /-- `generateType()` of the object reference -/
  refType : Text
deriving DecidableEq

inductive Parameter where
  /-- with what `generateModifiersSource` gives -/
  | plain (modifiers name : Text)
  | closure (declaration : ClosureDeclaration)
deriving DecidableEq

/-- What is between two commas of the C parameter list. -/
structure CParameter where
  type : Text
  name : Option Text
deriving DecidableEq

inductive MethodKind where
  | method
  /-- with the name of the `ClosureContext` -/
  | lambda (context : Text)
  | closureVariable
deriving DecidableEq

/-- `ParameterWriter.generateIdentifierSourceName`, for what is not a closure -/
def generateParameterSourceName (name : Text) (uniquePrefix : Option Text) : Text :=
  uniquePrefix.getD [] ++ ((if KEYWORDS.contains name then ['_'] else []) ++ name)

def ClosureDeclaration.generateSourceName (clazz : ClassDeclaration) (closure : ClosureDeclaration)
    (uniquePrefix : Option Text) : Text :=
  generateIdentifierSourceName (clazz.generateSourceName none) closure.name closure.isInstance
    closure.externalName uniquePrefix

/-- The prefixes of the three names of a closure. -/
def closurePrefixes : List (Option Text) :=
  [none, some "ref".toList, some CONTEXT_VARIABLE_NAME]

/-- The words of a closure's name between those of its class and the last `Nova`. -/
def closureWords (uniquePrefix : Option Text) (isInstance : Bool) : List Word :=
  uniquePrefix.elim [] words ++ if isInstance then [] else ["static".toList]

namespace Parameter

def name : Parameter → Text
  | plain _ name => name
  | closure declaration => declaration.name

def generateSource (clazz : ClassDeclaration) : Parameter → List CParameter
  | plain modifiers name => [⟨modifiers, some (generateParameterSourceName name none)⟩]
  | closure declaration =>
      let type := some ("closure".toList ++ (toString declaration.id).toList)
      [⟨declaration.generateSourceName clazz type, some (declaration.generateSourceName clazz none)⟩,
        ⟨declaration.refType, some (declaration.generateSourceName clazz (some "ref".toList))⟩,
        ⟨"void*".toList,
          some (declaration.generateSourceName clazz (some CONTEXT_VARIABLE_NAME))⟩]

end Parameter

/-- The parameters of a method of the class, the hidden ones in front and those for
further results behind. -/
structure NovaParameterList where
  clazz : ClassDeclaration
  defaultParameters : List Parameter
  visibleParameters : List Parameter
  returnParameters : List Parameter
  methodDeclaration : MethodKind
  distinct : ((defaultParameters ++ visibleParameters ++ returnParameters).map Parameter.name).Nodup

namespace NovaParameterList

variable (list : NovaParameterList)

def parameters : List Parameter :=
  list.defaultParameters ++ list.visibleParameters ++ list.returnParameters

def generateSourceParameters : List CParameter :=
  list.parameters.flatMap (Parameter.generateSource list.clazz) ++
    match list.methodDeclaration with
    | .method => []
    | .lambda context => [⟨context ++ ['*'], some CONTEXT_VARIABLE_NAME⟩]
    | .closureVariable => [⟨"void*".toList, none⟩]

/-- The names of all C parameters, that of the closure context among them. -/
def names : List Text :=
  list.generateSourceParameters.filterMap CParameter.name

/-- The C names differ, also from that of the closure context, and none is a keyword. -/
structure Legal : Prop where
  distinct : list.names.Nodup
  noKeyword : ∀ name ∈ list.names, name ∉ KEYWORDS

def HasPlain (name : Text) : Prop :=
  ∃ modifiers, .plain modifiers name ∈ list.parameters

/-- What in the Nova names keeps the C names apart. -/
structure Unambiguous : Prop where
  escapes : ∀ keyword ∈ KEYWORDS, list.HasPlain keyword → ¬list.HasPlain ('_' :: keyword)
  context : ∀ context, list.methodDeclaration = .lambda context →
    ¬list.HasPlain CONTEXT_VARIABLE_NAME
  unforced : ∀ declaration, .closure declaration ∈ list.parameters →
    declaration.externalName = none
  /-- No other parameter is named like the path of the class, `ref` or `context` or neither,
  `Nova` and the name of a closure. -/
  closures : ∀ declaration, .closure declaration ∈ list.parameters →
    ∀ uniquePrefix ∈ closurePrefixes, ∀ name, list.HasPlain name →
      words name ≠ list.clazz.path ++ (closureWords uniquePrefix declaration.isInstance ++
        LANGUAGE_NAME :: words declaration.name)

end NovaParameterList

section Keywords

theorem keyword_escaped : ∀ keyword ∈ KEYWORDS, '_' :: keyword ∉ KEYWORDS := by
  decide

theorem keyword_lower : ∀ keyword ∈ KEYWORDS, 'N' ∉ keyword := by
  decide

theorem context_not_keyword : CONTEXT_VARIABLE_NAME ∉ KEYWORDS := by
  decide

variable {name other : Text}

theorem generateParameterSourceName_keyword (keyword : name ∈ KEYWORDS) :
    generateParameterSourceName name none = '_' :: name := by
  rw [generateParameterSourceName, if_pos (List.contains_iff_mem.mpr keyword)]
  rfl

theorem generateParameterSourceName_other (notKeyword : name ∉ KEYWORDS) :
    generateParameterSourceName name none = name := by
  rw [generateParameterSourceName, if_neg (mt List.contains_iff_mem.mp notKeyword)]
  rfl

theorem generateParameterSourceName_legal (name : Text) :
    generateParameterSourceName name none ∉ KEYWORDS := by
  by_cases keyword : name ∈ KEYWORDS
  · rw [generateParameterSourceName_keyword keyword]
    exact keyword_escaped name keyword
  · rwa [generateParameterSourceName_other keyword]

/-- Two names get the same C name if one is a keyword and the other its escape. -/
theorem generateParameterSourceName_eq
    (same : generateParameterSourceName name none = generateParameterSourceName other none) :
    name = other ∨ (name ∈ KEYWORDS ∧ other = '_' :: name) ∨
      (other ∈ KEYWORDS ∧ name = '_' :: other) := by
  by_cases keyword : name ∈ KEYWORDS
  · rw [generateParameterSourceName_keyword keyword] at same
    by_cases otherKeyword : other ∈ KEYWORDS
    · rw [generateParameterSourceName_keyword otherKeyword] at same
      exact .inl (List.cons.inj same).2
    · rw [generateParameterSourceName_other otherKeyword] at same
      exact .inr (.inl ⟨keyword, same.symm⟩)
  · rw [generateParameterSourceName_other keyword] at same
    by_cases otherKeyword : other ∈ KEYWORDS
    · rw [generateParameterSourceName_keyword otherKeyword] at same
      exact .inr (.inr ⟨otherKeyword, same⟩)
    · rw [generateParameterSourceName_other otherKeyword] at same
      exact .inl same

end Keywords

section Closures

variable {clazz : ClassDeclaration} {declaration other : ClosureDeclaration}

theorem closure_name_mem (clazz : ClassDeclaration) (unforced : declaration.externalName = none)
    (uniquePrefix : Option Text) :
    'N' ∈ declaration.generateSourceName clazz uniquePrefix := by
  have inLanguageName : 'N' ∈ LANGUAGE_NAME := by decide
  rw [ClosureDeclaration.generateSourceName, unforced, generateIdentifierSourceName]
  refine List.mem_append_right _ (List.mem_cons_of_mem _ ?_)
  exact List.mem_append_right _ (List.mem_append_right _ (List.mem_append_left _ inLanguageName))

theorem closureWords_injective : ∀ uniquePrefix ∈ closurePrefixes, ∀ otherPrefix ∈ closurePrefixes,
    ∀ isInstance otherInstance,
      closureWords uniquePrefix isInstance = closureWords otherPrefix otherInstance →
        uniquePrefix = otherPrefix := by
  decide

theorem language_name_notMem : ∀ uniquePrefix ∈ closurePrefixes, ∀ isInstance,
    LANGUAGE_NAME ∉ closureWords uniquePrefix isInstance := by
  decide

theorem words_closure_name (clazz : ClassDeclaration) (unforced : declaration.externalName = none)
    (uniquePrefix : Option Text) :
    words (declaration.generateSourceName clazz uniquePrefix) =
      clazz.path ++ (closureWords uniquePrefix declaration.isInstance ++
        LANGUAGE_NAME :: words declaration.name) := by
  rw [ClosureDeclaration.generateSourceName, unforced, words_generateIdentifierSourceName,
    clazz.words_generateSourceName, closureWords, List.append_assoc]

theorem closure_name_injective (unforced : declaration.externalName = none)
    (otherUnforced : other.externalName = none) {uniquePrefix otherPrefix : Option Text}
    (isPrefix : uniquePrefix ∈ closurePrefixes) (isOtherPrefix : otherPrefix ∈ closurePrefixes)
    (same : declaration.generateSourceName clazz uniquePrefix =
      other.generateSourceName clazz otherPrefix) :
    uniquePrefix = otherPrefix ∧ declaration.name = other.name := by
  rw [← words_injective, words_closure_name clazz unforced, words_closure_name clazz otherUnforced,
    List.append_cancel_left_eq] at same
  -- neither has a `Nova` in front of the last one
  rcases append_cons_eq_append_cons.mp same with
    ⟨sameWords, sameName⟩ | ⟨between, longer, -⟩ | ⟨between, longer, -⟩
  · exact ⟨closureWords_injective _ isPrefix _ isOtherPrefix _ _ sameWords,
      words_injective.mp sameName⟩
  · refine absurd ?_ (language_name_notMem _ isOtherPrefix other.isInstance)
    rw [longer]
    exact List.mem_append_right _ List.mem_cons_self
  · refine absurd ?_ (language_name_notMem _ isPrefix declaration.isInstance)
    rw [longer]
    exact List.mem_append_right _ List.mem_cons_self

end Closures

namespace Parameter

variable {clazz : ClassDeclaration} {parameter other : Parameter}

/-- The names of its C parameters. -/
def sourceNames (clazz : ClassDeclaration) (parameter : Parameter) : List Text :=
  (parameter.generateSource clazz).filterMap CParameter.name

theorem sourceNames_plain (clazz : ClassDeclaration) (modifiers name : Text) :
    (plain modifiers name).sourceNames clazz = [generateParameterSourceName name none] :=
  rfl

theorem sourceNames_closure (clazz : ClassDeclaration) (declaration : ClosureDeclaration) :
    (closure declaration).sourceNames clazz =
      closurePrefixes.map (declaration.generateSourceName clazz) :=
  rfl

theorem sourceNames_nodup_iff :
    (parameter.sourceNames clazz).Nodup ↔
      ∀ declaration, parameter = .closure declaration → declaration.externalName = none := by
  cases parameter with
  | plain modifiers name =>
      rw [sourceNames_plain]
      exact iff_of_true (List.nodup_singleton _) (fun _ contradictory => by cases contradictory)
  | closure declaration =>
      rw [sourceNames_closure]
      constructor
      · intro nodup declaration' same
        cases same
        cases forced : declaration.externalName with
        | none => rfl
        | some externalName =>
            simp [closurePrefixes, ClosureDeclaration.generateSourceName,
              generateIdentifierSourceName, forced] at nodup
      · intro unforced
        have notForced := unforced declaration rfl
        apply List.Nodup.map_on
        · intro uniquePrefix isPrefix otherPrefix isOtherPrefix same
          exact (closure_name_injective notForced notForced isPrefix isOtherPrefix same).1
        · decide

theorem sourceNames_legal (unforced : ∀ declaration, parameter = .closure declaration →
    declaration.externalName = none) {text : Text} (emitted : text ∈ parameter.sourceNames clazz) :
    text ∉ KEYWORDS := by
  cases parameter with
  | plain modifiers name =>
      rw [sourceNames_plain, List.mem_singleton] at emitted
      rw [emitted]
      exact generateParameterSourceName_legal name
  | closure declaration =>
      rw [sourceNames_closure, List.mem_map] at emitted
      obtain ⟨uniquePrefix, -, rfl⟩ := emitted
      intro keyword
      exact keyword_lower _ keyword (closure_name_mem clazz (unforced declaration rfl) uniquePrefix)

end Parameter

namespace NovaParameterList

variable {list : NovaParameterList}

theorem names_eq (list : NovaParameterList) :
    list.names = list.parameters.flatMap (Parameter.sourceNames list.clazz) ++
      match list.methodDeclaration with
      | .lambda _ => [CONTEXT_VARIABLE_NAME]
      | _ => [] := by
  rw [names, generateSourceParameters, List.filterMap_append, List.filterMap_flatMap]
  cases list.methodDeclaration <;> rfl

theorem Legal.disjoint (legal : list.Legal) {parameter other : Parameter}
    (member : parameter ∈ list.parameters) (otherMember : other ∈ list.parameters)
    (different : parameter ≠ other) :
    List.Disjoint (parameter.sourceNames list.clazz) (other.sourceNames list.clazz) := by
  have distinct := legal.distinct
  rw [names_eq] at distinct
  have apart := (List.nodup_flatMap.mp (List.nodup_append.mp distinct).1).2
  have symmetric : Std.Symm (Function.onFun List.Disjoint (Parameter.sourceNames list.clazz)) :=
    ⟨fun _ _ disjoint => disjoint.symm⟩
  exact apart.forall member otherMember different

theorem Legal.unambiguous (legal : list.Legal) : list.Unambiguous := by
  have distinct := legal.distinct
  rw [names_eq] at distinct
  have unforced : ∀ declaration, .closure declaration ∈ list.parameters →
      declaration.externalName = none := by
    intro declaration member
    have nodup := (List.nodup_flatMap.mp (List.nodup_append.mp distinct).1).1 _ member
    exact Parameter.sourceNames_nodup_iff.mp nodup declaration rfl
  refine ⟨?_, ?_, unforced, ?_⟩
  · intro keyword isKeyword plain escaped
    obtain ⟨modifiers, member⟩ := plain
    obtain ⟨otherModifiers, otherMember⟩ := escaped
    have different : Parameter.plain modifiers keyword ≠ .plain otherModifiers ('_' :: keyword) := by
      simp
    refine legal.disjoint member otherMember different (a := '_' :: keyword) ?_ ?_
    · rw [Parameter.sourceNames_plain, generateParameterSourceName_keyword isKeyword]
      exact List.mem_singleton_self _
    · rw [Parameter.sourceNames_plain,
        generateParameterSourceName_other (keyword_escaped keyword isKeyword)]
      exact List.mem_singleton_self _
  · intro context isLambda plain
    obtain ⟨modifiers, member⟩ := plain
    rw [isLambda] at distinct
    have emitted : CONTEXT_VARIABLE_NAME ∈
        list.parameters.flatMap (Parameter.sourceNames list.clazz) := by
      refine List.mem_flatMap.mpr ⟨_, member, ?_⟩
      rw [Parameter.sourceNames_plain, generateParameterSourceName_other context_not_keyword]
      exact List.mem_singleton_self _
    exact (List.nodup_append.mp distinct).2.2 _ emitted _ (List.mem_singleton_self _) rfl
  · intro declaration closureMember uniquePrefix isPrefix name plain spelled
    obtain ⟨modifiers, member⟩ := plain
    rw [← words_closure_name list.clazz (unforced declaration closureMember), words_injective]
      at spelled
    have upper := closure_name_mem list.clazz (unforced declaration closureMember) uniquePrefix
    rw [← spelled] at upper
    have notKeyword : name ∉ KEYWORDS := fun keyword => keyword_lower _ keyword upper
    have different : Parameter.plain modifiers name ≠ .closure declaration := by simp
    refine legal.disjoint member closureMember different (a := name) ?_ ?_
    · rw [Parameter.sourceNames_plain, generateParameterSourceName_other notKeyword]
      exact List.mem_singleton_self _
    · rw [Parameter.sourceNames_closure, spelled]
      exact List.mem_map_of_mem isPrefix

theorem Unambiguous.plain_ne_closure (unambiguous : list.Unambiguous) {modifiers name : Text}
    {declaration : ClosureDeclaration} (member : .plain modifiers name ∈ list.parameters)
    (closureMember : .closure declaration ∈ list.parameters) {uniquePrefix : Option Text}
    (isPrefix : uniquePrefix ∈ closurePrefixes) :
    generateParameterSourceName name none ≠
      declaration.generateSourceName list.clazz uniquePrefix := by
  intro same
  have upper := closure_name_mem list.clazz
    (unambiguous.unforced declaration closureMember) uniquePrefix
  by_cases keyword : name ∈ KEYWORDS
  · rw [generateParameterSourceName_keyword keyword] at same
    rw [← same, List.mem_cons] at upper
    rcases upper with underscore | inKeyword
    · exact absurd underscore (by decide)
    · exact keyword_lower name keyword inKeyword
  · rw [generateParameterSourceName_other keyword] at same
    refine unambiguous.closures declaration closureMember uniquePrefix isPrefix name
      ⟨modifiers, member⟩ ?_
    rw [same, words_closure_name list.clazz (unambiguous.unforced declaration closureMember)]

theorem Unambiguous.disjoint (unambiguous : list.Unambiguous) {parameter other : Parameter}
    (member : parameter ∈ list.parameters) (otherMember : other ∈ list.parameters)
    (different : parameter.name ≠ other.name) :
    List.Disjoint (parameter.sourceNames list.clazz) (other.sourceNames list.clazz) := by
  intro text emitted otherEmitted
  cases parameter with
  | plain modifiers name =>
      rw [Parameter.sourceNames_plain, List.mem_singleton] at emitted
      cases other with
      | plain otherModifiers otherName =>
          rw [Parameter.sourceNames_plain, List.mem_singleton] at otherEmitted
          rcases generateParameterSourceName_eq (emitted.symm.trans otherEmitted) with
            same | ⟨keyword, rfl⟩ | ⟨keyword, rfl⟩
          · exact different same
          · exact unambiguous.escapes name keyword ⟨modifiers, member⟩ ⟨otherModifiers, otherMember⟩
          · exact unambiguous.escapes otherName keyword ⟨otherModifiers, otherMember⟩
              ⟨modifiers, member⟩
      | closure declaration =>
          rw [Parameter.sourceNames_closure, List.mem_map] at otherEmitted
          obtain ⟨uniquePrefix, isPrefix, same⟩ := otherEmitted
          exact unambiguous.plain_ne_closure member otherMember isPrefix (emitted.symm.trans same.symm)
  | closure declaration =>
      rw [Parameter.sourceNames_closure, List.mem_map] at emitted
      obtain ⟨uniquePrefix, isPrefix, same⟩ := emitted
      cases other with
      | plain otherModifiers otherName =>
          rw [Parameter.sourceNames_plain, List.mem_singleton] at otherEmitted
          exact unambiguous.plain_ne_closure otherMember member isPrefix
            (otherEmitted.symm.trans same.symm)
      | closure otherDeclaration =>
          rw [Parameter.sourceNames_closure, List.mem_map] at otherEmitted
          obtain ⟨otherPrefix, isOtherPrefix, otherSame⟩ := otherEmitted
          exact different (closure_name_injective (unambiguous.unforced declaration member)
            (unambiguous.unforced otherDeclaration otherMember) isPrefix isOtherPrefix
            (same.trans otherSame.symm)).2

theorem Unambiguous.context_not_mem (unambiguous : list.Unambiguous) {context : Text}
    (isLambda : list.methodDeclaration = .lambda context) :
    CONTEXT_VARIABLE_NAME ∉ list.parameters.flatMap (Parameter.sourceNames list.clazz) := by
  intro emitted
  obtain ⟨parameter, member, inNames⟩ := List.mem_flatMap.mp emitted
  cases parameter with
  | plain modifiers name =>
      rw [Parameter.sourceNames_plain, List.mem_singleton] at inNames
      have unchanged := generateParameterSourceName_other context_not_keyword
      rcases generateParameterSourceName_eq (unchanged.trans inNames) with
        rfl | ⟨keyword, -⟩ | ⟨-, underscore⟩
      · exact unambiguous.context context isLambda ⟨modifiers, member⟩
      · exact context_not_keyword keyword
      · have head : 'c' = '_' := (List.cons.inj underscore).1
        exact absurd head (by decide)
  | closure declaration =>
      rw [Parameter.sourceNames_closure, List.mem_map] at inNames
      obtain ⟨uniquePrefix, -, same⟩ := inNames
      have upper := closure_name_mem list.clazz
        (unambiguous.unforced declaration member) uniquePrefix
      rw [same] at upper
      exact absurd upper (by decide)

theorem Unambiguous.legal (unambiguous : list.Unambiguous) : list.Legal := by
  have unforced : ∀ parameter ∈ list.parameters, ∀ declaration,
      parameter = .closure declaration → declaration.externalName = none := by
    rintro parameter member declaration rfl
    exact unambiguous.unforced declaration member
  have parametersDistinct :
      (list.parameters.flatMap (Parameter.sourceNames list.clazz)).Nodup := by
    refine List.nodup_flatMap.mpr ⟨?_, ?_⟩
    · intro parameter member
      exact Parameter.sourceNames_nodup_iff.mpr (unforced parameter member)
    · refine (List.pairwise_map.mp list.distinct).imp_of_mem ?_
      intro parameter other member otherMember different
      exact unambiguous.disjoint member otherMember different
  have parametersLegal : ∀ text ∈ list.parameters.flatMap (Parameter.sourceNames list.clazz),
      text ∉ KEYWORDS := by
    intro text emitted
    obtain ⟨parameter, member, inNames⟩ := List.mem_flatMap.mp emitted
    exact Parameter.sourceNames_legal (unforced parameter member) inNames
  cases kind : list.methodDeclaration with
  | lambda context =>
      have notEmitted := unambiguous.context_not_mem kind
      constructor
      · rw [names_eq, kind]
        exact parametersDistinct.append (List.nodup_singleton _) (by simpa using notEmitted)
      · intro text emitted
        rw [names_eq, kind, List.mem_append, List.mem_singleton] at emitted
        rcases emitted with ofParameter | rfl
        · exact parametersLegal text ofParameter
        · exact context_not_keyword
  | method | closureVariable =>
      constructor
      · rw [names_eq, kind, List.append_nil]
        exact parametersDistinct
      · rw [names_eq, kind, List.append_nil]
        exact parametersLegal

/-- The C names are distinct and legal exactly when the Nova names tell them apart. -/
theorem parameter_names_legal_iff (list : NovaParameterList) : list.Legal ↔ list.Unambiguous :=
  ⟨Legal.unambiguous, Unambiguous.legal⟩

/-- A method with the parameters `int` and `_int`. -/
def escapedTwice : NovaParameterList where
  clazz := emptyClass "a".toList "C".toList
  defaultParameters := []
  visibleParameters := [.plain "int".toList "int".toList, .plain "int".toList "_int".toList]
  returnParameters := []
  methodDeclaration := .method
  distinct := by decide

theorem escaped_keyword_clashes :
    (∀ parameter ∈ escapedTwice.parameters, isIdentifier parameter.name = true) ∧
      ¬escapedTwice.Legal := by
  refine ⟨by decide, ?_⟩
  intro legal
  exact absurd legal.distinct (by decide)

end NovaParameterList

end NovaC.Names
