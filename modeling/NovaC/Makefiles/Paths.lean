import NovaC.Names.Writers

namespace NovaC.Makefiles

open NovaC.Names

structure FileDeclaration where
  /-- `getPackage().getLocation()` -/
  location : Text
  /-- `getClassDeclaration()`, where `none` stands for null -/
  clazz : Option ClassDeclaration
deriving DecidableEq

/-- `replace(" ", "\\ ")` -/
def escapeSpaces (text : Text) : Text :=
  text.flatMap fun char => if char = ' ' then ['\\', ' '] else [char]

namespace FileDeclaration

/-- `generateHeaderLocation() + "/" + generateSourceName()` -/
def path (file : FileDeclaration) : Option Text :=
  file.clazz.map fun clazz => file.location ++ '/' :: clazz.generateSourceName none

def generateFullLocation (file : FileDeclaration) : Option Text :=
  file.path.map escapeSpaces

/-- `generateFullLocation().replace('\\', '/').replace(" ", "\\ ") + extension` -/
def token (file : FileDeclaration) (extension : Text) : Option Text :=
  file.generateFullLocation.map fun location =>
    escapeSpaces (replace '\\' '/' location) ++ extension

def dependency (file : FileDeclaration) : Option Text :=
  file.token ".h".toList

def object (file : FileDeclaration) : Option Text :=
  file.token ".o".toList

end FileDeclaration

/-- The word that `make` reads, and what is behind it: a space ends the word, unless a
backslash stands before it. -/
def readWord : Text → Text × Text
  | [] => ([], [])
  | '\\' :: ' ' :: rest => (' ' :: (readWord rest).1, (readWord rest).2)
  | ' ' :: rest => ([], rest)
  | char :: rest => (char :: (readWord rest).1, (readWord rest).2)

theorem readWord_cons {char : Char} (noSpace : char ≠ ' ') (noBackslash : char ≠ '\\')
    (rest : Text) : readWord (char :: rest) = (char :: (readWord rest).1, (readWord rest).2) := by
  rw [readWord]
  · rintro _ rfl
    exact absurd rfl noBackslash
  · exact noSpace

/-- Without a backslash before, escaping the spaces once is what `make` reads back. -/
theorem readWord_escapeSpaces {text : Text} (noBackslash : '\\' ∉ text) (rest : Text) :
    readWord (escapeSpaces text ++ rest) = (text ++ (readWord rest).1, (readWord rest).2) := by
  induction text with
  | nil => rfl
  | cons char text ih =>
      rw [List.mem_cons, not_or] at noBackslash
      by_cases space : char = ' '
      · have escaped : escapeSpaces (char :: text) ++ rest =
            '\\' :: ' ' :: (escapeSpaces text ++ rest) := by
          rw [escapeSpaces, List.flatMap_cons, if_pos space]
          rfl
        rw [escaped, readWord, ih noBackslash.2, space]
        rfl
      · have kept : escapeSpaces (char :: text) ++ rest = char :: (escapeSpaces text ++ rest) := by
          rw [escapeSpaces, List.flatMap_cons, if_neg space]
          rfl
        rw [kept, readWord_cons space (Ne.symm noBackslash.1), ih noBackslash.2]
        rfl

theorem escapeSpaces_length (text : Text) :
    (escapeSpaces text).length = text.length + text.count ' ' := by
  induction text with
  | nil => rfl
  | cons char text ih =>
      rw [escapeSpaces] at ih ⊢
      rw [List.flatMap_cons, List.length_append, ih, List.length_cons, List.count_cons]
      by_cases space : char = ' '
      · simp [space]
        omega
      · simp [space]
        omega

theorem escapeSpaces_eq {text : Text} (noSpace : ' ' ∉ text) : escapeSpaces text = text := by
  induction text with
  | nil => rfl
  | cons char text ih =>
      rw [List.mem_cons, not_or] at noSpace
      rw [escapeSpaces, List.flatMap_cons, if_neg (Ne.symm noSpace.1)]
      exact congrArg (char :: ·) (ih noSpace.2)

theorem not_mem_replace {old new : Char} (different : new ≠ old) (text : Text) :
    old ∉ replace old new text := by
  intro member
  obtain ⟨char, -, replaced⟩ := List.mem_map.mp member
  split at replaced
  · exact different replaced
  · rename_i kept
    exact kept replaced

theorem replace_eq {old new : Char} {text : Text} (absent : old ∉ text) :
    replace old new text = text := by
  induction text with
  | nil => rfl
  | cons char text ih =>
      rw [List.mem_cons, not_or] at absent
      rw [replace, List.map_cons, if_neg (Ne.symm absent.1)]
      exact congrArg (char :: ·) (ih absent.2)

theorem mem_replace {char old new : Char} (notOld : char ≠ old) (notNew : char ≠ new) (text : Text) :
    char ∈ replace old new text ↔ char ∈ text := by
  rw [replace, List.mem_map]
  refine ⟨?_, fun member => ?_⟩
  · rintro ⟨other, member, replaced⟩
    split at replaced
    · exact absurd replaced.symm notNew
    · exact replaced ▸ member
  · exact ⟨char, member, if_neg notOld⟩

/-- There is nothing to escape, and no separator to change. -/
def Plain (text : Text) : Prop :=
  ' ' ∉ text ∧ '\\' ∉ text

instance (text : Text) : Decidable (Plain text) :=
  inferInstanceAs (Decidable (_ ∧ _))

/-- The change of separators also changes the backslashes of the first escaping. -/
theorem twice_eq_iff (text : Text) :
    replace '\\' '/' (escapeSpaces text) = text ↔ Plain text := by
  refine ⟨fun same => ?_, ?_⟩
  · have length := congrArg List.length same
    rw [replace, List.length_map, escapeSpaces_length] at length
    have noBackslash := not_mem_replace (show '/' ≠ '\\' by decide) (escapeSpaces text)
    rw [same] at noBackslash
    exact ⟨List.count_eq_zero.mp (by omega), noBackslash⟩
  · rintro ⟨noSpace, noBackslash⟩
    rw [escapeSpaces_eq noSpace, replace_eq noBackslash]

/-- The characters of the C name of a class that are in nothing but its location, its types
and its name. -/
theorem mem_generateSourceName (clazz : ClassDeclaration) {char : Char}
    (other : char ∉ '/' :: '.' :: '_' :: LANGUAGE_NAME) :
    char ∈ clazz.generateSourceName none ↔ char ∈ clazz.location.getD [] ∨
      (∃ type ∈ clazz.primitiveOverloadTypes.getD [], char ∈ type) ∨ char ∈ clazz.name := by
  simp only [List.mem_cons, not_or] at other
  obtain ⟨slash, dot, underscore, language⟩ := other
  have located : char ∈ generateLocation clazz.location ↔ char ∈ clazz.location.getD [] := by
    cases clazz.location with
    | none => rfl
    | some location =>
        rw [generateLocation, mem_replace dot underscore, mem_replace slash underscore,
          Option.getD_some]
  have typed : char ∈ clazz.getPrimitiveOverloadPrefix ↔
      ∃ type ∈ clazz.primitiveOverloadTypes.getD [], char ∈ type := by
    simp only [ClassDeclaration.getPrimitiveOverloadPrefix, typePrefix, List.mem_flatMap,
      List.mem_append, List.mem_singleton, underscore, or_false]
  simp only [ClassDeclaration.generateSourceName, ClassDeclaration.generateUniquePrefix,
    Option.getD_none, List.mem_append, List.mem_cons, located, typed, underscore, language,
    false_or, or_assoc]

namespace FileDeclaration

variable {file : FileDeclaration} {clazz : ClassDeclaration} {path : Text}

/-- The location of the package, and what the name of the class is made of. -/
def texts (file : FileDeclaration) (clazz : ClassDeclaration) : List Text :=
  file.location :: clazz.location.getD [] ::
    (clazz.primitiveOverloadTypes.getD [] ++ [clazz.name])

/-- `make` reads the location with the extension, and nothing else. -/
def ReadBack (token : Option Text) (path extension : Text) : Prop :=
  ∃ printed, token = some printed ∧ readWord printed = (path ++ extension, [])

theorem mem_path (declared : file.clazz = some clazz) (located : file.path = some path)
    {char : Char} (other : char ∉ '/' :: '.' :: '_' :: LANGUAGE_NAME) :
    char ∈ path ↔ ∃ text ∈ file.texts clazz, char ∈ text := by
  have slash : char ≠ '/' := fun same => other (same ▸ List.mem_cons_self)
  rw [FileDeclaration.path, declared] at located
  obtain rfl := Option.some.inj located
  simp only [List.mem_append, List.mem_cons, mem_generateSourceName clazz other, slash, false_or,
    texts, or_and_right, exists_or, exists_eq_left, List.not_mem_nil, or_false]

theorem path_plain_iff (declared : file.clazz = some clazz) (located : file.path = some path) :
    Plain path ↔ ∀ text ∈ file.texts clazz, Plain text := by
  rw [Plain, mem_path declared located (by decide), mem_path declared located (by decide)]
  refine ⟨?_, fun plain => ?_⟩
  · rintro ⟨noSpace, noBackslash⟩ text member
    exact ⟨fun space => noSpace ⟨text, member, space⟩,
      fun backslash => noBackslash ⟨text, member, backslash⟩⟩
  · refine ⟨?_, ?_⟩
    · rintro ⟨text, member, space⟩
      exact (plain text member).1 space
    · rintro ⟨text, member, backslash⟩
      exact (plain text member).2 backslash

/-- What is read back of a token. -/
theorem readBack_iff (located : file.path = some path) {extension : Text}
    (word : readWord extension = (extension, [])) :
    ReadBack (file.token extension) path extension ↔ Plain path := by
  have read : readWord (escapeSpaces (replace '\\' '/' (escapeSpaces path)) ++ extension) =
      (replace '\\' '/' (escapeSpaces path) ++ extension, []) := by
    rw [readWord_escapeSpaces (not_mem_replace (by decide) _), word]
  rw [ReadBack, token, generateFullLocation, located, ← twice_eq_iff]
  simp only [Option.map_some, Option.some.injEq, exists_eq_left', read, Prod.mk.injEq, and_true,
    List.append_cancel_right_eq]

/-- The tokens of a file denote its location when nothing in that has to be escaped. -/
theorem tokens_denote_iff (declared : file.clazz = some clazz) :
    (∃ path, file.path = some path ∧ ReadBack file.dependency path ".h".toList ∧
      ReadBack file.object path ".o".toList) ↔ ∀ text ∈ file.texts clazz, Plain text := by
  have located : file.path = some (file.location ++ '/' :: clazz.generateSourceName none) := by
    rw [FileDeclaration.path, declared, Option.map_some]
  rw [located, ← path_plain_iff declared located]
  simp only [Option.some.injEq, exists_eq_left', dependency, object]
  rw [readBack_iff located (by decide), readBack_iff located (by decide), and_self]

/-- The class `Main` in a package. -/
def main (location : Text) : FileDeclaration where
  location := location
  clazz := some
    { location := some location, primitiveOverloadTypes := none, name := "Main".toList,
      functionMap := false, fields := [], methods := [], inheritedFields := [] }

theorem tokens_denote_app :
    (∃ path, (main "app".toList).path = some path ∧
      ReadBack (main "app".toList).dependency path ".h".toList ∧
      ReadBack (main "app".toList).object path ".o".toList) ↔
        ∀ text ∈ texts (main "app".toList) ((main "app".toList).clazz.get (by decide)), Plain text :=
  tokens_denote_iff rfl

/-- The dependency of a class in the package `my app` is read as `my/ app/my/ app_Nova_Main.h`. -/
theorem tokens_not_denote_my_app :
    (main "my app".toList).path = some "my app/my app_Nova_Main".toList ∧
      (main "my app".toList).dependency.map readWord =
        some ("my/ app/my/ app_Nova_Main.h".toList, []) ∧
      ¬ ∃ path, (main "my app".toList).path = some path ∧
        ReadBack (main "my app".toList).dependency path ".h".toList ∧
        ReadBack (main "my app".toList).object path ".o".toList := by
  have located : (main "my app".toList).path = some "my app/my app_Nova_Main".toList := by decide
  refine ⟨located, by decide, ?_⟩
  rintro ⟨path, found, dependency, -⟩
  obtain rfl := Option.some.inj (located.symm.trans found)
  have plain := (readBack_iff located (by decide)).mp dependency
  exact absurd plain (by decide)

end FileDeclaration

end NovaC.Makefiles
