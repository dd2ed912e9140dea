import Mathlib

namespace NovaC.Names

abbrev Text := List Char

/-- `Nova.LANGUAGE_NAME` -/
def LANGUAGE_NAME : Text :=
  "Nova".toList

structure FieldDeclaration where
  name : Text
  isInstance : Bool
  /-- set when `doesForceOriginalName()` -/
  externalName : Option Text
deriving DecidableEq

/-- The types of a method with `isPrimitiveOverload()`. -/
structure PrimitiveOverload where
  /-- `generateTypeName()` of a primitive parameter, `getType()` of another -/
  parameters : List Text
  /-- `generateType()` of a primitive type, `getType()` of another -/
  type : Option Text
deriving DecidableEq

/-- The writers of methods that differ in `getFunctionMapPrefix()` and `getName()`. -/
inductive MethodWriter where
  /-- `NovaMethodDeclarationWriter`, and the writers under it that override neither -/
  | novaMethod
  | constructor
  | destructor
  | initializationMethod
  | assignmentMethod
deriving DecidableEq

/-- `Constructor.IDENTIFIER` -/
def IDENTIFIER : Text :=
  "construct".toList

structure MethodDeclaration where
  writer : MethodWriter
  /-- `node().getName()` -/
  name : Text
  isInstance : Bool
  /-- set when `doesForceOriginalName()` -/
  externalName : Option Text
  /-- `getMethodPrefix()` of a `PropertyMethod`, the prefix of a `VirtualMethodDeclaration` -/
  methodPrefix : Option Text
  /-- the `postPrefix` when the corresponding function is a `Constructor`: the type of the
  reference parameter -/
  constructorType : Option Text
  primitiveOverload : Option PrimitiveOverload
  overloadID : Int
deriving DecidableEq

structure ClassDeclaration where
  /-- the location of the package, when `validLocation()` -/
  location : Option Text
  /-- set when `isPrimitiveOverload()` -/
  primitiveOverloadTypes : Option (List Text)
  name : Text
  /-- `isPropertyTrue("functionMap")` -/
  functionMap : Bool
  fields : List FieldDeclaration
  methods : List MethodDeclaration
  /-- the fields that `getField` finds in other classes -/
  inheritedFields : List Text
deriving DecidableEq

def replace (old new : Char) (text : Text) : Text :=
  text.map fun char => if char = old then new else char

/-- `PackageWriter.generateLocation` -/
def generateLocation : Option Text → Text
  | none => []
  | some location => replace '.' '_' (replace '/' '_' location)

/-- every type with a `_` behind it -/
def typePrefix (types : List Text) : Text :=
  types.flatMap (· ++ ['_'])

namespace ClassDeclaration

variable (clazz : ClassDeclaration)

def getPrimitiveOverloadPrefix : Text :=
  typePrefix (clazz.primitiveOverloadTypes.getD [])

def generateUniquePrefix : Text :=
  generateLocation clazz.location ++ '_' :: clazz.getPrimitiveOverloadPrefix

def generateSourceName (uniquePrefix : Option Text) : Text :=
  clazz.generateUniquePrefix ++ (uniquePrefix.getD LANGUAGE_NAME ++ '_' :: clazz.name)

/-- `getField(name) != null` -/
def hasField (name : Text) : Bool :=
  clazz.fields.any (·.name = name) || clazz.inheritedFields.contains name

end ClassDeclaration

/-- `IdentifierWriter.generateSourceName` of what is declared in the class with this C name -/
def generateIdentifierSourceName (className name : Text) (isInstance : Bool)
    (externalName uniquePrefix : Option Text) : Text :=
  match externalName with
  | some externalName => externalName
  | none =>
      className ++ '_' ::
        ((uniquePrefix.elim [] (· ++ ['_'])) ++
          ((if isInstance then [] else "static_".toList) ++ (LANGUAGE_NAME ++ '_' :: name)))

/-- `VariableDeclarationWriter.generateSourceName` -/
def FieldDeclaration.generateSourceName (clazz : ClassDeclaration) (field : FieldDeclaration) :
    Text :=
  generateIdentifierSourceName (clazz.generateSourceName none) field.name field.isInstance
    field.externalName none

namespace MethodDeclaration

variable (clazz : ClassDeclaration) (method : MethodDeclaration)

def getFunctionMapPrefix : Text :=
  match method.writer with
  | .novaMethod => if clazz.functionMap then "functionMap".toList else []
  | .constructor | .destructor | .initializationMethod | .assignmentMethod => []

/-- `getName()` of the writer -/
def getName : Text :=
  match method.writer with
  | .constructor => IDENTIFIER
  | .novaMethod | .destructor | .initializationMethod | .assignmentMethod => method.name

def getPrimitiveOverloadPrefix (overload : PrimitiveOverload) : Text :=
  typePrefix overload.parameters ++ overload.type.getD "void".toList

/-- What is put together of a prefix with that of a primitive overload behind it. -/
def addPrimitiveOverloadPrefix (start : Text) : Text :=
  match method.primitiveOverload with
  | none => start
  | some overload =>
      (if 0 < start.length then start ++ ['_'] else start) ++ getPrimitiveOverloadPrefix overload

/-- The prefix that `NovaMethodDeclarationWriter.generateSourceName` puts together. -/
def uniquePrefix : Option Text :=
  let start := method.methodPrefix.getD [] ++
    ((if clazz.hasField method.name then "func".toList else []) ++
      (method.getFunctionMapPrefix clazz ++ method.constructorType.getD []))
  let typed := method.addPrimitiveOverloadPrefix start
  if method.overloadID = -1 then
    if typed.length = 0 then none else some typed
  else some (typed ++ (toString method.overloadID).toList)

def generateSourceName : Text :=
  generateIdentifierSourceName (clazz.generateSourceName none) method.getName method.isInstance
    method.externalName (method.uniquePrefix clazz)

end MethodDeclaration

inductive Member where
  | field (declaration : FieldDeclaration)
  | method (declaration : MethodDeclaration)
deriving DecidableEq

def Member.generateSourceName (clazz : ClassDeclaration) : Member → Text
  | field declaration => declaration.generateSourceName clazz
  | method declaration => declaration.generateSourceName clazz

def ClassDeclaration.members (clazz : ClassDeclaration) : List Member :=
  clazz.fields.map .field ++ clazz.methods.map .method

inductive Declaration where
  | ofClass (clazz : ClassDeclaration)
  | ofMember (clazz : ClassDeclaration) (member : Member)
deriving DecidableEq

def Declaration.generateSourceName : Declaration → Text
  | ofClass clazz => clazz.generateSourceName none
  | ofMember clazz member => member.generateSourceName clazz

abbrev Program := List ClassDeclaration

def Program.declarations (program : Program) : List Declaration :=
  program.flatMap fun clazz => .ofClass clazz :: clazz.members.map (.ofMember clazz)

end NovaC.Names
