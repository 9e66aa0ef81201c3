/-!
Access flags. What a bit of a flag word means depends on what the word belongs to. Flag words are
integers in two's complement without a last bit.
-/

namespace JavaClass

inductive FlagContext where
  | classFile
  | field
  | method
  | innerClass
  deriving DecidableEq, Repr

inductive AccessFlag where
  | isPublic
  | isPrivate
  | isProtected
  | isStatic
  | isFinal
  | isSuper
  | isSynchronized
  | isVolatile
  | isBridge
  | isTransient
  | isVarargs
  | isNative
  | isInterface
  | isAbstract
  | isStrict
  | isSynthetic
  | isAnnotationType
  | isEnum
  | isModule
  | isMandated
  deriving DecidableEq, Repr

namespace AccessFlag

/-- The flag's position in a flag word. -/
def bit : AccessFlag → Nat
  | .isPublic => 0
  | .isPrivate => 1
  | .isProtected => 2
  | .isStatic => 3
  | .isFinal => 4
  | .isSuper | .isSynchronized => 5
  | .isVolatile | .isBridge => 6
  | .isTransient | .isVarargs => 7
  | .isNative => 8
  | .isInterface => 9
  | .isAbstract => 10
  | .isStrict => 11
  | .isSynthetic => 12
  | .isAnnotationType => 13
  | .isEnum => 14
  | .isModule | .isMandated => 15

/-- Whether the flag is set in a flag word. -/
def isSet (flag : AccessFlag) (word : Int) : Bool := (word >>> flag.bit) % 2 = 1

def name : AccessFlag → String
  | .isPublic => "ACC_PUBLIC"
  | .isPrivate => "ACC_PRIVATE"
  | .isProtected => "ACC_PROTECTED"
  | .isStatic => "ACC_STATIC"
  | .isFinal => "ACC_FINAL"
  | .isSuper => "ACC_SUPER"
  | .isSynchronized => "ACC_SYNCHRONIZED"
  | .isVolatile => "ACC_VOLATILE"
  | .isBridge => "ACC_BRIDGE"
  | .isTransient => "ACC_TRANSIENT"
  | .isVarargs => "ACC_VARARGS"
  | .isNative => "ACC_NATIVE"
  | .isInterface => "ACC_INTERFACE"
  | .isAbstract => "ACC_ABSTRACT"
  | .isStrict => "ACC_STRICT"
  | .isSynthetic => "ACC_SYNTHETIC"
  | .isAnnotationType => "ACC_ANNOTATION"
  | .isEnum => "ACC_ENUM"
  | .isModule => "ACC_MODULE"
  | .isMandated => "ACC_MANDATED"

/-- The modifier that sets the flag in source code. -/
def keyword : AccessFlag → String
  | .isPublic => "public"
  | .isPrivate => "private"
  | .isProtected => "protected"
  | .isStatic => "static"
  | .isFinal => "final"
  | .isSynchronized => "synchronized"
  | .isVolatile => "volatile"
  | .isTransient => "transient"
  | .isNative => "native"
  | .isAbstract => "abstract"
  | .isStrict => "strictfp"
  | .isSynthetic => "synthetic"
  | .isMandated => "mandated"
  | _ => ""

end AccessFlag

namespace FlagContext

/-- The contexts in the order of their numbers. -/
def ofNumber? : Int → Option FlagContext
  | 0 => some .classFile
  | 1 => some .field
  | 2 => some .method
  | 3 => some .innerClass
  | _ => none

/-- The flags of a context, lowest bit first. -/
def flags : FlagContext → List AccessFlag
  | .classFile =>
    [.isPublic, .isFinal, .isSuper, .isInterface, .isAbstract, .isSynthetic, .isAnnotationType,
      .isEnum, .isModule]
  | .field =>
    [.isPublic, .isPrivate, .isProtected, .isStatic, .isFinal, .isVolatile, .isTransient,
      .isSynthetic, .isEnum]
  | .method =>
    [.isPublic, .isPrivate, .isProtected, .isStatic, .isFinal, .isSynchronized, .isBridge,
      .isVarargs, .isNative, .isAbstract, .isStrict, .isSynthetic]
  | .innerClass =>
    [.isPublic, .isPrivate, .isProtected, .isStatic, .isFinal, .isInterface, .isAbstract,
      .isSynthetic, .isAnnotationType, .isEnum]

/-- The flags that source code spells out, in the customary order of modifiers. -/
def modifiers : FlagContext → List AccessFlag
  | .classFile => [.isPublic, .isAbstract, .isFinal]
  | .field =>
    [.isPublic, .isProtected, .isPrivate, .isStatic, .isFinal, .isTransient, .isVolatile]
  | .method =>
    [.isPublic, .isProtected, .isPrivate, .isAbstract, .isStatic, .isFinal, .isSynchronized,
      .isNative, .isStrict]
  | .innerClass => [.isPublic, .isProtected, .isPrivate, .isAbstract, .isStatic, .isFinal]

/-- The names of the flags set in a word. -/
def names (context : FlagContext) (word : Int) : List String :=
  (context.flags.filter (·.isSet word)).map AccessFlag.name

/-- The modifiers that a word amounts to. -/
def keywords (context : FlagContext) (word : Int) : List String :=
  (context.modifiers.filter (·.isSet word)).map AccessFlag.keyword

end FlagContext

end JavaClass
