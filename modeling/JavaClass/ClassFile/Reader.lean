import JavaClass.Attribute.Reader
import JavaClass.ClassFile.Basic
import JavaClass.Pool.Reader

/-! Reading class files. -/

namespace JavaClass

def Member.read (pool : Pool) : Scanner Member := do
  let flags ← Reader.u2
  let nameIndex ← Reader.u2
  let descriptorIndex ← Reader.u2
  let name ← pool.utf8 nameIndex
  let descriptor ← pool.utf8 descriptorIndex
  let attributes ← Attribute.readMany pool
  return { flags, nameIndex, descriptorIndex, name, descriptor, attributes }

namespace ClassFile

def readMagic : Reader Unit := do
  let found ← Reader.u4
  if found ≠ magic then
    throw (.atOffset (.badMagic found) 0)

/-- Reads the minor and the major version, which must not be past the limit, if there is one. -/
def readVersion (limit : Option Int) : Reader (Nat × Nat) := do
  let minor ← Reader.u2
  let offset ← Reader.offset
  let major ← Reader.u2
  if major < oldestVersion then
    throw (.atOffset (.versionTooOld major) offset)
  match limit with
  | some limit =>
    if limit < major then
      throw (.atOffset (.versionTooNew major limit) offset)
    else return (minor, major)
  | none => return (minor, major)

/-- Reads the indices of the interfaces, and then checks them. -/
def readInterfaces (pool : Pool) : Reader (List Nat) := do
  let interfaces ← times (← Reader.u2) Reader.u2
  interfaces.forM fun (index : Nat) => discard (pool.className index)
  return interfaces

/-- Reads a whole class file. -/
def read (limit : Option Int) : Scanner ClassFile := do
  readMagic
  let (minorVersion, majorVersion) ← readVersion limit
  let count ← Reader.u2
  let pool ← Pool.readCounted count
  Scanner.note (.poolRead count pool.size)
  let flags ← Reader.u2
  let thisClass ← Reader.u2
  let superClass ← Reader.u2
  let name ← pool.className thisClass
  if superClass ≠ 0 then
    discard (pool.className superClass)
  let interfaces ← readInterfaces pool
  let fields ← times (← Reader.u2) (Member.read pool)
  let methods ← times (← Reader.u2) (Member.read pool)
  let attributes ← Attribute.readMany pool
  let cursor := (← get).cursor
  if !cursor.atEnd then
    throw (.atOffset (.trailingBytes cursor.remaining) cursor.offset)
  Scanner.note (.classRead name majorVersion minorVersion interfaces.length fields.length
    methods.length)
  return { minorVersion, majorVersion, pool, flags, thisClass, superClass, interfaces,
           fields, methods, attributes }

/-- A class file that nests too deeply is malformed, at no particular place. -/
def nestingFault : Failure → Failure
  | .tooDeep => .of .nestedTooDeeply
  | failure => failure

/-- Reads a class file from its bytes. The notes taken are in order. -/
def load (data : List UInt8) (limit : Option Int) : Except Failure ClassFile × List Note :=
  match read limit ⟨.ofBytes data 0, []⟩ with
  | .ok file s => (.ok file, s.notes.reverse)
  | .error failure s => (.error (nestingFault failure), s.notes.reverse)

def parse (data : List UInt8) (limit : Option Int) : Except Failure ClassFile :=
  (load data limit).1

end ClassFile

end JavaClass
