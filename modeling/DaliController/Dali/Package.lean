import Mathlib.Data.List.Basic

/-! The values that the DALI driver exchanges with its callers.  `package_t` is declared outside
this repository: a union of a 32-bit word with three data bytes in bits 0 to 23 and the frame type
and error above them. -/

namespace DaliController.Dali

/-- The values of `package_t.data.type`. -/
inductive BlockType
  | block8
  | block16
  | block24
  | blockErr
  deriving DecidableEq, Repr

/-- `package_t`, through its `data` fields. -/
structure Package where
  data0 : UInt8
  data1 : UInt8
  data2 : UInt8
  type : BlockType
  error : UInt8
  deriving DecidableEq, Repr

/-- How the top byte of the word holds the type and the error, which the driver always overwrites
before it reads them back. -/
structure TopByte where
  pack : BlockType → UInt8 → BitVec 8
  type : BitVec 8 → BlockType
  error : BitVec 8 → UInt8

/-- A type code in the low half of the top byte, the error in the high half. -/
def nibbleTop : TopByte where
  pack type error := error.toBitVec <<< 4 ||| (match type with
    | .block8 => 0 | .block16 => 1 | .block24 => 2 | .blockErr => 3)
  type w := if w &&& 15 = 0 then .block8 else if w &&& 15 = 1 then .block16
    else if w &&& 15 = 2 then .block24 else .blockErr
  error w := ⟨w >>> 4⟩

/-- Reading `package_t.package`. -/
def Package.word (top : TopByte) (p : Package) : BitVec 32 :=
  top.pack p.type p.error ++ p.data0.toBitVec ++ p.data1.toBitVec ++ p.data2.toBitVec

/-- Writing `package_t.package`. -/
def Package.ofWord (top : TopByte) (w : BitVec 32) : Package where
  data0 := ⟨w.extractLsb' 16 8⟩
  data1 := ⟨w.extractLsb' 8 8⟩
  data2 := ⟨w.extractLsb' 0 8⟩
  type := top.type (w.extractLsb' 24 8)
  error := top.error (w.extractLsb' 24 8)

/-- The bytes that a frame of the package's type puts on the bus. -/
def Package.bytes (p : Package) : List UInt8 :=
  match p.type with
  | .block24 => [p.data0, p.data1, p.data2]
  | .block16 => [p.data0, p.data1]
  | .block8 | .blockErr => [p.data0]

end DaliController.Dali
