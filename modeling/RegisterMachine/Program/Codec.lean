import RegisterMachine.Fault
import RegisterMachine.Json.Decoder
import RegisterMachine.Json.Writer
import RegisterMachine.Program.Basic

/-!
# Programs as JSON

How programs and their parts are read and written. Every part is written with all its members in
the order in which they are declared, so what is written is read back as the same.
-/

namespace RegisterMachine

open Json (Decoder Record Variant)

/-! ## Numbers and names -/

/-- The greatest offset. -/
def maxOffset : Nat := 18446744073709551615

namespace Codec

def word16 : Decoder UInt16 := (Decoder.nat 65535).map .ofNat

def word32 : Decoder UInt32 := (Decoder.nat 4294967295).map .ofNat

def int64 : Decoder Int64 :=
  (Decoder.int Int64.minValue.toInt Int64.maxValue.toInt).map .ofInt

def offset : Decoder Nat := .nat maxOffset

end Codec

open Codec

namespace ElementKind

/-- The name of a kind in a program. -/
def key : ElementKind → String
  | any => "ref"
  | kind => kind.name

def decoder : Decoder ElementKind :=
  Variant.choose (all.map fun kind => (kind.key, .unit kind))

def toJson (kind : ElementKind) : Json := .string kind.key

end ElementKind

namespace TypeTag

/-- The tags that are names alone. -/
def simple : List TypeTag := [null, int, float, boolean, string, blob, map, range, record, error]

def decoder : Decoder TypeTag :=
  Variant.choose (("array", .withValue (ElementKind.decoder.map array)) ::
    simple.map fun tag => (tag.name, .unit tag))

def toJson : TypeTag → Json
  | array kind => .ofMembers [("array", kind.toJson)]
  | tag => .string tag.name

end TypeTag

namespace ErrorValue

/-- Errors whose causes are at most so deep. -/
def decoderWithin : Nat → Decoder ErrorValue
  | 0 => fun _ _ => .error .malformed
  | depth + 1 =>
      let build (message : String) (cause : Option ErrorValue) : ErrorValue :=
        ⟨message, match cause with
          | none => []
          | some e => e.message :: e.causes⟩
      Record.decoder
        (build <$> .required "message" .string <*>
          .optional "cause" (.option (decoderWithin depth)) none)

/-- The depth that any document can have is enough. -/
def decoder : Decoder ErrorValue := decoderWithin 128

def toJson (e : ErrorValue) : Json :=
  let nested := e.causes.foldr (fun message (inner : Option Json) =>
    some (.ofMembers (("message", .string message) ::
      (inner.map fun j => ("cause", j)).toList))) none
  .ofMembers (("message", .string e.message) :: (nested.map fun j => ("cause", j)).toList)

end ErrorValue

/-! ## Registers -/

namespace ValueBank

def key : ValueBank → String
  | int => "int"
  | float => "float"
  | str => "str"
  | bool => "bool"
  | ref => "ref"

end ValueBank

namespace Bank

def key : Bank → String
  | value b => b.key
  | iter => "iter"

def decoder : Decoder Bank := Variant.choose (all.map fun b => (b.key, .unit b))

def toJson (b : Bank) : Json := .string b.key

end Bank

namespace Reg

variable {b : Bank}

def decoder : Decoder (Reg b) := word16.map Reg.mk

def toJson (r : Reg b) : Json := .ofNat r.index.toNat

end Reg

namespace AnyReg

def decoder : Decoder AnyReg :=
  Variant.choose (ValueBank.all.map fun b => (b.key, .withValue (word16.map (AnyReg.mk b))))

def toJson (r : AnyReg) : Json := .ofMembers [(r.bank.key, .ofNat r.index.toNat)]

def listToJson (regs : List AnyReg) : Json := .ofList (regs.map toJson)

end AnyReg

namespace FunctionId

def decoder : Decoder FunctionId := word32.map FunctionId.mk

def toJson (id : FunctionId) : Json := .ofNat id.index.toNat

end FunctionId

/-! ## Instructions -/

namespace Instruction

def intOpName : IntOp → String
  | .add => "IAdd"
  | .sub => "ISub"
  | .mul => "IMul"
  | .div => "IDiv"
  | .mod => "IMod"

def floatOpName : FloatOp → String
  | .add => "FAdd"
  | .sub => "FSub"
  | .mul => "FMul"
  | .div => "FDiv"

def comparisonName : IntComparison → String
  | .less => "ILt"
  | .lessOrEqual => "ILe"
  | .equal => "IEq"

/-- A register operand. -/
def operand {b : Bank} (name : String) : Record (Reg b) := .required name Reg.decoder

/-- An operand that says its bank. -/
def anyOperand (name : String) : Record AnyReg := .required name AnyReg.decoder

/-- A list of operands, empty unless given. -/
def operands (name : String) : Record (List AnyReg) := .optional name (.list AnyReg.decoder) []

/-- Every instruction by its name, with the operands in their order. -/
def variants : List (String × Record Instruction) :=
  [ ("Nop", .const nop),
    ("IConst", intConst <$> operand "dst" <*> .required "value" int64),
    ("FConst", floatConst <$> operand "dst" <*> .required "value" .float),
    ("BConst", boolConst <$> operand "dst" <*> .required "value" .bool),
    ("SConst", strConst <$> operand "dst" <*> .required "index" offset),
    ("RNull", null <$> operand "dst"),
    ("Move", move <$> anyOperand "src" <*> anyOperand "dst") ] ++
  ([.add, .sub, .mul, .div, .mod] : List IntOp).map (fun op =>
    (intOpName op, intOp op <$> operand "lhs" <*> operand "rhs" <*> operand "dst")) ++
  ([.add, .sub, .mul, .div] : List FloatOp).map (fun op =>
    (floatOpName op, floatOp op <$> operand "lhs" <*> operand "rhs" <*> operand "dst")) ++
  ([.less, .lessOrEqual, .equal] : List IntComparison).map (fun op =>
    (comparisonName op, intCompare op <$> operand "lhs" <*> operand "rhs" <*> operand "dst")) ++
  [ ("FLt", floatLess <$> operand "lhs" <*> operand "rhs" <*> operand "dst"),
    ("SEq", strEqual <$> operand "lhs" <*> operand "rhs" <*> operand "dst"),
    ("SConcat", concat <$> operand "lhs" <*> operand "rhs" <*> operand "dst"),
    ("BNot", not <$> operand "src" <*> operand "dst"),
    ("Goto", goto <$> .required "target" offset),
    ("BrTrue", branch true <$> operand "cond" <*> .required "target" offset),
    ("BrFalse", branch false <$> operand "cond" <*> .required "target" offset),
    ("NewArray", newArray <$> .required "kind" ElementKind.decoder <*>
      .optional "length" (.option Reg.decoder) none <*> operand "dst"),
    ("ArrayLoad", arrayLoad <$> operand "array" <*> operand "index" <*> anyOperand "dst"),
    ("ArrayStore", arrayStore <$> operand "array" <*> operand "index" <*> anyOperand "src"),
    ("LengthOf", length <$> operand "src" <*> operand "dst"),
    ("NewMap", newMap <$> operand "dst"),
    ("MapStore", mapStore <$> operand "map" <*> operand "key" <*> anyOperand "src"),
    ("MapLoad", mapLoad <$> operand "map" <*> operand "key" <*> anyOperand "dst"),
    ("NewStruct", newRecord <$> .required "type_name" .string <*> operand "dst"),
    ("FieldStore", fieldStore <$> operand "record" <*> .required "field" .string <*>
      anyOperand "src"),
    ("FieldLoad", fieldLoad <$> operand "record" <*> .required "field" .string <*>
      anyOperand "dst"),
    ("NewRange", newRange <$> operand "start" <*> operand "end" <*> operand "dst"),
    ("IterNew", iterNew <$> operand "collection" <*> operand "iter"),
    ("IterHasNext", iterHasNext <$> operand "iter" <*> operand "dst"),
    ("IterNext", iterNext <$> operand "iter" <*> .required "dsts" (.list AnyReg.decoder)),
    ("NewError", newError <$> operand "message" <*> operand "dst"),
    ("Throw", throw <$> operand "error"),
    ("Call", call <$> .required "function" FunctionId.decoder <*> operands "args" <*>
      operands "rets"),
    ("NativeCall", nativeCall <$> .required "name" .string <*> operands "args" <*>
      operands "rets"),
    ("Return", ret <$> operands "values") ]

def decoder : Decoder Instruction := Json.tagged "op" variants

/-- The operands of an operation on two registers. -/
def binaryMembers {b c : Bank} (lhs rhs : Reg b) (dst : Reg c) : List (String × Json) :=
  [("lhs", lhs.toJson), ("rhs", rhs.toJson), ("dst", dst.toJson)]

/-- The name of an instruction and its operands. -/
def members : Instruction → String × List (String × Json)
  | nop => ("Nop", [])
  | intConst dst value => ("IConst", [("dst", dst.toJson), ("value", .ofInt value.toInt)])
  | floatConst dst value => ("FConst", [("dst", dst.toJson), ("value", .number (.float value))])
  | boolConst dst value => ("BConst", [("dst", dst.toJson), ("value", .bool value)])
  | strConst dst index => ("SConst", [("dst", dst.toJson), ("index", .ofNat index)])
  | null dst => ("RNull", [("dst", dst.toJson)])
  | move src dst => ("Move", [("src", src.toJson), ("dst", dst.toJson)])
  | intOp op lhs rhs dst => (intOpName op, binaryMembers lhs rhs dst)
  | floatOp op lhs rhs dst => (floatOpName op, binaryMembers lhs rhs dst)
  | intCompare op lhs rhs dst => (comparisonName op, binaryMembers lhs rhs dst)
  | floatLess lhs rhs dst => ("FLt", binaryMembers lhs rhs dst)
  | strEqual lhs rhs dst => ("SEq", binaryMembers lhs rhs dst)
  | concat lhs rhs dst => ("SConcat", binaryMembers lhs rhs dst)
  | not src dst => ("BNot", [("src", src.toJson), ("dst", dst.toJson)])
  | goto target => ("Goto", [("target", .ofNat target)])
  | branch true cond target => ("BrTrue", [("cond", cond.toJson), ("target", .ofNat target)])
  | branch false cond target => ("BrFalse", [("cond", cond.toJson), ("target", .ofNat target)])
  | newArray kind size dst =>
      ("NewArray", [("kind", kind.toJson), ("length", (size.map Reg.toJson).getD .null),
        ("dst", dst.toJson)])
  | arrayLoad array index dst =>
      ("ArrayLoad", [("array", array.toJson), ("index", index.toJson), ("dst", dst.toJson)])
  | arrayStore array index src =>
      ("ArrayStore", [("array", array.toJson), ("index", index.toJson), ("src", src.toJson)])
  | length src dst => ("LengthOf", [("src", src.toJson), ("dst", dst.toJson)])
  | newMap dst => ("NewMap", [("dst", dst.toJson)])
  | mapStore map key src =>
      ("MapStore", [("map", map.toJson), ("key", key.toJson), ("src", src.toJson)])
  | mapLoad map key dst =>
      ("MapLoad", [("map", map.toJson), ("key", key.toJson), ("dst", dst.toJson)])
  | newRecord typeName dst =>
      ("NewStruct", [("type_name", .string typeName), ("dst", dst.toJson)])
  | fieldStore record field src =>
      ("FieldStore", [("record", record.toJson), ("field", .string field), ("src", src.toJson)])
  | fieldLoad record field dst =>
      ("FieldLoad", [("record", record.toJson), ("field", .string field), ("dst", dst.toJson)])
  | newRange first last dst =>
      ("NewRange", [("start", first.toJson), ("end", last.toJson), ("dst", dst.toJson)])
  | iterNew collection iter =>
      ("IterNew", [("collection", collection.toJson), ("iter", iter.toJson)])
  | iterHasNext iter dst => ("IterHasNext", [("iter", iter.toJson), ("dst", dst.toJson)])
  | iterNext iter dsts =>
      ("IterNext", [("iter", iter.toJson), ("dsts", AnyReg.listToJson dsts)])
  | newError message dst => ("NewError", [("message", message.toJson), ("dst", dst.toJson)])
  | throw error => ("Throw", [("error", error.toJson)])
  | call function args rets =>
      ("Call", [("function", function.toJson), ("args", AnyReg.listToJson args),
        ("rets", AnyReg.listToJson rets)])
  | nativeCall name args rets =>
      ("NativeCall", [("name", .string name), ("args", AnyReg.listToJson args),
        ("rets", AnyReg.listToJson rets)])
  | ret values => ("Return", [("values", AnyReg.listToJson values)])

def toJson (i : Instruction) : Json :=
  .ofMembers (("op", .string i.members.1) :: i.members.2)

end Instruction

/-! ## The parts of a program -/

namespace RegisterShape

def decoder : Decoder RegisterShape :=
  Record.decoder
    (mk <$> .optional "ints" word16 0 <*> .optional "floats" word16 0 <*>
      .optional "strings" word16 0 <*> .optional "bools" word16 0 <*>
      .optional "refs" word16 0 <*> .optional "iterators" word16 0)

def toJson (shape : RegisterShape) : Json :=
  .ofMembers
    [("ints", .ofNat shape.ints.toNat), ("floats", .ofNat shape.floats.toNat),
      ("strings", .ofNat shape.strs.toNat), ("bools", .ofNat shape.bools.toNat),
      ("refs", .ofNat shape.refs.toNat), ("iterators", .ofNat shape.iters.toNat)]

end RegisterShape

namespace WorkerInfo

def decoder : Decoder WorkerInfo :=
  Record.decoder
    (mk <$> .optional "name" .string defaultWorkerName <*> .required "code_addr" offset <*>
      .optional "registers" RegisterShape.decoder {})

def toJson (w : WorkerInfo) : Json :=
  .ofMembers
    [("name", .string w.name), ("code_addr", .ofNat w.entry), ("registers", w.registers.toJson)]

end WorkerInfo

namespace FunctionInfo

def decoder : Decoder FunctionInfo :=
  Record.decoder
    (mk <$> .required "name" .string <*> .optional "package" .string "" <*>
      .required "default_worker" WorkerInfo.decoder <*>
      .optional "workers" (.list WorkerInfo.decoder) [])

def toJson (f : FunctionInfo) : Json :=
  .ofMembers
    [("name", .string f.name), ("package", .string f.package),
      ("default_worker", f.defaultWorker.toJson),
      ("workers", .ofList (f.workers.map WorkerInfo.toJson))]

end FunctionInfo

namespace PackageInfo

def decoder : Decoder PackageInfo :=
  Record.decoder
    (mk <$> .required "name" .string <*>
      .optional "init_function" (.option FunctionId.decoder) none)

def toJson (p : PackageInfo) : Json :=
  .ofMembers
    [("name", .string p.name),
      ("init_function", (p.initFunction.map FunctionId.toJson).getD .null)]

end PackageInfo

namespace SourcePos

def record : Record SourcePos :=
  mk <$> .required "source" .string <*> .required "line" word32

def decoder : Decoder SourcePos := record.decoder

def members (p : SourcePos) : List (String × Json) :=
  [("source", .string p.source), ("line", .ofNat p.line.toNat)]

def toJson (p : SourcePos) : Json := .ofMembers p.members

end SourcePos

namespace LineEntry

/-- The members of the position stand beside the offset. -/
def decoder : Decoder LineEntry :=
  (Record.flattened (.required "ip" offset) SourcePos.record).map fun (ip, pos) => ⟨ip, pos⟩

def toJson (e : LineEntry) : Json := .ofMembers (("ip", .ofNat e.ip) :: e.pos.members)

end LineEntry

namespace TraceEntry

def decoder : Decoder TraceEntry :=
  Record.decoder
    (mk <$> .required "function" .string <*> .required "worker" .string <*>
      .optional "position" (.option SourcePos.decoder) none)

/-- A position that is not known is left out. -/
def toJson (e : TraceEntry) : Json :=
  .ofMembers
    ([("function", .string e.function), ("worker", .string e.worker)] ++
      (e.position.map fun pos => ("position", pos.toJson)).toList)

end TraceEntry

namespace Program

/-- A program as written, its line entries in any order. -/
def recordDecoder : Decoder Program :=
  Record.decoder
    ((fun entryPackage packages functions constants code lines =>
        (⟨entryPackage, packages, functions, constants, code, lines⟩ : Program)) <$>
      .optional "entry_package" .string "" <*>
      .optional "packages" (.list PackageInfo.decoder) [] <*>
      .required "functions" ((Decoder.list FunctionInfo.decoder).map List.toArray) <*>
      .optional "constants" ((Decoder.list .string).map List.toArray) #[] <*>
      .required "code" ((Decoder.list Instruction.decoder).map List.toArray) <*>
      .optional "line_numbers" (.list LineEntry.decoder) [])

def decoder : Decoder Program :=
  recordDecoder.map fun p => { p with lines := sortLines p.lines }

def toJson (p : Program) : Json :=
  .ofMembers
    [("entry_package", .string p.entryPackage),
      ("packages", .ofList (p.packages.map PackageInfo.toJson)),
      ("functions", .ofList (p.functions.toList.map FunctionInfo.toJson)),
      ("constants", .ofList (p.constants.toList.map Json.string)),
      ("code", .ofList (p.code.toList.map Instruction.toJson)),
      ("line_numbers", .ofList (p.lines.map LineEntry.toJson))]

/-- Loads a program from its text. -/
def ofText (text : String) : Except Json.Problem Program := Json.decodeText decoder text

/-- The text of a program. -/
def toText (p : Program) : String := p.toJson.compact

end Program

end RegisterMachine
