import RegisterMachine.Proofs.Json.Reading
import RegisterMachine.Proofs.Program.Loading

/-!
# A program that is written is loaded as the same

Reader and writer of every part are two definitions, and nothing makes them agree. There is one
lemma here for each part, which says that what is written of it is read as it, and the lemma for a
whole follows from those for its parts.
-/

namespace RegisterMachine

open Json (Decoder Record Variant)
open Json.Record (Takes)
open Json.Decoder (Reads)

variable {room : Nat}

/-! ## Numbers and names -/

namespace Codec

theorem reads_word16 (n : UInt16) : word16.Reads room (.ofNat n.toNat) n := by
  have bound : n.toNat ≤ 65535 := Nat.le_of_lt_succ n.toNat_lt
  exact (Reads.nat bound (Nat.le_trans bound (by decide))).map UInt16.ofNat_toNat

theorem reads_word32 (n : UInt32) : word32.Reads room (.ofNat n.toNat) n := by
  have bound : n.toNat ≤ 4294967295 := Nat.le_of_lt_succ n.toNat_lt
  exact (Reads.nat bound (Nat.le_trans bound (by decide))).map UInt32.ofNat_toNat

theorem reads_int64 (n : Int64) : int64.Reads room (.ofInt n.toInt) n := by
  have above := n.minValue_le_toInt
  have below := n.toInt_le
  have number : (Json.Number.int n.toInt).ReadsBack :=
    Json.int_readsBack (Int.le_trans (by decide) above) (Int.le_trans below (by decide))
  exact (Reads.int above below number).map n.ofInt_toInt

theorem reads_offset {n : Nat} (h : n ≤ maxOffset) : offset.Reads room (.ofNat n) n := .nat h h

end Codec

open Codec

theorem ElementKind.reads (kind : ElementKind) : decoder.Reads room kind.toJson kind := by
  apply Reads.unit
  cases kind <;> rfl

theorem Reg.reads {b : Bank} (r : Reg b) : decoder.Reads room r.toJson r :=
  (reads_word16 r.index).map rfl

theorem Reg.toJson_ne_null {b : Bank} (r : Reg b) : r.toJson ≠ .null := nofun

theorem AnyReg.reads (r : AnyReg) : decoder.Reads (room + 1) r.toJson r := by
  apply Reads.withValue (d := word16.map (AnyReg.mk r.bank))
  · cases r.bank <;> rfl
  · exact (reads_word16 r.index).map rfl

theorem AnyReg.reads_list (rs : List AnyReg) :
    (Decoder.list AnyReg.decoder).Reads (room + 2) (listToJson rs) rs :=
  .list fun r _ => r.reads

theorem FunctionId.reads (id : FunctionId) : decoder.Reads room id.toJson id :=
  (reads_word32 id.index).map rfl

theorem FunctionId.toJson_ne_null (id : FunctionId) : id.toJson ≠ .null := nofun

/-! ## Instructions -/

namespace Instruction

theorem takes_operand {b : Bank} (name : String) (r : Reg b) :
    (operand name).Takes room [(name, r.toJson)] r :=
  .field r.reads

theorem takes_anyOperand (name : String) (r : AnyReg) :
    (anyOperand name).Takes (room + 1) [(name, r.toJson)] r :=
  .field r.reads

theorem takes_operands (name : String) (rs : List AnyReg) :
    (operands name).Takes (room + 2) [(name, AnyReg.listToJson rs)] rs :=
  .field (AnyReg.reads_list rs)

theorem takes_binary {b c : Bank} (f : Reg b → Reg b → Reg c → Instruction) (lhs rhs : Reg b)
    (dst : Reg c) : (f <$> operand "lhs" <*> operand "rhs" <*> operand "dst").Takes room
      (binaryMembers lhs rhs dst) (f lhs rhs dst) :=
  (Takes.map₂ (takes_operand _ lhs) (takes_operand _ rhs) f
    (show ∀ n ∈ ["rhs"], n ∉ ["lhs"] by decide)).seq
    (takes_operand _ dst) (show ∀ n ∈ ["dst"], n ∉ ["lhs", "rhs"] by decide)

/-- The operands of an instruction are read as the instruction, by the record under its name. -/
theorem takes_members (i : Instruction) (offsets : ∀ n ∈ i.offsets, n ≤ maxOffset)
    (floats : ∀ dst x, i = .floatConst dst x → (Json.Number.float x).ReadsBack) :
    ∃ r, variants.lookup i.members.1 = some r ∧ r.Takes (room + 2) i.members.2 i := by
  cases i with
  | nop => exact ⟨_, rfl, .const _⟩
  | intConst dst value =>
    exact ⟨_, rfl, .map₂ (takes_operand _ dst) (.field (reads_int64 value)) _ (by decide)⟩
  | floatConst dst value =>
    have number := floats dst value rfl
    exact ⟨_, rfl, .map₂ (takes_operand _ dst) (.field (.float number)) _ (by decide)⟩
  | boolConst dst value =>
    exact ⟨_, rfl, .map₂ (takes_operand _ dst) (.field (.bool value)) _ (by decide)⟩
  | strConst dst index =>
    have bound := offsets index (by simp)
    exact ⟨_, rfl, .map₂ (takes_operand _ dst) (.field (reads_offset bound)) _ (by decide)⟩
  | null dst => exact ⟨_, rfl, (takes_operand _ dst).map _⟩
  | move src dst =>
    exact ⟨_, rfl, .map₂ (takes_anyOperand _ src) (takes_anyOperand _ dst) _ (by decide)⟩
  | intOp op lhs rhs dst => exact ⟨_, by cases op <;> rfl, takes_binary (.intOp op) lhs rhs dst⟩
  | floatOp op lhs rhs dst => exact ⟨_, by cases op <;> rfl, takes_binary (.floatOp op) lhs rhs dst⟩
  | intCompare op lhs rhs dst =>
    exact ⟨_, by cases op <;> rfl, takes_binary (.intCompare op) lhs rhs dst⟩
  | floatLess lhs rhs dst => exact ⟨_, rfl, takes_binary _ lhs rhs dst⟩
  | strEqual lhs rhs dst => exact ⟨_, rfl, takes_binary _ lhs rhs dst⟩
  | concat lhs rhs dst => exact ⟨_, rfl, takes_binary _ lhs rhs dst⟩
  | not src dst =>
    exact ⟨_, rfl, .map₂ (takes_operand _ src) (takes_operand _ dst) _ (by decide)⟩
  | goto target =>
    have bound := offsets target (by simp)
    exact ⟨_, rfl, (Takes.field (reads_offset bound)).map _⟩
  | branch taken cond target =>
    have bound := offsets target (by simp)
    cases taken with
    | false =>
      exact ⟨_, rfl, .map₂ (takes_operand _ cond) (.field (reads_offset bound)) _ (by decide)⟩
    | true =>
      exact ⟨_, rfl, .map₂ (takes_operand _ cond) (.field (reads_offset bound)) _ (by decide)⟩
  | newArray kind size dst =>
    have length : (Decoder.option Reg.decoder).Reads (room + 2)
        ((size.map Reg.toJson).getD .null) size :=
      .option (fun r : IntReg => r.toJson_ne_null) fun r _ => r.reads
    exact ⟨_, rfl, (Takes.map₂ (.field kind.reads) (.field length) _ (by decide)).seq
      (takes_operand _ dst) (by decide)⟩
  | arrayLoad array index dst =>
    exact ⟨_, rfl, (Takes.map₂ (takes_operand _ array) (takes_operand _ index) _ (by decide)).seq
      (takes_anyOperand _ dst) (by decide)⟩
  | arrayStore array index src =>
    exact ⟨_, rfl, (Takes.map₂ (takes_operand _ array) (takes_operand _ index) _ (by decide)).seq
      (takes_anyOperand _ src) (by decide)⟩
  | length src dst =>
    exact ⟨_, rfl, .map₂ (takes_operand _ src) (takes_operand _ dst) _ (by decide)⟩
  | newMap dst => exact ⟨_, rfl, (takes_operand _ dst).map _⟩
  | mapStore map key src =>
    exact ⟨_, rfl, (Takes.map₂ (takes_operand _ map) (takes_operand _ key) _ (by decide)).seq
      (takes_anyOperand _ src) (by decide)⟩
  | mapLoad map key dst =>
    exact ⟨_, rfl, (Takes.map₂ (takes_operand _ map) (takes_operand _ key) _ (by decide)).seq
      (takes_anyOperand _ dst) (by decide)⟩
  | newRecord typeName dst =>
    exact ⟨_, rfl, .map₂ (.field (.string typeName)) (takes_operand _ dst) _ (by decide)⟩
  | fieldStore record field src =>
    exact ⟨_, rfl, (Takes.map₂ (takes_operand _ record) (.field (.string field)) _ (by decide)).seq
      (takes_anyOperand _ src) (by decide)⟩
  | fieldLoad record field dst =>
    exact ⟨_, rfl, (Takes.map₂ (takes_operand _ record) (.field (.string field)) _ (by decide)).seq
      (takes_anyOperand _ dst) (by decide)⟩
  | newRange first last dst =>
    exact ⟨_, rfl, (Takes.map₂ (takes_operand _ first) (takes_operand _ last) _ (by decide)).seq
      (takes_operand _ dst) (by decide)⟩
  | iterNew collection iter =>
    exact ⟨_, rfl, .map₂ (takes_operand _ collection) (takes_operand _ iter) _ (by decide)⟩
  | iterHasNext iter dst =>
    exact ⟨_, rfl, .map₂ (takes_operand _ iter) (takes_operand _ dst) _ (by decide)⟩
  | iterNext iter dsts =>
    exact ⟨_, rfl, .map₂ (takes_operand _ iter) (.field (AnyReg.reads_list dsts)) _ (by decide)⟩
  | newError message dst =>
    exact ⟨_, rfl, .map₂ (takes_operand _ message) (takes_operand _ dst) _ (by decide)⟩
  | throw error => exact ⟨_, rfl, (takes_operand _ error).map _⟩
  | call function args rets =>
    exact ⟨_, rfl, (Takes.map₂ (.field function.reads) (takes_operands _ args) _ (by decide)).seq
      (takes_operands _ rets) (by decide)⟩
  | nativeCall name args rets =>
    exact ⟨_, rfl, (Takes.map₂ (.field (.string name)) (takes_operands _ args) _ (by decide)).seq
      (takes_operands _ rets) (by decide)⟩
  | ret values => exact ⟨_, rfl, (takes_operands _ values).map _⟩

theorem reads {i : Instruction} (offsets : ∀ n ∈ i.offsets, n ≤ maxOffset)
    (floats : ∀ dst x, i = .floatConst dst x → (Json.Number.float x).ReadsBack) :
    decoder.Reads (room + 3) i.toJson i := by
  obtain ⟨r, known, takes⟩ := takes_members i offsets floats
  exact .tagged known takes (by decide)

end Instruction

/-! ## The parts of a program -/

theorem RegisterShape.reads (shape : RegisterShape) :
    decoder.Reads (room + 1) shape.toJson shape := by
  obtain ⟨ints, floats, strs, bools, refs, iters⟩ := shape
  have number (name : String) (n : UInt16) :
      (Record.optional name word16 0).Takes room [(name, .ofNat n.toNat)] n :=
    .field (reads_word16 n)
  exact (((((Takes.map₂ (number _ ints) (number _ floats) mk (by decide)).seq
    (number _ strs) (by decide)).seq (number _ bools) (by decide)).seq
    (number _ refs) (by decide)).seq (number _ iters) (by decide)).decoder

theorem WorkerInfo.reads {w : WorkerInfo} (entry : w.entry ≤ maxOffset) :
    decoder.Reads (room + 2) w.toJson w := by
  obtain ⟨name, start, registers⟩ := w
  exact ((Takes.map₂ (.field (.string name)) (.field (reads_offset entry)) mk (by decide)).seq
    (.field registers.reads) (by decide)).decoder

theorem FunctionInfo.reads {f : FunctionInfo}
    (entries : ∀ w ∈ f.defaultWorker :: f.workers, w.entry ≤ maxOffset) :
    decoder.Reads (room + 4) f.toJson f := by
  obtain ⟨name, package, defaultWorker, workers⟩ := f
  have own : WorkerInfo.decoder.Reads (room + 3) defaultWorker.toJson defaultWorker :=
    WorkerInfo.reads (entries _ List.mem_cons_self)
  have others : (Decoder.list WorkerInfo.decoder).Reads (room + 3)
      (.ofList (workers.map WorkerInfo.toJson)) workers :=
    .list fun w hw => WorkerInfo.reads (entries w (List.mem_cons_of_mem _ hw))
  exact (((Takes.map₂ (.field (.string name)) (.field (.string package)) mk (by decide)).seq
    (.field own) (by decide)).seq (.field others) (by decide)).decoder

theorem PackageInfo.reads (p : PackageInfo) : decoder.Reads (room + 1) p.toJson p := by
  obtain ⟨name, initFunction⟩ := p
  have function : (Decoder.option FunctionId.decoder).Reads room
      ((initFunction.map FunctionId.toJson).getD .null) initFunction :=
    .option FunctionId.toJson_ne_null fun id _ => id.reads
  exact (Takes.map₂ (.field (.string name)) (.field function) mk (by decide)).decoder

theorem SourcePos.takes_members (pos : SourcePos) : record.Takes room pos.members pos :=
  .map₂ (.field (.string pos.source)) (.field (reads_word32 pos.line)) mk (by decide)

theorem LineEntry.reads {e : LineEntry} (offset : e.ip ≤ maxOffset) :
    decoder.Reads (room + 1) e.toJson e := by
  have ip : (Record.required "ip" Codec.offset).Takes room [("ip", .ofNat e.ip)] e.ip :=
    .field (reads_offset offset)
  exact (ip.flattened e.pos.takes_members (by decide)).map rfl

namespace Program

theorem Loaded.reads {p : Program} (h : p.Loaded)
    (floats : ∀ dst x, .floatConst dst x ∈ p.code → (Json.Number.float x).ReadsBack) :
    decoder.Reads (room + 6) p.toJson p := by
  have functions : ((Decoder.list FunctionInfo.decoder).map List.toArray).Reads (room + 5)
      (.ofList (p.functions.toList.map FunctionInfo.toJson)) p.functions :=
    (Reads.list fun f hf => FunctionInfo.reads (h.entries f (Array.mem_toList_iff.mp hf))).map
      p.functions.toArray_toList
  have constants : ((Decoder.list .string).map List.toArray).Reads (room + 5)
      (.ofList (p.constants.toList.map .string)) p.constants :=
    (Reads.list fun s _ => .string s).map p.constants.toArray_toList
  have code : ((Decoder.list Instruction.decoder).map List.toArray).Reads (room + 5)
      (.ofList (p.code.toList.map Instruction.toJson)) p.code :=
    (Reads.list fun i hi => Instruction.reads (h.offsets i (Array.mem_toList_iff.mp hi))
      fun dst x same => floats dst x (Array.mem_toList_iff.mp (same ▸ hi))).map
      p.code.toArray_toList
  have lines : (Decoder.list LineEntry.decoder).Reads (room + 5)
      (.ofList (p.lines.map LineEntry.toJson)) p.lines :=
    .list fun e he => LineEntry.reads (h.positions e he)
  have packages : (Decoder.list PackageInfo.decoder).Reads (room + 5)
      (.ofList (p.packages.map PackageInfo.toJson)) p.packages :=
    .list fun package _ => package.reads
  have ordered : sortLines p.lines = p.lines := by
    apply List.mergeSort_of_pairwise
    simpa using h.ordered
  have whole : recordDecoder.Reads (room + 6) p.toJson p :=
    (((((Takes.map₂ (.field (.string p.entryPackage)) (.field packages) Program.mk (by decide)).seq
      (.field functions) (by decide)).seq (.field constants) (by decide)).seq
      (.field code) (by decide)).seq (.field lines) (by decide)).decoder
  refine whole.map ?_
  rw [ordered]

/-- **A program that is written is loaded as the same**, whatever text it was loaded from. Strings
and integers come back from their text; that the program's floats do has to be said. -/
theorem ofText_toText {text : String} {p : Program} (loaded : ofText text = .ok p)
    (floats : ∀ dst x, .floatConst dst x ∈ p.code → (Json.Number.float x).ReadsBack) :
    ofText p.toText = .ok p := by
  have whole : decoder.Reads 6 p.toJson p := (Program.loaded loaded).reads floats
  exact whole.decodeText (by decide)

/-- A main function that returns a half. Its function is a list of its fields, the last left out. -/
def halfText : String :=
  "\x7b\"functions\":[[\"main\",\"\",[\"default\",0]]]," ++
  "\"code\":[\x7b\"op\":\"FConst\",\"dst\":0,\"value\":0.5\x7d,[\"Return\"]]\x7d"

/-- What it is loaded as. -/
def half : Program where
  entryPackage := ""
  packages := []
  functions := #[⟨"main", "", ⟨"default", 0, {}⟩, []⟩]
  constants := #[]
  code := #[.floatConst ⟨0⟩ 0.5, .ret []]
  lines := []

theorem half_reads_back : ofText halfText = .ok half ∧ ofText half.toText = .ok half := by
  have loaded : ofText halfText = .ok half := by decide +kernel
  refine ⟨loaded, ofText_toText loaded ?_⟩
  intro dst x listed
  obtain ⟨-, rfl⟩ : dst = ⟨0⟩ ∧ x = 0.5 := by simpa [half] using listed
  decide +kernel

end Program

end RegisterMachine
