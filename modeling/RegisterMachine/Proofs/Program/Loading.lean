import RegisterMachine.Program.Codec
import RegisterMachine.Proofs.Json.Yielding

/-!
# What is so about every program that was loaded

Loading says nothing about where the offsets in a program lead. It does bound them, since each is
read as a word, and it brings the line entries into order.
-/

namespace RegisterMachine

open Json (Decoder Record)
open Json.Record (Yields)

/-- The offsets an instruction names, into the code or the constants. -/
@[simp] def Instruction.offsets : Instruction → List Nat
  | .strConst _ index => [index]
  | .goto target => [target]
  | .branch _ _ target => [target]
  | _ => []

/-- Every offset in the program is a word, and the line entries are in order. -/
structure Program.Loaded (p : Program) : Prop where
  entries : ∀ f ∈ p.functions, ∀ w ∈ f.defaultWorker :: f.workers, w.entry ≤ maxOffset
  offsets : ∀ i ∈ p.code, ∀ n ∈ i.offsets, n ≤ maxOffset
  positions : ∀ e ∈ p.lines, e.ip ≤ maxOffset
  ordered : p.lines.Pairwise fun a b => a.ip ≤ b.ip

theorem offset_yields : Codec.offset.Yields (· ≤ maxOffset) := Decoder.Yields.nat maxOffset

theorem WorkerInfo.decoder_yields : WorkerInfo.decoder.Yields fun w => w.entry ≤ maxOffset := by
  apply Yields.decoder
  apply Yields.ap
  apply Yields.seq (Q := (· ≤ maxOffset))
  · exact .map (.any _) fun _ _ _ h _ => h
  · exact .required offset_yields

theorem FunctionInfo.decoder_yields : FunctionInfo.decoder.Yields fun f =>
    ∀ w ∈ f.defaultWorker :: f.workers, w.entry ≤ maxOffset := by
  apply Yields.decoder
  apply Yields.seq (Q := fun workers => ∀ w ∈ workers, w.entry ≤ maxOffset)
  · apply Yields.seq (Q := fun w => w.entry ≤ maxOffset)
    · apply Yields.ap
      exact .map (.any _) fun _ _ _ _ h _ hs => List.forall_mem_cons.mpr ⟨h, hs⟩
    · exact .required WorkerInfo.decoder_yields
  · exact .optional (.list WorkerInfo.decoder_yields) (by simp)

theorem Instruction.decoder_yields :
    Instruction.decoder.Yields fun i => ∀ n ∈ i.offsets, n ≤ maxOffset := by
  apply Decoder.Yields.tagged
  simp only [variants, List.forall_mem_append, List.forall_mem_cons, List.forall_mem_map,
    List.not_mem_nil, false_implies, implies_true, and_true]
  -- an offset is the last of the operands, if there is one at all
  have last {β : Type} {f : β → Nat → Instruction} {x : Record β} {name : String}
      (h : ∀ b n, (f b n).offsets = [n]) :
      (f <$> x <*> .required name Codec.offset).Yields fun i => ∀ n ∈ i.offsets, n ≤ maxOffset := by
    refine Yields.seq (Q := (· ≤ maxOffset)) (.map (.any _) fun b _ n bound => ?_)
      (.required offset_yields)
    rw [h]
    exact List.forall_mem_singleton.mpr bound
  and_intros
  any_goals exact last fun _ _ => rfl
  any_goals exact Yields.map (.required offset_yields) fun _ bound => by simpa using bound
  all_goals
    repeat apply Yields.ap
    exact .const (by simp)

theorem LineEntry.decoder_yields : LineEntry.decoder.Yields fun e => e.ip ≤ maxOffset := by
  have ip : (Record.required "ip" Codec.offset).Yields (· ≤ maxOffset) := .required offset_yields
  exact (ip.flattened (.any SourcePos.record)).map fun _ h => h.1

namespace Program

theorem recordDecoder_yields : recordDecoder.Yields fun p =>
    (∀ f ∈ p.functions, ∀ w ∈ f.defaultWorker :: f.workers, w.entry ≤ maxOffset) ∧
      (∀ i ∈ p.code, ∀ n ∈ i.offsets, n ≤ maxOffset) ∧ ∀ e ∈ p.lines, e.ip ≤ maxOffset := by
  apply Yields.decoder
  apply Yields.seq (Q := fun lines => ∀ e ∈ lines, e.ip ≤ maxOffset)
  · apply Yields.seq (Q := fun code : Array Instruction => ∀ i ∈ code, ∀ n ∈ i.offsets, n ≤ maxOffset)
    · apply Yields.ap
      apply Yields.seq (Q := fun functions : Array FunctionInfo =>
        ∀ f ∈ functions, ∀ w ∈ f.defaultWorker :: f.workers, w.entry ≤ maxOffset)
      · apply Yields.ap
        exact .map (.any _) fun _ _ _ _ functions _ _ code _ lines => ⟨functions, code, lines⟩
      · exact .required (.map (.list FunctionInfo.decoder_yields) (by simp))
    · exact .required (.map (.list Instruction.decoder_yields) (by simp))
  · exact .optional (.list LineEntry.decoder_yields) (by simp)

theorem sortLines_ordered (lines : List LineEntry) :
    (sortLines lines).Pairwise fun a b => a.ip ≤ b.ip := by
  have sorted : (sortLines lines).Pairwise fun a b => decide (a.ip ≤ b.ip) = true := by
    apply List.pairwise_mergeSort
    · simp only [decide_eq_true_eq]
      omega
    · simp only [Bool.or_eq_true, decide_eq_true_eq]
      omega
  simpa using sorted

/-- In every program that was loaded offsets are words and lines are in order. -/
theorem loaded {text : String} {p : Program} (h : Program.ofText text = .ok p) : p.Loaded := by
  apply Decoder.Yields.decodeText (d := decoder) (P := Loaded) ?_ h
  refine recordDecoder_yields.map fun q hq => ?_
  obtain ⟨entries, offsets, positions⟩ := hq
  refine ⟨entries, offsets, ?_, sortLines_ordered q.lines⟩
  intro e he
  exact positions e (List.mem_mergeSort.mp he)

end Program

end RegisterMachine
