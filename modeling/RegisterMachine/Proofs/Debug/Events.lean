import RegisterMachine.Debug.Protocol
import RegisterMachine.Proofs.Json.OneLine
import RegisterMachine.Proofs.Program.Writing

/-!
# An event that is written is read as the same

There is one lemma for each part of an event, as there is for the parts of a program. The one thing that
is new is a member that may be left out: a frame without a known position has none.
-/

namespace RegisterMachine

open Json (Decoder Record Variant)
open Json.Record (Takes)
open Json.Decoder (Reads)

variable {room : Nat}

/-- A member that may be left out and is. -/
theorem Json.Record.Takes.omitted {α : Type} {name : String} {d : Decoder α} (a : α) :
    (Record.optional name d a).Takes room [] a :=
  ⟨nofun, nofun, fun _ => ⟨none, rfl, rfl⟩⟩

theorem SourcePos.reads (pos : SourcePos) : decoder.Reads (room + 1) pos.toJson pos :=
  pos.takes_members.decoder

theorem SourcePos.toJson_ne_null (pos : SourcePos) : pos.toJson ≠ .null := nofun

theorem TraceEntry.reads (e : TraceEntry) : decoder.Reads (room + 2) e.toJson e := by
  obtain ⟨function, worker, position⟩ := e
  have named : (mk <$> Record.required "function" .string <*> .required "worker" .string).Takes
      (room + 1) _ (mk function worker) :=
    .map₂ (.field (.string function)) (.field (.string worker)) mk (by decide)
  cases position with
  | none =>
    exact (named.seq (.omitted none) (by decide)).decoder
  | some pos =>
    have known : (Decoder.option SourcePos.decoder).Reads (room + 1) pos.toJson (some pos) :=
      Reads.option (x := some pos) SourcePos.toJson_ne_null fun _ _ => SourcePos.reads _
    exact (named.seq (.field known) (by decide)).decoder

namespace Debug

theorem Reason.reads (reason : Reason) : decoder.Reads room (.string reason.name) reason := by
  apply Reads.unit
  cases reason <;> rfl

namespace Event

theorem reads (e : Event) : decoder.Reads 5 e.toJson e := by
  cases e with
  | ready => exact .tagged rfl (.const _) (by decide)
  | exit status =>
    have number : ((Decoder.int (-2147483648) 2147483647).map Int32.ofInt).Reads 4
        (.ofInt status.toInt) status := by
      have above := status.minValue_le_toInt
      have below := status.toInt_le
      exact (Reads.int above below (Json.int_readsBack (Int.le_trans (by decide) above)
        (Int.le_trans below (by decide)))).map status.ofInt_toInt
    exact .tagged rfl ((Takes.field number).map _) (by decide)
  | suspended worker workerName position reason frames =>
    have id : ((Decoder.nat maxOffset).map UInt64.ofNat).Reads 4 (.ofNat worker.toNat) worker := by
      have bound : worker.toNat ≤ maxOffset := Nat.le_of_lt_succ worker.toNat_lt
      exact (Reads.nat bound bound).map UInt64.ofNat_toNat
    have all : (Decoder.list TraceEntry.decoder).Reads 4
        (.ofList (frames.map TraceEntry.toJson)) frames :=
      .list fun e _ => e.reads
    exact .tagged rfl
      ((((Takes.map₂ (.field id) (.field (.string workerName)) suspended (by decide)).seq
        (.field position.reads) (by decide)).seq (.field reason.reads) (by decide)).seq
        (.field all) (by decide)) (by decide)

/-- **An event that is written is read as the same**, whatever names there are in it. -/
theorem reads_back (e : Event) : ofText e.toText = .ok e := e.reads.decodeText (by decide)

theorem toText_plain (e : Event) : Json.Plain e.toText.toList := e.toJson.compact_plain

theorem toText_ne_nil (e : Event) : e.toText.toList ≠ [] := by
  obtain ⟨members, hmembers⟩ : ∃ members, e.toJson = .ofMembers members := by
    cases e <;> exact ⟨_, rfl⟩
  rw [toText, hmembers, Json.ofMembers, Json.compact]
  simp

end Event

end Debug

end RegisterMachine
