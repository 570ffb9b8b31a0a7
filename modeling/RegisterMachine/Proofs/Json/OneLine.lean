import RegisterMachine.Proofs.Json.Lexing

/-!
# A document is written on one line

A reader that takes a stream line by line sees a document as it was written only if nothing in it ends
the line. What may be in a string is up to whoever has named things, so this rests on the writer:
control characters are escaped, and nothing else that it writes has any (`compact_plain`).
-/

namespace RegisterMachine

namespace Json

/-- A text without control characters. They are those before the space. -/
def Plain (text : List Char) : Prop := ∀ c ∈ text, 32 ≤ c.toNat

instance (text : List Char) : Decidable (Plain text) := List.decidableBAll _ text

namespace Plain

variable {c : Char} {text text' : List Char}

@[simp] theorem nil : Plain [] := nofun

@[simp] theorem cons_iff : Plain (c :: text) ↔ 32 ≤ c.toNat ∧ Plain text := List.forall_mem_cons

@[simp] theorem append_iff : Plain (text ++ text') ↔ Plain text ∧ Plain text' :=
  List.forall_mem_append

theorem of_subset (h : Plain text) (hs : text' ⊆ text) : Plain text' := fun c hc => h c (hs hc)

/-- There is no end of a line in it. -/
theorem newline_not_mem (h : Plain text) : '\n' ∉ text := fun hmem =>
  absurd (h _ hmem) (by decide)

theorem replicate (n : Nat) (hc : 32 ≤ c.toNat) : Plain (List.replicate n c) := by
  intro d hd
  rwa [List.eq_of_mem_replicate hd]

theorem digits (n : Nat) : Plain (Decimal.digits n) := by
  intro c hc
  have hdigit := isDigit_of_mem_toDigits c hc
  simp only [Decimal.isDigit, Bool.and_eq_true, decide_eq_true_eq] at hdigit
  have hzero : '0'.toNat ≤ c.toNat := UInt32.le_iff_toNat_le.mp (Char.le_def.mp hdigit.1)
  exact Nat.le_trans (by decide) hzero

theorem int (i : Int) : Plain (toString i).toList := by
  have hnat (n : Nat) : Plain n.repr.toList := by
    rw [Nat.repr_eq_ofList_toDigits, String.toList_ofList]
    exact digits n
  rw [Int.toString_eq_repr, Int.repr_eq_if]
  split
  · exact hnat _
  · rw [String.toList_append]
    exact append_iff.mpr ⟨by decide, hnat _⟩

/-- Digits, a point, zeros and an exponent. -/
theorem scientific (s : Decimal.Scaled) : Plain s.scientific := by
  have hall := digits s.coefficient
  have hds : Plain ((Decimal.digits s.coefficient).reverse.dropWhile (· == '0')).reverse := by
    refine hall.of_subset fun c hc => ?_
    exact List.mem_reverse.mp ((List.dropWhile_subset _) (List.mem_reverse.mp hc))
  have hpoint : 32 ≤ '.'.toNat := by decide
  have hzero : 32 ≤ '0'.toNat := by decide
  have he : 32 ≤ 'e'.toNat := by decide
  unfold Decimal.Scaled.scientific
  dsimp only
  generalize ((Decimal.digits s.coefficient).reverse.dropWhile (· == '0')).reverse = ds at hds ⊢
  have htake (n : Nat) : Plain (ds.take n) := hds.of_subset (List.take_subset n ds)
  have hdrop (n : Nat) : Plain (ds.drop n) := hds.of_subset (List.drop_subset n ds)
  split
  · simp only [append_iff, cons_iff]
    refine ⟨⟨htake _, replicate _ hzero⟩, hpoint, ?_⟩
    split
    · exact cons_iff.mpr ⟨hzero, nil⟩
    · exact hdrop _
  · split
    · simp only [append_iff, cons_iff]
      exact ⟨hzero, hpoint, replicate _ hzero, hds⟩
    · simp only [append_iff, cons_iff]
      refine ⟨⟨htake _, ?_⟩, he, int _⟩
      split
      · exact nil
      · exact cons_iff.mpr ⟨hpoint, hdrop _⟩

theorem floatText (x : Float) : Plain (Json.floatText x) := by
  have hsigned (negative : Bool) {text : List Char} (h : Plain text) :
      Plain (if negative then '-' :: text else text) := by
    cases negative with
    | false => exact h
    | true => exact cons_iff.mpr ⟨by decide, h⟩
  have hnull : Plain ['n', 'u', 'l', 'l'] := by decide
  unfold Json.floatText
  cases Decimal.Parts.ofBits x.toBits with
  | nan => exact hnull
  | infinite negative => exact hnull
  | zero negative => exact hsigned negative (by decide)
  | finite negative b => exact hsigned negative (scientific _)

theorem number (n : Number) : Plain n.text.toList := by
  cases n with
  | int i => exact int i
  | float x =>
    rw [Number.text, String.toList_ofList]
    exact floatText x

theorem escape (c : Char) : Plain (Json.escape c) := by
  have hexDigit : ∀ n < 16, 32 ≤ (Text.hexDigit n).toNat := by decide
  unfold Json.escape
  split
  case h_8 =>
    split
    · have hsmall := (lt_space_iff c).mp ‹_›
      simp only [cons_iff]
      exact ⟨by decide, by decide, by decide, by decide, hexDigit _ (by omega),
        hexDigit _ (by omega), nil⟩
    · exact cons_iff.mpr ⟨Nat.le_of_not_lt (mt (lt_space_iff c).mpr ‹_›), nil⟩
  all_goals decide

theorem quoted (s : String) : Plain (Json.quoted s).toList := by
  have hquote : 32 ≤ '"'.toNat := by decide
  rw [Json.quoted, String.toList_ofList, append_iff, cons_iff, cons_iff]
  refine ⟨⟨hquote, fun c hc => ?_⟩, hquote, nil⟩
  obtain ⟨d, -, hd⟩ := List.mem_flatMap.mp hc
  exact escape d c hd

theorem key (k : Key) : Plain k.text.toList := by
  cases k <;> exact quoted _

/-- Parts with commas between them. -/
theorem intercalate {parts : List String} (h : ∀ s ∈ parts, Plain s.toList) :
    Plain (String.intercalate "," parts).toList := by
  have hcomma : ",".toList = [','] := rfl
  induction parts with
  | nil => simp
  | cons s rest ih =>
    have hs := h s List.mem_cons_self
    have hrest := ih fun s hs => h s (List.mem_cons_of_mem _ hs)
    cases rest with
    | nil => rwa [String.intercalate_singleton]
    | cons t rest =>
      rw [String.intercalate_cons_cons]
      simp only [String.toList_append, hcomma, append_iff, cons_iff]
      exact ⟨⟨hs, by decide, nil⟩, hrest⟩

end Plain

mutual

/-- **A document is written without control characters**, whatever there is in it. -/
theorem compact_plain : ∀ j : Json, Plain j.compact.toList
  | .null => by decide
  | .bool false => by decide
  | .bool true => by decide
  | .number n => .number n
  | .string s => .quoted s
  | .list items _ => by
      have hitems := Plain.intercalate (compactItems_plain items)
      rw [compact, String.toList_append, String.toList_append]
      exact Plain.append_iff.mpr ⟨Plain.append_iff.mpr ⟨by decide, hitems⟩, by decide⟩
  | .object members _ => by
      have hmembers := Plain.intercalate (compactMembers_plain members)
      rw [compact, String.toList_append, String.toList_append]
      exact Plain.append_iff.mpr ⟨Plain.append_iff.mpr ⟨by decide, hmembers⟩, by decide⟩
  | .unreadable => by decide
  | .broken _ => by
      have hnull : Plain "null".toList := by decide
      exact hnull

theorem compactItems_plain : ∀ items : List Json, ∀ s ∈ compactItems items, Plain s.toList
  | [] => nofun
  | item :: rest => List.forall_mem_cons.mpr ⟨compact_plain item, compactItems_plain rest⟩

theorem compactMembers_plain :
    ∀ members : List (Key × Json), ∀ s ∈ compactMembers members, Plain s.toList
  | [] => nofun
  | (k, value) :: rest => by
      refine List.forall_mem_cons.mpr ⟨?_, compactMembers_plain rest⟩
      rw [String.toList_append, String.toList_append]
      exact Plain.append_iff.mpr
        ⟨Plain.append_iff.mpr ⟨.key k, by decide⟩, compact_plain value⟩

end

end Json

end RegisterMachine
