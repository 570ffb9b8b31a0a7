import RegisterMachine.Debug.Breakpoints
import RegisterMachine.Proofs.Json.Lexing

/-!
# How positions are spelt

A position is written in one way and can be read in many: blanks may stand around the line, a plus sign
before it, zeros in front. `SourcePos.Spelling` is all of these ways and no others, and
**`SourcePos.spellings_read`** says that just these can be read.

The source can be any text but the empty one. That does no harm, whatever colons, blanks and digits it may
have, since nothing that can stand between a colon and the line is a colon (`Spelling.colon_notMem_line`):
the last colon it is.
-/

namespace RegisterMachine

/-! ## The last colon -/

theorem splitLastColon?_append {source line : List Char} (h : ':' ∉ line) :
    splitLastColon? (source ++ ':' :: line) = some (source, line) := by
  have hline : ∀ c ∈ line.reverse, (c != ':') = true := by
    intro c hc
    rw [bne_iff_ne]
    rintro rfl
    exact h (List.mem_reverse.mp hc)
  have hafter : (source ++ ':' :: line).reverse.takeWhile (· != ':') = line.reverse := by
    rw [List.reverse_append, List.reverse_cons, List.append_assoc,
      List.takeWhile_append_of_pos hline]
    simp
  unfold splitLastColon?
  rw [hafter]
  have hlength : (source ++ ':' :: line).length - line.reverse.reverse.length - 1 = source.length := by
    simp
    omega
  dsimp only
  rw [if_pos (by simp; omega), hlength, List.take_left, List.reverse_reverse]

theorem splitLastColon?_eq_none {text : List Char} (h : ':' ∉ text) : splitLastColon? text = none := by
  have hall : text.reverse.takeWhile (· != ':') = text.reverse := by
    rw [List.takeWhile_eq_self_iff]
    intro c hc
    rw [bne_iff_ne]
    rintro rfl
    exact h (List.mem_reverse.mp hc)
  simp [splitLastColon?, hall]

/-- A text falls into what is before its last colon and what is after it. -/
theorem splitLastColon?_eq_some_iff {text source line : List Char} :
    splitLastColon? text = some (source, line) ↔ text = source ++ ':' :: line ∧ ':' ∉ line := by
  refine ⟨fun h => ?_, fun ⟨htext, hline⟩ => htext ▸ splitLastColon?_append hline⟩
  by_cases hcolon : ':' ∈ text
  · obtain ⟨after, before, hreverse, hafter⟩ :=
      List.eq_append_cons_of_mem (List.mem_reverse.mpr hcolon)
    have htext : text = before.reverse ++ ':' :: after.reverse := by
      rw [← text.reverse_reverse, hreverse]
      simp
    have hclear : ':' ∉ after.reverse := fun hm => hafter (List.mem_reverse.mp hm)
    rw [htext, splitLastColon?_append hclear] at h
    obtain ⟨rfl, rfl⟩ := Prod.mk.inj (Option.some.inj h)
    exact ⟨htext, hclear⟩
  · rw [splitLastColon?_eq_none hcolon] at h
    cases h

/-! ## Blanks around a numeral -/

namespace Text

/-- What trimming takes away is blank. -/
theorem exists_blanks (text : List Char) : ∃ before after : List Char,
    text = before ++ trimChars text ++ after ∧
      (∀ c ∈ before, isBlank c = true) ∧ ∀ c ∈ after, isBlank c = true := by
  have hsplit (l : List Char) : l = l.takeWhile isBlank ++ l.dropWhile isBlank :=
    List.takeWhile_append_dropWhile.symm
  refine ⟨text.takeWhile isBlank, ((text.dropWhile isBlank).reverse.takeWhile isBlank).reverse, ?_,
    fun c => List.mem_takeWhile_imp, fun c hc => List.mem_takeWhile_imp (List.mem_reverse.mp hc)⟩
  have hend : text.dropWhile isBlank = trimChars text ++
      ((text.dropWhile isBlank).reverse.takeWhile isBlank).reverse := by
    rw [trimChars, ← List.reverse_append, ← hsplit, List.reverse_reverse]
  rw [List.append_assoc, ← hend, ← hsplit]

theorem dropWhile_blanks {blanks text : List Char} (hblanks : ∀ c ∈ blanks, isBlank c = true)
    (htext : ∀ c, text.head? = some c → isBlank c = false) :
    (blanks ++ text).dropWhile isBlank = text := by
  rw [List.dropWhile_append_of_pos hblanks]
  cases text with
  | nil => rfl
  | cons c rest => exact List.dropWhile_cons_of_neg (by simp [htext c rfl])

/-- Trimming leaves what is not blank. -/
theorem trimChars_append {before middle after : List Char} (hbefore : ∀ c ∈ before, isBlank c = true)
    (hne : middle ≠ []) (hmiddle : ∀ c ∈ middle, isBlank c = false) (hafter : ∀ c ∈ after, isBlank c = true) :
    trimChars (before ++ middle ++ after) = middle := by
  have hfront : (before ++ (middle ++ after)).dropWhile isBlank = middle ++ after := by
    refine dropWhile_blanks hbefore fun c hc => hmiddle c ?_
    rw [List.head?_append_of_ne_nil _ hne] at hc
    exact List.mem_of_mem_head? hc
  have hback : (after.reverse ++ middle.reverse).dropWhile isBlank = middle.reverse := by
    refine dropWhile_blanks (fun c hc => hafter c (List.mem_reverse.mp hc)) fun c hc => hmiddle c ?_
    exact List.mem_reverse.mp (List.mem_of_mem_head? hc)
  rw [trimChars, List.append_assoc, hfront, List.reverse_append, hback, List.reverse_reverse]

theorem isBlank_of_isDigit {c : Char} (h : c.isDigit = true) : isBlank c = false := by
  have hrange : 48 ≤ c.toNat ∧ c.toNat ≤ 57 := by
    simpa [Char.isDigit, UInt32.le_iff_toNat_le] using h
  simp [isBlank, blankRanges]
  omega

end Text

namespace Decimal

/-- A numeral with its sign, if it has one. -/
def signed (plus : Bool) (digits : List Char) : List Char := if plus then '+' :: digits else digits

theorem value?_eq_some_iff {digits : List Char} {n : Nat} :
    value? digits = some n ↔
      digits ≠ [] ∧ (∀ c ∈ digits, c.isDigit = true) ∧ Nat.ofDigitChars 10 digits 0 = n := by
  have hvalue : value digits = Nat.ofDigitChars 10 digits 0 := Json.valueFrom_eq 0 digits
  unfold value?
  rw [hvalue]
  by_cases hdigits : digits.isEmpty || !digits.all isDigit
  · rw [if_pos hdigits]
    refine iff_of_false nofun ?_
    rintro ⟨hne, hall, -⟩
    have hall' : digits.all isDigit = true := List.all_eq_true.mpr hall
    simp [hne, hall'] at hdigits
  · rw [if_neg hdigits, Option.some.injEq]
    simp only [Bool.or_eq_true, List.isEmpty_iff, Bool.not_eq_true', not_or, Bool.not_eq_false,
      List.all_eq_true] at hdigits
    exact ⟨fun hn => ⟨hdigits.1, hdigits.2, hn⟩, fun h => h.2.2⟩

theorem readNat?_eq_some_iff {limit n : Nat} {text : List Char} :
    readNat? limit text = some n ↔
      ∃ plus digits, text = signed plus digits ∧ value? digits = some n ∧ n ≤ limit := by
  have hread (unsigned : List Char) :
      ((value? unsigned) >>= fun m => if m ≤ limit then some m else none) = some n ↔
        value? unsigned = some n ∧ n ≤ limit := by
    cases value? unsigned with
    | none => simp
    | some m =>
      show (if m ≤ limit then some m else none) = some n ↔ some m = some n ∧ n ≤ limit
      grind
  unfold readNat?
  dsimp only
  rw [hread]
  constructor
  · rintro ⟨hvalue, hle⟩
    split at hvalue
    next digits => exact ⟨true, digits, rfl, hvalue, hle⟩
    next => exact ⟨false, text, rfl, hvalue, hle⟩
  · rintro ⟨plus, digits, rfl, hvalue, hle⟩
    refine ⟨?_, hle⟩
    cases plus with
    | true => exact hvalue
    | false =>
      -- what begins with a sign is not all digits
      unfold signed
      rw [if_neg Bool.false_ne_true]
      split
      next rest =>
        have hplus := (value?_eq_some_iff.mp hvalue).2.1 '+' (List.mem_cons_self ..)
        exact absurd hplus (by decide)
      next => exact hvalue

end Decimal

/-! ## Positions -/

namespace SourcePos

/-- A way to spell a position. -/
structure Spelling where
  source : List Char
  /-- The blanks before the numeral. -/
  before : List Char
  plus : Bool
  digits : List Char
  /-- The blanks after it. -/
  after : List Char
  source_ne : source ≠ []
  before_blank : ∀ c ∈ before, Text.isBlank c = true
  after_blank : ∀ c ∈ after, Text.isBlank c = true
  digits_ne : digits ≠ []
  digits_ascii : ∀ c ∈ digits, c.isDigit = true
  line_lt : Nat.ofDigitChars 10 digits 0 < UInt32.size

namespace Spelling

variable (w : Spelling)

/-- What stands after the colon. -/
def line : List Char := w.before ++ Decimal.signed w.plus w.digits ++ w.after

/-- The position that is spelt. -/
def pos : SourcePos := ⟨String.ofList w.source, .ofNat (Nat.ofDigitChars 10 w.digits 0)⟩

theorem mem_signed {c : Char} (h : c ∈ Decimal.signed w.plus w.digits) : c = '+' ∨ c.isDigit = true := by
  unfold Decimal.signed at h
  split at h
  · exact (List.mem_cons.mp h).imp id (w.digits_ascii c)
  · exact .inr (w.digits_ascii c h)

theorem signed_ne : Decimal.signed w.plus w.digits ≠ [] := by
  unfold Decimal.signed
  split
  · exact List.cons_ne_nil _ _
  · exact w.digits_ne

theorem colon_notMem_line : ':' ∉ w.line := by
  intro h
  rcases List.mem_append.mp h with h | h
  · rcases List.mem_append.mp h with h | h
    · exact absurd (w.before_blank _ h) (by decide)
    · exact absurd (w.mem_signed h) (by decide)
  · exact absurd (w.after_blank _ h) (by decide)

theorem trimChars_line : Text.trimChars w.line = Decimal.signed w.plus w.digits := by
  refine Text.trimChars_append w.before_blank w.signed_ne (fun c hc => ?_) w.after_blank
  rcases w.mem_signed hc with rfl | hdigit
  · decide
  · exact Text.isBlank_of_isDigit hdigit

end Spelling

theorem ofText?_of_spelling {text : String} (w : Spelling) (h : text.toList = w.source ++ ':' :: w.line) :
    ofText? text = some w.pos := by
  have hread : Decimal.readNat? 4294967295 (Text.trimChars w.line) = some (Nat.ofDigitChars 10 w.digits 0) := by
    rw [w.trimChars_line, Decimal.readNat?_eq_some_iff]
    exact ⟨w.plus, w.digits, rfl, Decimal.value?_eq_some_iff.mpr ⟨w.digits_ne, w.digits_ascii, rfl⟩,
      Nat.le_of_lt_succ w.line_lt⟩
  simp [ofText?, h, splitLastColon?_append w.colon_notMem_line, w.source_ne, hread, Spelling.pos]

theorem exists_spelling {text : String} {p : SourcePos} (h : ofText? text = some p) :
    ∃ w : Spelling, text.toList = w.source ++ ':' :: w.line ∧ p = w.pos := by
  obtain ⟨⟨source, line⟩, hsplit, h⟩ := Option.bind_eq_some_iff.mp h
  dsimp only at h
  split at h
  · cases h
  next hsource =>
    obtain ⟨n, hread, h⟩ := Option.bind_eq_some_iff.mp h
    obtain ⟨htext, -⟩ := splitLastColon?_eq_some_iff.mp hsplit
    obtain ⟨before, after, hline, hbefore, hafter⟩ := Text.exists_blanks line
    obtain ⟨plus, digits, htrim, hvalue, hle⟩ := Decimal.readNat?_eq_some_iff.mp hread
    obtain ⟨hne, hdigits, hn⟩ := Decimal.value?_eq_some_iff.mp hvalue
    rw [htrim] at hline
    subst hn
    exact ⟨⟨source, before, plus, digits, after, by simpa using hsource, hbefore, hafter, hne, hdigits,
      Nat.lt_succ_of_le hle⟩,
      htext.trans (by rw [hline]; rfl), (Option.some.inj h).symm⟩

/-- The one way in which a position is written. -/
def written (p : SourcePos) (h : p.source ≠ "") : Spelling where
  source := p.source.toList
  before := []
  plus := false
  digits := Nat.toDigits 10 p.line.toNat
  after := []
  source_ne := by simpa using h
  before_blank := nofun
  after_blank := nofun
  digits_ne := Nat.toDigits_ne_nil
  digits_ascii _ hc := Nat.isDigit_of_mem_toDigits (by decide) (by decide) hc
  line_lt := by
    rw [Nat.ofDigitChars_ten_toDigits]
    exact p.line.toNat_lt_size

theorem pos_written (p : SourcePos) (h : p.source ≠ "") : (p.written h).pos = p := by
  unfold written Spelling.pos
  rw [Nat.ofDigitChars_ten_toDigits, String.ofList_toList, UInt32.ofNat_toNat]

theorem toList_render (p : SourcePos) (h : p.source ≠ "") :
    p.render.toList = (p.written h).source ++ ':' :: (p.written h).line := by
  have hline : (toString p.line.toNat).toList = Nat.toDigits 10 p.line.toNat := String.toList_ofList
  rw [render, String.toList_append, String.toList_append, hline, List.append_assoc]
  show p.source.toList ++ (':' :: Nat.toDigits 10 p.line.toNat)
    = p.source.toList ++ ':' :: (Nat.toDigits 10 p.line.toNat ++ [])
  rw [List.append_nil]

theorem ofText?_render (p : SourcePos) (h : p.source ≠ "") : ofText? p.render = some p := by
  rw [ofText?_of_spelling (p.written h) (p.toList_render h), p.pos_written h]

/-- **A text can be read as a position just where it spells one,** and then it is the one that it spells: what
is before the last colon as it stands, and a line. A position whose source is not empty is read back from
what is written of it, in particular one that has been read. -/
theorem spellings_read :
    (∀ text p, ofText? text = some p ↔
      ∃ w : Spelling, text.toList = w.source ++ ':' :: w.line ∧ ':' ∉ w.line ∧ p = w.pos) ∧
    (∀ p : SourcePos, p.source ≠ "" → ofText? p.render = some p) ∧
    ∀ text p, ofText? text = some p → ofText? p.render = some p := by
  refine ⟨fun text p => ⟨fun h => ?_, ?_⟩, ofText?_render, fun text p h => ?_⟩
  · obtain ⟨w, htext, hpos⟩ := exists_spelling h
    exact ⟨w, htext, w.colon_notMem_line, hpos⟩
  · rintro ⟨w, htext, -, rfl⟩
    exact ofText?_of_spelling w htext
  · obtain ⟨w, -, rfl⟩ := exists_spelling h
    refine ofText?_render _ ?_
    simpa [Spelling.pos] using w.source_ne

/-- A source with colons, blanks and a number at its end, and a line with a sign and a zero. -/
theorem spelt_with_sign :
    let p : SourcePos := ⟨"C:/a b:12 ", 7⟩
    p.source ≠ "" ∧ ofText? p.render = some p ∧
      ofText? "C:/a b:12 : +07 " = some p ∧ ofText? "C:/a b:12 :7" = some p := by
  intro p
  have hsource : p.source ≠ "" := by decide
  have hread : ofText? "C:/a b:12 : +07 " = some p := by decide +kernel
  have hrender : p.render = "C:/a b:12 :7" := by decide +kernel
  obtain ⟨-, hback, hagain⟩ := spellings_read
  refine ⟨hsource, hback p hsource, hread, ?_⟩
  rw [← hrender]
  exact hagain _ p hread

end SourcePos

end RegisterMachine
