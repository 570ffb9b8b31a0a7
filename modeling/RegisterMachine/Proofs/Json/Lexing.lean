import Mathlib.Data.List.Basic
import Mathlib.Data.List.TakeWhile
import RegisterMachine.Json.Token
import RegisterMachine.Json.Writer

/-!
# What is written is cut into the tokens it was made of

`tokens` counts characters to know when to stop. `tokens_cons` does away with the count: the tokens
of a text are its first token and those of what that one leaves. A string can then be followed by
anything. A number cannot, since it has no end of its own, and what follows it must be `Delimited`.
-/

namespace RegisterMachine.Json

/-! ## One token after the other -/

theorem scanString_length (s : StringSoFar) (text : List Char) :
    (scanString s text).2.length ≤ text.length := by
  fun_induction scanString s text <;> simp_all
  all_goals omega

theorem scanWord_length (token : Token) (expected text : List Char) :
    (scanWord token expected text).2.length ≤ text.length := by
  fun_induction scanWord token expected text <;> simp_all
  omega

theorem length_dropWhile_le (p : Char → Bool) (text : List Char) :
    (text.dropWhile p).length ≤ text.length :=
  (List.dropWhile_sublist p).length_le

theorem takeSign_length (text : List Char) : (takeSign text).2.length ≤ text.length := by
  unfold takeSign
  split <;> simp

theorem scanExponent_length (n : Numeral) (text : List Char) :
    (scanExponent n text).2.length ≤ text.length := by
  unfold scanExponent
  split
  · simp
  next e rest =>
    split
    · simp only
      split
      · simp [brokenNumber]
      · have digits := length_dropWhile_le Decimal.isDigit (takeSign rest).2
        have sign := takeSign_length rest
        simp only [List.length_cons]
        omega
    · simp

theorem scanNumber_length (negative : Bool) (text : List Char) :
    (scanNumber negative text).2.length ≤ (text.dropWhile Decimal.isDigit).length := by
  unfold scanNumber
  simp only
  split
  · simp [brokenNumber]
  split
  · simp
  split
  next rest hrest =>
    rw [hrest]
    split
    · simp [brokenNumber]
    · have exponent := scanExponent_length
        ⟨negative, text.takeWhile Decimal.isDigit, some (rest.takeWhile Decimal.isDigit), none⟩
        (rest.dropWhile Decimal.isDigit)
      have fraction := length_dropWhile_le Decimal.isDigit rest
      simp only [List.length_cons]
      omega
  · exact scanExponent_length _ _

theorem scanToken_length (c : Char) (rest : List Char) :
    (scanToken c rest).2.length ≤ rest.length := by
  have digits := length_dropWhile_le Decimal.isDigit rest
  unfold scanToken
  split
  any_goals exact Nat.le_refl _
  · exact scanString_length _ _
  · exact scanWord_length _ _ _
  · exact scanWord_length _ _ _
  · exact scanWord_length _ _ _
  · exact Nat.le_trans (scanNumber_length _ _) digits
  · split
    next digit =>
      -- the digit itself is taken, so `scanNumber_length` loses nothing
      have taken := scanNumber_length false (c :: rest)
      rw [List.dropWhile_cons_of_pos digit] at taken
      exact Nat.le_trans taken digits
    · simp

/-- More steps than characters change nothing. -/
theorem tokensWithin_eq : ∀ {fuel : Nat} (enough : Nat) {text : List Char}, text.length ≤ fuel →
    text.length ≤ enough → tokensWithin fuel text = tokensWithin enough text := by
  intro fuel
  induction fuel with
  | zero =>
    intro enough text h _
    obtain rfl : text = [] := List.length_eq_zero_iff.mp (Nat.le_zero.mp h)
    cases enough <;> rfl
  | succ fuel ih =>
    intro enough text h h'
    cases enough with
    | zero =>
      obtain rfl : text = [] := List.length_eq_zero_iff.mp (Nat.le_zero.mp h')
      rfl
    | succ enough =>
      simp only [tokensWithin]
      split
      · rfl
      next c rest hrest =>
        have shorter := length_dropWhile_le isSpace text
        have left := scanToken_length c rest
        rw [hrest, List.length_cons] at shorter
        rw [ih enough (by omega) (by omega)]

theorem tokens_of_dropWhile (text : List Char) :
    tokens text = match text.dropWhile isSpace with
      | [] => []
      | c :: rest => (scanToken c rest).1 :: tokens (scanToken c rest).2 := by
  cases text with
  | nil => rfl
  | cons first text =>
    have shorter := length_dropWhile_le isSpace (first :: text)
    rw [tokens, List.length_cons, tokensWithin]
    cases h : (first :: text).dropWhile isSpace with
    | nil => rfl
    | cons c rest =>
      have left := scanToken_length c rest
      rw [h, List.length_cons, List.length_cons] at shorter
      simp only
      rw [tokensWithin_eq (scanToken c rest).2.length (by omega) (Nat.le_refl _)]
      rfl

theorem tokens_cons {c : Char} (solid : isSpace c = false) (rest : List Char) :
    tokens (c :: rest) = (scanToken c rest).1 :: tokens (scanToken c rest).2 := by
  rw [tokens_of_dropWhile, List.dropWhile_cons_of_neg (by simp [solid])]

@[simp] theorem tokens_nil : tokens [] = [] := rfl

@[simp] theorem tokens_openList (rest : List Char) :
    tokens ('[' :: rest) = .openList :: tokens rest := tokens_cons rfl rest

@[simp] theorem tokens_closeList (rest : List Char) :
    tokens (']' :: rest) = .closeList :: tokens rest := tokens_cons rfl rest

@[simp] theorem tokens_openObject (rest : List Char) :
    tokens ('\x7b' :: rest) = .openObject :: tokens rest := tokens_cons rfl rest

@[simp] theorem tokens_closeObject (rest : List Char) :
    tokens ('\x7d' :: rest) = .closeObject :: tokens rest := tokens_cons rfl rest

@[simp] theorem tokens_comma (rest : List Char) :
    tokens (',' :: rest) = .comma :: tokens rest := tokens_cons rfl rest

@[simp] theorem tokens_colon (rest : List Char) :
    tokens (':' :: rest) = .colon :: tokens rest := tokens_cons rfl rest

@[simp] theorem tokens_null (rest : List Char) :
    tokens ('n' :: 'u' :: 'l' :: 'l' :: rest) = .null :: tokens rest := tokens_cons rfl _

@[simp] theorem tokens_true (rest : List Char) :
    tokens ('t' :: 'r' :: 'u' :: 'e' :: rest) = .bool true :: tokens rest := tokens_cons rfl _

@[simp] theorem tokens_false (rest : List Char) :
    tokens ('f' :: 'a' :: 'l' :: 's' :: 'e' :: rest) = .bool false :: tokens rest :=
  tokens_cons rfl _

/-! ## Strings -/

theorem hexWord?_control : ∀ n < 32,
    hexWord? '0' '0' (Text.hexDigit (n / 16)) (Text.hexDigit (n % 16)) = some n := by
  decide

/-- A unit that is no surrogate is a character. -/
theorem pushUnit_of_lt {s : StringSoFar} (whole : s.high = none) {n : Nat} (h : n < 0xD800) :
    s.pushUnit n = s.push (Char.ofNat n) := by
  have notHigh : ¬(0xD800 ≤ n ∧ n ≤ 0xDBFF) := by omega
  have notLow : ¬(0xDC00 ≤ n ∧ n ≤ 0xDFFF) := by omega
  simp [StringSoFar.pushUnit, whole, notHigh, notLow]

theorem lt_space_iff (c : Char) : c < ' ' ↔ c.toNat < 32 := by
  rw [Char.lt_def, UInt32.lt_iff_toNat_lt]
  rfl

/-- What stands for a character is read as that character. -/
theorem scanString_escape {s : StringSoFar} (whole : s.high = none) (c : Char) (rest : List Char) :
    scanString s (escape c ++ rest) = scanString (s.push c) rest := by
  unfold escape
  split
  any_goals rfl
  next notQuote notBackslash _ _ _ _ _ =>
    split
    next control =>
      have small : c.toNat < 32 := (lt_space_iff c).mp control
      simp only [List.cons_append, List.nil_append, scanString, hexWord?_control _ small]
      rw [pushUnit_of_lt whole (by omega), Char.ofNat_toNat]
    next plain =>
      simp only [List.cons_append, List.nil_append]
      rw [scanString.eq_def]
      split
      all_goals first
        | (obtain ⟨rfl, rfl⟩ := List.cons.inj ‹c :: rest = _ :: _›; exact if_neg plain)
        | simp_all

theorem scanString_escapes (text rest : List Char) : ∀ chars : List Char,
    scanString ⟨chars, true, none⟩ (text.flatMap escape ++ '"' :: rest) =
      (.string (String.ofList (chars.reverse ++ text)), rest) := by
  induction text with
  | nil =>
    intro chars
    simp [scanString, StringSoFar.finish]
  | cons c text ih =>
    intro chars
    rw [List.flatMap_cons, List.append_assoc, scanString_escape rfl]
    have pushed : StringSoFar.push ⟨chars, true, none⟩ c = ⟨c :: chars, true, none⟩ := rfl
    rw [pushed, ih]
    simp

theorem tokens_quoted (s : String) (rest : List Char) :
    tokens ((quoted s).toList ++ rest) = .string s :: tokens rest := by
  have text : (quoted s).toList ++ rest = '"' :: (s.toList.flatMap escape ++ '"' :: rest) := by
    simp [quoted]
  have scanned : scanToken '"' (s.toList.flatMap escape ++ '"' :: rest) = (.string s, rest) := by
    simp only [scanToken, StringSoFar.start]
    rw [scanString_escapes]
    simp
  rw [text, tokens_cons rfl, scanned]

/-! ## Numbers -/

/-- What can follow a value: nothing, a comma, or the end of a container. -/
inductive Delimited : List Char → Prop
  | nil : Delimited []
  | comma (rest : List Char) : Delimited (',' :: rest)
  | closeList (rest : List Char) : Delimited (']' :: rest)
  | closeObject (rest : List Char) : Delimited ('\x7d' :: rest)

namespace Delimited

variable {rest : List Char}

theorem takeWhile_isDigit (d : Delimited rest) (text : List Char) :
    (text ++ rest).takeWhile Decimal.isDigit = text.takeWhile Decimal.isDigit := by
  induction text with
  | nil => cases d <;> rfl
  | cons c text ih => simp only [List.cons_append, List.takeWhile_cons, ih]

theorem dropWhile_isDigit (d : Delimited rest) (text : List Char) :
    (text ++ rest).dropWhile Decimal.isDigit = text.dropWhile Decimal.isDigit ++ rest := by
  induction text with
  | nil => cases d <;> rfl
  | cons c text ih =>
    simp only [List.cons_append, List.dropWhile_cons, ih]
    split <;> rfl

theorem takeSign_append (c : Char) (text rest : List Char) :
    takeSign (c :: text ++ rest) =
      ((takeSign (c :: text)).1, (takeSign (c :: text)).2 ++ rest) := by
  simp only [List.cons_append, takeSign]
  split <;> simp_all

theorem scanExponent_nil (d : Delimited rest) (n : Numeral) :
    scanExponent n rest = (numberToken n, rest) := by
  cases d <;> rfl

/-- A number with an exponent ends where it ended before something was put after it. -/
theorem scanExponent_append (d : Delimited rest) {n : Numeral} {text left : List Char} {m : Number}
    (h : scanExponent n text = (.number m, left)) :
    scanExponent n (text ++ rest) = (.number m, left ++ rest) := by
  cases text with
  | nil =>
    obtain ⟨read, rfl⟩ := Prod.mk.inj h
    rw [List.nil_append, d.scanExponent_nil, read]
  | cons e text =>
    simp only [scanExponent, List.cons_append] at h ⊢
    split at h
    next isE =>
      rw [if_pos isE]
      cases text with
      | nil => simp [takeSign, brokenNumber] at h
      | cons c text =>
        rw [takeSign_append]
        simp only [d.takeWhile_isDigit, d.dropWhile_isDigit] at h ⊢
        split at h
        · simp [brokenNumber] at h
        next some =>
          rw [if_neg some]
          obtain ⟨read, rfl⟩ := Prod.mk.inj h
          rw [read]
    next notE =>
      rw [if_neg notE]
      obtain ⟨read, rfl⟩ := Prod.mk.inj h
      rw [read]
      rfl

theorem scanNumber_append (d : Delimited rest) {negative : Bool} {text left : List Char}
    {m : Number} (h : scanNumber negative text = (.number m, left)) :
    scanNumber negative (text ++ rest) = (.number m, left ++ rest) := by
  simp only [scanNumber, d.takeWhile_isDigit, d.dropWhile_isDigit] at h ⊢
  split at h
  · simp [brokenNumber] at h
  next some =>
    rw [if_neg some]
    split at h
    · simp at h
    next noZero =>
      rw [if_neg noZero]
      split at h
      next fraction point =>
        rw [point]
        simp only [List.cons_append, d.takeWhile_isDigit, d.dropWhile_isDigit]
        split at h
        · simp [brokenNumber] at h
        next digits =>
          rw [if_neg digits]
          exact d.scanExponent_append h
      next noPoint =>
        have next : ∀ after, text.dropWhile Decimal.isDigit ++ rest ≠ '.' :: after := by
          intro after
          cases left : text.dropWhile Decimal.isDigit with
          | nil => cases d <;> simp
          | cons c _ =>
            intro same
            obtain ⟨rfl, -⟩ := List.cons.inj same
            exact noPoint _ left
        split
        · exact absurd ‹_› (next _)
        · exact d.scanExponent_append h

end Delimited

theorem scanString_ne_number (s : StringSoFar) (text : List Char) (m : Number) :
    (scanString s text).1 ≠ .number m := by
  fun_induction scanString s text <;> simp_all [StringSoFar.fail, StringSoFar.finish]
  split <;> simp

theorem scanWord_ne_number {token : Token} {m : Number} (other : token ≠ .number m)
    (expected text : List Char) : (scanWord token expected text).1 ≠ .number m := by
  fun_induction scanWord token expected text <;> simp_all

theorem scanToken_append {c : Char} {text left rest : List Char} {m : Number} (d : Delimited rest)
    (h : scanToken c text = (.number m, left)) :
    scanToken c (text ++ rest) = (.number m, left ++ rest) := by
  have read : (scanToken c text).1 = .number m := by rw [h]
  unfold scanToken at h read
  split at h
  -- only a sign and a digit begin a number
  any_goals cases read
  · exact absurd read (scanString_ne_number _ _ m)
  · exact absurd read (scanWord_ne_number (by simp) _ _)
  · exact absurd read (scanWord_ne_number (by simp) _ _)
  · exact absurd read (scanWord_ne_number (by simp) _ _)
  · exact d.scanNumber_append h
  next c _ _ _ _ _ _ _ _ _ _ _ =>
    split at h
    next digit =>
      have scanned := d.scanNumber_append h
      simp only [scanToken, digit, if_true]
      exact scanned
    · simp at h

/-- A number whose text is one token, the number itself. -/
def Number.ReadsBack (n : Number) : Prop := tokens n.text.toList = [.number n]

instance (n : Number) : Decidable n.ReadsBack := inferInstanceAs (Decidable (_ = _))

theorem Number.ReadsBack.tokens_append {n : Number} (h : n.ReadsBack) {rest : List Char}
    (d : Delimited rest) : tokens (n.text.toList ++ rest) = .number n :: tokens rest := by
  rw [ReadsBack, tokens_of_dropWhile] at h
  rw [tokens_of_dropWhile, List.dropWhile_append]
  cases begun : n.text.toList.dropWhile isSpace with
  | nil =>
    rw [begun] at h
    cases h
  | cons c text =>
    rw [begun] at h
    obtain ⟨token, none⟩ := List.cons.inj h
    have scanned := scanToken_append d (Prod.ext token rfl : scanToken c text = (.number n, _))
    simp only [List.isEmpty_cons, Bool.false_eq_true, if_false, List.cons_append, scanned]
    -- whatever is left is blank
    rw [tokens_of_dropWhile] at none
    rw [tokens_of_dropWhile, List.dropWhile_append, tokens_of_dropWhile rest]
    split at none
    next blank => simp [blank]
    · cases none

/-! ## Integers -/

theorem isDigit_eq (c : Char) : Decimal.isDigit c = c.isDigit := rfl

theorem valueFrom_eq (start : Nat) (digits : List Char) :
    Decimal.valueFrom start digits = Nat.ofDigitChars 10 digits start := by
  rw [Nat.ofDigitChars_eq_foldl]
  rfl

theorem le_valueFrom (start : Nat) (digits : List Char) :
    start ≤ Decimal.valueFrom start digits := by
  rw [valueFrom_eq, Nat.ofDigitChars_eq_ofDigitChars_zero]
  have := Nat.le_mul_of_pos_left start (Nat.pow_pos (n := digits.length) (by decide : 0 < 10))
  omega

/-- A word takes on all the digits of a number that fits. -/
theorem takeDigits_eq {digits : List Char} : ∀ {start : Nat},
    Decimal.valueFrom start digits ≤ maxWord →
    takeDigits start digits = (Decimal.valueFrom start digits, digits.length, 0) := by
  induction digits with
  | nil =>
    intro start _
    rfl
  | cons c digits ih =>
    intro start h
    have fits : ¬maxWord < 10 * start + Decimal.digitValue c := by
      have := le_valueFrom (10 * start + Decimal.digitValue c) digits
      have same : Decimal.valueFrom start (c :: digits) =
        Decimal.valueFrom (10 * start + Decimal.digitValue c) digits := rfl
      omega
    rw [takeDigits, if_neg fits, ih h]
    rfl

/-- Only zero begins with a zero. -/
theorem head?_toDigits_eq_zero {n : Nat} : (Nat.toDigits 10 n).head? = some '0' → n = 0 := by
  induction n using Nat.strongRecOn with
  | ind n ih =>
    intro h
    by_cases small : n < 10
    · rw [Nat.toDigits_of_lt_base small] at h
      have all : ∀ d < 10, [Nat.digitChar d].head? = some '0' → d = 0 := by decide
      exact all n small h
    · rw [Nat.toDigits_of_base_le (by decide) (by omega),
        List.head?_append_of_ne_nil _ Nat.toDigits_ne_nil] at h
      have := ih (n / 10) (by omega) h
      omega

theorem isDigit_of_mem_toDigits {n : Nat} : ∀ c ∈ Nat.toDigits 10 n, Decimal.isDigit c = true := by
  intro c h
  rw [isDigit_eq]
  exact Nat.isDigit_of_mem_toDigits (by decide) (by decide) h

/-- The digits of a number are a numeral with nothing but digits. -/
theorem scanNumber_toDigits (negative : Bool) (n : Nat) :
    scanNumber negative (Nat.toDigits 10 n) =
      (numberToken ⟨negative, Nat.toDigits 10 n, none, none⟩, []) := by
  have whole : (Nat.toDigits 10 n).takeWhile Decimal.isDigit = Nat.toDigits 10 n :=
    List.takeWhile_eq_self_iff.mpr isDigit_of_mem_toDigits
  have nothing : (Nat.toDigits 10 n).dropWhile Decimal.isDigit = [] :=
    List.dropWhile_eq_nil_iff.mpr isDigit_of_mem_toDigits
  have noZero : ¬((Nat.toDigits 10 n).head? = some '0' ∧ 1 < (Nat.toDigits 10 n).length) := by
    rintro ⟨zero, long⟩
    rw [head?_toDigits_eq_zero zero] at long
    exact absurd long (by decide)
  simp only [scanNumber, whole, nothing]
  rw [if_neg (by simp), if_neg (by simpa using noZero)]
  rfl

theorem toNumber?_toDigits {n : Nat} (fits : n ≤ maxWord) (negative : Bool) :
    (Numeral.mk negative (Nat.toDigits 10 n) none none).toNumber? =
      if !negative then some (.int n)
      else if n = 0 || 9223372036854775808 < n then
        some (.float (if negative then -(UInt64.ofNat n).toFloat else (UInt64.ofNat n).toFloat))
      else some (.int (-(n : Int))) := by
  have value : Decimal.valueFrom 0 (Nat.toDigits 10 n) = n := by
    rw [valueFrom_eq, Nat.ofDigitChars_ten_toDigits]
  simp only [Numeral.toNumber?]
  rw [takeDigits_eq (by omega), value]
  rfl

theorem scanToken_digit {c : Char} (digit : Decimal.isDigit c = true) (rest : List Char) :
    scanToken c rest = scanNumber false (c :: rest) := by
  unfold scanToken
  split
  all_goals first
    | exact absurd digit (by decide)
    | rw [if_pos digit]

theorem isSpace_of_isDigit {c : Char} (digit : Decimal.isDigit c = true) : isSpace c = false := by
  by_contra space
  simp only [isSpace, Bool.not_eq_false, Bool.or_eq_true, beq_iff_eq] at space
  obtain ((rfl | rfl) | rfl) | rfl := space <;> exact absurd digit (by decide)

theorem nat_readsBack {n : Nat} (fits : n ≤ maxWord) : (Number.int n).ReadsBack := by
  have text : (Number.int n).text.toList = Nat.toDigits 10 n := by
    simp [Number.text, Int.toString_eq_repr, Int.repr_eq_if, Nat.repr_eq_ofList_toDigits]
  rw [Number.ReadsBack, text]
  cases digits : Nat.toDigits 10 n with
  | nil => exact absurd digits Nat.toDigits_ne_nil
  | cons c rest =>
    have digit : Decimal.isDigit c = true := 
      isDigit_of_mem_toDigits (n := n) c (by simp [digits])
    rw [tokens_cons (isSpace_of_isDigit digit), scanToken_digit digit, ← digits,
      scanNumber_toDigits, numberToken, toNumber?_toDigits fits]
    rfl

/-- An integer that a word holds, with or without sign, reads back. -/
theorem int_readsBack {i : Int} (least : -9223372036854775808 ≤ i) (greatest : i ≤ maxWord) :
    (Number.int i).ReadsBack := by
  obtain ⟨n, rfl | rfl⟩ := i.eq_nat_or_neg
  · exact nat_readsBack (by omega)
  · by_cases zero : n = 0
    · subst zero
      exact nat_readsBack (n := 0) (by decide)
    have text : (Number.int (-n)).text.toList = '-' :: Nat.toDigits 10 n := by
      have negative : ¬(0 : Int) ≤ -n := by omega
      rw [Number.text, Int.toString_eq_repr, Int.repr_eq_if, if_neg negative]
      simp [Nat.repr_eq_ofList_toDigits]
    have small : ¬9223372036854775808 < n := by omega
    have scanned : scanToken '-' (Nat.toDigits 10 n) = scanNumber true (Nat.toDigits 10 n) := rfl
    rw [Number.ReadsBack, text, tokens_cons rfl, scanned, scanNumber_toDigits, numberToken,
      toNumber?_toDigits (by unfold maxWord; omega)]
    simp [zero, small]

/-! Nothing of the kind holds of floats. Sixteen digits and more are divided by a power of ten as
doubles, and the result can be a neighbour of the float that was written. -/

example : ¬(Number.float 11.200977240581201).ReadsBack := by decide +kernel

end RegisterMachine.Json
