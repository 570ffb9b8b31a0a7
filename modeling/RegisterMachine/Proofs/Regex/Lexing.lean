import RegisterMachine.Proofs.Regex.Scanning

/-!
# The tokens of a pattern between anchors

`tokens` counts characters to know when to stop. `tokens_cons` does away with the count. Since every token
is settled, a text that can be cut into tokens is cut into the same ones when it is put between anchors
(`tokens_anchored`).
-/

namespace RegisterMachine.Regex

variable {tables : Tables}

/-! ## One token after the other -/

/-- More steps than characters change nothing. -/
theorem tokensWithin_eq {fuel enough : Nat} {text : List Char} (hfuel : text.length ≤ fuel)
    (henough : text.length ≤ enough) : tokensWithin tables fuel text = tokensWithin tables enough text := by
  induction fuel generalizing enough text with
  | zero =>
    obtain rfl : text = [] := List.length_eq_zero_iff.mp (Nat.le_zero.mp hfuel)
    cases enough <;> rfl
  | succ fuel ih =>
    cases text with
    | nil => cases enough <;> rfl
    | cons c text =>
      obtain ⟨enough, rfl⟩ : ∃ n, enough = n + 1 := ⟨enough - 1, by simp at henough; omega⟩
      simp only [tokensWithin]
      cases hscan : scanToken tables c text with
      | error e => rfl
      | ok found =>
        obtain ⟨t, rest⟩ := found
        have hlength := (scanToken_settled c hscan).1
        simp only [List.length_cons] at hfuel henough
        have hrest : tokensWithin tables fuel rest = tokensWithin tables enough rest := ih (by omega) (by omega)
        simp only [Bind.bind, Except.bind, hrest]

@[simp] theorem tokens_nil : tokens tables [] = .ok [] := rfl

theorem tokens_cons (c : Char) (text : List Char) :
    tokens tables (c :: text) = (do
      let (t, rest) ← scanToken tables c text
      let more ← tokens tables rest
      .ok (t :: more)) := by
  rw [tokens, List.length_cons, tokensWithin]
  cases hscan : scanToken tables c text with
  | error e => rfl
  | ok found =>
    have hlength := (scanToken_settled c hscan).1
    simp only [Bind.bind, Except.bind, tokens, tokensWithin_eq hlength (Nat.le_refl _)]

theorem tokens_of_scanToken {c : Char} {text rest : List Char} {t : Token}
    (h : scanToken tables c text = .ok (t, rest)) :
    tokens tables (c :: text) = (tokens tables rest).map (t :: ·) := by
  rw [tokens_cons, h]
  simp only [Bind.bind, Except.bind]
  cases tokens tables rest <;> rfl

theorem exists_of_tokens_cons {c : Char} {text : List Char} {ts : List Token}
    (h : tokens tables (c :: text) = .ok ts) :
    ∃ t rest more, scanToken tables c text = .ok (t, rest) ∧ tokens tables rest = .ok more ∧ ts = t :: more := by
  rw [tokens_cons] at h
  obtain ⟨⟨t, rest⟩, hscan, h⟩ := bind_eq_ok h
  obtain ⟨more, hmore, h⟩ := bind_eq_ok h
  cases h
  exact ⟨t, rest, more, hscan, hmore, rfl⟩

/-- What stands between the anchors is cut as it would be by itself. -/
theorem tokens_append_closing {text : List Char} {ts : List Token} (h : tokens tables text = .ok ts) :
    tokens tables (text ++ closing) = .ok (ts ++ [.close, .dollar]) := by
  induction ts generalizing text with
  | nil =>
    cases text with
    | nil => rfl
    | cons c text =>
      obtain ⟨_, _, _, -, -, hts⟩ := exists_of_tokens_cons h
      cases hts
  | cons t ts ih =>
    cases text with
    | nil => cases h
    | cons c text =>
      obtain ⟨_, rest, _, hscan, hmore, hts⟩ := exists_of_tokens_cons h
      cases hts
      have hrest := (scanToken_settled c hscan).2
      rw [List.cons_append, tokens_of_scanToken hrest, ih hmore]
      rfl

/-- The group around the pattern has no flags of its own. -/
theorem tokens_anchored {text : String} {ts : List Token} (h : tokens tables text.toList = .ok ts) :
    tokens tables (Pattern.anchoredText text).toList =
      .ok ([.caret, .openPlain []] ++ ts ++ [.close, .dollar]) := by
  have htext : (Pattern.anchoredText text).toList = '^' :: '(' :: '?' :: ':' :: (text.toList ++ closing) := by
    simp [Pattern.anchoredText, closing]
  have hcaret : ∀ rest, scanToken tables '^' rest = .ok (.caret, rest) := fun _ => rfl
  have hopen : ∀ rest, scanToken tables '(' ('?' :: ':' :: rest) = .ok (.openPlain [], rest) := fun _ => rfl
  rw [htext, tokens_of_scanToken (hcaret _), tokens_of_scanToken (hopen _), tokens_append_closing h]
  rfl

/-! ## The bounds of repetitions -/

/-- The bounds are in order if the token is a repetition. -/
def Token.InOrder : Token → Prop
  | .repetition least most _ => ∀ m ∈ most, least ≤ m
  | _ => True

theorem scanBounds_inOrder {text rest : List Char} {least : Nat} {most : Option Nat}
    (h : scanBounds text = .ok (least, most, rest)) : ∀ m ∈ most, least ≤ m := by
  obtain ⟨⟨n?, left⟩, -, h⟩ := bind_eq_ok h
  simp only at h
  split at h
  case h_1 =>
    cases h
    rintro m ⟨⟩
    exact Nat.le_refl _
  case h_2 =>
    cases h
    rintro m ⟨⟩
  case h_3 =>
    obtain ⟨⟨most', left'⟩, -, h⟩ := bind_eq_ok h
    simp only at h
    split at h
    case h_2 => cases h
    case h_1 =>
      split at h
      case isFalse => cases h
      case isTrue hle =>
        cases h
        rintro m ⟨⟩
        exact hle
  case h_4 => cases h

theorem repetitionToken_inOrder {least : Nat} {most : Option Nat} {text rest : List Char} {t : Token}
    (hbounds : ∀ m ∈ most, least ≤ m)
    (h : (Except.ok (repetitionToken least most text) : Except PatternError _) = .ok (t, rest)) :
    t.InOrder := by
  unfold repetitionToken at h
  split at h <;> cases h <;> exact hbounds

theorem scanGroup_inOrder {text rest : List Char} {t : Token} (h : scanGroup tables text = .ok (t, rest)) :
    t.InOrder := by
  unfold scanGroup at h
  split at h
  case h_1 | h_2 | h_3 | h_4 => cases h
  case h_5 | h_6 =>
    obtain ⟨_, -, h⟩ := bind_eq_ok h
    cases h
    trivial
  case h_7 =>
    obtain ⟨_, -, h⟩ := bind_eq_ok h
    simp only at h
    split at h
    case isTrue =>
      cases h
      trivial
    case isFalse =>
      split at h <;> cases h
      trivial
  case h_8 =>
    cases h
    trivial

theorem scanToken_inOrder {c : Char} {text rest : List Char} {t : Token}
    (h : scanToken tables c text = .ok (t, rest)) : t.InOrder := by
  unfold scanToken at h
  split at h
  case h_1 =>
    obtain ⟨⟨e, left⟩, -, h⟩ := bind_eq_ok h
    cases e with
    | char | set | written | assert =>
      cases h
      trivial
  case h_2 =>
    generalize openSet text = opened at h
    obtain ⟨_, -, h⟩ := bind_eq_ok h
    cases h
    trivial
  case h_3 => exact scanGroup_inOrder h
  case h_9 | h_10 => exact repetitionToken_inOrder (by simp) h
  case h_11 => exact repetitionToken_inOrder (by simp) h
  case h_12 =>
    obtain ⟨⟨least, most, left⟩, hbounds, h⟩ := bind_eq_ok h
    exact repetitionToken_inOrder (scanBounds_inOrder hbounds) h
  all_goals
    cases h
    trivial

theorem tokens_inOrder {text : List Char} {ts : List Token} (h : tokens tables text = .ok ts) :
    ∀ t ∈ ts, t.InOrder := by
  induction ts generalizing text with
  | nil => exact nofun
  | cons t ts ih =>
    cases text with
    | nil => cases h
    | cons c text =>
      obtain ⟨_, rest, _, hscan, hmore, hts⟩ := exists_of_tokens_cons h
      cases hts
      exact List.forall_mem_cons.mpr ⟨scanToken_inOrder hscan, ih hmore⟩

end RegisterMachine.Regex
