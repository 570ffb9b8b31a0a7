import Mathlib.Data.List.TakeWhile
import RegisterMachine.Proofs.Meets
import RegisterMachine.Regex.Reader

/-!
# What is scanned is scanned again when more follows

A pattern between anchors is followed by a closing parenthesis and a dollar sign. Scanning a token looks
ahead, and so it might come out differently there: a repetition is lazy if a question mark follows, the
digits of a number go on as long as there are digits. None of what is looked for is a parenthesis, and where
anything goes on up to a delimiter the delimiter must have been there. So every scanner is `Settled`.
-/

namespace RegisterMachine.Regex

/-- What follows a pattern between anchors. -/
def closing : List Char := [')', '$']

/-- Whatever has been scanned stays the same when the text goes on after its end, and what is left over is
never longer than the text. -/
def Settled {α : Type} (scan : List Char → Except PatternError (α × List Char)) : Prop :=
  ∀ ⦃text : List Char⦄ ⦃a : α⦄ ⦃rest : List Char⦄, scan text = .ok (a, rest) →
    rest.length ≤ text.length ∧ scan (text ++ closing) = .ok (a, rest ++ closing)

/-! ## What follows is no part of it -/

section

variable {p : Char → Bool} {text more : List Char} {c d : Char}

theorem append_closing_ne_cons (hc : c ≠ ')') (h : ∀ rest, text ≠ c :: rest) (rest : List Char) :
    text ++ closing ≠ c :: rest := by
  cases text with
  | nil =>
    rintro ⟨⟩
    exact hc rfl
  | cons _ text =>
    rintro ⟨⟩
    exact h text rfl

theorem append_closing_ne_pair (hc : c ≠ ')') (hd : d ≠ ')') (h : ∀ rest, text ≠ c :: d :: rest)
    (rest : List Char) : text ++ closing ≠ c :: d :: rest := by
  match text with
  | [] =>
    rintro ⟨⟩
    exact hc rfl
  | [_] =>
    rintro ⟨⟩
    exact hd rfl
  | _ :: _ :: text =>
    rintro ⟨⟩
    exact h text rfl

theorem dropWhile_append_of_ne (h : text.dropWhile p ≠ []) :
    (text ++ more).dropWhile p = text.dropWhile p ++ more := by
  rw [List.dropWhile_append, if_neg (by simpa using h)]

theorem takeWhile_append_of_ne (h : text.dropWhile p ≠ []) :
    (text ++ more).takeWhile p = text.takeWhile p := by
  rw [List.takeWhile_append, if_neg fun hall => ?_]
  have hparts := congrArg List.length (List.takeWhile_append_dropWhile (p := p) (l := text))
  rw [List.length_append] at hparts
  exact h (List.length_eq_zero_iff.mp (by omega))

theorem takeWhile_append_closing (h : p ')' = false) (text : List Char) :
    (text ++ closing).takeWhile p = text.takeWhile p := by
  induction text with
  | nil => simp [closing, h]
  | cons c text ih => simp [List.takeWhile_cons, ih]

theorem dropWhile_append_closing (h : p ')' = false) (text : List Char) :
    (text ++ closing).dropWhile p = text.dropWhile p ++ closing := by
  induction text with
  | nil => simp [closing, h]
  | cons c text ih =>
    simp only [List.cons_append, List.dropWhile_cons, ih]
    split <;> rfl

end

/-! ## Escapes -/

theorem scanHex_eq_ok_iff {c : Char} (hc : c ≠ '\x7b') {count : Nat} {text rest : List Char} {a : Escape} :
    scanHex count (c :: text) = .ok (a, rest) ↔
      ∃ d, hexChar? ((c :: text).take count) = some d ∧ count ≤ (c :: text).length ∧
        a = .char d ∧ rest = (c :: text).drop count := by
  cases hd : hexChar? ((c :: text).take count) with
  | none => simp [scanHex, hc, hd]
  | some d =>
    by_cases hle : count ≤ text.length + 1
    · simp [scanHex, hc, hd, hle, @eq_comm _ a, @eq_comm _ rest]
    · have hcount : min count (text.length + 1) ≠ count := by omega
      simp [scanHex, hc, hd, hle, hcount]

theorem scanHex_settled (count : Nat) : Settled (scanHex count) := by
  intro text a rest h
  cases text with
  | nil => simp [scanHex, hexChar?] at h
  | cons c text =>
    by_cases hc : c = '\x7b'
    · subst hc
      simp only [scanHex, List.cons_append] at h ⊢
      split at h
      case h_2 => cases h
      case h_1 d hd =>
        split at h
        case isFalse => cases h
        case isTrue hclosed =>
          have hmem : '\x7d' ∈ text := by simpa using hclosed
          have hne : text.dropWhile (· != '\x7d') ≠ [] := by
            rw [Ne, List.dropWhile_eq_nil_iff]
            exact fun hall => by simpa using hall _ hmem
          obtain ⟨b, more, hmore⟩ := List.exists_cons_of_ne_nil hne
          have hlength := List.length_dropWhile_le (p := (· != '\x7d')) text
          cases h
          rw [takeWhile_append_of_ne hne, dropWhile_append_of_ne hne, hd, hmore]
          rw [hmore, List.length_cons] at hlength
          refine ⟨by simp; omega, ?_⟩
          simp [hmem]
    · obtain ⟨d, hd, hle, rfl, rfl⟩ := (scanHex_eq_ok_iff hc).mp h
      refine ⟨by simp, ?_⟩
      rw [List.cons_append, scanHex_eq_ok_iff hc, ← List.cons_append, List.take_append_of_le_length hle,
        List.drop_append_of_le_length hle, List.length_append]
      exact ⟨d, hd, Nat.le_add_right_of_le hle, rfl, rfl⟩

variable {tables : Tables}

theorem property_settled (negated : Bool) (name : List Char) :
    Settled (scanProperty.having tables negated name) := by
  intro text a rest h
  unfold scanProperty.having at h ⊢
  split at h
  case h_1 =>
    cases h
    exact ⟨Nat.le_refl _, rfl⟩
  case h_2 => cases h

theorem scanProperty_settled (negated : Bool) : Settled (scanProperty tables negated) := by
  intro text a rest h
  unfold scanProperty at h
  split at h
  case h_1 | h_2 => cases h
  case h_3 text =>
    have hlength := List.length_dropWhile_le (p := (· != '\x7d')) text
    split at h
    case h_1 => cases h
    case h_2 b left hleft =>
      obtain ⟨hrest, hmore⟩ := property_settled negated _ h
      have hne : text.dropWhile (· != '\x7d') ≠ [] := by simp [hleft]
      rw [hleft, List.length_cons] at hlength
      refine ⟨by rw [List.length_cons]; omega, ?_⟩
      rw [List.cons_append, scanProperty, takeWhile_append_of_ne hne, dropWhile_append_of_ne hne, hleft]
      exact hmore
  case h_4 c left hbackslash hbrace =>
    obtain ⟨hrest, hmore⟩ := property_settled negated _ h
    refine ⟨Nat.le_succ_of_le hrest, ?_⟩
    rw [List.cons_append, scanProperty]
    · exact hmore
    · exact hbackslash
    · exact hbrace

theorem scanBoundary_settled : Settled scanBoundary := by
  intro text a rest h
  unfold scanBoundary at h
  split at h
  case h_1 text =>
    split at h
    case h_1 => cases h
    case h_2 c left =>
      have hlength := List.length_dropWhile_le (p := isBoundaryChar) (c :: left)
      have htake := takeWhile_append_closing (p := isBoundaryChar) (by decide) (c :: left)
      have hdrop := dropWhile_append_closing (p := isBoundaryChar) (by decide) (c :: left)
      rw [List.cons_append] at htake hdrop
      rw [List.cons_append, List.cons_append, scanBoundary]
      split at h
      case isFalse hother =>
        cases h
        exact ⟨Nat.le_refl _, if_neg hother⟩
      case isTrue hchar =>
        rw [if_pos hchar, htake, hdrop]
        split at h
        case h_2 => cases h
        case h_1 kind left' hkind hleft =>
          cases h
          rw [hkind, hleft]
          rw [hleft, List.length_cons] at hlength
          exact ⟨by rw [List.length_cons]; omega, rfl⟩
  case h_2 hbrace =>
    cases h
    refine ⟨Nat.le_refl _, ?_⟩
    rw [scanBoundary]
    exact append_closing_ne_cons (by decide) hbrace

theorem scanEscape_settled : Settled (scanEscape tables) := by
  intro text a rest h
  cases text with
  | nil => cases h
  | cons c text =>
    rw [List.cons_append]
    revert h
    unfold scanEscape
    dsimp only
    split
    case h_15 =>
      intro h
      obtain ⟨hlength, hmore⟩ := scanBoundary_settled h
      exact ⟨Nat.le_succ_of_le hlength, hmore⟩
    case h_19 | h_20 =>
      intro h
      obtain ⟨hlength, hmore⟩ := scanProperty_settled _ h
      exact ⟨Nat.le_succ_of_le hlength, hmore⟩
    case h_21 | h_22 | h_23 =>
      intro h
      obtain ⟨hlength, hmore⟩ := scanHex_settled _ h
      exact ⟨Nat.le_succ_of_le hlength, hmore⟩
    case h_24 =>
      intro h
      split at h
      case isTrue => cases h
      case isFalse hdigit =>
        split at h
        case isFalse => cases h
        case isTrue hplain =>
          cases h
          rw [if_neg hdigit, if_pos hplain]
          exact ⟨Nat.le_succ _, rfl⟩
    all_goals
      rintro ⟨⟩
      exact ⟨Nat.le_succ _, rfl⟩

/-! ## Sets in brackets -/

theorem takeCaret_append (text : List Char) :
    takeCaret (text ++ closing) = ((takeCaret text).1, (takeCaret text).2 ++ closing) := by
  cases text with
  | nil => rfl
  | cons c text =>
    rw [List.cons_append]
    unfold takeCaret
    split <;> split <;> simp_all

theorem takeCaret_length (text : List Char) : (takeCaret text).2.length ≤ text.length := by
  unfold takeCaret
  split <;> simp

theorem openSet_append (text : List Char) :
    openSet (text ++ closing) = ((openSet text).1, (openSet text).2 ++ closing) := by
  have htake := takeWhile_append_closing (p := (· == '-')) rfl
  have hdrop := dropWhile_append_closing (p := (· == '-')) rfl
  simp only [openSet, takeCaret_append, htake, hdrop]
  split
  case isFalse => rfl
  case isTrue =>
    cases (takeCaret text).2.dropWhile (· == '-') with
    | nil => rfl
    | cons c rest =>
      rw [List.cons_append]
      split <;> split <;> simp_all

theorem openSet_length (text : List Char) : (openSet text).2.length ≤ text.length := by
  have hcaret := takeCaret_length text
  have hhyphens := List.length_dropWhile_le (p := (· == '-')) (takeCaret text).2
  simp only [openSet]
  split
  case isFalse => exact Nat.le_trans hhyphens hcaret
  case isTrue =>
    split
    case h_1 rest hrest =>
      rw [hrest, List.length_cons] at hhyphens
      simp only
      omega
    case h_2 => exact Nat.le_trans hhyphens hcaret

theorem scanNamedSet?_append (text : List Char) :
    scanNamedSet? (text ++ closing) =
      (scanNamedSet? text).map fun (e, rest) => (e, rest ++ closing) := by
  cases text with
  | nil => rfl
  | cons c text =>
    by_cases hc : c = ':'
    case neg => simp [scanNamedSet?, hc]
    subst hc
    simp only [scanNamedSet?, List.cons_append, takeCaret_append]
    by_cases hend : (takeCaret text).2.dropWhile (· != ':') = []
    · -- the name does not end, and it does not end in what follows either
      have hmore : ((takeCaret text).2 ++ closing).dropWhile (· != ':') = [] := by
        rw [List.dropWhile_append, if_pos (by simp [hend])]
        rfl
      rw [hend, hmore]
      rfl
    · rw [dropWhile_append_of_ne hend, takeWhile_append_of_ne hend]
      match (takeCaret text).2.dropWhile (· != ':') with
      | [] => rfl
      | [_] => simp [closing]
      | c :: d :: rest =>
        rw [List.cons_append, List.cons_append]
        split
        case h_1 heq =>
          cases heq
          simp only [Option.map_map]
          rfl
        case h_2 hother =>
          split
          case h_1 heq =>
            cases heq
            exact (hother _ rfl).elim
          case h_2 => rfl

theorem scanNamedSet?_length {text rest : List Char} {e : SetExpr} (h : scanNamedSet? text = some (e, rest)) :
    rest.length ≤ text.length := by
  unfold scanNamedSet? at h
  split at h
  case h_2 => cases h
  case h_1 text =>
    have hcaret := takeCaret_length text
    have hname := List.length_dropWhile_le (p := (· != ':')) (takeCaret text).2
    simp only at h
    split at h
    case h_2 => cases h
    case h_1 more hmore =>
      obtain ⟨named, -, hpair⟩ := Option.map_eq_some_iff.mp h
      cases hpair
      rw [hmore, List.length_cons, List.length_cons] at hname
      rw [List.length_cons]
      omega

theorem scanSetItem_settled : Settled (scanSetItem tables) := by
  intro text a rest h
  unfold scanSetItem at h
  split at h
  case h_1 => cases h
  case h_2 text =>
    obtain ⟨hlength, hmore⟩ := scanEscape_settled h
    exact ⟨Nat.le_succ_of_le hlength, hmore⟩
  case h_3 c text hc =>
    cases h
    refine ⟨Nat.le_succ _, ?_⟩
    rw [List.cons_append, scanSetItem]
    exact hc

theorem setAlone_settled (item : Escape) : Settled (scanSetRange.alone item) := by
  cases item with
  | char c | set s | written e =>
    rintro text a rest ⟨⟩
    exact ⟨Nat.le_refl _, rfl⟩
  | assert a => rintro text a rest ⟨⟩

theorem scanSetRange_settled : Settled (scanSetRange tables) := by
  intro text s rest h
  obtain ⟨⟨first, left⟩, hfirst, h⟩ := bind_eq_ok h
  obtain ⟨hlength, hleft⟩ := scanSetItem_settled hfirst
  simp only [scanSetRange, hleft, Bind.bind, Except.bind] at h ⊢
  rcases left with _ | ⟨c, left⟩
  · cases h
  by_cases hc : c = '-'
  · subst hc
    rcases left with _ | ⟨d, left⟩
    · cases h
    simp only [List.cons_append] at h ⊢
    split at h
    case isTrue hlast =>
      obtain ⟨halone, hmore⟩ := setAlone_settled first h
      rw [if_pos hlast]
      exact ⟨Nat.le_trans halone hlength, hmore⟩
    case isFalse hlast =>
      rw [if_neg hlast]
      obtain ⟨⟨last, left'⟩, hlast, h⟩ := bind_eq_ok h
      obtain ⟨hlength', hleft'⟩ := scanSetItem_settled hlast
      rw [List.cons_append] at hleft'
      rw [hleft']
      cases first with
      | set s | written e | assert a => cases h
      | char a =>
        cases last with
        | set s | written e | assert a => cases h
        | char b =>
          simp only at h ⊢
          split at h
          case isFalse => cases h
          case isTrue hle =>
            cases h
            rw [if_pos hle]
            exact ⟨Nat.le_trans hlength' (Nat.le_of_succ_le hlength), rfl⟩
  · simp [hc] at h ⊢
    obtain ⟨halone, hmore⟩ := setAlone_settled first h
    exact ⟨Nat.le_trans halone hlength, hmore⟩

/-- With more characters to come there are more rounds to go, too; those that are not needed change
nothing. -/
theorem scanSet_settled {fuel enough : Nat} (henough : fuel ≤ enough) {top : OpenSet} {outer : List OpenSet}
    {text rest : List Char} {e : SetExpr} (h : scanSet tables top outer fuel text = .ok (e, rest)) :
    rest.length ≤ text.length ∧
      scanSet tables top outer enough (text ++ closing) = .ok (e, rest ++ closing) := by
  fun_induction scanSet tables top outer fuel text generalizing enough
  case case1 => cases h
  all_goals obtain ⟨enough, rfl⟩ : ∃ n, enough = n + 1 := ⟨enough - 1, by omega⟩
  all_goals replace henough := Nat.le_of_succ_le_succ henough
  case case2 => cases h
  case case3 text s left hnamed ih =>
    obtain ⟨hlength, hmore⟩ := ih henough h
    have hleft := scanNamedSet?_length hnamed
    rw [List.cons_append, scanSet, scanNamedSet?_append, hnamed]
    exact ⟨by rw [List.length_cons]; omega, hmore⟩
  case case4 text hnamed inner left hopen ih =>
    obtain ⟨hlength, hmore⟩ := ih henough h
    have hleft := openSet_length text
    simp only [hopen] at hleft
    rw [List.cons_append, scanSet, scanNamedSet?_append, hnamed]
    simp only [Option.map_none, openSet_append, hopen]
    exact ⟨by rw [List.length_cons]; omega, hmore⟩
  case case5 =>
    cases h
    exact ⟨Nat.le_succ _, rfl⟩
  case case6 ih =>
    obtain ⟨hlength, hmore⟩ := ih henough h
    exact ⟨Nat.le_succ_of_le hlength, hmore⟩
  case case7 ih | case8 ih | case9 ih =>
    obtain ⟨hlength, hmore⟩ := ih henough h
    exact ⟨Nat.le_succ_of_le (Nat.le_succ_of_le hlength), hmore⟩
  case case10 text _ hopen hclose hand hminus htilde ih =>
    obtain ⟨⟨s, left⟩, hrange, h⟩ := bind_eq_ok h
    obtain ⟨hleft, hsettled⟩ := scanSetRange_settled hrange
    obtain ⟨hlength, hmore⟩ := ih s left henough h
    refine ⟨Nat.le_trans hlength hleft, ?_⟩
    rw [scanSet, hsettled]
    · exact hmore
    · simp [closing]
    · exact append_closing_ne_cons (by decide) hopen
    · exact append_closing_ne_cons (by decide) hclose
    · exact append_closing_ne_pair (by decide) (by decide) hand
    · exact append_closing_ne_pair (by decide) (by decide) hminus
    · exact append_closing_ne_pair (by decide) (by decide) htilde

/-! ## Groups and flags -/

theorem scanFlags_settled {change change' : FlagChange} {on : Bool} {stop : Char} {text rest : List Char}
    (h : scanFlags change on text = .ok (stop, change', rest)) :
    rest.length ≤ text.length ∧
      scanFlags change on (text ++ closing) = .ok (stop, change', rest ++ closing) := by
  fun_induction scanFlags change on text
  case case1 | case2 | case5 | case6 | case8 => cases h
  case case3 c text hstop hnone =>
    cases h
    rw [List.cons_append, scanFlags, if_pos hstop, if_neg hnone]
    exact ⟨Nat.le_succ _, rfl⟩
  case case4 c text hstop hminus ih =>
    obtain ⟨hlength, hmore⟩ := ih h
    rw [List.cons_append, scanFlags, if_neg hstop, if_pos hminus, if_pos rfl]
    exact ⟨Nat.le_succ_of_le hlength, hmore⟩
  case case7 c text hstop hminus f hflag hnew ih =>
    obtain ⟨hlength, hmore⟩ := ih h
    rw [List.cons_append, scanFlags, if_neg hstop, if_neg hminus, hflag]
    exact ⟨Nat.le_succ_of_le hlength, (if_neg hnew).trans hmore⟩

theorem scanName_settled : Settled (scanName tables) := by
  intro text name rest h
  simp only [scanName] at h ⊢
  split at h
  case h_2 => cases h
  case h_1 c cs d left hname hleft =>
    have hlength := List.length_dropWhile_le (p := (· != '>')) text
    have hend : text.dropWhile (· != '>') ≠ [] := by simp [hleft]
    rw [takeWhile_append_of_ne hend, dropWhile_append_of_ne hend, hname, hleft, List.cons_append]
    rw [hleft, List.length_cons] at hlength
    simp only
    split at h
    case isFalse => cases h
    case isTrue hok =>
      cases h
      rw [if_pos hok, ← hname]
      exact ⟨Nat.le_of_succ_le hlength, rfl⟩

theorem scanGroup_settled : Settled (scanGroup tables) := by
  intro text t rest h
  unfold scanGroup at h
  split at h
  case h_1 | h_2 | h_3 | h_4 => cases h
  case h_5 text =>
    obtain ⟨⟨name, left⟩, hname, h⟩ := bind_eq_ok h
    obtain ⟨hlength, hleft⟩ := scanName_settled hname
    cases h
    rw [List.cons_append, List.cons_append, List.cons_append, scanGroup, hleft]
    refine ⟨?_, rfl⟩
    simp only [List.length_cons]
    omega
  case h_6 text hequals hmark =>
    obtain ⟨⟨name, left⟩, hname, h⟩ := bind_eq_ok h
    obtain ⟨hlength, hleft⟩ := scanName_settled hname
    cases h
    rw [List.cons_append, List.cons_append, scanGroup, hleft]
    · refine ⟨?_, rfl⟩
      simp only [List.length_cons]
      omega
    · exact append_closing_ne_cons (by decide) hequals
    · exact append_closing_ne_cons (by decide) hmark
  case h_7 text hequals hmark _ _ hlong hshort =>
    obtain ⟨⟨stop, change, left⟩, hflags, h⟩ := bind_eq_ok h
    obtain ⟨hlength, hleft⟩ := scanFlags_settled hflags
    have hplain := append_closing_ne_cons (by decide) hshort
    rw [List.cons_append, scanGroup, hleft]
    · simp only [Bind.bind, Except.bind] at h ⊢
      split at h
      case isTrue hstop =>
        cases h
        rw [if_pos hstop]
        exact ⟨Nat.le_succ_of_le hlength, rfl⟩
      case isFalse hstop =>
        split at h
        case isTrue => cases h
        case isFalse hchange =>
          cases h
          rw [if_neg hstop, if_neg hchange]
          exact ⟨Nat.le_succ_of_le hlength, rfl⟩
    · exact append_closing_ne_cons (by decide) hequals
    · exact append_closing_ne_cons (by decide) hmark
    · exact fun _ => hplain _
    · exact fun _ => hplain _
    · exact append_closing_ne_pair (by decide) (by decide) hlong
    · exact hplain
  case h_8 hother =>
    cases h
    have hmark := append_closing_ne_cons (by decide) hother
    refine ⟨Nat.le_refl _, ?_⟩
    rw [scanGroup]
    all_goals exact fun _ => hmark _

/-! ## Repetitions -/

theorem scanCount_settled : Settled scanCount := by
  intro text n rest h
  have hdigits := dropWhile_append_closing (p := Decimal.isDigit) (by decide)
  have hdigits' := takeWhile_append_closing (p := Decimal.isDigit) (by decide)
  have hblanks := dropWhile_append_closing (p := Text.isBlank) (by decide)
  have hlength : ((text.dropWhile Text.isBlank).dropWhile Decimal.isDigit).length ≤ text.length :=
    Nat.le_trans (List.length_dropWhile_le _ _) (List.length_dropWhile_le _ _)
  simp only [scanCount, hblanks, hdigits, hdigits'] at h ⊢
  split at h
  case h_1 hvalue =>
    cases h
    exact ⟨Nat.le_trans (List.length_dropWhile_le _ _) hlength, rfl⟩
  case h_2 n hvalue =>
    split at h
    case isFalse => cases h
    case isTrue hle =>
      cases h
      exact ⟨Nat.le_trans (List.length_dropWhile_le _ _) hlength, if_pos hle⟩

theorem scanBounds_settled {text rest : List Char} {least : Nat} {most : Option Nat}
    (h : scanBounds text = .ok (least, most, rest)) :
    rest.length ≤ text.length ∧ scanBounds (text ++ closing) = .ok (least, most, rest ++ closing) := by
  obtain ⟨⟨n?, left⟩, hcount, h⟩ := bind_eq_ok h
  obtain ⟨hlength, hleft⟩ := scanCount_settled hcount
  simp only [scanBounds, hleft, Bind.bind, Except.bind] at h ⊢
  split at h
  case h_1 | h_2 =>
    cases h
    refine ⟨?_, rfl⟩
    simp only [List.length_cons] at hlength
    omega
  case h_3 least' more hmore =>
    obtain ⟨⟨most', left'⟩, hcount', h⟩ := bind_eq_ok h
    obtain ⟨hlength', hleft'⟩ := scanCount_settled hcount'
    have hne : more ≠ [] := by
      rintro rfl
      obtain ⟨⟩ : none = most' := congrArg Prod.fst (Except.ok.inj hcount')
      cases h
    rw [List.cons_append]
    simp only [List.length_cons] at hlength
    split at h
    case h_2 => cases h
    case h_1 most' rest' hmost hrest =>
      obtain rfl : _ = some most' := hmost
      obtain rfl : left' = '\x7d' :: rest' := hrest
      split at h
      case isFalse => cases h
      case isTrue hle =>
        cases h
        obtain ⟨d, more, rfl⟩ := List.exists_cons_of_ne_nil hne
        have hd : d ≠ '\x7d' := by
          rintro rfl
          exact hmore more rfl
        simp only [List.length_cons] at hlength hlength'
        refine ⟨by omega, ?_⟩
        simp only [List.cons_append] at hleft' ⊢
        simp [hd, hleft', hle]
  case h_4 => cases h

theorem repetitionToken_settled (least : Nat) (most : Option Nat) :
    Settled fun text => .ok (repetitionToken least most text) := by
  intro text t rest h
  dsimp only at h ⊢
  unfold repetitionToken at h
  split at h
  case h_1 =>
    cases h
    exact ⟨Nat.le_succ _, rfl⟩
  case h_2 hmark =>
    cases h
    refine ⟨Nat.le_refl _, ?_⟩
    rw [repetitionToken]
    exact append_closing_ne_cons (by decide) hmark

/-! ## All tokens -/

theorem scanToken_settled (c : Char) : Settled (scanToken tables c) := by
  intro text t rest h
  unfold scanToken at h ⊢
  split at h
  case h_1 =>
    obtain ⟨⟨e, left⟩, hescape, h⟩ := bind_eq_ok h
    obtain ⟨hlength, hleft⟩ := scanEscape_settled hescape
    simp only [hleft, Bind.bind, Except.bind]
    cases e with
    | char | set | written | assert =>
      cases h
      exact ⟨hlength, rfl⟩
  case h_2 =>
    have hopen := openSet_length text
    rw [openSet_append]
    generalize openSet text = opened at h hopen ⊢
    obtain ⟨top, inside⟩ := opened
    obtain ⟨⟨e, left⟩, hset, h⟩ := bind_eq_ok h
    have henough : inside.length + 1 ≤ (inside ++ closing).length + 1 := by simp
    obtain ⟨hlength, hleft⟩ := scanSet_settled henough hset
    simp only [hleft, Bind.bind, Except.bind]
    cases h
    exact ⟨Nat.le_trans hlength hopen, rfl⟩
  case h_3 => exact scanGroup_settled h
  case h_9 | h_10 | h_11 => exact repetitionToken_settled _ _ h
  case h_12 =>
    obtain ⟨⟨least, most, left⟩, hbounds, h⟩ := bind_eq_ok h
    obtain ⟨hlength, hleft⟩ := scanBounds_settled hbounds
    obtain ⟨hlength', hrest⟩ := repetitionToken_settled least most h
    simp only [hleft, Bind.bind, Except.bind]
    exact ⟨Nat.le_trans hlength' hlength, hrest⟩
  all_goals
    cases h
    exact ⟨Nat.le_refl _, rfl⟩

end RegisterMachine.Regex
