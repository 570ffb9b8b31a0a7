import RegisterMachine.Text.Utf8

/-!
# Text that comes in pieces

A stream brings bytes, in pieces that may end inside a character. `Utf8State.feed` is the reading of one
piece: the characters that it settles and where it leaves off. Piece by piece is as good as all at once
(`Utf8State.feed_append`), and the bytes of a text settle exactly its characters (`Utf8State.feed_encode`).
-/

namespace RegisterMachine.Text

/-- The bytes of a text. -/
def encode (text : List Char) : List UInt8 := text.flatMap String.utf8EncodeChar

/-! ## First bytes -/

section First

variable {b : UInt8}

theorem utf8First_one (h : b.toNat < 0x80) : utf8First b = (.start, [Char.ofNat b.toNat]) := by
  simp [utf8First, h]

theorem utf8First_two (h : 0xC2 ≤ b.toNat ∧ b.toNat ≤ 0xDF) :
    utf8First b = (.inside (b.toNat - 0xC0) 1 0x80 0xBF, []) := by
  simp [utf8First, h.1, h.2, show ¬ b.toNat < 0x80 by omega]

/-- Of three bytes the first settles what the second may be. -/
theorem utf8First_three {v : Nat} (hv : 0x800 ≤ v) (hv' : v < 0xD800 ∨ 0xDFFF < v ∧ v < 0x10000)
    (hb : b.toNat = v / 4096 + 0xE0) :
    ∃ least greatest : UInt8, utf8First b = (.inside (v / 4096) 2 least greatest, []) ∧
      least.toNat ≤ v / 64 % 64 + 128 ∧ v / 64 % 64 + 128 ≤ greatest.toNat := by
  have hsub : b.toNat - 224 = v / 4096 := by omega
  by_cases hlow : v / 4096 = 0
  · refine ⟨0xA0, 0xBF, ?_, ?_, ?_⟩
    · simp [utf8First, hb, hlow]
    · show 160 ≤ _
      omega
    · show _ ≤ 191
      omega
  by_cases hmid : v / 4096 = 0xD
  · refine ⟨0x80, 0x9F, ?_, ?_, ?_⟩
    · simp [utf8First, hb, hmid]
    · show 128 ≤ _
      omega
    · show _ ≤ 159
      omega
  · refine ⟨0x80, 0xBF, ?_, ?_, ?_⟩
    · simp only [utf8First, hsub]
      have : b.toNat ≠ 0xE0 ∧ b.toNat ≠ 0xED ∧ 0xE1 ≤ b.toNat ∧ b.toNat ≤ 0xEF := by omega
      simp [this, show ¬ b.toNat < 0x80 by omega, show ¬ b.toNat ≤ 0xDF by omega]
    · show 128 ≤ _
      omega
    · show _ ≤ 191
      omega

/-- Of four bytes the first settles what the second may be. -/
theorem utf8First_four {v : Nat} (hv : 0x10000 ≤ v) (hv' : v < 0x110000)
    (hb : b.toNat = v / 262144 + 0xF0) :
    ∃ least greatest : UInt8, utf8First b = (.inside (v / 262144) 3 least greatest, []) ∧
      least.toNat ≤ v / 4096 % 64 + 128 ∧ v / 4096 % 64 + 128 ≤ greatest.toNat := by
  have hsub : b.toNat - 240 = v / 262144 := by omega
  by_cases hlow : v / 262144 = 0
  · refine ⟨0x90, 0xBF, ?_, ?_, ?_⟩
    · simp [utf8First, hb, hlow]
    · show 144 ≤ _
      omega
    · show _ ≤ 191
      omega
  by_cases hhigh : v / 262144 = 4
  · refine ⟨0x80, 0x8F, ?_, ?_, ?_⟩
    · simp [utf8First, hb, hhigh]
    · show 128 ≤ _
      omega
    · show _ ≤ 143
      omega
  · refine ⟨0x80, 0xBF, ?_, ?_, ?_⟩
    · simp only [utf8First, hsub]
      have : b.toNat ≠ 0xF0 ∧ 0xF1 ≤ b.toNat ∧ b.toNat ≤ 0xF3 := by omega
      simp [this, show ¬ b.toNat < 0x80 by omega, show ¬ b.toNat ≤ 0xDF by omega,
        show ¬ b.toNat ≤ 0xEF by omega, show b.toNat ≠ 0xE0 by omega, show b.toNat ≠ 0xED by omega]
    · show 128 ≤ _
      omega
    · show _ ≤ 191
      omega

end First

/-! ## Bytes after the first -/

/-- A byte within its bounds goes on with a character. -/
theorem utf8Next_inside {value due d : Nat} {least greatest b : UInt8} (hd : b.toNat = d + 128)
    (hleast : least.toNat ≤ d + 128) (hgreatest : d + 128 ≤ greatest.toNat) :
    utf8Next (.inside value due least greatest) b =
      if due ≤ 1 then (.start, [Char.ofNat (value * 64 + d)])
      else (.inside (value * 64 + d) (due - 1) 0x80 0xBF, []) := by
  have h₁ : least ≤ b := UInt8.le_iff_toNat_le.mpr (hd ▸ hleast)
  have h₂ : b ≤ greatest := UInt8.le_iff_toNat_le.mpr (hd ▸ hgreatest)
  have hsub : b.toNat - 128 = d := by omega
  simp [utf8Next, h₁, h₂, hsub]

namespace Utf8State

/-- Reads some bytes: where that leaves off, and the characters that are settled. -/
def feed : Utf8State → List UInt8 → Utf8State × List Char
  | s, [] => (s, [])
  | s, b :: rest => ((utf8Next s b).1.feed rest).map id ((utf8Next s b).2 ++ ·)

theorem feed_append (s : Utf8State) (bytes bytes' : List UInt8) :
    s.feed (bytes ++ bytes') =
      ((s.feed bytes).1.feed bytes').map id ((s.feed bytes).2 ++ ·) := by
  induction bytes generalizing s with
  | nil => rfl
  | cons b rest ih =>
    rw [List.cons_append, feed, feed, ih]
    simp [Prod.map]

/-- The bytes of a character settle it. -/
theorem feed_encodeChar (c : Char) : start.feed (String.utf8EncodeChar c) = (start, [c]) := by
  have hc : Char.ofNat c.val.toNat = c := Char.ofNat_toNat c
  have hvalid : c.val.toNat < 0xD800 ∨ 0xDFFF < c.val.toNat ∧ c.val.toNat < 0x110000 := c.valid
  have htail (n : Nat) : (UInt8.ofNat (n % 64 + 128)).toNat = n % 64 + 128 :=
    UInt8.toNat_ofNat_of_lt' (by show _ < 256; omega)
  have hbounds (n : Nat) : (0x80 : UInt8).toNat ≤ n % 64 + 128 ∧ n % 64 + 128 ≤ (0xBF : UInt8).toNat := by
    show 128 ≤ _ ∧ _ ≤ 191
    omega
  unfold String.utf8EncodeChar
  generalize c.val.toNat = v at hc hvalid
  dsimp only
  split
  · have hb : (UInt8.ofNat v).toNat = v := UInt8.toNat_ofNat_of_lt' (by show v < 256; omega)
    simp [feed, utf8Next, @utf8First_one (.ofNat v) (by omega), hb, hc]
  split
  · have hb : (UInt8.ofNat (v / 64 % 32 + 192)).toNat = v / 64 + 192 := by
      rw [UInt8.toNat_ofNat_of_lt' (by show _ < 256; omega)]
      omega
    have hjoin : v / 64 * 64 + v % 64 = v := by omega
    rw [feed, utf8Next, utf8First_two (by omega), hb, feed,
      utf8Next_inside (htail v) (hbounds v).1 (hbounds v).2, Nat.add_sub_cancel, hjoin, hc]
    rfl
  split
  · have hb : (UInt8.ofNat (v / 4096 % 16 + 224)).toNat = v / 4096 + 224 := by
      rw [UInt8.toNat_ofNat_of_lt' (by show _ < 256; omega)]
      omega
    obtain ⟨least, greatest, hfirst, hleast, hgreatest⟩ := utf8First_three (by omega) (by omega) hb
    have hjoin : (v / 4096 * 64 + v / 64 % 64) * 64 + v % 64 = v := by omega
    rw [feed, utf8Next, hfirst, feed, utf8Next_inside (htail _) hleast hgreatest,
      if_neg (by decide), feed, utf8Next_inside (htail v) (hbounds v).1 (hbounds v).2,
      if_pos (by decide), hjoin, hc]
    rfl
  · have hb : (UInt8.ofNat (v / 262144 % 8 + 240)).toNat = v / 262144 + 240 := by
      rw [UInt8.toNat_ofNat_of_lt' (by show _ < 256; omega)]
      omega
    obtain ⟨least, greatest, hfirst, hleast, hgreatest⟩ := utf8First_four (by omega) (by omega) hb
    have hjoin : ((v / 262144 * 64 + v / 4096 % 64) * 64 + v / 64 % 64) * 64 + v % 64 = v := by
      omega
    rw [feed, utf8Next, hfirst, feed, utf8Next_inside (htail _) hleast hgreatest,
      if_neg (by decide), feed, utf8Next_inside (htail _) (hbounds _).1 (hbounds _).2,
      if_neg (by decide), feed, utf8Next_inside (htail v) (hbounds v).1 (hbounds v).2,
      if_pos (by decide), hjoin, hc]
    rfl

/-- The bytes of a text settle its characters. -/
theorem feed_encode (text : List Char) : start.feed (encode text) = (start, text) := by
  induction text with
  | nil => rfl
  | cons c text ih =>
    rw [encode, List.flatMap_cons, feed_append, feed_encodeChar, ← encode, ih]
    rfl

/-- What each of several pieces settles, the first one first. -/
def feedAll : Utf8State → List (List UInt8) → List (List Char)
  | _, [] => []
  | s, bytes :: rest => (s.feed bytes).2 :: (s.feed bytes).1.feedAll rest

/-- It does not matter where the pieces end. -/
theorem flatten_feedAll (s : Utf8State) (pieces : List (List UInt8)) :
    (s.feedAll pieces).flatten = (s.feed pieces.flatten).2 := by
  induction pieces generalizing s with
  | nil => rfl
  | cons bytes rest ih =>
    rw [List.flatten_cons, feed_append, feedAll, List.flatten_cons, ih]
    rfl

/-- A text has come, in whatever pieces its bytes did. -/
theorem flatten_feedAll_of_encode {pieces : List (List UInt8)} {text : List Char}
    (h : pieces.flatten = encode text) : (start.feedAll pieces).flatten = text := by
  rw [flatten_feedAll, h, feed_encode]

/-- What comes later changes nothing about what has been settled. -/
theorem feedAll_append (s : Utf8State) (pieces pieces' : List (List UInt8)) :
    s.feedAll (pieces ++ pieces') = s.feedAll pieces ++ (s.feed pieces.flatten).1.feedAll pieces' := by
  induction pieces generalizing s with
  | nil => rfl
  | cons bytes rest ih =>
    rw [List.cons_append, feedAll, ih, feedAll, List.flatten_cons, feed_append]
    rfl

end Utf8State

end RegisterMachine.Text
