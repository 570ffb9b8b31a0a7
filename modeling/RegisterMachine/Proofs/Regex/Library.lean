import RegisterMachine.Proofs.Regex.Reading
import RegisterMachine.Regex.Library

/-!
# What is known of a library

The machine relies on a library of regular expressions for three things. It tells patterns from other texts
as the grammar does, a limit on depth and one on size apart. How large a pattern becomes is up to the
library, but it is settled by the regular expression and not by how that was written. And a pattern matches
where the regular expression leads from one place of the text to another. `Library.Conforms` says so, with
the regular expressions that fit as a parameter.

`Library.unbounded` conforms, and everything fits (`Library.unbounded_conforms`).
-/

namespace RegisterMachine

open Regex

theorem Pattern.ofText_eq_ok_iff {tables : Tables} {text : String} {p : Pattern} :
    ofText tables text = .ok p ↔ read tables text = .ok p ∧ p.nesting ≤ maxNesting := by
  constructor
  · intro h
    obtain ⟨q, hread, h⟩ := bind_eq_ok h
    split at h
    case isTrue => cases h
    case isFalse hdepth =>
      cases h
      exact ⟨hread, Nat.not_lt.mp hdepth⟩
  · rintro ⟨hread, hdepth⟩
    rw [ofText, hread]
    exact if_neg (Nat.not_lt.mpr hdepth)

namespace Regex.Library

variable {text : String}

/-- The text can be compiled. -/
def Valid (lib : Library) (text : String) : Prop := ∃ compiled, lib.compile text = .ok compiled

/-- The text is written in the syntax of the grammar, if it is a pattern at all. -/
def InSyntax (lib : Library) (text : String) : Prop :=
  lib.Valid text → ∃ p, Pattern.read lib.tables text = .ok p

/-- The library does what it is relied on for, and these are the regular expressions that fit. -/
structure Conforms (lib : Library) (fits : Regex → Prop) : Prop where
  /-- A pattern can be compiled unless it is too deep or does not fit. -/
  valid_iff {text : String} {p : Pattern} (h : Pattern.read lib.tables text = .ok p) :
    lib.Valid text ↔ p.nesting ≤ maxNesting ∧ fits p.root
  /-- There is a match if some way of matching leads from one place to another, and only then. -/
  isMatch_iff {text : String} {p : Pattern} {compiled : Compiled}
    (h : Pattern.read lib.tables text = .ok p) (hcompiled : lib.compile text = .ok compiled) (s : String) :
    compiled.isMatch s = true ↔
      ∃ i ≤ s.toList.toArray.size, ∃ j, p.root.Consumes s.toList.toArray i j

theorem unbounded_compile (text : String) : unbounded.compile text =
    ((Pattern.ofText unbounded.tables text).mapError PatternError.message).map .ofPattern := rfl

theorem unbounded_compile_of_error {e : PatternError}
    (h : Pattern.ofText unbounded.tables text = .error e) : unbounded.compile text = .error e.message := by
  rw [unbounded_compile, h]
  rfl

theorem unbounded_compile_eq_ok_iff {compiled : Compiled} :
    unbounded.compile text = .ok compiled ↔
      ∃ p, Pattern.read unbounded.tables text = .ok p ∧ p.nesting ≤ maxNesting ∧
        compiled = .ofPattern p := by
  rw [unbounded_compile]
  constructor
  · intro h
    cases hp : Pattern.ofText unbounded.tables text with
    | error e =>
      rw [hp] at h
      cases h
    | ok p =>
      rw [hp] at h
      cases h
      obtain ⟨hread, hdepth⟩ := Pattern.ofText_eq_ok_iff.mp hp
      exact ⟨p, hread, hdepth, rfl⟩
  · rintro ⟨p, hread, hdepth, rfl⟩
    rw [Pattern.ofText_eq_ok_iff.mpr ⟨hread, hdepth⟩]
    rfl

theorem unbounded_conforms : unbounded.Conforms fun _ => True where
  valid_iff {text p} h := by
    rw [and_true]
    constructor
    · rintro ⟨compiled, hcompiled⟩
      obtain ⟨q, hread, hdepth, -⟩ := unbounded_compile_eq_ok_iff.mp hcompiled
      cases h.symm.trans hread
      exact hdepth
    · exact fun hdepth => ⟨_, unbounded_compile_eq_ok_iff.mpr ⟨p, h, hdepth, rfl⟩⟩
  isMatch_iff {text p compiled} h hcompiled s := by
    obtain ⟨q, hread, -, rfl⟩ := unbounded_compile_eq_ok_iff.mp hcompiled
    cases h.symm.trans hread
    exact Pattern.isMatch_iff (Pattern.read_inOrder h)

end Regex.Library

end RegisterMachine
