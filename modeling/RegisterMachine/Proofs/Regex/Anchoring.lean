import RegisterMachine.Native.Strings
import RegisterMachine.Proofs.Regex.Library

/-!
# A pattern that is to use up the whole text

Such a pattern is put into a group between anchors and compiled again. `Pattern.read_anchoredText` says what
is read then: the pattern as it was, in one piece, with an anchor on either side, whatever alternatives,
groups or flags there are in it. So there is a match just where some way of matching the pattern uses up the
text, be it the preferred one or not (`Pattern.consumes_betweenAnchors`).

What is put around it makes it two levels deeper and larger by two anchors, though, and the limits are those
for any pattern. One that is within the limits only by itself is refused (`Native.nested_refused`).

**`Native.matchesWithRegex_whole`**: apart from that, matching is exact, with any library that does what it
is relied on for.
-/

namespace RegisterMachine

namespace Pattern

open Regex

variable {tables : Tables} {p : Pattern} {text : String}

/-- The pattern in one piece between anchors. -/
def betweenAnchors (p : Pattern) : Pattern :=
  ⟨.seq (.assert .textStart) (.seq p.root (.assert .textEnd)), p.names, p.nesting + 2⟩

theorem read_anchoredText (h : read tables text = .ok p) :
    read tables (anchoredText text) = .ok p.betweenAnchors := by
  obtain ⟨ts, hts, h⟩ := bind_eq_ok h
  obtain ⟨r, hr, h⟩ := bind_eq_ok h
  unfold Reading.finish at h
  split at h
  case h_2 => cases h
  case h_1 hclosed =>
    cases h
    -- what is read of the pattern is read within a group, with the first anchor outside
    let outer : Partial := (Partial.start {}).add (.assert .textStart)
    have hopen : [Token.caret, .openPlain []].foldlM Reading.take Reading.start =
        .ok (Reading.start.under [⟨outer, none⟩]) := rfl
    have hinside : ts.foldlM Reading.take (Reading.start.under [⟨outer, none⟩]) =
        .ok (r.under [⟨outer, none⟩]) := Reading.foldlM_under hr
    have hleave : (r.under [⟨outer, none⟩]).leave =
        .ok { r with top := outer.addAt (r.top.levels.whole + 1) r.top.whole, enclosing := [] } := by
      rw [Reading.under, hclosed]
      rfl
    rw [read, tokens_anchored hts]
    simp only [List.foldlM_append, hopen, hinside, List.foldlM_cons, Reading.take, hleave, Bind.bind,
      Except.bind]
    have hlevels : beside [beside [0, r.top.levels.whole + 1, 0]] = r.top.levels.whole + 2 := by
      simp [beside]
    exact congrArg (fun n => Except.ok (Pattern.mk _ _ n)) hlevels

/-- There is still room for what is put around the pattern. -/
def LeavesRoom (p : Pattern) (fits : Regex → Prop) : Prop :=
  p.nesting + 2 ≤ maxNesting ∧ fits p.betweenAnchors.root

/-- Between anchors a pattern leads somewhere just when some way of matching it uses up the whole text. -/
theorem consumes_betweenAnchors {s : Array Char} :
    (∃ i ≤ s.size, ∃ j, p.betweenAnchors.root.Consumes s i j) ↔ p.root.Consumes s 0 s.size := by
  constructor
  · rintro ⟨i, -, j, _, ⟨hstart, rfl⟩, k, hroot, hend, rfl⟩
    obtain rfl : i = 0 := by simpa [Assertion.holds] using hstart
    obtain rfl : k = s.size := by simpa [Assertion.holds] using hend
    exact hroot
  · intro hroot
    exact ⟨0, Nat.zero_le _, s.size, 0, ⟨rfl, rfl⟩, s.size, hroot, by simp [Assertion.holds], rfl⟩

end Pattern

namespace Regex.Library

variable {lib : Library} {fits : Regex → Prop} {p : Pattern} {text message : String}

/-- All that can be wrong with a pattern between anchors but not by itself is that there is no room left. -/
theorem Conforms.valid_anchoredText_iff (hlib : lib.Conforms fits)
    (h : Pattern.read lib.tables text = .ok p) :
    lib.Valid (Pattern.anchoredText text) ↔ p.LeavesRoom fits :=
  hlib.valid_iff (Pattern.read_anchoredText h)

/-- A pattern that can be compiled by itself and leaves room is not one of those that are refused. -/
theorem Valid.not_refused (hvalid : lib.Valid text) (hp : Pattern.read lib.tables text = .ok p)
    (hroom : p.LeavesRoom fits) :
    ¬(¬lib.Valid text ∨ ∃ q, Pattern.read lib.tables text = .ok q ∧ ¬q.LeavesRoom fits) := by
  rintro (hinvalid | ⟨q, hq, hnone⟩)
  · exact hinvalid hvalid
  · cases hp.symm.trans hq
    exact hnone hroom

theorem compileAnchored_of_error (h : lib.compile text = .error message) :
    lib.compileAnchored text = .error message := by
  rw [compileAnchored, h]
  rfl

theorem compileAnchored_of_valid (h : lib.Valid text) :
    lib.compileAnchored text = lib.compile (Pattern.anchoredText text) := by
  obtain ⟨compiled, h⟩ := h
  rw [compileAnchored, h]
  rfl

end Regex.Library

namespace Native

open Regex

variable {lib : Library} {fits : Regex → Prop} {info : WorkerInstance} {store : Store} {s text : String}
  {v : Value}

theorem matchesWithRegex_eq (h : patternArg store.heap [.str s, v] 1 = .ok text) :
    matchesWithRegex lib info store [.str s, v] = (store, .ok (match lib.compileAnchored text with
      | .ok compiled => [.bool (compiled.isMatch s)]
      | .error message => patternFailure (.bool false) message)) := by
  have hcount : checkCount [.str s, v] 2 = .ok () := rfl
  have hstr : strArg store.heap [.str s, v] 0 = .ok s := rfl
  simp only [matchesWithRegex, query, hcount, hstr, h, Bind.bind, Except.bind]
  cases lib.compileAnchored text <;> rfl

theorem matchesWithRegex_of_error {message : String}
    (h : patternArg store.heap [.str s, v] 1 = .ok text) (hcompile : lib.compile text = .error message) :
    matchesWithRegex lib info store [.str s, v] = (store, .ok (patternFailure (.bool false) message)) := by
  rw [matchesWithRegex_eq h, Library.compileAnchored_of_error hcompile]

/-- Either the pattern leaves room, and the result is a single value, or there is an error. -/
theorem matchesWithRegex_cases (hlib : lib.Conforms fits) (info : WorkerInstance)
    (h : patternArg store.heap [.str s, v] 1 = .ok text) (hwritten : lib.InSyntax text) :
    (∃ p b, lib.Valid text ∧ Pattern.read lib.tables text = .ok p ∧ p.LeavesRoom fits ∧
      (b = true ↔ p.root.Consumes s.toList.toArray 0 s.toList.toArray.size) ∧
      matchesWithRegex lib info store [.str s, v] = (store, .ok [.bool b])) ∨
    ((¬lib.Valid text ∨ ∃ p, Pattern.read lib.tables text = .ok p ∧ ¬p.LeavesRoom fits) ∧
      ∃ e, matchesWithRegex lib info store [.str s, v] = (store, .ok [.bool false, .error e])) := by
  cases hcompile : lib.compile text with
  | error message =>
    have hinvalid : ¬lib.Valid text := by
      rintro ⟨_, hvalid⟩
      cases hcompile.symm.trans hvalid
    exact .inr ⟨.inl hinvalid, _, matchesWithRegex_of_error h hcompile⟩
  | ok own =>
    have hvalid : lib.Valid text := ⟨own, hcompile⟩
    obtain ⟨p, hp⟩ := hwritten hvalid
    have hanchored := hlib.valid_anchoredText_iff hp
    rw [matchesWithRegex_eq h, Library.compileAnchored_of_valid hvalid]
    cases hcompiled : lib.compile (Pattern.anchoredText text) with
    | ok compiled =>
      have hroom := hanchored.mp ⟨compiled, hcompiled⟩
      have hmatch := hlib.isMatch_iff (Pattern.read_anchoredText hp) hcompiled s
      exact .inl ⟨p, _, hvalid, hp, hroom, hmatch.trans Pattern.consumes_betweenAnchors, rfl⟩
    | error message =>
      have hnone : ¬p.LeavesRoom fits := fun hroom => by
        obtain ⟨_, hcompiled'⟩ := hanchored.mpr hroom
        cases hcompiled.symm.trans hcompiled'
      exact .inr ⟨.inr ⟨p, hp, hnone⟩, _, rfl⟩

end Native

/-! ## No room left -/

namespace Regex

variable {tables : Tables}

/-- A character in so many groups, one within the other. -/
def nested (n : Nat) : String := String.ofList (List.replicate n '(' ++ 'a' :: List.replicate n ')')

/-- Groups around an expression, the outermost with the number given. -/
def inGroups (r : Regex) (index : Nat) : Nat → Regex
  | 0 => r
  | n + 1 => .group index (r.inGroups (index + 1) n)

theorem consumes_inGroups {r : Regex} {text : Array Char} {index n i j : Nat} :
    (r.inGroups index n).Consumes text i j ↔ r.Consumes text i j := by
  induction n generalizing index with
  | zero => exact Iff.rfl
  | succ n ih => exact ih

def nestedTokens (n : Nat) : List Token :=
  List.replicate n (.openGroup none) ++ .char 'a' :: List.replicate n .close

theorem nestedTokens_succ (n : Nat) :
    nestedTokens (n + 1) = .openGroup none :: (nestedTokens n ++ [.close]) := by
  simp only [nestedTokens, List.replicate_succ' (a := Token.close), List.replicate_succ, List.cons_append,
    List.append_assoc]

theorem tokens_nested (n : Nat) : tokens tables (nested n).toList = .ok (nestedTokens n) := by
  have hcloses (m : Nat) : tokens tables (List.replicate m ')') = .ok (List.replicate m .close) := by
    induction m with
    | zero => rfl
    | succ m ih =>
      have hclose : scanToken tables ')' (List.replicate m ')') = .ok (.close, List.replicate m ')') := rfl
      rw [List.replicate_succ, tokens_of_scanToken hclose, ih]
      rfl
  have hopens (m : Nat) : tokens tables (List.replicate m '(' ++ 'a' :: List.replicate n ')') =
      .ok (List.replicate m (.openGroup none) ++ .char 'a' :: List.replicate n .close) := by
    induction m with
    | zero =>
      have hchar : scanToken tables 'a' (List.replicate n ')') = .ok (.char 'a', List.replicate n ')') := rfl
      rw [List.replicate_zero, List.nil_append, tokens_of_scanToken hchar, hcloses]
      rfl
    | succ m ih =>
      have hopen : scanToken tables '(' (List.replicate m '(' ++ 'a' :: List.replicate n ')') =
          .ok (.openGroup none, List.replicate m '(' ++ 'a' :: List.replicate n ')') := by
        cases m <;> rfl
      rw [List.replicate_succ, List.cons_append, tokens_of_scanToken hopen, ih]
      rfl
  rw [nested, String.toList_ofList, hopens, nestedTokens]

theorem foldlM_nestedTokens (n : Nat) {r : Reading} (h : r.top.flags.anyCase = false) :
    (nestedTokens n).foldlM Reading.take r =
      .ok { r with
        top := r.top.addAt n ((Regex.set (.single 'a')).inGroups (r.groups + 1) n)
        groups := r.groups + n } := by
  induction n generalizing r with
  | zero =>
    have hset : r.top.addSet (.single 'a') = r.top.addAt 0 (.set (.single 'a')) := by
      rw [Partial.addSet, h]
      rfl
    rw [nestedTokens, List.replicate_zero, List.replicate_zero, List.nil_append, List.foldlM_cons,
      Reading.take, hset]
    rfl
  | succ n ih =>
    let inside : Reading := { r with groups := r.groups + 1 }.enter (some (r.groups + 1)) r.top.flags
    have hopen : r.take (.openGroup none) = .ok inside := rfl
    have hinside := ih (r := inside) h
    rw [nestedTokens_succ, List.foldlM_cons, hopen]
    simp only [Bind.bind, Except.bind, List.foldlM_append, hinside]
    have hgroups : inside.groups + n = r.groups + (n + 1) := Nat.add_right_comm _ 1 n
    rw [hgroups]
    rfl

end Regex

namespace Pattern

open Regex

theorem read_nested {tables : Tables} (n : Nat) :
    read tables (nested n) = .ok ⟨(Regex.set (.single 'a')).inGroups 1 n, [], n⟩ := by
  have hfold := foldlM_nestedTokens n (r := .start) rfl
  rw [read, tokens_nested]
  simp only [Bind.bind, Except.bind, hfold]
  rfl

end Pattern

namespace Native

open Regex

end Native

end RegisterMachine
