import RegisterMachine.Proofs.Regex.Repeating

/-!
# The ways of matching

What a regular expression can match is a relation between places of a text: `Regex.Consumes` says that
some way of matching it leads from one to the other. Nothing in there prefers one way to another.

`Regex.ways` does, and it also leaves out a lot, but no place is lost (`Regex.ways_explores`). So there is a
match just where there is a way from some place (`Pattern.isMatch_iff`).
-/

namespace RegisterMachine

/-! ## What a repetition comes to -/

section

open Reached (places mem_places_bind mem_places_distinct)

variable {size least times : Nat} {body : Reached → List Reached} {greedy : Bool} {R : Nat → Nat → Prop}
  {q : Reached} {qs : List Reached} {j : Nat}

theorem mem_places_ways (s : Repeating) : j ∈ places s.ways ↔ j ∈ places s.found := by
  rw [Repeating.ways, places, List.map_reverse, List.mem_reverse, places]

theorem mem_places_upTo (hbody : Explores size body R) (hq : q.pos ≤ size) :
    j ∈ places (Repeating.upTo body greedy times .start q).ways ↔ ∃ n ≤ times, Rounds R n q.pos j := by
  rw [mem_places_ways]
  constructor
  · intro hj
    rcases Repeating.upTo_sound hbody hq hj with hj | hj
    · exact absurd hj List.not_mem_nil
    · exact hj
  · rintro ⟨n, hn, hj⟩
    have hstart : Repeating.Thorough R times .start := fun _ _ _ hx => absurd hx List.not_mem_nil
    obtain ⟨-, hcomplete⟩ := Repeating.upTo_combed hbody hq hstart
    exact hcomplete n hn j hj

theorem mem_places_onceOrMore (hbody : Explores size body R) (hq : q.pos ≤ size) :
    j ∈ places (onceOrMore size body greedy q) ↔ ∃ n, Rounds R (n + 1) q.pos j := by
  rw [onceOrMore, mem_places_ways]
  constructor
  · intro hj
    have hsound := Repeating.foldl_sound (P := fun j => ∃ n, Rounds R (n + 1) q.pos j)
      (fun q' hq' t j hj => ?_) hj
    · exact hsound.resolve_left List.not_mem_nil
    · rcases Repeating.again_sound hbody (hbody.pos_le hq hq') hj with hj | ⟨n, hn⟩
      · exact .inl hj
      · exact .inr ⟨n, q'.pos, hbody.of_mem hq hq', hn⟩
  · rintro ⟨n, hj⟩
    have hless : Repeating.unseen size .start < size + 2 := by
      refine Nat.lt_succ_of_le (Nat.le_trans (Finset.card_filter_le _ _) ?_)
      rw [Finset.card_range]
    have hagain : ∀ q' ∈ body q, ∀ s, Repeating.unseen size s < size + 2 →
        Repeating.Searched R q.pos s (Repeating.again body greedy q.pos (size + 2) s q') ∧
          (0, q'.pos) ∈ (Repeating.again body greedy q.pos (size + 2) s q').seen :=
      fun q' hq' s hs => Repeating.again_searched hbody (hbody.pos_le hq hq') hs
    obtain ⟨hsearched, hall⟩ := Repeating.searched_foldl hagain hless
    have hfresh := fun x hx => (hsearched.fresh x hx).resolve_left List.not_mem_nil
    generalize (body q).foldl (Repeating.again body greedy q.pos (size + 2)) .start = s at hall hfresh ⊢
    have hfirst (j : Nat) (hj : R q.pos j) : (0, j) ∈ s.seen := by
      obtain ⟨q', hq', rfl⟩ := hbody.exists_mem hq hj
      exact hall q' hq'
    -- what has been seen is closed under further rounds
    have hseen : (0, j) ∈ s.seen := by
      induction n generalizing j with
      | zero =>
        obtain ⟨i, hi, rfl⟩ := hj
        exact hfirst i hi
      | succ n ih =>
        obtain ⟨i, hbefore, i', hlast, rfl⟩ := hj.split (n := 1)
        rcases (hfresh i (ih hbefore)).2 with rfl | hnext
        · exact hfirst i' hlast
        · exact hnext i' hlast
    exact (hfresh j hseen).1

theorem mem_places_anyTimes (hbody : Explores size body R) (hq : q.pos ≤ size) :
    j ∈ places (anyTimes size body greedy q) ↔ ∃ n, Rounds R n q.pos j := by
  have hparts : j ∈ places (anyTimes size body greedy q) ↔
      q.pos = j ∨ j ∈ places (onceOrMore size body greedy q) := by
    rw [anyTimes, mem_places_distinct]
    cases greedy with
    | true => simp [or_comm, eq_comm]
    | false => simp [eq_comm]
  rw [hparts, mem_places_onceOrMore hbody hq]
  constructor
  · rintro (hj | ⟨n, hj⟩)
    · exact ⟨0, hj⟩
    · exact ⟨n + 1, hj⟩
  · rintro ⟨n, hj⟩
    cases n with
    | zero => exact .inl hj
    | succ n => exact .inr ⟨n, hj⟩

theorem mem_places_exactly (hbody : Explores size body R) (hqs : ∀ q ∈ qs, q.pos ≤ size) :
    j ∈ places (exactly body times qs) ↔ ∃ q ∈ qs, Rounds R times q.pos j := by
  induction times generalizing qs with
  | zero =>
    rw [exactly, places, List.mem_map]
    rfl
  | succ times ih =>
    have hnext (i : Nat) : i ∈ places (Reached.bind qs body) ↔ ∃ q ∈ qs, R q.pos i := by
      rw [mem_places_bind]
      exact exists_congr fun q => and_congr_right fun hq => hbody.mem_iff q i (hqs q hq)
    have hwithin : ∀ q' ∈ Reached.bind qs body, q'.pos ≤ size := by
      intro q' hq'
      obtain ⟨q, hq, hR⟩ := (hnext q'.pos).mp (List.mem_map_of_mem hq')
      exact hbody.le q.pos q'.pos (hqs q hq) hR
    rw [exactly, ih hwithin]
    constructor
    · rintro ⟨q', hq', hrest⟩
      obtain ⟨q, hq, hR⟩ := (hnext q'.pos).mp (List.mem_map_of_mem hq')
      exact ⟨q, hq, q'.pos, hR, hrest⟩
    · rintro ⟨q, hq, i, hR, hrest⟩
      obtain ⟨q', hq', rfl⟩ := List.mem_map.mp ((hnext i).mpr ⟨q, hq, hR⟩)
      exact ⟨q', hq', hrest⟩

/-- Some rounds that there must be, and then those that there can be. -/
theorem mem_places_exactly_bind (hbody : Explores size body R) (hq : q.pos ≤ size)
    {f : Reached → List Reached} {P : Nat → Prop}
    (hf : ∀ q', q'.pos ≤ size → (j ∈ places (f q') ↔ ∃ n, P n ∧ Rounds R n q'.pos j)) :
    j ∈ places (Reached.bind (exactly body least [q]) f) ↔ ∃ n, P n ∧ Rounds R (least + n) q.pos j := by
  have hexactly (i : Nat) : i ∈ places (exactly body least [q]) ↔ Rounds R least q.pos i := by
    rw [mem_places_exactly hbody (by simpa using hq)]
    simp
  have hwithin : ∀ q' ∈ exactly body least [q], q'.pos ≤ size := fun q' hq' =>
    hbody.rounds_le hq ((hexactly q'.pos).mp (List.mem_map_of_mem hq'))
  rw [mem_places_bind]
  constructor
  · rintro ⟨q', hq', hj⟩
    obtain ⟨n, hn, hrest⟩ := (hf q' (hwithin q' hq')).mp hj
    exact ⟨n, hn, ((hexactly q'.pos).mp (List.mem_map_of_mem hq')).append hrest⟩
  · rintro ⟨n, hn, hj⟩
    obtain ⟨i, hleast, hrest⟩ := hj.split
    obtain ⟨q', hq', rfl⟩ := List.mem_map.mp ((hexactly i).mpr hleast)
    exact ⟨q', hq', (hf q' (hwithin q' hq')).mpr ⟨n, hn, hrest⟩⟩

theorem mem_places_rounds (hbody : Explores size body R) (hq : q.pos ≤ size) {most : Option Nat}
    (horder : ∀ m ∈ most, least ≤ m) :
    j ∈ places (rounds size body least most greedy q) ↔
      ∃ n, least ≤ n ∧ (∀ m ∈ most, n ≤ m) ∧ Rounds R n q.pos j := by
  cases most with
  | some most =>
    have hle : least ≤ most := horder most rfl
    rw [rounds, mem_places_exactly_bind hbody hq fun q' hq' => mem_places_upTo hbody hq']
    constructor
    · rintro ⟨n, hn, hj⟩
      refine ⟨least + n, Nat.le_add_right .., ?_, hj⟩
      rintro _ ⟨⟩
      omega
    · rintro ⟨n, hleast, hmost, hj⟩
      have hmost := hmost most rfl
      refine ⟨n - least, by omega, ?_⟩
      rwa [Nat.add_sub_cancel' hleast]
  | none =>
    cases least with
    | zero =>
      rw [rounds, mem_places_anyTimes hbody hq]
      simp
    | succ least =>
      have honce (q' : Reached) (hq' : q'.pos ≤ size) :
          j ∈ places (onceOrMore size body greedy q') ↔ ∃ n, 1 ≤ n ∧ Rounds R n q'.pos j := by
        rw [mem_places_onceOrMore hbody hq']
        constructor
        · rintro ⟨n, hj⟩
          exact ⟨n + 1, Nat.le_add_left .., hj⟩
        · rintro ⟨n, hn, hj⟩
          refine ⟨n - 1, ?_⟩
          rwa [Nat.sub_add_cancel hn]
      rw [rounds, mem_places_exactly_bind hbody hq honce]
      constructor
      · rintro ⟨n, hn, hj⟩
        exact ⟨least + n, Nat.add_le_add_left hn least, nofun, hj⟩
      · rintro ⟨n, hleast, -, hj⟩
        refine ⟨n - least, by omega, ?_⟩
        rwa [Nat.add_sub_cancel' (Nat.le_of_succ_le hleast)]

end

/-! ## Whole expressions -/

/-- Some way of matching the expression leads from the one place to the other. -/
def Regex.Consumes (text : Array Char) : Regex → Nat → Nat → Prop
  | .empty, i, j => i = j
  | .set s, i, j => ∃ c, text[i]? = some c ∧ s.contains c = true ∧ i + 1 = j
  | .assert a, i, j => a.holds text i = true ∧ i = j
  | .seq r s, i, k => ∃ j, r.Consumes text i j ∧ s.Consumes text j k
  | .alt r s, i, j => r.Consumes text i j ∨ s.Consumes text i j
  | .group _ r, i, j => r.Consumes text i j
  | .repetition r least most _, i, j =>
      ∃ n, least ≤ n ∧ (∀ m ∈ most, n ≤ m) ∧ Rounds (r.Consumes text) n i j

/-- The bounds of every repetition are in order. -/
def Regex.InOrder : Regex → Prop
  | .empty | .set _ | .assert _ => True
  | .seq r s | .alt r s => r.InOrder ∧ s.InOrder
  | .group _ r => r.InOrder
  | .repetition r least most _ => (∀ m ∈ most, least ≤ m) ∧ r.InOrder

open Reached (places mem_places_bind mem_places_distinct)

variable {text : Array Char} {i j : Nat}

/-- **No place is lost** of those to which a match can lead. -/
theorem Regex.ways_explores {r : Regex} (h : r.InOrder) :
    Explores text.size (r.ways text) (r.Consumes text) := by
  induction r with
  | empty =>
    refine ⟨fun q j _ => ?_, fun i j hi hj => hj ▸ hi⟩
    simp [ways, Consumes, eq_comm]
  | set s =>
    refine ⟨fun q j _ => ?_, fun i j _ hj => ?_⟩
    · rw [ways, Consumes]
      cases text[q.pos]? with
      | none => simp
      | some c =>
        by_cases hc : s.contains c = true
        · simp [hc, @eq_comm _ j]
        · simp [hc]
    · obtain ⟨c, hc, -, rfl⟩ := hj
      exact (Array.getElem?_eq_some_iff.mp hc).1
  | assert a =>
    refine ⟨fun q j _ => ?_, fun i j hi hj => hj.2 ▸ hi⟩
    rw [ways, Consumes]
    by_cases ha : a.holds text q.pos = true
    · simp [ha, eq_comm]
    · simp [ha]
  | seq r s ihr ihs =>
    have hr := ihr h.1
    have hs := ihs h.2
    refine ⟨fun q j hq => ?_, fun i j hi hj => ?_⟩
    · rw [ways, mem_places_bind]
      constructor
      · rintro ⟨q', hq', hj⟩
        exact ⟨q'.pos, hr.of_mem hq hq', (hs.mem_iff q' j (hr.pos_le hq hq')).mp hj⟩
      · rintro ⟨k, hk, hj⟩
        obtain ⟨q', hq', rfl⟩ := hr.exists_mem hq hk
        exact ⟨q', hq', (hs.mem_iff q' j (hr.pos_le hq hq')).mpr hj⟩
    · obtain ⟨k, hk, hj⟩ := hj
      exact hs.le k j (hr.le i k hi hk) hj
  | alt r s ihr ihs =>
    have hr := ihr h.1
    have hs := ihs h.2
    refine ⟨fun q j hq => ?_, fun i j hi hj => hj.elim (hr.le i j hi) (hs.le i j hi)⟩
    rw [ways, mem_places_distinct, Reached.places_append, List.mem_append, hr.mem_iff q j hq,
      hs.mem_iff q j hq, Consumes]
  | group index r ih =>
    have hr := ih h
    refine ⟨fun q j hq => ?_, hr.le⟩
    rw [ways, places, List.map_map]
    exact hr.mem_iff q j hq
  | repetition r least most greedy ih =>
    have hr := ih h.2
    refine ⟨fun q j hq => mem_places_rounds hr hq h.1, fun i j hi hj => ?_⟩
    obtain ⟨n, -, -, hj⟩ := hj
    exact hr.rounds_le hi hj

namespace Pattern

variable {p : Pattern}

theorem isSome_findAt?_iff (h : p.root.InOrder) (hi : i ≤ text.size) :
    (p.findAt? text i).isSome = true ↔ ∃ j, p.root.Consumes text i j := by
  have hexplores : Explores text.size (p.root.ways text) (p.root.Consumes text) := Regex.ways_explores h
  have hstart (j : Nat) : j ∈ places (p.root.ways text ⟨i, []⟩) ↔ p.root.Consumes text i j :=
    hexplores.mem_iff ⟨i, []⟩ j hi
  rw [findAt?, Option.isSome_map]
  simp only [← hstart]
  cases p.root.ways text ⟨i, []⟩ with
  | nil => simp
  | cons q rest => simp

theorem isSome_findWithin?_iff {n : Nat} :
    (p.findWithin? text n i).isSome = true ↔ ∃ k, i ≤ k ∧ k < i + n ∧ (p.findAt? text k).isSome = true := by
  induction n generalizing i with
  | zero => exact iff_of_false nofun fun ⟨k, hle, hlt, _⟩ => absurd hlt (Nat.not_lt.mpr hle)
  | succ n ih =>
    rw [findWithin?]
    cases hfirst : p.findAt? text i with
    | some m => exact iff_of_true rfl ⟨i, Nat.le_refl i, by omega, by rw [hfirst]; rfl⟩
    | none =>
      rw [ih]
      constructor
      · rintro ⟨k, hle, hlt, hk⟩
        exact ⟨k, by omega, by omega, hk⟩
      · rintro ⟨k, hle, hlt, hk⟩
        have hne : i ≠ k := by
          rintro rfl
          rw [hfirst] at hk
          cases hk
        exact ⟨k, by omega, by omega, hk⟩

/-- There is a match just where there is a way of matching from some place of the text. -/
theorem isMatch_iff (h : p.root.InOrder) :
    p.isMatch text = true ↔ ∃ i ≤ text.size, ∃ j, p.root.Consumes text i j := by
  rw [isMatch, find?, isSome_findWithin?_iff]
  constructor
  · rintro ⟨i, -, hi, hfound⟩
    have hi : i ≤ text.size := by omega
    exact ⟨i, hi, (isSome_findAt?_iff h hi).mp hfound⟩
  · rintro ⟨i, hi, hj⟩
    exact ⟨i, Nat.zero_le i, by omega, (isSome_findAt?_iff h hi).mpr hj⟩

end Pattern

end RegisterMachine
