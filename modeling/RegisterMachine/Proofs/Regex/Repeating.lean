import Mathlib.Data.Finset.Card
import Mathlib.Data.Finset.Range
import RegisterMachine.Regex.Match

/-!
# The search of a repetition

A repetition is searched depth first, and the search does not go on from a place to which it has come
before. All the same no place is lost. With no bound on the rounds: where the search turns back it has been,
or is on its way, so once it is through, whatever one more round reaches from a place it has been to is such
a place again (`Searched`). With a bound a place is only given up if it has been reached with as many rounds
left, and every such place is complete (`Combed`).
-/

namespace RegisterMachine

/-- From one place to another in a number of rounds. -/
def Rounds (R : Nat → Nat → Prop) : Nat → Nat → Nat → Prop
  | 0, i, k => i = k
  | n + 1, i, k => ∃ j, R i j ∧ Rounds R n j k

namespace Rounds

variable {R : Nat → Nat → Prop} {m n i j k size : Nat}

theorem append (h : Rounds R m i j) (h' : Rounds R n j k) : Rounds R (m + n) i k := by
  induction m generalizing i with
  | zero =>
    obtain rfl := h
    rwa [Nat.zero_add]
  | succ m ih =>
    obtain ⟨i', hfirst, hrest⟩ := h
    rw [Nat.add_right_comm]
    exact ⟨i', hfirst, ih hrest⟩

theorem split (h : Rounds R (m + n) i k) : ∃ j, Rounds R m i j ∧ Rounds R n j k := by
  induction m generalizing i with
  | zero => exact ⟨i, rfl, by rwa [Nat.zero_add] at h⟩
  | succ m ih =>
    rw [Nat.add_right_comm] at h
    obtain ⟨i', hfirst, hrest⟩ := h
    obtain ⟨j, hm, hn⟩ := ih hrest
    exact ⟨j, ⟨i', hfirst, hm⟩, hn⟩

end Rounds

/-! ## Places -/

namespace Reached

/-- The places to which a match can lead. -/
def places (qs : List Reached) : List Nat := qs.map pos

variable {qs out : List Reached} {q : Reached} {j : Nat}

@[simp] theorem places_nil : places [] = [] := rfl

@[simp] theorem places_cons (q : Reached) (qs : List Reached) : places (q :: qs) = q.pos :: places qs := rfl

@[simp] theorem places_append (ps qs : List Reached) : places (ps ++ qs) = places ps ++ places qs :=
  List.map_append

theorem mem_places_addTo : j ∈ places (addTo out q) ↔ j ∈ places out ∨ j = q.pos := by
  unfold addTo
  split
  next hany =>
    obtain ⟨p, hp, hpos⟩ := List.any_eq_true.mp hany
    refine ⟨.inl, ?_⟩
    rintro (hj | rfl)
    · exact hj
    · exact List.mem_map.mpr ⟨p, hp, beq_iff_eq.mp hpos⟩
  next => rw [places_cons, List.mem_cons, or_comm]

theorem mem_places_foldl_addTo : j ∈ places (qs.foldl addTo out) ↔ j ∈ places out ∨ j ∈ places qs := by
  induction qs generalizing out with
  | nil => simp
  | cons q rest ih => rw [List.foldl_cons, ih, mem_places_addTo, places_cons, List.mem_cons, or_assoc]

theorem mem_places_distinct : j ∈ places (distinct qs) ↔ j ∈ places qs := by
  have hfold : j ∈ places (qs.foldl addTo []) ↔ j ∈ places qs := by
    rw [mem_places_foldl_addTo]
    simp
  rw [← hfold, distinct, places, List.map_reverse, List.mem_reverse, places]

theorem mem_places_bind {f : Reached → List Reached} :
    j ∈ places (bind qs f) ↔ ∃ q ∈ qs, j ∈ places (f q) := by
  rw [bind, mem_places_distinct, places, List.map_flatMap, List.mem_flatMap]
  rfl

end Reached

/-- From a place within the text `body` leads to just the places that `R` tells, and these are within it. -/
structure Explores (size : Nat) (body : Reached → List Reached) (R : Nat → Nat → Prop) : Prop where
  mem_iff (q : Reached) (j : Nat) : q.pos ≤ size → (j ∈ Reached.places (body q) ↔ R q.pos j)
  le (i j : Nat) : i ≤ size → R i j → j ≤ size

namespace Explores

variable {size : Nat} {body : Reached → List Reached} {R : Nat → Nat → Prop} {q q' : Reached} {i j n : Nat}

theorem exists_mem (h : Explores size body R) (hq : q.pos ≤ size) (hj : R q.pos j) :
    ∃ q' ∈ body q, q'.pos = j :=
  List.mem_map.mp ((h.mem_iff q j hq).mpr hj)

theorem of_mem (h : Explores size body R) (hq : q.pos ≤ size) (hq' : q' ∈ body q) : R q.pos q'.pos :=
  (h.mem_iff q q'.pos hq).mp (List.mem_map_of_mem hq')

theorem pos_le (h : Explores size body R) (hq : q.pos ≤ size) (hq' : q' ∈ body q) : q'.pos ≤ size :=
  h.le q.pos q'.pos hq (h.of_mem hq hq')

theorem rounds_le (h : Explores size body R) (hi : i ≤ size) (hj : Rounds R n i j) : j ≤ size := by
  induction n generalizing i with
  | zero => exact hj ▸ hi
  | succ n ih =>
    obtain ⟨i', hfirst, hrest⟩ := hj
    exact ih (h.le i i' hi hfirst) hrest

end Explores

/-! ## Repetitions -/

namespace Repeating

open Reached

variable {size start times : Nat} {body : Reached → List Reached} {greedy : Bool} {R : Nat → Nat → Prop}
  {s s' t : Repeating} {q : Reached} {j x : Nat}

theorem sees_iff : s.sees times q = true ↔ (times, q.pos) ∈ s.seen := List.contains_iff_mem

theorem mem_places_find : j ∈ places (s.find q).found ↔ j ∈ places s.found ∨ j = q.pos :=
  mem_places_addTo

/-- A place is gone into: it is found, before or after what is found from there. -/
def goInto (greedy : Bool) (q : Reached) (round : Repeating → Repeating) (s : Repeating) : Repeating :=
  if greedy then (round s).find q else round (s.find q)

theorem again_of_not_sees {fuel : Nat} (h : (0, q.pos) ∉ s.seen) :
    again body greedy start (fuel + 1) s q =
      goInto greedy q
        (fun s => if q.pos == start then s else (body q).foldl (again body greedy start fuel) s)
        (s.see 0 q) := by
  rw [again, if_neg (mt sees_iff.mp h)]
  rfl

theorem upTo_of_not_sees (h : (times + 1, q.pos) ∉ s.seen) :
    upTo body greedy (times + 1) s q =
      goInto greedy q (fun s => (body q).foldl (upTo body greedy times) s) (s.see (times + 1) q) := by
  rw [upTo, if_neg (mt sees_iff.mp h)]
  rfl

/-- What is found is the place itself or found in a round from there. -/
theorem goInto_sound {round : Repeating → Repeating} {P : Nat → Prop}
    (h : ∀ t j, j ∈ places (round t).found → j ∈ places t.found ∨ P j)
    (hj : j ∈ places (goInto greedy q round s).found) : j ∈ places s.found ∨ j = q.pos ∨ P j := by
  unfold goInto at hj
  split at hj
  · rcases mem_places_find.mp hj with hj | hj
    · exact (h s j hj).imp_right .inr
    · exact .inr (.inl hj)
  · rcases h _ j hj with hj | hj
    · exact (mem_places_find.mp hj).imp_right .inl
    · exact .inr (.inr hj)

theorem foldl_sound {g : Repeating → Reached → Repeating} {P : Nat → Prop} {qs : List Reached}
    (h : ∀ q ∈ qs, ∀ t j, j ∈ places (g t q).found → j ∈ places t.found ∨ P j)
    (hj : j ∈ places (qs.foldl g s).found) : j ∈ places s.found ∨ P j := by
  induction qs generalizing s with
  | nil => exact .inl hj
  | cons q rest ih =>
    rcases ih (fun q' hq' => h q' (List.mem_cons_of_mem _ hq')) hj with hj | hj
    · exact h q List.mem_cons_self s j hj
    · exact .inr hj

theorem again_sound (hbody : Explores size body R) {fuel : Nat} (hq : q.pos ≤ size)
    (hj : j ∈ places (again body greedy start fuel s q).found) :
    j ∈ places s.found ∨ ∃ n, Rounds R n q.pos j := by
  induction fuel generalizing s q j with
  | zero => exact .inl hj
  | succ fuel ih =>
    by_cases hseen : (0, q.pos) ∈ s.seen
    · rw [again, if_pos (sees_iff.mpr hseen)] at hj
      exact .inl hj
    · rw [again_of_not_sees hseen] at hj
      have hround (t : Repeating) (j : Nat)
          (hj : j ∈ places (if q.pos == start then t
            else (body q).foldl (again body greedy start fuel) t).found) :
          j ∈ places t.found ∨ ∃ n, Rounds R n q.pos j := by
        split at hj
        · exact .inl hj
        · refine foldl_sound (P := fun j => ∃ n, Rounds R n q.pos j) (fun q' hq' t j hj => ?_) hj
          rcases ih (hbody.pos_le hq hq') hj with hj | ⟨n, hn⟩
          · exact .inl hj
          · exact .inr ⟨n + 1, q'.pos, hbody.of_mem hq hq', hn⟩
      rcases goInto_sound hround hj with hj | rfl | hj
      · exact .inl hj
      · exact .inr ⟨0, rfl⟩
      · exact .inr hj

theorem upTo_sound (hbody : Explores size body R) (hq : q.pos ≤ size)
    (hj : j ∈ places (upTo body greedy times s q).found) :
    j ∈ places s.found ∨ ∃ n ≤ times, Rounds R n q.pos j := by
  induction times generalizing s q j with
  | zero =>
    rcases mem_places_find.mp hj with hj | rfl
    · exact .inl hj
    · exact .inr ⟨0, Nat.le_refl 0, rfl⟩
  | succ times ih =>
    by_cases hseen : (times + 1, q.pos) ∈ s.seen
    · rw [upTo, if_pos (sees_iff.mpr hseen)] at hj
      exact .inl hj
    · rw [upTo_of_not_sees hseen] at hj
      have hround (t : Repeating) (j : Nat)
          (hj : j ∈ places ((body q).foldl (upTo body greedy times) t).found) :
          j ∈ places t.found ∨ ∃ n ≤ times + 1, Rounds R n q.pos j := by
        refine foldl_sound (P := fun j => ∃ n ≤ times + 1, Rounds R n q.pos j) (fun q' hq' t j hj => ?_) hj
        rcases ih (hbody.pos_le hq hq') hj with hj | ⟨n, hle, hn⟩
        · exact .inl hj
        · exact .inr ⟨n + 1, Nat.succ_le_succ hle, q'.pos, hbody.of_mem hq hq', hn⟩
      rcases goInto_sound hround hj with hj | rfl | hj
      · exact .inl hj
      · exact .inr ⟨0, Nat.zero_le _, rfl⟩
      · exact .inr hj

/-- What goes into a place leaves the place found, and of what was there nothing is lost in finding it. -/
theorem exists_goInto (greedy : Bool) (q : Reached) (round : Repeating → Repeating) (s : Repeating)
    (hround : ∀ t, t.seen = s.seen → places s.found ⊆ places t.found →
      places t.found ⊆ places (round t).found) :
    ∃ t, t.seen = s.seen ∧ places s.found ⊆ places t.found ∧
      (goInto greedy q round s).seen = (round t).seen ∧
      places (round t).found ⊆ places (goInto greedy q round s).found ∧
      q.pos ∈ places (goInto greedy q round s).found := by
  have hkeeps (u : Repeating) : places u.found ⊆ places (u.find q).found :=
    fun _ hj => mem_places_find.mpr (.inl hj)
  have hfinds (u : Repeating) : q.pos ∈ places (u.find q).found := mem_places_find.mpr (.inr rfl)
  cases greedy with
  | true => exact ⟨s, rfl, fun _ hj => hj, rfl, hkeeps (round s), hfinds (round s)⟩
  | false => exact ⟨s.find q, rfl, hkeeps s, rfl, fun _ hj => hj, hround (s.find q) rfl (hkeeps s) (hfinds s)⟩

/-! ### Without a bound -/

/-- What a search has added. Each place that it has seen for the first time is found, and so is, or has been
seen at least, whatever one more round reaches from there. From `start` that is not up to the search. -/
structure Searched (R : Nat → Nat → Prop) (start : Nat) (s s' : Repeating) : Prop where
  seen : s.seen ⊆ s'.seen
  found : places s.found ⊆ places s'.found
  fresh (x : Nat) : (0, x) ∈ s'.seen →
    (0, x) ∈ s.seen ∨ x ∈ places s'.found ∧ (x = start ∨ ∀ y, R x y → (0, y) ∈ s'.seen)

theorem Searched.refl (s : Repeating) : Searched R start s s :=
  ⟨fun _ h => h, fun _ h => h, fun _ h => .inl h⟩

theorem Searched.trans (h : Searched R start s s') (h' : Searched R start s' t) : Searched R start s t where
  seen _ hx := h'.seen (h.seen hx)
  found _ hx := h'.found (h.found hx)
  fresh x hx := by
    rcases h'.fresh x hx with hx | hx
    · rcases h.fresh x hx with hx | ⟨hfound, hnext⟩
      · exact .inl hx
      · exact .inr ⟨h'.found hfound, hnext.imp_right fun hy y hR => h'.seen (hy y hR)⟩
    · exact .inr hx

/-- How many places of the text have not been seen. -/
def unseen (size : Nat) (s : Repeating) : Nat :=
  ((Finset.range (size + 1)).filter fun x => (0, x) ∉ s.seen).card

theorem unseen_le (h : s.seen ⊆ s'.seen) : unseen size s' ≤ unseen size s :=
  Finset.card_le_card fun x hx => by
    simp only [Finset.mem_filter] at hx ⊢
    exact ⟨hx.1, fun hs => hx.2 (h hs)⟩

theorem unseen_see_lt (hq : q.pos ≤ size) (h : (0, q.pos) ∉ s.seen) :
    unseen size (s.see 0 q) < unseen size s := by
  refine Finset.card_lt_card (Finset.ssubset_iff_subset_ne.mpr ⟨?_, fun heq => ?_⟩)
  · intro x hx
    simp only [Finset.mem_filter] at hx ⊢
    exact ⟨hx.1, fun hs => hx.2 (List.mem_cons_of_mem _ hs)⟩
  · have hmem : q.pos ∈ (Finset.range (size + 1)).filter fun x => (0, x) ∉ s.seen := by
      simp only [Finset.mem_filter, Finset.mem_range]
      exact ⟨Nat.lt_succ_of_le hq, h⟩
    rw [← heq] at hmem
    simp only [Finset.mem_filter] at hmem
    exact hmem.2 List.mem_cons_self

theorem searched_foldl {fuel : Nat} {g : Repeating → Reached → Repeating} {qs : List Reached}
    (h : ∀ q ∈ qs, ∀ s, unseen size s < fuel → Searched R start s (g s q) ∧ (0, q.pos) ∈ (g s q).seen)
    (hfuel : unseen size s < fuel) :
    Searched R start s (qs.foldl g s) ∧ ∀ q ∈ qs, (0, q.pos) ∈ (qs.foldl g s).seen := by
  induction qs generalizing s with
  | nil => exact ⟨.refl s, nofun⟩
  | cons q rest ih =>
    obtain ⟨hfirst, hseen⟩ := h q List.mem_cons_self s hfuel
    obtain ⟨hrest, hall⟩ := ih (fun q' hq' => h q' (List.mem_cons_of_mem _ hq'))
      (Nat.lt_of_le_of_lt (unseen_le hfirst.seen) hfuel)
    refine ⟨hfirst.trans hrest, fun q' hq' => ?_⟩
    rcases List.mem_cons.mp hq' with rfl | hq'
    · exact hrest.seen hseen
    · exact hall q' hq'

theorem again_searched (hbody : Explores size body R) {fuel : Nat} (hq : q.pos ≤ size)
    (hfuel : unseen size s < fuel) :
    Searched R start s (again body greedy start fuel s q) ∧
      (0, q.pos) ∈ (again body greedy start fuel s q).seen := by
  induction fuel generalizing s q with
  | zero => exact absurd hfuel (Nat.not_lt_zero _)
  | succ fuel ih =>
    by_cases hseen : (0, q.pos) ∈ s.seen
    · rw [again, if_pos (sees_iff.mpr hseen)]
      exact ⟨.refl s, hseen⟩
    rw [again_of_not_sees hseen]
    have hround (t : Repeating) (ht : t.seen = (s.see 0 q).seen) :
        Searched R start t
            (if q.pos == start then t else (body q).foldl (again body greedy start fuel) t) ∧
          (q.pos = start ∨ ∀ y, R q.pos y → (0, y) ∈
            (if q.pos == start then t else (body q).foldl (again body greedy start fuel) t).seen) := by
      split
      next hstart => exact ⟨.refl t, .inl (beq_iff_eq.mp hstart)⟩
      next =>
        have hless : unseen size t < fuel :=
          Nat.lt_of_lt_of_le (Nat.lt_of_le_of_lt (unseen_le (fun _ h => ht ▸ h)) (unseen_see_lt hq hseen))
            (Nat.le_of_lt_succ hfuel)
        obtain ⟨hsearched, hall⟩ :=
          searched_foldl (fun q' hq' s hs => ih (hbody.pos_le hq hq') hs) hless
        refine ⟨hsearched, .inr fun y hy => ?_⟩
        obtain ⟨q', hq', rfl⟩ := hbody.exists_mem hq hy
        exact hall q' hq'
    obtain ⟨t, ht, hkept, hseen', hfound', hplace⟩ := exists_goInto greedy q _ (s.see 0 q)
      fun t ht _ => (hround t ht).1.found
    obtain ⟨hsearched, hnext⟩ := hround t ht
    have hin : (0, q.pos) ∈ t.seen := ht ▸ List.mem_cons_self
    refine ⟨⟨fun y hy => ?_, fun j hj => hfound' (hsearched.found (hkept hj)), fun x hx => ?_⟩, ?_⟩
    · rw [hseen']
      exact hsearched.seen (ht ▸ List.mem_cons_of_mem _ hy)
    · rw [hseen'] at hx ⊢
      rcases hsearched.fresh x hx with hx | ⟨hfound, hrest⟩
      · rw [ht] at hx
        rcases List.mem_cons.mp hx with hx | hx
        · obtain rfl : x = q.pos := congrArg Prod.snd hx
          exact .inr ⟨hplace, hnext⟩
        · exact .inl hx
      · exact .inr ⟨hfound' hfound, hrest⟩
    · rw [hseen']
      exact hsearched.seen hin

/-! ### With a bound -/

/-- All that can be reached from a place in so many rounds is found. -/
def Complete (R : Nat → Nat → Prop) (times x : Nat) (s : Repeating) : Prop :=
  ∀ n ≤ times, ∀ j, Rounds R n x j → j ∈ places s.found

/-- Every place seen with so many rounds or fewer to go is complete. -/
def Thorough (R : Nat → Nat → Prop) (times : Nat) (s : Repeating) : Prop :=
  ∀ n ≤ times, ∀ x, (n, x) ∈ s.seen → Complete R n x s

/-- What a search of so many rounds has added. Nothing is seen with more rounds to go. -/
structure Combed (R : Nat → Nat → Prop) (times : Nat) (s s' : Repeating) : Prop where
  found : places s.found ⊆ places s'.found
  thorough : Thorough R times s'
  seen (n x : Nat) : times < n → (n, x) ∈ s'.seen → (n, x) ∈ s.seen

theorem Complete.mono {n : Nat} (h : Complete R n x s) (hs : places s.found ⊆ places s'.found) :
    Complete R n x s' :=
  fun m hm j hj => hs (h m hm j hj)

theorem combed_foldl {g : Repeating → Reached → Repeating} {qs : List Reached}
    (h : ∀ q ∈ qs, ∀ s, Thorough R times s → Combed R times s (g s q) ∧ Complete R times q.pos (g s q))
    (hs : Thorough R times s) :
    Combed R times s (qs.foldl g s) ∧ ∀ q ∈ qs, Complete R times q.pos (qs.foldl g s) := by
  induction qs generalizing s with
  | nil => exact ⟨⟨fun _ hj => hj, hs, fun _ _ _ hx => hx⟩, nofun⟩
  | cons q rest ih =>
    obtain ⟨hfirst, hcomplete⟩ := h q List.mem_cons_self s hs
    obtain ⟨hrest, hall⟩ := ih (fun q' hq' => h q' (List.mem_cons_of_mem _ hq')) hfirst.thorough
    refine ⟨⟨fun j hj => hrest.found (hfirst.found hj), hrest.thorough,
      fun n x hn hx => hfirst.seen n x hn (hrest.seen n x hn hx)⟩, fun q' hq' => ?_⟩
    rcases List.mem_cons.mp hq' with rfl | hq'
    · exact hcomplete.mono hrest.found
    · exact hall q' hq'

theorem upTo_combed (hbody : Explores size body R) (hq : q.pos ≤ size) (hs : Thorough R times s) :
    Combed R times s (upTo body greedy times s q) ∧
      Complete R times q.pos (upTo body greedy times s q) := by
  induction times generalizing s q with
  | zero =>
    have hfound : places s.found ⊆ places (s.find q).found := fun _ hj => mem_places_find.mpr (.inl hj)
    refine ⟨⟨hfound, fun n hn x hx => (hs n hn x hx).mono hfound, fun _ _ _ hx => hx⟩, ?_⟩
    intro n hn j hj
    obtain rfl := Nat.le_zero.mp hn
    exact mem_places_find.mpr (.inr hj.symm)
  | succ times ih =>
    by_cases hseen : (times + 1, q.pos) ∈ s.seen
    · rw [upTo, if_pos (sees_iff.mpr hseen)]
      exact ⟨⟨fun _ hj => hj, hs, fun _ _ _ hx => hx⟩, hs _ (Nat.le_refl _) _ hseen⟩
    rw [upTo_of_not_sees hseen]
    have hround (t : Repeating) (ht : t.seen = (s.see (times + 1) q).seen)
        (hfound : places s.found ⊆ places t.found) :
        Combed R times t ((body q).foldl (upTo body greedy times) t) ∧
          ∀ q' ∈ body q, Complete R times q'.pos ((body q).foldl (upTo body greedy times) t) := by
      refine combed_foldl (fun q' hq' s hs => ih (hbody.pos_le hq hq') hs) fun n hn x hx => ?_
      rw [ht] at hx
      rcases List.mem_cons.mp hx with hx | hx
      · obtain rfl : n = times + 1 := congrArg Prod.fst hx
        exact absurd hn (Nat.not_succ_le_self _)
      · exact (hs n (Nat.le_succ_of_le hn) x hx).mono hfound
    obtain ⟨t, ht, hkept, hseen', hfound', hplace⟩ := exists_goInto greedy q _ (s.see (times + 1) q)
      fun t ht hkept => (hround t ht hkept).1.found
    obtain ⟨hcombed, hall⟩ := hround t ht hkept
    have hgrown : places s.found ⊆ places
        (goInto greedy q (fun s => (body q).foldl (upTo body greedy times) s) (s.see (times + 1) q)).found :=
      fun j hj => hfound' (hcombed.found (hkept hj))
    -- the first round leads to a place that has been combed with a round less to go
    have hcomplete : Complete R (times + 1) q.pos
        (goInto greedy q (fun s => (body q).foldl (upTo body greedy times) s) (s.see (times + 1) q)) := by
      intro n hn j hj
      cases n with
      | zero =>
        obtain rfl : q.pos = j := hj
        exact hplace
      | succ n =>
        obtain ⟨i, hfirst, hrest⟩ := hj
        obtain ⟨q', hq', rfl⟩ := hbody.exists_mem hq hfirst
        exact hfound' (hall q' hq' n (Nat.le_of_succ_le_succ hn) j hrest)
    refine ⟨⟨hgrown, fun n hn x hx => ?_, fun n x hn hx => ?_⟩, hcomplete⟩
    · rw [hseen'] at hx
      rcases Nat.lt_or_ge times n with hlast | hle
      · obtain rfl : n = times + 1 := Nat.le_antisymm hn hlast
        have hx := hcombed.seen _ _ hlast hx
        rw [ht] at hx
        rcases List.mem_cons.mp hx with hx | hx
        · obtain rfl : x = q.pos := congrArg Prod.snd hx
          exact hcomplete
        · exact (hs _ hn x hx).mono hgrown
      · exact (hcombed.thorough n hle x hx).mono hfound'
    · rw [hseen'] at hx
      have hx := hcombed.seen n x (Nat.lt_of_succ_lt hn) hx
      rw [ht] at hx
      rcases List.mem_cons.mp hx with hx | hx
      · obtain rfl : n = times + 1 := congrArg Prod.fst hx
        exact absurd hn (Nat.lt_irrefl _)
      · exact hx

end Repeating

end RegisterMachine
