import Mathlib.Data.Finset.Filter
import Mathlib.Data.Finset.Card
import Mathlib.Data.Finset.Range
import RegisterMachine.Value.Copy
import RegisterMachine.Proofs.Value.Graph

/-!
# A copy is a graph of its own

**`Heap.copy_iso`**: copying a value adds to the heap one new object for each collection that the value
leads to and nothing else, the new objects are a graph like that of the value, and those that were there
are left alone. What it asks of the heap, that no reference leads nowhere, is so again afterwards
(`Heap.copy_closed`).

A copy is noted before it is filled, so while copying is under way there are copies that stand for
their originals and do not yet look like them. What is said about a state under way has two parts. One
holds of every state, `Copying.Underway`: which originals have copies, and that the copies are all the
new objects there are. The other is about what copying one value adds to a state, `Copying.Grows`: what was
there is kept, and every copy that has been *added* is finished. A copy that was open before stays
open, and it is filled by the one who has opened it.

The recursion is not over the value, which need not come to an end, but over the collections with no copy
yet (`Copying.left`). Opening a copy makes one fewer of them, so as much depth as there are collections at
first is never used up, and more of it changes nothing.
-/

namespace RegisterMachine

/-! ## Refilled objects -/

/-- Elements of an array of any values are stored as they are. -/
theorem ArrayObject.toList_any (elements : Growable Value) :
    toList ⟨.any, elements⟩ = elements.toList := by
  show elements.toList.map id = elements.toList
  rw [List.map_id]

/-- Refilling takes the first slots, and as many as have been given. -/
theorem Growable.toList_refill (elements : Growable Value) (f : Value → Value) :
    toList ⟨(elements.toList.map f ++
        elements.slots.toList.drop (elements.toList.map f).length).toArray, elements.size⟩
      = elements.toList.map f := by
  have hl : (elements.toList.map f).length = min elements.size elements.slots.size := by
    rw [List.length_map, toList, List.length_take, Array.length_toList]
  unfold toList at hl ⊢
  rw [List.take_append, hl]
  have hrest : (elements.slots.toList.drop (min elements.size elements.slots.size)).take
      (elements.size - min elements.size elements.slots.size) = [] := by
    rcases Nat.le_total elements.size elements.slots.size with h | h
    · rw [Nat.min_eq_left h, Nat.sub_self, List.take_zero]
    · rw [Nat.min_eq_right h, List.drop_eq_nil_of_le (by simp), List.take_nil]
  rw [hrest, List.append_nil, List.take_of_length_le]
  rw [hl]
  exact Nat.min_le_left _ _

theorem ArrayObject.refill_counterpart (φ : Ref → Ref) (a : ArrayObject) :
    (Object.array a).Counterpart φ (.array (a.refill (a.shared.map (Value.rename φ)))) := by
  obtain ⟨kind, elements⟩ := a
  by_cases hk : kind = .any
  · subst hk
    have hshared : shared ⟨.any, elements⟩ = elements.toList := toList_any elements
    rw [hshared]
    refine .array rfl rfl ?_ ?_
    · show (elements.toList.map (Value.rename φ) ++ elements.slots.toList.drop
        (elements.toList.map (Value.rename φ)).length).toArray.size = elements.slots.size
      have : elements.toList.length ≤ elements.slots.size := by
        rw [Growable.toList, List.length_take, Array.length_toList]
        exact Nat.min_le_right _ _
      simp [this]
    · rw [toList_any]
      exact (toList_any _).trans (Growable.toList_refill elements (Value.rename φ))
  · -- the elements are no references, so nothing is refilled and nothing renamed
    have hplain : ∀ x : kind.Slot, (kind.toValue x).ref? = none := by
      intro x
      cases kind with
      | any => exact absurd rfl hk
      | _ => rfl
    have hr : refill ⟨kind, elements⟩ ((shared ⟨kind, elements⟩).map (Value.rename φ))
        = ⟨kind, elements⟩ := by
      cases kind with
      | any => exact absurd rfl hk
      | _ => rfl
    rw [hr]
    refine .array rfl rfl rfl ?_
    show elements.toList.map kind.toValue = (elements.toList.map kind.toValue).map _
    rw [List.map_map]
    refine List.map_congr_left fun x _ => ?_
    exact (Value.rename_of_ref?_eq_none (hplain x)).symm

theorem Entries.zip_rename (φ : Ref → Ref) (entries : Entries) :
    (entries.map Prod.fst).zip ((entries.map Prod.snd).map (Value.rename φ))
      = entries.map fun x => (x.1, x.2.rename φ) := by
  rw [List.map_map, List.zip_map']
  rfl

theorem Object.refill_counterpart (φ : Ref → Ref) (o : Object) :
    o.Counterpart φ (o.refill (o.values.map (Value.rename φ))) := by
  cases o with
  | array a => exact a.refill_counterpart φ
  | map entries => exact .map (Entries.zip_rename φ entries)
  | record name fields => exact .record (Entries.zip_rename φ fields)

namespace Copying

/-! ## States under way -/

/-- The original has a copy, finished or not. -/
def Has (s : Copying) (r : Ref) : Prop := ∃ c, s.copies.lookup r = some c

/-- The copy of an original, itself where it has none. -/
def look (s : Copying) (r : Ref) : Ref := (s.copies.lookup r).getD r

/-- The copy `c` of `r` is finished: it holds the copies of what `r` holds. -/
def Done (h : Heap) (s : Copying) (r c : Ref) : Prop :=
  ∃ o, h.get? r = some o ∧ (∀ t ∈ o.refs, s.Has t) ∧
    s.heap.get? c = some (o.refill (o.values.map (Value.rename s.look)))

/-- A state on the way of copying `v` in `h`. -/
structure Underway (h : Heap) (v : Value) (s : Copying) : Prop where
  size_le : h.size ≤ s.heap.size
  unchanged (r : Ref) : r.index < h.size → s.heap.get? r = h.get? r
  source (r c : Ref) : s.copies.lookup r = some c → h.Leads v r
  fresh (r c : Ref) : s.copies.lookup r = some c → h.size ≤ c.index ∧ c.index < s.heap.size
  injective (r r' c : Ref) : s.copies.lookup r = some c → s.copies.lookup r' = some c → r = r'
  onto (c : Ref) : h.size ≤ c.index → c.index < s.heap.size → ∃ r, s.copies.lookup r = some c

/-- From `s` to `s'` nothing is lost, and every copy that has come is finished. -/
structure Grows (h : Heap) (s s' : Copying) : Prop where
  size_le : s.heap.size ≤ s'.heap.size
  unchanged (r : Ref) : r.index < s.heap.size → s'.heap.get? r = s.heap.get? r
  kept (r c : Ref) : s.copies.lookup r = some c → s'.copies.lookup r = some c
  done (r c : Ref) : s'.copies.lookup r = some c → s.copies.lookup r = some c ∨ s'.Done h r c

variable {h : Heap} {v : Value} {s s' s'' : Copying}

theorem look_of_lookup {r c : Ref} (hl : s.copies.lookup r = some c) : s.look r = c := by
  unfold look
  rw [hl]
  rfl

namespace Grows

theorem refl (h : Heap) (s : Copying) : s.Grows h s :=
  ⟨Nat.le_refl _, fun _ _ => rfl, fun _ _ hl => hl, fun _ _ hl => Or.inl hl⟩

theorem has (hg : s.Grows h s') {r : Ref} (hr : s.Has r) : s'.Has r := by
  obtain ⟨c, hc⟩ := hr
  exact ⟨c, hg.kept r c hc⟩

theorem look_eq (hg : s.Grows h s') {r : Ref} (hr : s.Has r) : s'.look r = s.look r := by
  obtain ⟨c, hc⟩ := hr
  rw [look_of_lookup hc, look_of_lookup (hg.kept r c hc)]

theorem rename_eq (hg : s.Grows h s') {w : Value} (hw : ∀ t, w.ref? = some t → s.Has t) :
    w.rename s'.look = w.rename s.look :=
  Value.rename_congr fun t ht => hg.look_eq (hw t ht)

/-- A finished copy stays finished. -/
theorem of_done (hg : s.Grows h s') {r c : Ref} (hd : s.Done h r c) (hc : c.index < s.heap.size) :
    s'.Done h r c := by
  obtain ⟨o, ho, ht, hget⟩ := hd
  refine ⟨o, ho, fun t hm => hg.has (ht t hm), ?_⟩
  have hvalues : o.values.map (Value.rename s'.look) = o.values.map (Value.rename s.look) := by
    refine List.map_congr_left fun w hw => hg.rename_eq fun t hwt => ht t ?_
    exact List.mem_filterMap.mpr ⟨w, hw, hwt⟩
  rw [hg.unchanged c hc, hget, hvalues]

theorem trans (hg : s.Grows h s') (hu : s'.Underway h v) (hg' : s'.Grows h s'') :
    s.Grows h s'' where
  size_le := Nat.le_trans hg.size_le hg'.size_le
  unchanged r hr := by
    rw [hg'.unchanged r (Nat.lt_of_lt_of_le hr hg.size_le), hg.unchanged r hr]
  kept r c hc := hg'.kept r c (hg.kept r c hc)
  done r c hc := by
    rcases hg'.done r c hc with hc' | hd
    · rcases hg.done r c hc' with hc'' | hd
      · exact Or.inl hc''
      · exact Or.inr (hg'.of_done hd (hu.fresh r c hc').2)
    · exact Or.inr hd

end Grows

/-! ## What is left to copy -/

/-- The collections that have no copy yet. -/
def left (h : Heap) (s : Copying) : Finset Nat :=
  (Finset.range h.size).filter fun i => s.copies.lookup ⟨i⟩ = none

theorem mem_left {r : Ref} : r.index ∈ s.left h ↔ r.index < h.size ∧ s.copies.lookup r = none := by
  simp [left]

theorem Grows.left_card_le (hg : s.Grows h s') : (s'.left h).card ≤ (s.left h).card := by
  refine Finset.card_le_card fun i hi => ?_
  obtain ⟨hlt, hn⟩ := (mem_left (r := ⟨i⟩)).mp hi
  refine (mem_left (r := ⟨i⟩)).mpr ⟨hlt, ?_⟩
  cases hl : s.copies.lookup ⟨i⟩ with
  | none => rfl
  | some c =>
    rw [hg.kept _ _ hl] at hn
    exact absurd hn (by simp)

/-! ## Opening a copy and filling it -/

/-- The state in which `r` has a copy that is yet to be filled. -/
def opened (s : Copying) (r : Ref) (o : Object) : Copying :=
  ⟨(s.heap.alloc o.outline).1, (r, s.heap.next) :: s.copies⟩

/-- The state with something else in the place of a copy. -/
def filled (s : Copying) (c : Ref) (o : Object) : Copying := ⟨s.heap.set c o, s.copies⟩

theorem lookup_opened (s : Copying) (r x : Ref) (o : Object) :
    (s.opened r o).copies.lookup x = if x = r then some s.heap.next else s.copies.lookup x := by
  show ((r, s.heap.next) :: s.copies).lookup x = _
  rw [List.lookup_cons]
  by_cases hx : x = r
  · rw [if_pos hx, beq_iff_eq.mpr hx]
  · rw [if_neg hx, beq_eq_false_iff_ne.mpr hx]

theorem size_opened (s : Copying) (r : Ref) (o : Object) :
    (s.opened r o).heap.size = s.heap.size + 1 := by
  simp [opened, Heap.alloc, Heap.size]

theorem left_opened_card_lt {r : Ref} {o : Object} (hr : r.index < h.size)
    (hn : s.copies.lookup r = none) : ((s.opened r o).left h).card < (s.left h).card := by
  have hsub : (s.opened r o).left h ⊆ s.left h := by
    intro i hi
    obtain ⟨hlt, hi⟩ := (mem_left (r := ⟨i⟩)).mp hi
    refine (mem_left (r := ⟨i⟩)).mpr ⟨hlt, ?_⟩
    rw [lookup_opened] at hi
    by_cases hx : (⟨i⟩ : Ref) = r
    · exact hx ▸ hn
    · rwa [if_neg hx] at hi
  refine Finset.card_lt_card ((Finset.ssubset_iff_of_subset hsub).mpr ⟨r.index, ?_, ?_⟩)
  · exact mem_left.mpr ⟨hr, hn⟩
  · intro hm
    have hl := (mem_left.mp hm).2
    rw [lookup_opened, if_pos rfl] at hl
    exact absurd hl (by simp)

theorem ne_next {s : Copying} {r : Ref} (hr : r.index < s.heap.size) : r ≠ s.heap.next := by
  rintro rfl
  exact absurd hr (Nat.lt_irrefl _)

theorem get?_opened {r x : Ref} {o : Object} (hx : x.index < s.heap.size) :
    (s.opened r o).heap.get? x = s.heap.get? x :=
  Heap.get?_alloc_of_ne (ne_next hx)

theorem Underway.opened (hu : s.Underway h v) {r : Ref} {o : Object} (hr : h.Leads v r)
    (hn : s.copies.lookup r = none) : (s.opened r o).Underway h v where
  size_le := by
    rw [size_opened]
    exact Nat.le_succ_of_le hu.size_le
  unchanged x hx := by
    rw [get?_opened (Nat.lt_of_lt_of_le hx hu.size_le), hu.unchanged x hx]
  source x c hc := by
    rw [lookup_opened] at hc
    by_cases hx : x = r
    · exact hx ▸ hr
    · rw [if_neg hx] at hc
      exact hu.source x c hc
  fresh x c hc := by
    rw [size_opened]
    rw [lookup_opened] at hc
    by_cases hx : x = r
    · rw [if_pos hx, Option.some.injEq] at hc
      subst hc
      exact ⟨hu.size_le, Nat.lt_succ_self _⟩
    · rw [if_neg hx] at hc
      have := hu.fresh x c hc
      exact ⟨this.1, Nat.lt_succ_of_lt this.2⟩
  injective x y c hx hy := by
    rw [lookup_opened] at hx hy
    -- the new copy is not one of those that were there
    have hnew : ∀ z, s.copies.lookup z ≠ some s.heap.next := fun z hz =>
      absurd (hu.fresh z _ hz).2 (Nat.lt_irrefl _)
    by_cases hxr : x = r
    · by_cases hyr : y = r
      · rw [hxr, hyr]
      · rw [if_pos hxr, Option.some.injEq] at hx
        rw [if_neg hyr, ← hx] at hy
        exact absurd hy (hnew y)
    · by_cases hyr : y = r
      · rw [if_pos hyr, Option.some.injEq] at hy
        rw [if_neg hxr, ← hy] at hx
        exact absurd hx (hnew x)
      · rw [if_neg hxr] at hx
        rw [if_neg hyr] at hy
        exact hu.injective x y c hx hy
  onto c hc hlt := by
    rw [size_opened] at hlt
    rcases Nat.lt_succ_iff_lt_or_eq.mp hlt with hlt | he
    · obtain ⟨x, hx⟩ := hu.onto c hc hlt
      have hxr : x ≠ r := by
        rintro rfl
        rw [hn] at hx
        exact absurd hx (by simp)
      exact ⟨x, by rw [lookup_opened, if_neg hxr, hx]⟩
    · refine ⟨r, ?_⟩
      rw [lookup_opened, if_pos rfl]
      obtain ⟨i⟩ := c
      exact congrArg some (congrArg Ref.mk he.symm)

theorem Underway.filled (hu : s.Underway h v) {c : Ref} (o : Object) (hc : h.size ≤ c.index) :
    (s.filled c o).Underway h v := by
  have hsize : (s.filled c o).heap.size = s.heap.size := Array.size_setIfInBounds
  refine ⟨hsize ▸ hu.size_le, fun x hx => ?_, hu.source, fun x d hd => ?_, hu.injective,
    fun d hd hlt => hu.onto d hd (hsize ▸ hlt)⟩
  · have hne : x ≠ c := by
      rintro rfl
      omega
    rw [← hu.unchanged x hx]
    exact Heap.get?_set_of_ne o hne
  · rw [hsize]
    exact hu.fresh x d hd

theorem Done.filled {r c d : Ref} {o : Object} (hd : s.Done h r c) (hne : c ≠ d) :
    (s.filled d o).Done h r c := by
  obtain ⟨o', ho', ht, hget⟩ := hd
  exact ⟨o', ho', ht, (Heap.get?_set_of_ne o hne).trans hget⟩

/-- Filling the copy that was opened finishes it, so that none has come that is not finished. -/
theorem Grows.close {r : Ref} {o : Object} (hn : s.copies.lookup r = none)
    (ho : h.get? r = some o) (hg : (s.opened r o).Grows h s') (hu : s'.Underway h v)
    (hhas : ∀ t ∈ o.refs, s'.Has t) :
    s.Grows h (s'.filled s.heap.next (o.refill (o.values.map (Value.rename s'.look)))) := by
  have hle : s.heap.size + 1 ≤ s'.heap.size := by
    rw [← size_opened s r o]
    exact hg.size_le
  have hnew : s'.copies.lookup r = some s.heap.next :=
    hg.kept r _ (by rw [lookup_opened, if_pos rfl])
  refine ⟨?_, ?_, ?_, ?_⟩
  · show s.heap.size ≤ (s'.heap.set s.heap.next _).objects.size
    rw [Heap.set, Array.size_setIfInBounds]
    exact Nat.le_of_succ_le hle
  · intro x hx
    have hx' : x.index < (s.opened r o).heap.size := by
      rw [size_opened]
      exact Nat.lt_succ_of_lt hx
    rw [← get?_opened (r := r) (o := o) hx, ← hg.unchanged x hx']
    exact Heap.get?_set_of_ne _ (ne_next hx)
  · intro x c hc
    have hxr : x ≠ r := by
      rintro rfl
      rw [hn] at hc
      exact absurd hc (by simp)
    exact hg.kept x c (by rw [lookup_opened, if_neg hxr, hc])
  · intro x c hc
    have hc' : s'.copies.lookup x = some c := hc
    by_cases hxr : x = r
    · subst hxr
      rw [hnew, Option.some.injEq] at hc'
      subst hc'
      obtain ⟨old, hold⟩ := Heap.exists_get? (h := s'.heap) (r := s.heap.next) hle
      exact Or.inr ⟨o, ho, hhas, Heap.get?_set_self _ hold⟩
    · rcases hg.done x c hc' with hc'' | hd
      · rw [lookup_opened, if_neg hxr] at hc''
        exact Or.inl hc''
      · refine Or.inr (hd.filled ?_)
        rintro rfl
        exact hxr (hu.injective x r _ hc' hnew)

/-! ## Copying -/

/-- A value with nothing left to copy. -/
theorem copy_of_has (depth : Nat) {w : Value} (hw : ∀ t, w.ref? = some t → s.Has t) :
    copy depth s w = (s, w.rename s.look) := by
  cases w with
  | collection r =>
    obtain ⟨c, hc⟩ := hw r rfl
    unfold copy
    rw [hc, Value.rename, look_of_lookup hc]
  | _ => cases depth <;> rfl

theorem copy_succ (depth : Nat) {r : Ref} {o : Object} (hn : s.copies.lookup r = none)
    (ho : s.heap.get? r = some o) :
    copy (depth + 1) s (.collection r) =
      ((mapAccum (copy depth) (s.opened r o) o.values).1.filled s.heap.next
        (o.refill (mapAccum (copy depth) (s.opened r o) o.values).2),
        .collection s.heap.next) := by
  unfold copy
  rw [hn]
  dsimp only
  rw [ho]
  rfl

/-- What copying `ws` one after another adds to a state, and what their copies are. -/
structure CopiesAll (h : Heap) (v : Value) (s : Copying) (ws : List Value)
    (r : Copying × List Value) : Prop where
  underway : r.1.Underway h v
  grows : s.Grows h r.1
  has (w : Value) : w ∈ ws → ∀ t, w.ref? = some t → r.1.Has t
  values : r.2 = ws.map (Value.rename r.1.look)

/-- The same of one value. -/
structure Copies (h : Heap) (v : Value) (s : Copying) (w : Value) (r : Copying × Value) : Prop where
  underway : r.1.Underway h v
  grows : s.Grows h r.1
  has (t : Ref) : w.ref? = some t → r.1.Has t
  value : r.2 = w.rename r.1.look

/-- Along a list: what is copied first keeps its copy. -/
theorem mapAccum_copiesAll {f g : Copying → Value → Copying × Value} {depth : Nat}
    (hf : ∀ s w, s.Underway h v → (∀ t, w.ref? = some t → h.Leads v t) →
      (s.left h).card ≤ depth → Copies h v s w (f s w) ∧ g s w = f s w)
    (ws : List Value) (s : Copying) (hu : s.Underway h v)
    (hw : ∀ w ∈ ws, ∀ t, w.ref? = some t → h.Leads v t) (hd : (s.left h).card ≤ depth) :
    CopiesAll h v s ws (mapAccum f s ws) ∧ mapAccum g s ws = mapAccum f s ws := by
  induction ws generalizing s with
  | nil => exact ⟨⟨hu, .refl h s, fun w hm => absurd hm List.not_mem_nil, rfl⟩, rfl⟩
  | cons w rest ih =>
    obtain ⟨hc, hg⟩ := hf s w hu (hw w List.mem_cons_self) hd
    obtain ⟨hrest, hgrest⟩ := ih (f s w).1 hc.underway
      (fun u hm => hw u (List.mem_cons_of_mem _ hm)) (Nat.le_trans hc.grows.left_card_le hd)
    refine ⟨⟨hrest.underway, hc.grows.trans hc.underway hrest.grows, fun u hm => ?_, ?_⟩, ?_⟩
    · rcases List.mem_cons.mp hm with rfl | hm
      · exact fun t ht => hrest.grows.has (hc.has t ht)
      · exact hrest.has u hm
    · show (f s w).2 :: (mapAccum f (f s w).1 rest).2 = _
      rw [hc.value, hrest.values, List.map_cons, ← hrest.grows.rename_eq hc.has]
      rfl
    · show ((mapAccum g (g s w).1 rest).1, (g s w).2 :: (mapAccum g (g s w).1 rest).2) = _
      rw [hg, hgrest]
      rfl

/-- A collection with no copy is among those that are left, and is as it was at first. -/
theorem has_or_left (hc : h.Closed) (hv : h.Covers v) (hu : s.Underway h v) {w : Value}
    (hw : ∀ t, w.ref? = some t → h.Leads v t) :
    (∀ t, w.ref? = some t → s.Has t) ∨
      ∃ r o, w = .collection r ∧ s.copies.lookup r = none ∧ r.index < h.size ∧
        h.get? r = some o ∧ s.heap.get? r = some o := by
  cases w with
  | collection r =>
    have hlt : r.index < h.size := (hw r rfl).index_lt hc hv
    cases hl : s.copies.lookup r with
    | some c =>
      refine Or.inl fun t ht => ?_
      cases ht
      exact ⟨c, hl⟩
    | none =>
      obtain ⟨o, ho⟩ := Heap.exists_get? hlt
      exact Or.inr ⟨r, o, rfl, hl, hlt, ho, (hu.unchanged r hlt).trans ho⟩
  | _ => exact Or.inl fun t ht => absurd ht (by simp [Value.ref?])

/-- **Copying one value**, from any state under way and with as much depth as there are collections
left. More depth makes no difference. -/
theorem copy_copies (hc : h.Closed) (hv : h.Covers v) (depth : Nat) (s : Copying) (w : Value)
    (hu : s.Underway h v) (hw : ∀ t, w.ref? = some t → h.Leads v t)
    (hd : (s.left h).card ≤ depth) (n : Nat) (hn : depth ≤ n) :
    Copies h v s w (copy depth s w) ∧ copy n s w = copy depth s w := by
  induction depth generalizing s w n with
  | zero =>
    rcases has_or_left hc hv hu hw with hs | ⟨r, o, rfl, hnone, hlt, -, -⟩
    · rw [copy_of_has 0 hs, copy_of_has n hs]
      exact ⟨⟨hu, .refl h s, hs, rfl⟩, rfl⟩
    · -- no depth is left, but neither is a collection
      have hpos := Finset.card_pos.mpr ⟨r.index, mem_left.mpr ⟨hlt, hnone⟩⟩
      exact absurd hd (Nat.not_le.mpr hpos)
  | succ depth ih =>
    rcases has_or_left hc hv hu hw with hs | ⟨r, o, rfl, hnone, hlt, ho, hso⟩
    · rw [copy_of_has (depth + 1) hs, copy_of_has n hs]
      exact ⟨⟨hu, .refl h s, hs, rfl⟩, rfl⟩
    · obtain ⟨n, rfl⟩ : ∃ k, n = k + 1 := ⟨n - 1, by omega⟩
      have hr : h.Leads v r := hw r rfl
      have hleads : ∀ u ∈ o.values, ∀ t, u.ref? = some t → h.Leads v t := fun u hu t ht =>
        hr.on ho (List.mem_filterMap.mpr ⟨u, hu, ht⟩)
      have hfewer : ((s.opened r o).left h).card ≤ depth :=
        Nat.le_of_lt_succ (Nat.lt_of_lt_of_le (left_opened_card_lt hlt hnone) hd)
      -- what `r` holds is copied while the copy of `r` is open
      obtain ⟨hall, hmore⟩ := mapAccum_copiesAll (g := copy n)
        (fun s w hu hw hd => ih s w hu hw hd n (Nat.le_of_succ_le_succ hn)) o.values
        (s.opened r o) (hu.opened hr hnone) hleads hfewer
      rw [copy_succ depth hnone hso, copy_succ n hnone hso, hmore, hall.values]
      have hhas : ∀ t ∈ o.refs, (mapAccum (copy depth) (s.opened r o) o.values).1.Has t := by
        intro t ht
        obtain ⟨u, hu, hut⟩ := List.mem_filterMap.mp ht
        exact hall.has u hu t hut
      have hcopy := hall.grows.kept r s.heap.next (by rw [lookup_opened, if_pos rfl])
      generalize mapAccum (copy depth) (s.opened r o) o.values = inner at hall hhas hcopy
      refine ⟨⟨?_, ?_, fun t ht => ?_, ?_⟩, rfl⟩
      · exact hall.underway.filled _ hu.size_le
      · exact hall.grows.close hnone ho hall.underway hhas
      · cases ht
        exact ⟨_, hcopy⟩
      · exact congrArg Value.collection (look_of_lookup hcopy).symm

/-! ## The whole copy -/

theorem Underway.start (h : Heap) (v : Value) : Underway h v ⟨h, []⟩ where
  size_le := Nat.le_refl _
  unchanged _ _ := rfl
  source r c hl := absurd hl (by simp)
  fresh r c hl := absurd hl (by simp)
  injective r r' c hl := absurd hl (by simp)
  onto c hc hlt := absurd hlt (Nat.not_lt.mpr hc)

theorem left_card_le (h : Heap) (s : Copying) : (s.left h).card ≤ h.size := by
  have := Finset.card_filter_le (Finset.range h.size) fun i => s.copies.lookup ⟨i⟩ = none
  rwa [Finset.card_range] at this

/-- When all is done, every collection that the value leads to has a finished copy. -/
theorem Copies.done_of_leads {r : Copying × Value} (hcopy : Copies h v ⟨h, []⟩ v r) {x : Ref}
    (hx : h.Leads v x) : ∃ c, r.1.copies.lookup x = some c ∧ r.1.Done h x c := by
  have hdone : ∀ y, r.1.Has y → ∃ c, r.1.copies.lookup y = some c ∧ r.1.Done h y c := by
    rintro y ⟨c, hc⟩
    rcases hcopy.grows.done y c hc with hl | hd
    · exact absurd hl (by simp)
    · exact ⟨c, hc, hd⟩
  induction hx with
  | here hx => exact hdone _ (hcopy.has _ hx)
  | on _ ho hs ih =>
    obtain ⟨c, -, o, ho', ht, -⟩ := ih
    rw [ho, Option.some.injEq] at ho'
    subst ho'
    exact hdone _ (ht _ hs)

/-- A renaming takes the value to its copy and every collection to its counterpart. -/
theorem Copies.iso {r : Copying × Value} (hcopy : Copies h v ⟨h, []⟩ v r) :
    h.Iso v r.1.look r.1.heap r.2 where
  value := hcopy.value
  injective x y hx hy he := by
    obtain ⟨c, hc, -⟩ := hcopy.done_of_leads hx
    obtain ⟨d, hd, -⟩ := hcopy.done_of_leads hy
    rw [look_of_lookup hc, look_of_lookup hd] at he
    exact hcopy.underway.injective x y c hc (he ▸ hd)
  counterpart x hx := by
    obtain ⟨c, hc, o, ho, -, hget⟩ := hcopy.done_of_leads hx
    rw [look_of_lookup hc]
    exact ⟨o, _, ho, hget, o.refill_counterpart r.1.look⟩

/-- The new objects are the copies. -/
theorem Copies.new_iff {r : Copying × Value} (hcopy : Copies h v ⟨h, []⟩ v r) (s : Ref) :
    (h.size ≤ s.index ∧ s.index < r.1.heap.size) ↔ ∃ x, h.Leads v x ∧ r.1.look x = s := by
  constructor
  · rintro ⟨hle, hlt⟩
    obtain ⟨x, hx⟩ := hcopy.underway.onto s hle hlt
    exact ⟨x, hcopy.underway.source x s hx, look_of_lookup hx⟩
  · rintro ⟨x, hx, rfl⟩
    obtain ⟨c, hc, -⟩ := hcopy.done_of_leads hx
    rw [look_of_lookup hc]
    exact hcopy.underway.fresh x c hc

end Copying

namespace Heap

/-- What copying a value comes to, and that it takes no more depth than there are objects. -/
theorem copies_copy {h : Heap} {v : Value} (hc : h.Closed) (hv : h.Covers v) (depth : Nat)
    (hd : h.size ≤ depth) :
    Copying.Copies h v ⟨h, []⟩ v (Copying.copy h.size ⟨h, []⟩ v) ∧
      Copying.copy depth ⟨h, []⟩ v = Copying.copy h.size ⟨h, []⟩ v :=
  Copying.copy_copies hc hv h.size ⟨h, []⟩ v (.start h v) (fun _ ht => .here ht)
    (Copying.left_card_le h _) depth hd

/-- With the copy in it a heap is closed again, so that copies can be copied. -/
theorem copy_closed {h : Heap} {v : Value} (hc : h.Closed) (hv : h.Covers v) :
    (h.copy v).1.Closed ∧ (h.copy v).1.Covers (h.copy v).2 := by
  obtain ⟨hcopy, -⟩ := copies_copy hc hv h.size (Nat.le_refl _)
  have hdef : h.copy v =
      ((Copying.copy h.size ⟨h, []⟩ v).1.heap, (Copying.copy h.size ⟨h, []⟩ v).2) := rfl
  rw [hdef]
  generalize Copying.copy h.size ⟨h, []⟩ v = r at hcopy
  have hleads : ∀ s, r.1.heap.Leads r.2 s → s.index < r.1.heap.size := fun s hs =>
    ((hcopy.new_iff s).mpr ((hcopy.iso.leads_iff s).mp hs)).2
  refine ⟨?_, fun s hs => hleads s (.here hs)⟩
  intro s o ho w hw t ht
  by_cases hs : s.index < h.size
  · rw [hcopy.underway.unchanged s hs] at ho
    exact Nat.lt_of_lt_of_le (hc s o ho w hw t ht) hcopy.underway.size_le
  · -- a new object is one that the copy leads to, and so is what it refers to
    have hlt : s.index < r.1.heap.size := (Array.getElem?_eq_some_iff.mp ho).1
    have hnew := (hcopy.iso.leads_iff s).mpr ((hcopy.new_iff s).mp ⟨Nat.le_of_not_lt hs, hlt⟩)
    exact hleads t (hnew.on ho (List.mem_filterMap.mpr ⟨w, hw, ht⟩))

/-- **A copy is a graph of its own, like that of its original.** The copying of `v` comes to an end: as
much depth as the heap has objects is enough, and no more changes anything. Every object that was there
is as it was. There is one new object for each collection that `v` leads to, and no other; and the
copy leads to the new ones and to no other. -/
theorem copy_iso (h : Heap) (hc : h.Closed) (v : Value) (hv : h.Covers v) :
    (∀ depth, h.size ≤ depth → Copying.copy depth ⟨h, []⟩ v = Copying.copy h.size ⟨h, []⟩ v) ∧
    (∀ r, r.index < h.size → (h.copy v).1.get? r = h.get? r) ∧
    ∃ φ, h.Iso v φ (h.copy v).1 (h.copy v).2 ∧
      (∀ s, (h.copy v).1.Leads (h.copy v).2 s ↔ ∃ r, h.Leads v r ∧ φ r = s) ∧
      ∀ s, (h.size ≤ s.index ∧ s.index < (h.copy v).1.size) ↔ ∃ r, h.Leads v r ∧ φ r = s := by
  refine ⟨fun depth hd => (copies_copy hc hv depth hd).2, ?_⟩
  obtain ⟨hcopy, -⟩ := copies_copy hc hv h.size (Nat.le_refl _)
  exact ⟨hcopy.underway.unchanged, _, hcopy.iso, hcopy.iso.leads_iff, hcopy.new_iff⟩

/-- A map that holds itself, and a record twice that holds the map. -/
def ring : Heap where
  objects :=
    #[.map [("self", .collection ⟨0⟩), ("node", .collection ⟨1⟩), ("again", .collection ⟨1⟩)],
      .record "Node" [("owner", .collection ⟨0⟩), ("rank", .int 7)]]

/-- The copy of a ring is another ring, behind the first. -/
theorem ring_copy :
    (ring.copy (.collection ⟨0⟩)).2 = .collection ⟨2⟩ ∧
      (ring.copy (.collection ⟨0⟩)).1.size = 4 ∧
      ∃ φ, ring.Iso (.collection ⟨0⟩) φ (ring.copy (.collection ⟨0⟩)).1
        (ring.copy (.collection ⟨0⟩)).2 := by
  obtain ⟨-, -, φ, hiso, -⟩ := ring.copy_iso (by decide) (.collection ⟨0⟩) (by decide)
  exact ⟨rfl, rfl, φ, hiso⟩

end Heap

end RegisterMachine
