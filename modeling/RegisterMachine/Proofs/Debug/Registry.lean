import Mathlib.Data.List.Induction
import Mathlib.Data.List.Nodup
import Mathlib.Data.Set.Card
import RegisterMachine.Proofs.Debug.Replacing

/-!
# Breakpoints are a set

A set of breakpoints is kept as a list in order without repetitions, so that it is nothing but the set:
whatever is done to it, what it answers afterwards depends only on which positions stand then
(**`Breakpoints.edits_leave_set`**). `Breakpoints.Stands` says which these are.

There is another way to keep the same set, which is to have for each source the set of its lines. No order
can be relied on then, neither among the sources nor among the lines of one, and a list has to be made
and sorted whenever one is asked for. `BySource` is that way, with the order left open: it gives the same
answers in whatever order it is gone through.
-/

namespace RegisterMachine

/-! ## The order of positions -/

namespace SourcePos

variable {p q r : SourcePos}

theorem before_iff :
    p.before q = true ↔ p.source < q.source ∨ p.source = q.source ∧ p.line < q.line := by
  simp [before]

theorem before_irrefl (p : SourcePos) : p.before p = false := by
  rw [← Bool.not_eq_true, before_iff]
  rintro (hsource | ⟨-, hline⟩)
  · exact String.lt_irrefl _ hsource
  · exact UInt32.lt_irrefl _ hline

theorem before_trans (hpq : p.before q = true) (hqr : q.before r = true) : p.before r = true := by
  rw [before_iff] at hpq hqr ⊢
  rcases hpq with hsource | ⟨hsource, hline⟩
  · rcases hqr with hsource' | ⟨hsource', -⟩
    · exact .inl (String.lt_trans hsource hsource')
    · exact .inl (hsource' ▸ hsource)
  · rcases hqr with hsource' | ⟨hsource', hline'⟩
    · exact .inl (hsource ▸ hsource')
    · exact .inr ⟨hsource.trans hsource', UInt32.lt_trans hline hline'⟩

theorem before_asymm (hpq : p.before q = true) : q.before p = false := by
  rw [← Bool.not_eq_true]
  intro hqp
  simpa [before_irrefl] using before_trans hpq hqp

/-- Of two positions one stands before the other. -/
theorem eq_of_not_before (hpq : p.before q = false) (hqp : q.before p = false) : p = q := by
  rw [← Bool.not_eq_true, before_iff, not_or, not_and] at hpq hqp
  have hsource : p.source = q.source :=
    String.le_antisymm (String.not_lt.mp hqp.1) (String.not_lt.mp hpq.1)
  have hline : p.line = q.line :=
    UInt32.le_antisymm (UInt32.not_lt.mp (hqp.2 hsource.symm)) (UInt32.not_lt.mp (hpq.2 hsource))
  cases p
  cases q
  exact SourcePos.mk.injEq .. ▸ ⟨hsource, hline⟩

theorem not_before_trans (hqp : q.before p = false) (hrq : r.before q = false) : r.before p = false := by
  rw [← Bool.not_eq_true] at hrq ⊢
  intro hrp
  cases hpq : p.before q with
  | true => exact hrq (before_trans hrp hpq)
  | false =>
    rw [eq_of_not_before hpq hqp] at hrp
    exact hrq hrp

end SourcePos

namespace Breakpoints

variable {b : Breakpoints} {p q : SourcePos} {ps : List SourcePos}

/-! ## Kept in order -/

/-- The members are in order, each but once. -/
def Ordered (b : Breakpoints) : Prop := b.toList.Pairwise fun p q => p.before q = true

theorem ordered_insertInto (h : ps.Pairwise fun p q => p.before q = true) :
    (insertInto p ps).Pairwise fun p q => p.before q = true := by
  induction ps with
  | nil => simp [insertInto]
  | cons q rest ih =>
    obtain ⟨hfirst, hrest⟩ := List.pairwise_cons.mp h
    unfold insertInto
    split
    · exact h
    split
    next hbefore =>
      refine List.pairwise_cons.mpr ⟨?_, h⟩
      intro r hr
      rcases List.mem_cons.mp hr with rfl | hr
      · exact hbefore
      · exact SourcePos.before_trans hbefore (hfirst r hr)
    next hne hbefore =>
      refine List.pairwise_cons.mpr ⟨?_, ih hrest⟩
      intro r hr
      rcases mem_insertInto.mp hr with rfl | hr
      · by_contra hbehind
        exact hne (SourcePos.eq_of_not_before (by simpa using hbefore) (by simpa using hbehind))
      · exact hfirst r hr

theorem Ordered.empty : empty.Ordered := List.Pairwise.nil

theorem Ordered.insert (h : b.Ordered) (p : SourcePos) : (b.insert p).Ordered := ordered_insertInto h

theorem Ordered.insertAll (h : b.Ordered) (ps : List SourcePos) : (b.insertAll ps).Ordered := by
  induction ps generalizing b with
  | nil => exact h
  | cons p rest ih => exact ih (h.insert p)

theorem Ordered.nodup (h : b.Ordered) : b.toList.Nodup := by
  refine h.imp ?_
  rintro p q hbefore rfl
  simp [SourcePos.before_irrefl] at hbefore

theorem Ordered.perm (h : b.Ordered) (hnodup : ps.Nodup) (hmem : ∀ p, p ∈ ps ↔ b.contains p = true) :
    ps.Perm b.toList := by
  rw [List.perm_ext_iff_of_nodup hnodup h.nodup]
  intro p
  rw [hmem, contains, List.contains_iff_mem]

theorem Ordered.toList_eq (h : b.Ordered) (hperm : ps.Perm b.toList)
    (hsorted : ps.Pairwise fun p q => q.before p = false) : ps = b.toList := by
  refine hperm.eq_of_pairwise ?_ hsorted (h.imp SourcePos.before_asymm)
  intro p q _ _ hqp hpq
  exact SourcePos.eq_of_not_before hpq hqp

/-- Which list it is, is settled by what is in it. -/
theorem Ordered.toList_inj {b' : Breakpoints} (h : b.Ordered) (h' : b'.Ordered) :
    b'.toList = b.toList ↔ ∀ p, b'.contains p = true ↔ b.contains p = true := by
  constructor
  · intro heq p
    rw [contains, contains, heq]
  · intro hmem
    refine h.toList_eq (h.perm h'.nodup fun p => ?_) (h'.imp SourcePos.before_asymm)
    rw [← hmem, contains, List.contains_iff_mem]

/-! ## Editing -/

/-- What can be done to a set of breakpoints. -/
inductive Edit
  | add (p : SourcePos)
  | replace (all : List SourcePos)
  | clear

namespace Edit

/-- The positions that an edit brings in. -/
def positions : Edit → List SourcePos
  | add p => [p]
  | replace all => all
  | clear => []

/-- Whether an edit does away with what there was. -/
def clears : Edit → Bool
  | add _ => false
  | replace _ | clear => true

end Edit

/-- A position stands that was brought in and not done away with afterwards. -/
def Stands (edits : List Edit) (p : SourcePos) : Prop :=
  ∃ before e after, edits = before ++ e :: after ∧ p ∈ e.positions ∧ ∀ e' ∈ after, e'.clears = false

theorem not_stands_nil : ¬ Stands [] p := by
  rintro ⟨before, e, after, heq, -⟩
  simp at heq

theorem stands_concat {edits : List Edit} {e : Edit} :
    Stands (edits ++ [e]) p ↔ p ∈ e.positions ∨ e.clears = false ∧ Stands edits p := by
  constructor
  · rintro ⟨before, e', after, heq, hp, hafter⟩
    cases after using List.reverseRecOn with
    | nil =>
      obtain ⟨-, rfl⟩ := List.append_singleton_inj.mp heq
      exact .inl hp
    | append_singleton after last =>
      rw [← List.cons_append, ← List.append_assoc] at heq
      obtain ⟨rfl, rfl⟩ := List.append_singleton_inj.mp heq
      simp only [List.forall_mem_append, List.forall_mem_singleton] at hafter
      exact .inr ⟨hafter.2, _, _, _, rfl, hp, hafter.1⟩
  · rintro (hp | ⟨hkeeps, before, e', after, rfl, hp, hafter⟩)
    · exact ⟨edits, e, [], rfl, hp, by simp⟩
    · refine ⟨before, e', after ++ [e], by simp, hp, List.forall_mem_append.mpr ⟨hafter, ?_⟩⟩
      exact List.forall_mem_singleton.mpr hkeeps

/-- Whatever has what an edit brings in, and keeps what an edit does not do away with, has in the end what
stands. -/
theorem foldl_edit_iff {σ : Type} (has : σ → SourcePos → Bool) {edit : σ → Edit → σ} {start : σ}
    (hstart : ∀ p, has start p = false)
    (hedit : ∀ s e p, has (edit s e) p = true ↔ p ∈ e.positions ∨ e.clears = false ∧ has s p = true)
    (edits : List Edit) (p : SourcePos) : has (edits.foldl edit start) p = true ↔ Stands edits p := by
  induction edits using List.reverseRecOn with
  | nil => simp [hstart, not_stands_nil]
  | append_singleton edits e ih =>
    rw [List.foldl_append, List.foldl_cons, List.foldl_nil, hedit, stands_concat, ih]

def edit (b : Breakpoints) : Edit → Breakpoints
  | .add p => b.insert p
  | .replace all => .ofList all
  | .clear => empty

/-- The set after these edits, starting with none. -/
def editAll (edits : List Edit) : Breakpoints := edits.foldl edit empty

theorem contains_edit {e : Edit} :
    (b.edit e).contains p = true ↔ p ∈ e.positions ∨ e.clears = false ∧ b.contains p = true := by
  cases e with
  | add q => simp [edit, Edit.positions, Edit.clears, insert, contains, mem_insertInto]
  | replace all => simp [edit, Edit.positions, Edit.clears, contains_ofList]
  | clear => simp [edit, Edit.positions, Edit.clears, contains, empty]

theorem Ordered.edit (h : b.Ordered) (e : Edit) : (b.edit e).Ordered := by
  cases e with
  | add p => exact h.insert p
  | replace all => exact Ordered.empty.insertAll all
  | clear => exact Ordered.empty

theorem ordered_foldl_edit (h : b.Ordered) (edits : List Edit) : (edits.foldl edit b).Ordered := by
  induction edits generalizing b with
  | nil => exact h
  | cons e rest ih => exact ih (h.edit e)

theorem ordered_editAll (edits : List Edit) : (editAll edits).Ordered :=
  ordered_foldl_edit Ordered.empty edits

theorem contains_editAll (edits : List Edit) (p : SourcePos) :
    (editAll edits).contains p = true ↔ Stands edits p :=
  foldl_edit_iff contains (fun _ => rfl) (fun _ _ _ => contains_edit) edits p

/-! ## Kept by source -/

/-- For each source the set of its lines. -/
structure BySource where
  lines : Std.HashMap String (Std.HashSet UInt32)

namespace BySource

variable {m : BySource}

def empty : BySource := ⟨∅⟩

def insert (m : BySource) (p : SourcePos) : BySource :=
  ⟨m.lines.alter p.source fun found => some ((found.getD ∅).insert p.line)⟩

def edit (m : BySource) : Edit → BySource
  | .add p => m.insert p
  | .replace all => all.foldl insert empty
  | .clear => empty

def editAll (edits : List Edit) : BySource := edits.foldl edit empty

def contains (m : BySource) (p : SourcePos) : Bool :=
  m.lines[p.source]?.any fun lines => lines.contains p.line

def size (m : BySource) : Nat := (m.lines.toList.map fun entry => entry.2.size).sum

/-- The members, gone through source by source in the order that the maps happen to have. -/
def listing (m : BySource) : List SourcePos :=
  m.lines.toList.flatMap fun entry => entry.2.toList.map fun line => ⟨entry.1, line⟩

/-- Brings a list of positions into order. -/
def inOrder (ps : List SourcePos) : List SourcePos := ps.mergeSort fun p q => !q.before p

theorem contains_eq_true_iff :
    m.contains p = true ↔ ∃ lines, m.lines[p.source]? = some lines ∧ p.line ∈ lines := by
  unfold contains
  cases m.lines[p.source]? <;> simp

theorem contains_insert : (m.insert p).contains q = true ↔ q = p ∨ m.contains q = true := by
  have hline : q = p ↔ p.source = q.source ∧ p.line = q.line := by
    cases p
    cases q
    simp [eq_comm]
  unfold contains insert
  rw [Std.HashMap.getElem?_alter, hline]
  by_cases hsource : p.source = q.source
  · cases hfound : m.lines[p.source]? <;> simp [← hsource, hfound]
  · simp [hsource]

theorem mem_listing : p ∈ m.listing ↔ m.contains p = true := by
  simp only [listing, List.mem_flatMap, List.mem_map, contains_eq_true_iff]
  constructor
  · rintro ⟨⟨source, lines⟩, hentry, line, hline, rfl⟩
    exact ⟨lines, Std.HashMap.mem_toList_iff_getElem?_eq_some.mp hentry, Std.HashSet.mem_toList.mp hline⟩
  · rintro ⟨lines, hfound, hline⟩
    exact ⟨(p.source, lines), Std.HashMap.mem_toList_iff_getElem?_eq_some.mpr hfound, p.line,
      Std.HashSet.mem_toList.mpr hline, rfl⟩

/-- No source comes twice, and no line of one. -/
theorem nodup_listing (m : BySource) : m.listing.Nodup := by
  refine List.nodup_flatMap.mpr ⟨fun entry _ => ?_, ?_⟩
  · have hlines : entry.2.toList.Nodup := Std.HashSet.distinct_toList.imp (by simp)
    refine hlines.map ?_
    intro line line' heq
    exact (SourcePos.mk.inj heq).2
  · refine Std.HashMap.distinct_keys_toList.imp ?_
    intro entry entry' hsources p hp hp'
    obtain ⟨line, -, rfl⟩ := List.mem_map.mp hp
    obtain ⟨line', -, heq⟩ := List.mem_map.mp hp'
    have hsource : entry'.1 = entry.1 := (SourcePos.mk.inj heq).1
    simp [hsource] at hsources

theorem length_listing (m : BySource) : m.listing.length = m.size := by
  simp [listing, size, List.length_flatMap]

theorem contains_foldl_insert (ps : List SourcePos) :
    (ps.foldl insert m).contains q = true ↔ m.contains q = true ∨ q ∈ ps := by
  induction ps generalizing m with
  | nil => simp
  | cons p rest ih =>
    rw [List.foldl_cons, ih, contains_insert, List.mem_cons]
    tauto

theorem contains_empty (p : SourcePos) : empty.contains p = false := by
  simp [contains, empty]

theorem contains_edit {e : Edit} :
    (m.edit e).contains p = true ↔ p ∈ e.positions ∨ e.clears = false ∧ m.contains p = true := by
  cases e with
  | add q => simp [edit, Edit.positions, Edit.clears, contains_insert]
  | replace all => simp [edit, Edit.positions, Edit.clears, contains_foldl_insert, contains_empty]
  | clear => simp [edit, Edit.positions, Edit.clears, contains_empty]

theorem contains_editAll (edits : List Edit) (p : SourcePos) :
    (editAll edits).contains p = true ↔ Stands edits p :=
  foldl_edit_iff contains contains_empty (fun _ _ _ => contains_edit) edits p

theorem listing_perm (edits : List Edit) :
    (editAll edits).listing.Perm (Breakpoints.editAll edits).toList := by
  refine (ordered_editAll edits).perm (nodup_listing _) fun p => ?_
  rw [mem_listing, contains_editAll, Breakpoints.contains_editAll]

theorem pairwise_inOrder (ps : List SourcePos) : (inOrder ps).Pairwise fun p q => q.before p = false := by
  have hsorted : (inOrder ps).Pairwise fun p q => (!q.before p) = true := by
    apply List.pairwise_mergeSort
    · intro p q r hpq hqr
      simpa using SourcePos.not_before_trans (by simpa using hpq) (by simpa using hqr)
    · intro p q
      cases hqp : q.before p with
      | false => simp
      | true => simp [SourcePos.before_asymm hqp]
  simpa using hsorted

/-- Whatever order the members are gone through in, bringing them into order gives the list of the set. -/
theorem inOrder_eq {edits : List Edit} {ps : List SourcePos} (h : ps.Perm (editAll edits).listing) :
    inOrder ps = (Breakpoints.editAll edits).toList := by
  have hperm : (inOrder ps).Perm ps := List.mergeSort_perm ps _
  exact (ordered_editAll edits).toList_eq ((hperm.trans h).trans (listing_perm edits)) (pairwise_inOrder ps)

end BySource

/-- **Breakpoints are a set.** After any edits a position is a member just where it stands, there are as
many members as positions that stand, and the list of them has each once, by source and then by line. Two
runs of edits leave the same just where the same positions stand after them. Keeping the lines of each
source by themselves gives the same answers, and the same list when the members are brought into order,
whatever order they were gone through in. -/
theorem edits_leave_set (edits : List Edit) :
    (∀ p, (editAll edits).contains p = true ↔ Stands edits p) ∧
    (editAll edits).size = {p | Stands edits p}.ncard ∧
    (∀ p, p ∈ (editAll edits).toList ↔ Stands edits p) ∧ (editAll edits).toList.Nodup ∧
    ((editAll edits).toList.Pairwise fun p q =>
      p.source < q.source ∨ p.source = q.source ∧ p.line < q.line) ∧
    (∀ edits', (editAll edits').toList = (editAll edits).toList ↔ ∀ p, Stands edits' p ↔ Stands edits p) ∧
    (∀ p, (BySource.editAll edits).contains p = (editAll edits).contains p) ∧
    (BySource.editAll edits).size = (editAll edits).size ∧
    ∀ listing, listing.Perm (BySource.editAll edits).listing →
      BySource.inOrder listing = (editAll edits).toList := by
  have hordered := ordered_editAll edits
  have hmem : ∀ p, p ∈ (editAll edits).toList ↔ Stands edits p := by
    intro p
    rw [← contains_editAll, contains, List.contains_iff_mem]
  refine ⟨contains_editAll edits, ?_, hmem, hordered.nodup, ?_, ?_, ?_, ?_, ?_⟩
  · have hset : {p | Stands edits p} = ((editAll edits).toList.toFinset : Set SourcePos) := by
      ext p
      simp [hmem]
    rw [hset, Set.ncard_coe_finset, List.toFinset_card_of_nodup hordered.nodup, size]
  · exact hordered.imp SourcePos.before_iff.mp
  · intro edits'
    rw [hordered.toList_inj (ordered_editAll edits')]
    simp only [contains_editAll]
  · intro p
    rw [Bool.eq_iff_iff, BySource.contains_editAll, contains_editAll]
  · rw [← BySource.length_listing, (BySource.listing_perm edits).length_eq, size]
  · intro listing hperm
    exact BySource.inOrder_eq hperm

end Breakpoints

end RegisterMachine
