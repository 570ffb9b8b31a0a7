import RegisterMachine.Proofs.Checked.Values
import RegisterMachine.Proofs.Machine.Local
import RegisterMachine.Proofs.Value.Unfolding

/-!
# A copy is nobody else's

Collections go on changing after a copy has been taken, and may come to hold one another: a collection of
the original may be put into one of the copy, or the other way round. `Change` is one such step, and
`Heap.after` any number of them. What can be seen of a value is what there is below it (`Heap.LooksSame`):
which collections, what each of them holds, what one finds by going down from one to the next, and the
lengths and texts of all that.

What can be seen of a value is a matter of the collections that it leads to (`Heap.SameBelow.looksSame`), and
a change touches no collection but its target (`Heap.get?_after`). **`Heap.copy_isolated`**: the copy leads to
new collections only, and whatever was there before leads to old ones only, so changes to the one kind are
not seen in the other.
-/

namespace RegisterMachine

namespace Heap

/-! ## One collection at a time -/

/-- What a heap becomes when one collection at most is written to, the one at `target?`, or when there is one
more. -/
inductive Touched (h : Heap) (target? : Option Ref) : Heap → Prop
  | same : Touched h target? h
  | written {r : Ref} (hr : target? = some r) (o : Object) : Touched h target? (h.set r o)
  | made (o : Object) : Touched h target? (h.alloc o).1

namespace Touched

variable {h k : Heap} {target? : Option Ref}

theorem size_le (ht : h.Touched target? k) : h.size ≤ k.size := by
  cases ht with
  | same => exact Nat.le_refl _
  | written hr o => exact Nat.le_of_eq (size_set h _ o).symm
  | made o => exact size_alloc h o ▸ Nat.le_succ _

/-- All other collections are left alone. -/
theorem get?_eq (ht : h.Touched target? k) {r : Ref} (hr : r.index < h.size) (hne : target? ≠ some r) :
    k.get? r = h.get? r := by
  cases ht with
  | same => rfl
  | written hs o =>
    refine get?_set_of_ne o ?_
    rintro rfl
    exact hne hs
  | made o =>
    refine get?_alloc_of_ne ?_
    rintro rfl
    exact Nat.lt_irrefl _ hr

end Touched

/-- An element is written into the array, or there is an error. -/
theorem setElement_touched (h : Heap) (r : Ref) (a : ArrayObject) (index : Int64) (v : Value) :
    Meets (h.Touched (some r)) (fun _ => True) (h.setElement r a index v) :=
  Meets.any.map fun b _ => .written rfl (.array b)

/-! ## Changes -/

/-- One step in the life of the collections. -/
inductive Change
  | setElement (array : Ref) (index : Int64) (v : Value)
  | pushElement (array : Ref) (v : Value)
  | insert (map : Ref) (key : String) (v : Value)
  | setField (record : Ref) (field : String) (v : Value)
  /-- A new collection, to be held by others later on. -/
  | make (o : Object)

/-- The collection that is changed. -/
def Change.target? : Change → Option Ref
  | setElement array _ _ => some array
  | pushElement array _ => some array
  | insert map _ _ => some map
  | setField record _ _ => some record
  | make _ => none

/-- What a change leaves. It changes nothing where it fails or where the collection is of another type. -/
def changed (h : Heap) : Change → Heap
  | .setElement r index v =>
      match h.get? r with
      | some (.array a) => (h.setElement r a index v).toOption.getD h
      | _ => h
  | .pushElement r v =>
      match h.get? r with
      | some (.array a) => (h.pushElement r a v).toOption.getD h
      | _ => h
  | .insert r key v =>
      match h.get? r with
      | some (.map entries) => h.set r (.map (entries.insert key v))
      | _ => h
  | .setField r field v =>
      match h.get? r with
      | some (.record typeName fields) => h.set r (.record typeName (fields.insert field v))
      | _ => h
  | .make o => (h.alloc o).1

def after (h : Heap) (changes : List Change) : Heap := changes.foldl changed h

variable {h : Heap} {r : Ref}

theorem changed_touched (h : Heap) (c : Change) : h.Touched c.target? (h.changed c) := by
  have elements : ∀ {r : Ref} (a : ArrayObject) (index : Int64) (v : Value),
      h.Touched (some r) ((h.setElement r a index v).toOption.getD h) := by
    intro r a index v
    have ht := h.setElement_touched r a index v
    cases hset : h.setElement r a index v with
    | ok k => exact ht.of_ok hset
    | error e => exact .same
  cases c with
  | setElement r index v =>
    dsimp only [changed]
    split
    · exact elements _ index v
    · exact .same
  | pushElement r v =>
    dsimp only [changed]
    split
    · exact elements _ _ v
    · exact .same
  | insert r key v =>
    dsimp only [changed]
    split
    · exact .written rfl _
    · exact .same
  | setField r field v =>
    dsimp only [changed]
    split
    · exact .written rfl _
    · exact .same
  | make o => exact .made o

theorem get?_after {changes : List Change} (hr : r.index < h.size)
    (hc : ∀ c ∈ changes, c.target? ≠ some r) : (h.after changes).get? r = h.get? r := by
  induction changes generalizing h with
  | nil => rfl
  | cons c changes ih =>
    have ht := h.changed_touched c
    have hrest := ih (Nat.lt_of_lt_of_le hr ht.size_le) fun d hd => hc d (List.mem_cons_of_mem _ hd)
    exact hrest.trans (ht.get?_eq hr (hc c List.mem_cons_self))

/-! ## What can be seen -/

/-- What to ask of a collection. -/
inductive Selector
  | element (index : Int64)
  | value (key : String)
  | field (name : String)

/-- The element, the value or the field that is asked for, as instructions load it. -/
def select (h : Heap) (v : Value) : Selector → Except ExecutionError Value
  | .element index => do
      let (_, a) ← h.expectArray v
      ExecutionError.ofArray (a.get index)
  | .value key => do
      let (_, entries) ← h.expectMap v
      .ok (entries.get key)
  | .field name => do
      let (_, _, fields) ← h.expectRecord v
      .ok (fields.get name)

/-- What one comes to by going down from a value. -/
def follow (h : Heap) : Value → List Selector → Except ExecutionError Value
  | v, [] => .ok v
  | v, sel :: sels => do
      let u ← h.select v sel
      h.follow u sels

/-- What there is to see of `v` in `k` is what there was in `h`. -/
structure LooksSame (h k : Heap) (v : Value) : Prop where
  leads (r : Ref) : k.Leads v r ↔ h.Leads v r
  contents (r : Ref) : h.Leads v r → k.get? r = h.get? r
  follow (sels : List Selector) : k.follow v sels = h.follow v sels
  tag (sels : List Selector) (u : Value) : h.follow v sels = .ok u → k.tag u = h.tag u
  length (sels : List Selector) (u : Value) : h.follow v sels = .ok u → k.lengthOf u = h.lengthOf u
  /-- The keys of a map are those that an iterator goes through. -/
  iterator (sels : List Selector) (u : Value) : h.follow v sels = .ok u →
    Iterator.over? k u = Iterator.over? h u
  text (sels : List Selector) (u : Value) : h.follow v sels = .ok u → k.text u = h.text u

/-- What there is below `v` is as it was. -/
def SameBelow (h k : Heap) (v : Value) : Prop := ∀ r, h.Leads v r → k.get? r = h.get? r

end Heap

/-- What an array delivers is one of its elements, or is the default of its kind, which is no reference. -/
theorem ArrayObject.mem_refs_of_get {a : ArrayObject} {index : Int64} {v : Value} {r : Ref}
    (hv : a.get index = .ok v) (hr : v.ref? = some r) : r ∈ (Object.array a).refs := by
  obtain ⟨kind, elements⟩ := a
  unfold ArrayObject.get Growable.get at hv
  cases hplace : readIndex index elements.size with
  | error e =>
    rw [hplace] at hv
    cases hv
  | ok place =>
    rw [hplace] at hv
    cases hv
    dsimp only at hr
    have hlt : place < elements.size := (readIndex_meets index elements.size).of_ok hplace
    by_cases hslot : place < elements.slots.size
    · refine mem_refs (List.mem_map.mpr ⟨elements.slots[place], ?_, rfl⟩) (by simpa [hslot] using hr)
      refine List.mem_take_iff_getElem.mpr ⟨place, ?_, by simp⟩
      simpa using ⟨hlt, hslot⟩
    · rw [Array.getD_eq_getD_getElem?, Array.getElem?_eq_none (Nat.le_of_not_lt hslot)] at hr
      cases kind <;> cases hr

theorem Value.rename_id (v : Value) : v.rename id = v := by
  cases v <;> rfl

/-- Renaming nothing, an object is its own counterpart. -/
theorem Object.counterpart_self (o : Object) : o.Counterpart id o := by
  have entries (xs : Entries) : xs = xs.map fun x => (x.1, x.2.rename id) := by
    simp [Value.rename_id]
  cases o with
  | array a =>
    refine .array rfl rfl rfl ?_
    rw [show Value.rename id = id from funext Value.rename_id, List.map_id]
  | map xs => exact .map (entries xs)
  | record name xs => exact .record (entries xs)

/-- The value of a key is in the map, or null. -/
theorem Entries.mem_of_get {entries : Entries} {key : String} {r : Ref}
    (hr : (entries.get key).ref? = some r) : ∃ v ∈ entries.map Prod.snd, v.ref? = some r := by
  unfold get get? at hr
  cases hl : entries.lookup key with
  | none =>
    rw [hl] at hr
    cases hr
  | some v =>
    rw [hl] at hr
    obtain ⟨before, behind, rfl, -⟩ := List.lookup_eq_some_iff.mp hl
    exact ⟨v, by simp, hr⟩

namespace Heap

variable {h k : Heap} {v u : Value} {sels : List Selector}

/-- What is found in a collection is below it. -/
theorem select_meets (h : Heap) (v : Value) (sel : Selector) :
    Meets (fun u => ∀ r, u.ref? = some r → h.Leads v r) (fun _ => True) (h.select v sel) := by
  have below : ∀ {s : Ref} {o : Object} {u : Value}, v.ref? = some s → h.get? s = some o →
      (∀ r, u.ref? = some r → r ∈ o.refs) → ∀ r, u.ref? = some r → h.Leads v r :=
    fun hs ho hu r hr => (Leads.here hs).on ho (hu r hr)
  have value : ∀ {entries : Entries} {key : String} {o : Object}, o.values = entries.map Prod.snd →
      ∀ r, (entries.get key).ref? = some r → r ∈ o.refs := by
    intro entries key o ho r hr
    obtain ⟨w, hw, hwr⟩ := Entries.mem_of_get hr
    exact List.mem_filterMap.mpr ⟨w, ho ▸ hw, hwr⟩
  cases sel with
  | element index =>
    refine ((h.expectArray_meets v).mono (fun _ hx => hx) fun _ _ => trivial).bind fun x hx => ?_
    obtain ⟨s, a⟩ := x
    show Meets _ _ (ExecutionError.ofArray (a.get index))
    cases hget : a.get index with
    | error e => exact trivial
    | ok w => exact below hx.1 hx.2 fun r hr => ArrayObject.mem_refs_of_get hget hr
  | value key =>
    refine ((h.expectMap_meets v).mono (fun _ hx => hx) fun _ _ => trivial).bind fun x hx => ?_
    exact below hx.1 hx.2 (value rfl)
  | field name =>
    refine ((h.expectRecord_meets v).mono (fun _ hx => hx) fun _ _ => trivial).bind fun x hx => ?_
    exact below hx.1 hx.2 (value rfl)

theorem Leads.of_value {r : Ref} (hr : h.Leads u r) (hu : ∀ s, u.ref? = some s → h.Leads v s) :
    h.Leads v r := by
  induction hr with
  | here hs => exact hu _ hs
  | on _ ho ht ih => exact ih.on ho ht

theorem follow_meets (h : Heap) (v : Value) (sels : List Selector) :
    Meets (fun u => ∀ r, h.Leads u r → h.Leads v r) (fun _ => True) (h.follow v sels) := by
  induction sels generalizing v with
  | nil => exact fun r hr => hr
  | cons sel sels ih =>
    refine (h.select_meets v sel).bind fun w hw => ?_
    exact (ih w).mono (fun u hu r hr => (hu r hr).of_value hw) fun _ _ => trivial

namespace SameBelow

variable (hs : h.SameBelow k v)
include hs

theorem object?_eq : k.object? v = h.object? v := by
  cases v with
  | collection r => rw [object?, object?, hs r (.here rfl)]
  | _ => rfl

theorem tag_eq : k.tag v = h.tag v := by
  cases v with
  | collection r => rw [tag, tag, hs r (.here rfl)]
  | _ => rfl

theorem lengthOf_eq : k.lengthOf v = h.lengthOf v := by
  unfold lengthOf
  rw [hs.object?_eq, hs.tag_eq]

theorem over?_eq : Iterator.over? k v = Iterator.over? h v := by
  cases v with
  | collection r => rw [Iterator.over?, Iterator.over?, hs r (.here rfl)]
  | _ => rfl

theorem select_eq (sel : Selector) : k.select v sel = h.select v sel := by
  cases sel with
  | element index => simp only [select, expectArray, hs.object?_eq, hs.tag_eq]
  | value key => simp only [select, expectMap, hs.object?_eq, hs.tag_eq]
  | field name => simp only [select, expectRecord, hs.object?_eq, hs.tag_eq]

/-- Going down one comes to the same values, and below them it is as it was, too. -/
theorem of_follow (hu : h.follow v sels = .ok u) : h.SameBelow k u := fun r hr =>
  hs r ((h.follow_meets v sels).of_ok hu r hr)

theorem follow_eq (sels : List Selector) : k.follow v sels = h.follow v sels := by
  induction sels generalizing v with
  | nil => rfl
  | cons sel sels ih =>
    rw [follow, follow, hs.select_eq sel]
    cases hw : h.select v sel with
    | error e => rfl
    | ok w => exact ih fun r hr => hs r (hr.of_value ((h.select_meets v sel).of_ok hw))

theorem leads_iff (r : Ref) : k.Leads v r ↔ h.Leads v r := by
  constructor
  · intro hr
    induction hr with
    | here hv => exact .here hv
    | on _ ho ht ih => exact ih.on (hs _ ih ▸ ho) ht
  · intro hr
    induction hr with
    | here hv => exact .here hv
    | on hr ho ht ih => exact ih.on ((hs _ hr).trans ho) ht

/-- The one graph is the other, and no reference in it is renamed. -/
theorem iso (hg : h.Grounded v) : h.Iso v id k v where
  value := v.rename_id.symm
  injective _ _ _ _ he := he
  counterpart r hr := by
    obtain ⟨o, ho⟩ := hg r hr
    exact ⟨o, o, ho, (hs r hr).trans ho, o.counterpart_self⟩

/-- **What can be seen of a value is a matter of what there is below it.** -/
theorem looksSame (hg : h.Grounded v) : h.LooksSame k v where
  leads := hs.leads_iff
  contents := hs
  follow := hs.follow_eq
  tag _ _ hu := (hs.of_follow hu).tag_eq
  length _ _ hu := (hs.of_follow hu).lengthOf_eq
  iterator _ _ hu := (hs.of_follow hu).over?_eq
  text sels _ hu :=
    ((hs.of_follow hu).iso fun r hr => hg r ((h.follow_meets v sels).of_ok hu r hr)).text_eq

end SameBelow

/-- **A copy is isolated for ever**, whatever is written where, as long as it is not written into what is
looked at. Changes to collections that were there when the copy was taken, or that have come since, are not
seen in the copy. Changes to the collections of the copy, or to those that have come since, are not seen in
any value that was there before. -/
theorem copy_isolated (h : Heap) (hc : h.Closed) (v : Value) (hv : h.Covers v) (changes : List Change) :
    ((∀ c ∈ changes, ∀ r, c.target? = some r → r.index < h.size ∨ (h.copy v).1.size ≤ r.index) →
      (h.copy v).1.LooksSame ((h.copy v).1.after changes) (h.copy v).2) ∧
    ((∀ c ∈ changes, ∀ r, c.target? = some r → h.size ≤ r.index) →
      ∀ u, h.Covers u → h.LooksSame ((h.copy v).1.after changes) u) := by
  have hcopy := (copies_copy hc hv h.size (Nat.le_refl _)).1
  obtain ⟨hclosed, hcovers⟩ := copy_closed hc hv
  constructor
  · intro htargets
    refine SameBelow.looksSame (fun r hr => ?_) (hclosed.grounded hcovers)
    -- all that the copy leads to is new
    obtain ⟨hle, hlt⟩ := (hcopy.new_iff r).mpr ((hcopy.iso.leads_iff r).mp hr)
    refine get?_after hlt fun c hcm he => ?_
    rcases htargets c hcm r he with hold | hlater
    · exact Nat.not_lt.mpr hle hold
    · exact Nat.not_lt.mpr hlater hlt
  · intro htargets u hu
    refine SameBelow.looksSame (fun r hr => ?_) (hc.grounded hu)
    have hold : r.index < h.size := hr.index_lt hc hu
    have hlt : r.index < (h.copy v).1.size := Nat.lt_of_lt_of_le hold hcopy.underway.size_le
    rw [get?_after hlt fun c hcm he => Nat.not_lt.mpr (htargets c hcm r he) hold]
    exact hcopy.underway.unchanged r hold

/-- The ring is made to hold its copy, and the copy to hold the ring. Neither is seen from the other side. -/
theorem ring_isolated :
    ((ring.copy (.collection ⟨0⟩)).1.after
        [.insert ⟨0⟩ "self" (.collection ⟨2⟩), .setField ⟨1⟩ "rank" (.int 8)]).text (.collection ⟨2⟩) =
      (ring.copy (.collection ⟨0⟩)).1.text (.collection ⟨2⟩) ∧
    ((ring.copy (.collection ⟨0⟩)).1.after
        [.setField ⟨3⟩ "owner" (.collection ⟨0⟩), .insert ⟨2⟩ "node" .null]).text (.collection ⟨0⟩) =
      ring.text (.collection ⟨0⟩) := by
  have isolated := ring.copy_isolated (by decide) (.collection ⟨0⟩) (by decide)
  have copy := (isolated [.insert ⟨0⟩ "self" (.collection ⟨2⟩), .setField ⟨1⟩ "rank" (.int 8)]).1
    (by simp [Change.target?, ring, size])
  have original := (isolated [.setField ⟨3⟩ "owner" (.collection ⟨0⟩), .insert ⟨2⟩ "node" .null]).2
    (by simp [Change.target?, ring, size]) (.collection ⟨0⟩) (by decide)
  exact ⟨copy.text [] _ rfl, original.text [] _ rfl⟩

end Heap

end RegisterMachine
