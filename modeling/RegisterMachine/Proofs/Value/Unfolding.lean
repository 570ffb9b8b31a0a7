import RegisterMachine.Native.Basic
import RegisterMachine.Proofs.Value.Copy
import RegisterMachine.Proofs.Value.Render

/-!
# What a value looks like written out

The graph below a value may be cyclic, and its text is not. What is between the two is an `Unfolding`: a
tree without references, in which every occurrence of a collection is written out, but for one inside of
itself, where there is only a mark. `Heap.Unfolds` says which tree belongs to a value inside the collections
on a path. It says nothing about how deep to go: that there is a tree at all, and one only, is proved
(`Heap.exists_unfolds`, `Heap.Unfolds.unique`), and the measure is how many collections are off the path.

**`Heap.text_of_shape`**: the text of a value is the text of its unfolding. Graphs that differ in nothing but
their references have one unfolding (`Heap.Iso.unfolds`), and so one text. A copy is such a graph.
-/

namespace RegisterMachine

/-- A value written out. -/
inductive Unfolding
  /-- A value that is no collection. -/
  | plain (v : Value)
  /-- An array inside of itself. -/
  | openArray
  /-- A map or a record inside of itself. -/
  | openEntries
  | array (kind : ElementKind) (cells : List Unfolding)
  /-- A map or a record. -/
  | entries (cells : List (String × Unfolding))

/-- The text of what is written out. The elements of an array of strings are quoted, and nothing else. -/
def Unfolding.text : Unfolding → String
  | plain v => v.scalarText
  | openArray => "[...]"
  | openEntries => "\x7b...\x7d"
  | array kind cells =>
      "[" ++ String.intercalate ", " (cells.map fun u =>
        if kind = .string then "\"" ++ u.text ++ "\"" else u.text) ++ "]"
  | entries cells =>
      "\x7b" ++ String.intercalate ", " (cells.map fun c => c.1 ++ ":" ++ c.2.text) ++ "\x7d"
decreasing_by
  all_goals have hlt := List.sizeOf_lt_of_mem ‹_›
  · grind
  · grind
  · obtain ⟨key, u⟩ := c
    simp only [Prod.mk.sizeOf_spec, entries.sizeOf_spec] at hlt ⊢
    omega

/-- The entries of a map and the fields of a record. -/
def Object.entries? : Object → Option Entries
  | array _ => none
  | map entries => some entries
  | record _ fields => some fields

/-- What a value looks like inside the collections on `path`. -/
inductive Heap.Unfolds (h : Heap) : List Ref → Value → Unfolding → Prop
  | plain {path : List Ref} {v : Value} (hv : v.ref? = none) : Unfolds h path v (.plain v)
  | openArray {path : List Ref} {r : Ref} {a : ArrayObject} (ho : h.get? r = some (.array a))
      (hr : r ∈ path) : Unfolds h path (.collection r) .openArray
  | openEntries {path : List Ref} {r : Ref} {o : Object} {xs : Entries} (ho : h.get? r = some o)
      (hx : o.entries? = some xs) (hr : r ∈ path) : Unfolds h path (.collection r) .openEntries
  /-- Each element goes with what it looks like inside the array. -/
  | array {path : List Ref} {r : Ref} {a : ArrayObject} (cells : List (Value × Unfolding))
      (ho : h.get? r = some (.array a)) (hx : a.toList = cells.map Prod.fst) (hr : r ∉ path)
      (hu : ∀ c ∈ cells, Unfolds h (r :: path) c.1 c.2) :
      Unfolds h path (.collection r) (.array a.kind (cells.map Prod.snd))
  /-- Each entry goes with what its value looks like. -/
  | entries {path : List Ref} {r : Ref} {o : Object} (cells : List ((String × Value) × Unfolding))
      (ho : h.get? r = some o) (hx : o.entries? = some (cells.map Prod.fst)) (hr : r ∉ path)
      (hu : ∀ c ∈ cells, Unfolds h (r :: path) c.1.2 c.2) :
      Unfolds h path (.collection r) (.entries (cells.map fun c => (c.1.1, c.2)))

/-! ## The text of an object -/

theorem Value.textWithin_of_ref?_eq_none {v : Value} (hv : v.ref? = none) (h : Heap) (depth : Nat)
    (path : List Ref) : h.textWithin depth path v = v.scalarText := by
  cases v with
  | collection r => cases hv
  | _ => cases depth <;> rfl

namespace ElementKind

variable {kind : ElementKind}

/-- Only an array of any values holds references. -/
theorem ref?_toValue (hk : kind ≠ .any) (x : kind.Slot) : (kind.toValue x).ref? = none := by
  cases kind with
  | any => exact absurd rfl hk
  | _ => rfl

theorem slotText_eq (kind : ElementKind) (x : kind.Slot) :
    kind.slotText x = if kind = .string then "\"" ++ (kind.toValue x).scalarText ++ "\""
      else (kind.toValue x).scalarText := by
  cases kind <;> rfl

end ElementKind

/-- An array: only one of any values asks for the text of its elements, and the elements of the others are
plain. -/
theorem Object.text_array (a : ArrayObject) {f : Value → String}
    (hf : ∀ v, v.ref? = none → f v = v.scalarText) :
    (array a).text f = "[" ++ String.intercalate ", " (a.toList.map fun v =>
      if a.kind = .string then "\"" ++ f v ++ "\"" else f v) ++ "]" := by
  obtain ⟨kind, elements⟩ := a
  by_cases hk : kind = .any
  · subst hk
    rw [ArrayObject.toList_any]
    rfl
  · have hslots : (array ⟨kind, elements⟩).text f = bracketed (elements.toList.map kind.slotText) := by
      cases kind with
      | any => exact absurd rfl hk
      | _ => rfl
    rw [hslots, ArrayObject.toList, List.map_map]
    refine congrArg (fun items => "[" ++ String.intercalate ", " items ++ "]") ?_
    refine List.map_congr_left fun x _ => ?_
    rw [Function.comp_apply, hf _ (ElementKind.ref?_toValue hk x)]
    exact kind.slotText_eq x

theorem Object.text_of_entries? {o : Object} {xs : Entries} (hx : o.entries? = some xs)
    (f : Value → String) :
    o.text f = "\x7b" ++ String.intercalate ", " (xs.map fun x => x.1 ++ ":" ++ f x.2) ++ "\x7d" := by
  cases o with
  | array a => cases hx
  | map entries =>
    cases hx
    rfl
  | record name fields =>
    cases hx
    rfl

theorem Object.ellipsis_of_entries? {o : Object} {xs : Entries} (hx : o.entries? = some xs) :
    o.ellipsis = "\x7b...\x7d" := by
  cases o with
  | array a => cases hx
  | map entries => rfl
  | record name fields => rfl

theorem Object.values_of_entries? {o : Object} {xs : Entries} (hx : o.entries? = some xs) :
    o.values = xs.map Prod.snd := by
  cases o with
  | array a => cases hx
  | map entries =>
    cases hx
    rfl
  | record name fields =>
    cases hx
    rfl

/-- A counterpart has the same keys, and the counterparts of the values. -/
theorem Object.Counterpart.entries? {φ : Ref → Ref} {o o' : Object} {xs : Entries}
    (hcp : o.Counterpart φ o') (hx : o.entries? = some xs) :
    o'.entries? = some (xs.map fun x => (x.1, x.2.rename φ)) := by
  cases hcp with
  | array hk hs hc he => cases hx
  | map he =>
    cases hx
    exact congrArg some he
  | record he =>
    cases hx
    exact congrArg some he

/-- An element with a reference is one of an array of any values. -/
theorem ArrayObject.mem_refs {a : ArrayObject} {v : Value} {r : Ref} (hv : v ∈ a.toList)
    (hr : v.ref? = some r) : r ∈ (Object.array a).refs := by
  obtain ⟨kind, elements⟩ := a
  by_cases hk : kind = .any
  · subst hk
    exact List.mem_filterMap.mpr ⟨v, hv, hr⟩
  · obtain ⟨x, -, rfl⟩ := List.mem_map.mp hv
    rw [ElementKind.ref?_toValue hk x] at hr
    cases hr

namespace Heap

variable {h h' : Heap} {path : List Ref} {v w x : Value} {u u' : Unfolding} {φ : Ref → Ref}

/-! ## The text of an unfolding -/

/-- With as much depth as there are collections off the path, the text is that of the unfolding. -/
theorem Unfolds.textWithin_eq (hu : h.Unfolds path v u) {depth : Nat} (hd : h.offPath path ≤ depth) :
    h.textWithin depth path v = u.text := by
  have fewer : ∀ {path : List Ref} {r : Ref} {o : Object} {depth : Nat}, h.get? r = some o →
      r ∉ path → h.offPath path ≤ depth →
      ∃ n, depth = n + 1 ∧ h.offPath (r :: path) ≤ n := by
    intro path r o depth ho hr hd
    have hlt := offPath_cons_lt (index_lt_of_get? ho) (by simpa using hr)
    exact ⟨depth - 1, by omega, by omega⟩
  induction hu generalizing depth with
  | plain hv =>
    rw [Value.textWithin_of_ref?_eq_none hv, Unfolding.text]
  | openArray ho hr =>
    unfold textWithin
    rw [ho]
    dsimp only
    rw [if_pos (List.contains_iff_mem.mpr hr), Unfolding.text]
    rfl
  | openEntries ho hx hr =>
    unfold textWithin
    rw [ho]
    dsimp only
    rw [if_pos (List.contains_iff_mem.mpr hr), Unfolding.text, Object.ellipsis_of_entries? hx]
  | @array path r a cells ho hx hr hu ih =>
    obtain ⟨depth, rfl, hless⟩ := fewer ho hr hd
    unfold textWithin
    rw [ho]
    dsimp only
    rw [if_neg (by simpa using hr), Unfolding.text,
      Object.text_array a fun _ hv => Value.textWithin_of_ref?_eq_none hv h _ _, hx, List.map_map,
      List.map_map]
    refine congrArg (fun items => "[" ++ String.intercalate ", " items ++ "]") ?_
    refine List.map_congr_left fun c hc => ?_
    simp only [Function.comp_apply, ih c hc hless]
  | @entries path r o cells ho hx hr hu ih =>
    obtain ⟨depth, rfl, hless⟩ := fewer ho hr hd
    unfold textWithin
    rw [ho]
    dsimp only
    rw [if_neg (by simpa using hr), Unfolding.text, Object.text_of_entries? hx, List.map_map,
      List.map_map]
    refine congrArg (fun items => "\x7b" ++ String.intercalate ", " items ++ "\x7d") ?_
    refine List.map_congr_left fun c hc => ?_
    simp only [Function.comp_apply, ih c hc hless]

theorem Unfolds.text_eq (hu : h.Unfolds [] v u) : h.text v = u.text :=
  hu.textWithin_eq (Nat.le_of_eq h.offPath_nil)

/-! ## One unfolding -/

/-- Lists that agree in one respect agree in another if their members do. -/
theorem map_eq_of_map_eq {α β γ : Type} {f : α → β} {g : α → γ} {xs ys : List α}
    (hf : xs.map f = ys.map f) (hg : ∀ x ∈ xs, ∀ y ∈ ys, f x = f y → g x = g y) :
    xs.map g = ys.map g := by
  induction xs generalizing ys with
  | nil =>
    rw [List.map_nil, eq_comm, List.map_eq_nil_iff] at hf
    rw [hf]
  | cons x xs ih =>
    cases ys with
    | nil => cases hf
    | cons y ys =>
      obtain ⟨hx, hxs⟩ := List.cons.inj hf
      rw [List.map_cons, List.map_cons, hg x List.mem_cons_self y List.mem_cons_self hx]
      refine congrArg _ (ih hxs fun x' hx' y' hy' => ?_)
      exact hg x' (List.mem_cons_of_mem _ hx') y' (List.mem_cons_of_mem _ hy')

/-- A value looks like one thing only. -/
theorem Unfolds.unique (hu : h.Unfolds path v u) (hu' : h.Unfolds path v u') : u = u' := by
  induction hu generalizing u' with
  | plain hv =>
    cases hu' with
    | plain hv' => rfl
    | _ => cases hv
  | @openArray path r a ho hr =>
    cases hu' with
    | plain hv' => cases hv'
    | openArray ho' hr' => rfl
    | openEntries ho' hx' hr' =>
      cases ho.symm.trans ho'
      cases hx'
    | array cells' ho' hx' hr' hu' => exact absurd hr hr'
    | entries cells' ho' hx' hr' hu' => exact absurd hr hr'
  | @openEntries path r o xs ho hx hr =>
    cases hu' with
    | plain hv' => cases hv'
    | openEntries ho' hx' hr' => rfl
    | openArray ho' hr' =>
      cases ho.symm.trans ho'
      cases hx
    | array cells' ho' hx' hr' hu' => exact absurd hr hr'
    | entries cells' ho' hx' hr' hu' => exact absurd hr hr'
  | @array path r a cells ho hx hr hu ih =>
    cases hu' with
    | plain hv' => cases hv'
    | openArray ho' hr' => exact absurd hr' hr
    | openEntries ho' hx' hr' => exact absurd hr' hr
    | entries cells' ho' hx' hr' hu' =>
      cases ho.symm.trans ho'
      cases hx'
    | array cells' ho' hx' hr' hu' =>
      cases ho.symm.trans ho'
      refine congrArg _ (map_eq_of_map_eq (hx.symm.trans hx') fun c hc c' hc' he => ?_)
      exact ih c hc (he ▸ hu' c' hc')
  | @entries path r o cells ho hx hr hu ih =>
    cases hu' with
    | plain hv' => cases hv'
    | openArray ho' hr' => exact absurd hr' hr
    | openEntries ho' hx' hr' => exact absurd hr' hr
    | array cells' ho' hx' hr' hu' =>
      cases ho.symm.trans ho'
      cases hx
    | entries cells' ho' hx' hr' hu' =>
      cases ho.symm.trans ho'
      have hcells := Option.some.inj (hx.symm.trans hx')
      refine congrArg _ (map_eq_of_map_eq hcells fun c hc c' hc' he => ?_)
      rw [he, ih c hc (he ▸ hu' c' hc')]

/-- The references below a value lead somewhere. -/
def Grounded (h : Heap) (v : Value) : Prop := ∀ r, h.Leads v r → ∃ o, h.get? r = some o

theorem Closed.grounded (hc : h.Closed) (hv : h.Covers v) : h.Grounded v :=
  fun _ hr => exists_get? (hr.index_lt hc hv)

theorem Iso.grounded (hi : h.Iso v φ h' w) : h.Grounded v := fun r hr => by
  obtain ⟨o, -, ho, -, -⟩ := hi.counterpart r hr
  exact ⟨o, ho⟩

/-- What a grounded collection holds is grounded. -/
theorem Grounded.of_mem {r : Ref} {o : Object} (hg : h.Grounded (.collection r))
    (ho : h.get? r = some o) (hx : ∀ s, x.ref? = some s → s ∈ o.refs) : h.Grounded x := by
  have hleads : ∀ s, h.Leads x s → h.Leads (.collection r) s := by
    intro s hs
    induction hs with
    | here hs => exact .on (.here rfl) ho (hx _ hs)
    | on _ ho' ht ih => exact ih.on ho' ht
  exact fun s hs => hg s (hleads s hs)

/-- Each member of a list goes with something. -/
theorem exists_cells {α β : Type} {P : α → β → Prop} {xs : List α} (h : ∀ x ∈ xs, ∃ y, P x y) :
    ∃ cells : List (α × β), xs = cells.map Prod.fst ∧ ∀ c ∈ cells, P c.1 c.2 := by
  induction xs with
  | nil => exact ⟨[], rfl, fun c hc => absurd hc List.not_mem_nil⟩
  | cons x xs ih =>
    obtain ⟨hx, hxs⟩ := List.forall_mem_cons.mp h
    obtain ⟨y, hy⟩ := hx
    obtain ⟨cells, rfl, hcells⟩ := ih hxs
    exact ⟨(x, y) :: cells, rfl, List.forall_mem_cons.mpr ⟨hy, hcells⟩⟩

/-- **A value can be written out**, inside any collections. Inside one more there are fewer off the path, so
this comes to an end. -/
theorem exists_unfolds (path : List Ref) (hg : h.Grounded v) : ∃ u, h.Unfolds path v u := by
  induction hn : h.offPath path using Nat.strongRecOn generalizing path v with
  | ind n ih =>
    subst hn
    cases hv : v.ref? with
    | none => exact ⟨_, .plain hv⟩
    | some r =>
      obtain rfl : v = .collection r := by
        cases v with
        | collection s =>
          cases hv
          rfl
        | _ => cases hv
      obtain ⟨o, ho⟩ := hg r (.here rfl)
      by_cases hr : r ∈ path
      · cases o with
        | array a => exact ⟨_, .openArray ho hr⟩
        | map xs => exact ⟨_, .openEntries ho rfl hr⟩
        | record name xs => exact ⟨_, .openEntries ho rfl hr⟩
      · have hlt := offPath_cons_lt (index_lt_of_get? ho) (by simpa using hr)
        have inside : ∀ x, (∀ s, x.ref? = some s → s ∈ o.refs) → ∃ u, h.Unfolds (r :: path) x u :=
          fun x hx => ih _ hlt (r :: path) (hg.of_mem ho hx) rfl
        have entries : ∀ {xs : Entries}, o.entries? = some xs →
            ∃ u, h.Unfolds path (.collection r) u := by
          intro xs hxs
          have hvalues : ∀ x ∈ xs, ∃ u, h.Unfolds (r :: path) x.2 u := fun x hx =>
            inside x.2 fun s hs => List.mem_filterMap.mpr
              ⟨x.2, by rw [Object.values_of_entries? hxs]; exact List.mem_map_of_mem hx, hs⟩
          obtain ⟨cells, rfl, hu⟩ := exists_cells hvalues
          exact ⟨_, .entries cells ho hxs hr hu⟩
        cases o with
        | array a =>
          obtain ⟨cells, hx, hu⟩ := exists_cells fun x hx =>
            inside x fun s hs => ArrayObject.mem_refs hx hs
          exact ⟨_, .array cells ho hx hr hu⟩
        | map xs => exact entries rfl
        | record name xs => exact entries rfl

/-! ## Graphs of one shape -/

/-- **What a value looks like is no matter of which references there are below it.** -/
theorem Iso.unfolds (hi : h.Iso v φ h' w) (hu : h.Unfolds path x u)
    (hx : ∀ r, x.ref? = some r → h.Leads v r) (hp : ∀ r ∈ path, h.Leads v r) :
    h'.Unfolds (path.map φ) (x.rename φ) u := by
  -- the collection is its own counterpart on the path, and no other collection is
  have off : ∀ {path : List Ref} {r : Ref}, h.Leads v r → (∀ s ∈ path, h.Leads v s) → r ∉ path →
      φ r ∉ path.map φ := by
    intro path r hr hp hnot hm
    obtain ⟨s, hs, he⟩ := List.mem_map.mp hm
    exact hnot (hi.injective s r (hp s hs) hr he ▸ hs)
  induction hu with
  | plain hv =>
    rw [Value.rename_of_ref?_eq_none hv]
    exact .plain hv
  | openArray ho hr =>
    obtain ⟨o, o', ho₁, ho', hcp⟩ := hi.counterpart _ (hx _ rfl)
    cases ho.symm.trans ho₁
    cases hcp with
    | array hk hs hc he => exact .openArray ho' (List.mem_map_of_mem hr)
  | openEntries ho hxs hr =>
    obtain ⟨o, o', ho₁, ho', hcp⟩ := hi.counterpart _ (hx _ rfl)
    cases ho.symm.trans ho₁
    exact .openEntries ho' (hcp.entries? hxs) (List.mem_map_of_mem hr)
  | @array path r a cells ho hxs hr hu ih =>
    obtain ⟨o, o', ho₁, ho', hcp⟩ := hi.counterpart _ (hx _ rfl)
    cases ho.symm.trans ho₁
    have hr' := off (hx r rfl) hp hr
    cases hcp with
    | @array a b hk hs hc he =>
      have hcells : h'.Unfolds (path.map φ) (.collection (φ r)) (.array b.kind _) :=
        .array (cells.map fun c => (c.1.rename φ, c.2)) ho' (by rw [he, hxs]; simp) hr' fun c' hc' => by
          obtain ⟨c, hmem, rfl⟩ := List.mem_map.mp hc'
          have hled : ∀ s, c.1.ref? = some s → h.Leads v s := fun s hs =>
            (hx r rfl).on ho (ArrayObject.mem_refs (hxs ▸ List.mem_map_of_mem hmem) hs)
          exact ih c hmem hled (List.forall_mem_cons.mpr ⟨hx r rfl, hp⟩)
      rw [hk, List.map_map] at hcells
      exact hcells
  | @entries path r o cells ho hxs hr hu ih =>
    obtain ⟨o, o', ho₁, ho', hcp⟩ := hi.counterpart _ (hx _ rfl)
    cases ho.symm.trans ho₁
    have hr' := off (hx r rfl) hp hr
    have hcells : h'.Unfolds (path.map φ) (.collection (φ r)) (.entries _) :=
      .entries (cells.map fun c => ((c.1.1, c.1.2.rename φ), c.2)) ho'
        (by rw [hcp.entries? hxs]; simp) hr' fun c' hc' => by
          obtain ⟨c, hmem, rfl⟩ := List.mem_map.mp hc'
          have hled : ∀ s, c.1.2.ref? = some s → h.Leads v s := fun s hs => by
            refine (hx r rfl).on ho (List.mem_filterMap.mpr ⟨c.1.2, ?_, hs⟩)
            rw [Object.values_of_entries? hxs]
            exact List.mem_map_of_mem (List.mem_map_of_mem hmem)
          exact ih c hmem hled (List.forall_mem_cons.mpr ⟨hx r rfl, hp⟩)
    rw [List.map_map] at hcells
    exact hcells

/-- Graphs of one shape have one text. -/
theorem Iso.text_eq (hi : h.Iso v φ h' w) : h'.text w = h.text v := by
  obtain ⟨u, hu⟩ := exists_unfolds [] hi.grounded
  have hu' := hi.unfolds hu (fun _ hr => .here hr) fun _ hr => absurd hr List.not_mem_nil
  rw [hu.text_eq, hi.value, hu'.text_eq]

/-- **The text of a value is that of its unfolding, and its graph has it whatever the references.** Writing the
value comes to an end: as much depth as the heap has objects is enough, and no more changes anything. There
is one tree that the value unfolds to, with a mark for every collection inside of itself and with all others
written out, and the text is that of the tree. To print it leaves the heap as it is. Every other graph of the
same shape has the same text, and the graph of a copy is one. -/
theorem text_of_shape (h : Heap) (hc : h.Closed) (v : Value) (hv : h.Covers v) :
    (∀ depth, h.size ≤ depth → h.textWithin depth [] v = h.text v) ∧
    (∃ u, (∀ u', h.Unfolds [] v u' ↔ u' = u) ∧ h.text v = u.text) ∧
    (∀ info output, Native.printLine info ⟨h, output⟩ [v]
      = (⟨h, output.push (h.text v)⟩, .ok [])) ∧
    (∀ φ h' w, h.Iso v φ h' w → h'.text w = h.text v) ∧
    (h.copy v).1.text (h.copy v).2 = h.text v := by
  obtain ⟨u, hu⟩ := exists_unfolds [] (hc.grounded hv)
  have hcopy := (copies_copy hc hv h.size (Nat.le_refl _)).1
  refine ⟨fun depth hd => ?_, ⟨u, fun u' => ⟨fun hu' => hu'.unique hu, fun he => he ▸ hu⟩, hu.text_eq⟩,
    fun info output => rfl, fun φ h' w hi => hi.text_eq, hcopy.iso.text_eq⟩
  rw [hu.text_eq]
  exact hu.textWithin_eq (Nat.le_trans (Nat.le_of_eq h.offPath_nil) hd)

/-- A ring goes once around, and both times that it holds the record the record is written out. -/
theorem ring_text :
    ring.text (.collection ⟨0⟩) =
      "\x7bself:\x7b...\x7d, node:\x7bowner:\x7b...\x7d, rank:7\x7d, " ++
        "again:\x7bowner:\x7b...\x7d, rank:7\x7d\x7d" ∧
      (ring.copy (.collection ⟨0⟩)).1.text (.collection ⟨2⟩) = ring.text (.collection ⟨0⟩) := by
  obtain ⟨-, -, -, -, hcopy⟩ := ring.text_of_shape (by decide) (.collection ⟨0⟩) (by decide)
  exact ⟨by decide, hcopy⟩

end Heap

end RegisterMachine
