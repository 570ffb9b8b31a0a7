import RegisterMachine.Proofs.Value.Graph
import RegisterMachine.Proofs.Value.Within

/-!
# The same values in another heap

Two runs that do the same leave their values in two heaps, and what can be said is that one renaming of
references takes all of the values of the one to those of the other: `Heap.IsoAll`, which is `Heap.Iso`
for a list. It follows if both heaps have a third one within them (`Heap.Within.isoAll`), whether or
not there is a renaming for the rest of the two.

A heap is within itself if it is sealed, that is if no slot of any object has a reference that leads
nowhere. It makes no difference for `Heap.Closed` what is in slots past the size of an array; here it
does.
-/

namespace RegisterMachine

/-! ## Sealed heaps -/

/-- The values in all slots of an object. -/
def Object.contents : Object → List Value
  | .array ⟨.any, elements⟩ => elements.slots.toList
  | .array _ => []
  | .map entries => entries.map Prod.snd
  | .record _ fields => fields.map Prod.snd

/-- No reference leads nowhere. -/
def Heap.Sealed (h : Heap) : Prop := ∀ r o, h.get? r = some o → ∀ v ∈ o.contents, h.Covers v

theorem Heap.sealed_empty : Heap.empty.Sealed := fun _ _ ho =>
  absurd (index_lt_of_get? ho) (Nat.not_lt_zero _)

/-- Each reference goes with itself. -/
def Heap.itself (h : Heap) : Link := fun r s => r = s ∧ r.index < h.size

theorem Heap.Covers.alike {h : Heap} {v : Value} (hv : h.Covers v) : v.Alike h.itself v := by
  cases v with
  | collection r => exact .collection ⟨rfl, hv r rfl⟩
  | _ => exact .scalar rfl

theorem Entries.alike_self {l : Link} {entries : Entries}
    (h : ∀ v ∈ entries.map Prod.snd, v.Alike l v) : Entries.Alike l entries entries :=
  List.forall₂_same.mpr fun x hx => ⟨rfl, h x.2 (List.mem_map_of_mem hx)⟩

theorem Object.alike_self {l : Link} {o : Object} (h : ∀ v ∈ o.contents, v.Alike l v) :
    o.Alike l o := by
  cases o with
  | array a =>
    obtain ⟨kind, elements⟩ := a
    refine .array (.mk ⟨List.forall₂_same.mpr fun x hx => ?_, rfl⟩)
    cases kind with
    | any => exact h x hx
    | _ => exact rfl
  | map entries => exact .map (Entries.alike_self h)
  | record name fields => exact .record (Entries.alike_self h)

theorem Heap.Sealed.within {h : Heap} (hs : h.Sealed) : h.Within h.itself h where
  functional hr hr' := hr.1.symm.trans hr'.1
  injective hr hr' := hr.1.trans hr'.1.symm
  total {r} hr := ⟨r, rfl, hr⟩
  objects := by
    rintro r _ ⟨rfl, hr⟩
    obtain ⟨o, ho⟩ := exists_get? hr
    exact ⟨o, o, ho, ho, o.alike_self fun v hv => (hs r o ho v hv).alike⟩

/-! ## Counterparts -/

/-- `φ` goes back along `l` and on along `l'`. -/
def Link.Crosses (l l' : Link) (φ : Ref → Ref) : Prop := ∀ r s s', l r s → l' r s' → φ s = s'

section Counterparts

variable {l l' : Link} {φ : Ref → Ref}

/-- What is alike to one value under two links is the same up to a renaming that follows them. -/
theorem Value.Alike.rename_eq (hφ : l.Crosses l' φ) {u v w : Value}
    (hv : u.Alike l v) (hw : u.Alike l' w) : w = v.rename φ := by
  cases hv with
  | scalar hu => rw [hw.eq_of_ref? hu, Value.rename_of_ref?_eq_none hu]
  | collection hr =>
    cases hw with
    | scalar hu => cases hu
    | collection hr' => exact congrArg Value.collection (hφ _ _ _ hr hr').symm

theorem Value.Alike.map_rename_eq (hφ : l.Crosses l' φ)
    {us vs ws : List Value} (hv : List.Forall₂ (Value.Alike l) us vs)
    (hw : List.Forall₂ (Value.Alike l') us ws) : ws = vs.map (Value.rename φ) := by
  induction hv generalizing ws with
  | nil =>
    cases hw
    rfl
  | cons h _ ih =>
    cases hw with
    | cons h' hw => rw [List.map_cons, ← ih hw, ← h.rename_eq hφ h']

theorem Entries.Alike.map_rename_eq (hφ : l.Crosses l' φ)
    {us vs ws : Entries} (hv : Entries.Alike l us vs) (hw : Entries.Alike l' us ws) :
    ws = vs.map fun x => (x.1, x.2.rename φ) := by
  induction hv generalizing ws with
  | nil =>
    cases hw
    rfl
  | cons h _ ih =>
    cases hw with
    | cons h' hw =>
      rw [List.map_cons, ← ih hw, ← h.2.rename_eq hφ h'.2, ← h.1, h'.1]

theorem Object.Alike.counterpart (hφ : l.Crosses l' φ) {p o o' : Object}
    (ho : p.Alike l o) (ho' : p.Alike l' o') : o.Counterpart φ o' := by
  cases ho with
  | array ha =>
    cases ho' with
    | array ha' =>
      have hlist := Value.Alike.map_rename_eq hφ ha.toList ha'.toList
      cases ha with
      | mk hs =>
        cases ha' with
        | mk hs' =>
          refine .array rfl (hs'.size.symm.trans hs.size) ?_ hlist
          exact hs'.capacity.symm.trans hs.capacity
  | map hx =>
    cases ho' with
    | map hx' => exact .map (hx.map_rename_eq hφ hx')
  | record hx =>
    cases ho' with
    | record hx' => exact .record (hx.map_rename_eq hφ hx')

end Counterparts

/-! ## Lists of values -/

namespace Heap

/-- `φ` takes the graph of each of `vs` in `h` to that of its partner among `ws` in `h'`, and no two
collections of any of them to one. -/
structure IsoAll (h : Heap) (vs : List Value) (φ : Ref → Ref) (h' : Heap) (ws : List Value) :
    Prop where
  each : List.Forall₂ (fun v w => h.Iso v φ h' w) vs ws
  injective {v w : Value} {r s : Ref} : v ∈ vs → w ∈ vs → h.Leads v r → h.Leads w s → φ r = φ s →
    r = s

namespace Within

variable {g h h' : Heap} {l l' : Link}

/-- A value with a linked reference leads to linked references only. -/
theorem linked_of_leads (hw : g.Within l h) {u v : Value} (hv : u.Alike l v) {s : Ref}
    (hs : h.Leads v s) : ∃ r, l r s := by
  induction hs with
  | here hs =>
    cases hv with
    | scalar hu =>
      rw [hu] at hs
      cases hs
    | collection hr =>
      cases hs
      exact ⟨_, hr⟩
  | on _ ho ht ih =>
    obtain ⟨r, hr⟩ := ih
    exact hw.closed hr ho ht

/-- **Values that are alike to the same ones are the same but for a renaming.** -/
theorem isoAll (hw : g.Within l h) (hw' : g.Within l' h') {us vs ws : List Value}
    (hv : List.Forall₂ (Value.Alike l) us vs) (hv' : List.Forall₂ (Value.Alike l') us ws) :
    ∃ φ, h.IsoAll vs φ h' ws := by
  classical
  -- back along the one link and on along the other
  let φ : Ref → Ref := fun s => if hs : ∃ s' r, l r s ∧ l' r s' then hs.choose else s
  have hφ : l.Crosses l' φ := by
    intro r s s' hr hr'
    have hs : ∃ s' r, l r s ∧ l' r s' := ⟨s', r, hr, hr'⟩
    obtain ⟨r', hr₁, hr₂⟩ := hs.choose_spec
    show dite _ _ _ = s'
    rw [dif_pos hs]
    rw [hw.injective hr₁ hr] at hr₂
    exact hw'.functional hr₂ hr'
  have hinj : ∀ {v w : Value} {r s : Ref}, v ∈ vs → w ∈ vs → h.Leads v r → h.Leads w s →
      φ r = φ s → r = s := by
    intro v w r s hvs hws hr hs heq
    obtain ⟨u, -, hu⟩ := exists_of_forall₂_right hv hvs
    obtain ⟨t, -, ht⟩ := exists_of_forall₂_right hv hws
    obtain ⟨p, hp⟩ := hw.linked_of_leads hu hr
    obtain ⟨q, hq⟩ := hw.linked_of_leads ht hs
    obtain ⟨p', hp'⟩ := hw'.total (hw.left_lt hp)
    obtain ⟨q', hq'⟩ := hw'.total (hw.left_lt hq)
    rw [hφ _ _ _ hp hp', hφ _ _ _ hq hq'] at heq
    subst heq
    cases hw'.injective hp' hq'
    exact hw.functional hp hq
  refine ⟨φ, ?_, hinj⟩
  rw [Value.Alike.map_rename_eq hφ hv hv', List.forall₂_map_right_iff, List.forall₂_same]
  intro v hvs
  refine ⟨rfl, fun r s => hinj hvs hvs, fun r hr => ?_⟩
  obtain ⟨u, -, hu⟩ := exists_of_forall₂_right hv hvs
  obtain ⟨p, hp⟩ := hw.linked_of_leads hu hr
  obtain ⟨p', hp'⟩ := hw'.total (hw.left_lt hp)
  obtain ⟨a, o, ha, ho, hao⟩ := hw.objects hp
  obtain ⟨b, o', hb, ho', hbo⟩ := hw'.objects hp'
  rw [ha, Option.some.injEq] at hb
  subst hb
  exact ⟨o, o', ho, (hφ _ _ _ hp hp').symm ▸ ho', hao.counterpart hφ hbo⟩

end Within

end Heap

end RegisterMachine
