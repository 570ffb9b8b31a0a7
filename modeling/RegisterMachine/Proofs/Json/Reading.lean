import RegisterMachine.Json.Decoder
import RegisterMachine.Proofs.Json.Printing

/-!
# What decoders make of whole documents

`Decoder.Reads d room j a` says that `d` makes `a` of `j` wherever there is still room for the
containers in `j`, and `Record.Takes` says the same of a record and the members of an object. There
is one lemma for each way to put a decoder together, so that what a decoder reads is proved by
following how it is written. Whether the document has been put aside before does not matter: a
whole document has nothing that could be told apart by it.
-/

namespace RegisterMachine.Json

/-- From here `room` containers can still be entered. -/
def Place.Holds (p : Place) (room : Nat) : Prop := p.settled = true ∨ room ≤ p.depth

namespace Place.Holds

variable {p : Place} {room : Nat}

theorem of_settled (h : p.settled = true) : p.Holds room := .inl h

theorem root (h : room ≤ 127) : Place.root.Holds room := .inr h

theorem enter (h : p.Holds (room + 1)) : ∃ inner, p.enter = .ok inner ∧ inner.Holds room := by
  unfold Place.enter
  split
  next settled => exact ⟨p, rfl, .of_settled settled⟩
  next fresh =>
    have deep : room + 1 ≤ p.depth := h.resolve_left fresh
    split
    next zero => omega
    next depth below => exact ⟨_, rfl, .inr (by simp only; omega)⟩

end Place.Holds

/-! ## Putting aside -/

/-- A whole document can be put aside. -/
theorem Whole.settle {room : Nat} {j : Json} (h : Whole room j) :
    ∀ {p : Place}, p.Holds room → Json.settle p j = .ok () := by
  have items {p : Place} : ∀ items : List Json, (∀ j ∈ items, Json.settle p j = .ok ()) →
      settleItems p items none = .ok () := by
    intro items
    induction items with
    | nil =>
      intro _
      rfl
    | cons item items ih =>
      intro all
      rw [settleItems, all item (by simp)]
      exact ih fun j h => all j (by simp [h])
  have members {p : Place} : ∀ members : List (Key × Json), (∀ m ∈ members, ∃ s, m.1 = .name s) →
      (∀ m ∈ members, Json.settle p m.2 = .ok ()) → settleMembers p members none = .ok () := by
    intro members
    induction members with
    | nil =>
      intro _ _
      rfl
    | cons first members ih =>
      intro names all
      obtain ⟨key, value⟩ := first
      obtain ⟨name, rfl⟩ : ∃ s, key = .name s := names _ List.mem_cons_self
      rw [settleMembers, all _ List.mem_cons_self]
      exact ih (fun m h => names m (List.mem_cons_of_mem _ h))
        fun m h => all m (List.mem_cons_of_mem _ h)
  induction h with
  | null => exact fun _ => rfl
  | bool b => exact fun _ => rfl
  | number h => exact fun _ => rfl
  | string s => exact fun _ => rfl
  | list h ih =>
    intro p holds
    obtain ⟨inner, entered, holds⟩ := holds.enter
    rw [Json.settle, entered]
    exact items _ fun j h => ih j h holds
  | object names h ih =>
    intro p holds
    obtain ⟨inner, entered, holds⟩ := holds.enter
    rw [Json.settle, entered]
    exact members _ names fun m h => ih m h holds

/-! ## Values -/

/-- `d` makes `a` of the whole document `j` wherever there is room for `j`. -/
structure Decoder.Reads {α : Type} (d : Decoder α) (room : Nat) (j : Json) (a : α) : Prop where
  whole : Whole room j
  decodes : ∀ {p : Place}, p.Holds room → d p j = .ok a

namespace Decoder.Reads

variable {α β : Type} {d : Decoder α} {room : Nat} {j : Json} {a : α}

theorem string (s : String) : Decoder.string.Reads room (.string s) s := ⟨.string s, fun _ => rfl⟩

theorem bool (b : Bool) : Decoder.bool.Reads room (.bool b) b := ⟨.bool b, fun _ => rfl⟩

theorem float {x : Float} (h : (Number.float x).ReadsBack) :
    Decoder.float.Reads room (.number (.float x)) x :=
  ⟨.number h, fun _ => rfl⟩

theorem int {least greatest i : Int} (above : least ≤ i) (below : i ≤ greatest)
    (h : (Number.int i).ReadsBack) : (Decoder.int least greatest).Reads room (.ofInt i) i :=
  ⟨.number h, fun _ => if_pos ⟨above, below⟩⟩

theorem map {f : α → β} {b : β} (h : d.Reads room j a) (same : f a = b) :
    (d.map f).Reads room j b := by
  refine ⟨h.whole, fun holds => ?_⟩
  rw [Decoder.map, h.decodes holds, ← same]
  rfl

theorem nat {greatest n : Nat} (below : n ≤ greatest) (fits : n ≤ maxWord) :
    (Decoder.nat greatest).Reads room (.ofNat n) n := by
  have number : (Decoder.int 0 greatest).Reads room (.ofInt n) n :=
    int (Int.natCast_nonneg n) (by omega) (nat_readsBack fits)
  exact number.map (Int.toNat_natCast n)

/-- Null stands for nothing, so what is there must be written as something else. -/
theorem option {enc : α → Json} (solid : ∀ a, enc a ≠ .null) {x : Option α}
    (h : ∀ a ∈ x, d.Reads room (enc a) a) : d.option.Reads room ((x.map enc).getD .null) x := by
  cases x with
  | none => exact ⟨.null, fun _ => rfl⟩
  | some a =>
    have value := h a rfl
    refine ⟨value.whole, fun {p} holds => ?_⟩
    have present : d.option p (enc a) = (d p (enc a)).map some := by
      unfold Decoder.option
      split
      · exact absurd ‹_› (solid a)
      · rfl
    simp only [Option.map_some, Option.getD_some]
    rw [present, value.decodes holds]
    rfl

theorem list {enc : α → Json} {as : List α} (h : ∀ a ∈ as, d.Reads room (enc a) a) :
    (Decoder.list d).Reads (room + 1) (.ofList (as.map enc)) as := by
  have all {p : Place} (holds : p.Holds room) : items d p (as.map enc) none = .ok as := by
    induction as with
    | nil => rfl
    | cons a as ih =>
      rw [List.map_cons, items, (h a (by simp)).decodes holds, ih fun b hb => h b (by simp [hb])]
      rfl
  constructor
  · apply Whole.list
    intro j hj
    obtain ⟨a, ha, rfl⟩ := List.mem_map.mp hj
    exact (h a ha).whole
  · intro p holds
    obtain ⟨inner, entered, holds⟩ := holds.enter
    simp only [ofList, Decoder.list]
    rw [entered]
    exact all holds

theorem unit {variants : List (String × Variant α)} {name : String}
    (known : variants.lookup name = some (.unit a)) :
    (Variant.choose variants).Reads room (.string name) a := by
  refine ⟨.string name, fun _ => ?_⟩
  rw [Variant.choose, known]
  rfl

theorem withValue {variants : List (String × Variant α)} {name : String}
    (known : variants.lookup name = some (.withValue d)) (h : d.Reads room j a) :
    (Variant.choose variants).Reads (room + 1) (.ofMembers [(name, j)]) a := by
  refine ⟨.ofMembers (by simpa using h.whole), fun {p} holds => ?_⟩
  simp only [ofMembers, List.map_cons, List.map_nil, Variant.choose]
  split
  next settled =>
    rw [known]
    exact h.decodes (.of_settled settled)
  next =>
    obtain ⟨inner, entered, holds⟩ := holds.enter
    rw [entered]
    simp only [bind, Except.bind, Key.read, known, Option.isNone_some, Bool.false_eq_true, if_false,
      Variant.applied, h.decodes holds]
    rfl

end Decoder.Reads

/-! ## Objects with known members -/

/-- The members of a whole object. -/
def named (members : List (String × Json)) : List (Key × Json) :=
  members.map fun (k, v) => (.name k, v)

theorem ofMembers_eq (members : List (String × Json)) :
    ofMembers members = .object (named members) none := rfl

theorem named_append (ms ns : List (String × Json)) : named (ms ++ ns) = named ms ++ named ns :=
  List.map_append

namespace Record

variable {α β γ : Type}

/-- A member that the record knows is read into the draft, unless it is there already. -/
theorem members_cons_iff {r : Record α} {p : Place} {start after : r.Draft} {name : String}
    {value : Json} {rest : List (Key × Json)} (known : name ∈ r.names) :
    r.members p start ((.name name, value) :: rest) none = .ok after ↔
      r.has name start = false ∧
        ∃ next, r.read name p value start = .ok next ∧ r.members p next rest none = .ok after := by
  simp only [Record.members, Key.read, bind, Except.bind, List.contains_iff_mem, known, if_true]
  split
  next again => simp [again]
  next fresh =>
    cases read : r.read name p value start with
    | error e => simp
    | ok next => simpa using fun _ => Bool.not_eq_true _ ▸ fresh

section Both

variable {f : Record (α → β)} {x : Record α} {p : Place}

/-- The first record's members go to it and leave the second alone. -/
theorem both_members_left {after : f.Draft} {y : x.Draft} {rest : List (Key × Json)}
    {whole : (both f x).Draft} (onward : (both f x).members p (after, y) rest none = .ok whole) :
    ∀ {members : List (String × Json)} {start : f.Draft}, (∀ m ∈ members, m.1 ∈ f.names) →
      f.members p start (named members) none = .ok after →
      (both f x).members p (start, y) (named members ++ rest) none = .ok whole := by
  intro members
  induction members with
  | nil =>
    intro start _ h
    cases h
    exact onward
  | cons first members ih =>
    intro start known h
    obtain ⟨name, value⟩ := first
    have own : name ∈ f.names := known _ List.mem_cons_self
    obtain ⟨fresh, next, read, h⟩ := (members_cons_iff own).mp h
    refine (members_cons_iff (List.mem_append_left _ own)).mpr ⟨?_, (next, y), ?_, ?_⟩
    · simpa [both, own] using fresh
    · simp [both, own, read, Except.map]
    · exact ih (fun m hm => known m (List.mem_cons_of_mem _ hm)) h

/-- The second record's members go to it and leave the first alone. -/
theorem both_members_right {y : f.Draft} {after : x.Draft} :
    ∀ {members : List (String × Json)} {start : x.Draft},
      (∀ m ∈ members, m.1 ∈ x.names ∧ m.1 ∉ f.names) →
      x.members p start (named members) none = .ok after →
      (both f x).members p (y, start) (named members) none = .ok (y, after) := by
  intro members
  induction members with
  | nil =>
    intro start _ h
    cases h
    rfl
  | cons first members ih =>
    intro start known h
    obtain ⟨name, value⟩ := first
    obtain ⟨own, foreign⟩ : name ∈ x.names ∧ name ∉ f.names := known _ List.mem_cons_self
    obtain ⟨fresh, next, read, h⟩ := (members_cons_iff own).mp h
    refine (members_cons_iff (List.mem_append_right _ own)).mpr ⟨?_, (y, next), ?_, ?_⟩
    · simpa [both, foreign] using fresh
    · simp [both, foreign, read, Except.map]
    · exact ih (fun m hm => known m (List.mem_cons_of_mem _ hm)) h

end Both

/-- `r` makes `a` of an object that has just these members. -/
structure Takes (r : Record α) (room : Nat) (members : List (String × Json)) (a : α) : Prop where
  names : ∀ m ∈ members, m.1 ∈ r.names
  whole : ∀ m ∈ members, Whole room m.2
  reads : ∀ {p : Place}, p.Holds room →
    ∃ draft, r.members p r.blank (named members) none = .ok draft ∧ r.finish draft = .ok a

namespace Takes

variable {room : Nat} {a : α} {name : String}

theorem const (a : α) : (Record.const a).Takes room [] a := ⟨by simp, by simp, fun _ => ⟨(), rfl, rfl⟩⟩

theorem field {d : Decoder α} {missing : Except Problem α} {j : Json} (h : d.Reads room j a) :
    (Record.field name d missing).Takes room [(name, j)] a := by
  refine ⟨by simp [Record.field], by simpa using h.whole, fun {p} holds => ⟨some a, ?_, rfl⟩⟩
  refine (members_cons_iff (by simp [Record.field])).mpr ⟨rfl, some a, ?_, rfl⟩
  simp [Record.field, h.decodes holds, Except.map]

theorem seq {f : Record (α → β)} {x : Record α} {ms ns : List (String × Json)} {g : α → β}
    (hf : f.Takes room ms g) (hx : x.Takes room ns a) (apart : ∀ n ∈ x.names, n ∉ f.names) :
    (f <*> x).Takes room (ms ++ ns) (g a) := by
  constructor
  · intro m hm
    cases List.mem_append.mp hm with
    | inl own => exact List.mem_append_left _ (hf.names m own)
    | inr own => exact List.mem_append_right _ (hx.names m own)
  · intro m hm
    cases List.mem_append.mp hm with
    | inl own => exact hf.whole m own
    | inr own => exact hx.whole m own
  · intro p holds
    obtain ⟨left, readLeft, finishLeft⟩ := hf.reads holds
    obtain ⟨right, readRight, finishRight⟩ := hx.reads holds
    have second : (both f x).members p (left, x.blank) (named ns) none = .ok (left, right) :=
      both_members_right (fun m hm => ⟨hx.names m hm, apart _ (hx.names m hm)⟩) readRight
    refine ⟨(left, right), ?_, ?_⟩
    · rw [named_append]
      exact both_members_left second hf.names readLeft
    · change (both f x).finish (left, right) = _
      simp only [both, finishLeft, finishRight]
      rfl

theorem map {r : Record α} {members : List (String × Json)} (h : r.Takes room members a)
    (f : α → β) : (f <$> r).Takes room members (f a) :=
  (const f).seq h fun _ _ => List.not_mem_nil

/-- Two parts put together by a function. -/
theorem map₂ {x : Record α} {y : Record β} {ms ns : List (String × Json)} {b : β}
    (hx : x.Takes room ms a) (hy : y.Takes room ns b) (f : α → β → γ)
    (apart : ∀ n ∈ y.names, n ∉ x.names) : (f <$> x <*> y).Takes room (ms ++ ns) (f a b) :=
  (hx.map f).seq hy apart

/-- The object that has the members is read as what the record makes of them. -/
theorem decoder {r : Record α} {members : List (String × Json)} (h : r.Takes room members a) :
    r.decoder.Reads (room + 1) (.ofMembers members) a := by
  refine ⟨.ofMembers h.whole, fun {p} holds => ?_⟩
  obtain ⟨inner, entered, holds⟩ := holds.enter
  obtain ⟨draft, read, finish⟩ := h.reads holds
  rw [ofMembers_eq, Record.decoder, entered]
  simp only [bind, Except.bind, read, finish]

end Takes

/-! ### Records side by side -/

/-- What a record knows is read, as it is without anything put aside. -/
theorem partition_own {r : Record α} {p : Place} {after : r.Draft} {aside rest : List (Key × Json)}
    {result : r.Draft × List (Key × Json)} (onward : r.partition p after aside rest none = .ok result) :
    ∀ {members : List (String × Json)} {start : r.Draft}, (∀ m ∈ members, m.1 ∈ r.names) →
      r.members p start (named members) none = .ok after →
      r.partition p start aside (named members ++ rest) none = .ok result := by
  intro members
  induction members with
  | nil =>
    intro start _ h
    cases h
    exact onward
  | cons first members ih =>
    intro start known h
    obtain ⟨name, value⟩ := first
    have own : name ∈ r.names := known _ List.mem_cons_self
    obtain ⟨fresh, next, read, h⟩ := (members_cons_iff own).mp h
    have more := ih (fun m hm => known m (List.mem_cons_of_mem _ hm)) h
    simpa [named, partition, Key.read, own, fresh, read, bind, Except.bind] using more

/-- What it does not know is put aside. -/
theorem partition_aside {r : Record α} {p : Place} {room : Nat} (holds : p.Holds room)
    {draft : r.Draft} : ∀ {members : List (String × Json)} {aside : List (Key × Json)},
      (∀ m ∈ members, m.1 ∉ r.names ∧ Whole room m.2) →
      r.partition p draft aside (named members) none = .ok (draft, aside.reverse ++ named members) := by
  intro members
  induction members with
  | nil =>
    intro aside _
    simp [named, partition, checkStop, bind, Except.bind]
  | cons first members ih =>
    intro aside unknown
    obtain ⟨name, value⟩ := first
    obtain ⟨foreign, whole⟩ : name ∉ r.names ∧ Whole room value := unknown _ List.mem_cons_self
    have more : r.partition p draft ((.name name, value) :: aside) (named members) none = _ :=
      ih fun m hm => unknown m (List.mem_cons_of_mem _ hm)
    simpa [named, partition, Key.read, foreign, whole.settle holds, bind, Except.bind] using more

/-- The members of `other` may stand among those of `own`. -/
theorem Takes.flattened {own : Record β} {other : Record γ} {room : Nat}
    {ms ns : List (String × Json)} {b : β} {c : γ} (hb : own.Takes room ms b)
    (hc : other.Takes room ns c) (apart : ∀ n ∈ other.names, n ∉ own.names) :
    (flattened own other).Reads (room + 1) (.ofMembers (ms ++ ns)) (b, c) := by
  constructor
  · refine .ofMembers fun m hm => ?_
    cases List.mem_append.mp hm with
    | inl h => exact hb.whole m h
    | inr h => exact hc.whole m h
  · intro p holds
    obtain ⟨inner, entered, holds⟩ := holds.enter
    obtain ⟨left, readLeft, finishLeft⟩ := hb.reads holds
    obtain ⟨right, readRight, finishRight⟩ :=
      hc.reads (p := { inner with settled := true }) (.of_settled rfl)
    have others : own.partition inner left [] (named ns) none = .ok (left, named ns) :=
      partition_aside holds fun m hm => ⟨apart _ (hc.names m hm), hc.whole m hm⟩
    have parts := partition_own others hb.names readLeft
    rw [ofMembers_eq, named_append, Record.flattened, entered]
    simp only [bind, Except.bind, parts, finishLeft, readRight, finishRight]

end Record

/-! ## Tagged records -/

/-- Past the tag everything is put aside. -/
theorem findTag_aside {p : Place} {room : Nat} (holds : p.Holds room) {tag : String}
    {known : String → Bool} {found : Option String} :
    ∀ {members : List (String × Json)} {aside : List (Key × Json)},
      (∀ m ∈ members, m.1 ≠ tag ∧ Whole room m.2) →
      findTag p tag known found aside (named members) none =
        .ok (found, aside.reverse ++ named members) := by
  intro members
  induction members with
  | nil =>
    intro aside _
    simp [named, findTag, checkStop, bind, Except.bind]
  | cons first members ih =>
    intro aside other
    obtain ⟨name, value⟩ := first
    obtain ⟨differs, whole⟩ : name ≠ tag ∧ Whole room value := other _ List.mem_cons_self
    have more : findTag p tag known found ((.name name, value) :: aside) (named members) none = _ :=
      ih fun m hm => other m (List.mem_cons_of_mem _ hm)
    simpa [named, findTag, Key.read, differs, whole.settle holds, bind, Except.bind] using more

theorem Decoder.Reads.tagged {α : Type} {tag name : String} {variants : List (String × Record α)}
    {r : Record α} {room : Nat} {members : List (String × Json)} {a : α}
    (known : variants.lookup name = some r) (h : r.Takes room members a)
    (untagged : ∀ v ∈ variants, tag ∉ v.2.names) :
    (tagged tag variants).Reads (room + 1) (.ofMembers ((tag, .string name) :: members)) a := by
  constructor
  · refine .ofMembers fun m hm => ?_
    cases List.mem_cons.mp hm with
    | inl first => exact first ▸ .string name
    | inr other => exact h.whole m other
  · intro p holds
    obtain ⟨inner, entered, holds⟩ := holds.enter
    have listed : (name, r) ∈ variants := by
      obtain ⟨before, after, rfl, -⟩ := List.lookup_eq_some_iff.mp known
      simp
    have other : ∀ m ∈ members, m.1 ≠ tag := fun m hm same =>
      untagged _ listed (same ▸ h.names m hm)
    have others : findTag inner tag (fun s => (variants.lookup s).isSome) (some name) []
        (named members) none = .ok (some name, named members) :=
      findTag_aside holds fun m hm => ⟨other m hm, h.whole m hm⟩
    have found : findTag inner tag (fun s => (variants.lookup s).isSome) none []
        (named ((tag, .string name) :: members)) none = .ok (some name, named members) := by
      simpa [named, findTag, Key.read, Decoder.string, known, bind, Except.bind] using others
    have body := h.decoder.decodes (p := { inner with settled := true }) (.of_settled rfl)
    rw [ofMembers_eq, Json.tagged]
    simp only [entered, bind, Except.bind, found, known]
    exact body

/-! ## Texts -/

/-- What is written of a document that `d` reads, `d` reads again. -/
theorem Decoder.Reads.decodeText {α : Type} {d : Decoder α} {room : Nat} {j : Json} {a : α}
    (h : d.Reads room j a) (shallow : room ≤ 127) : Json.decodeText d j.compact = .ok a := by
  rw [Json.decodeText, ofText_compact h.whole, Document.decode, h.decodes (.root shallow)]
  rfl

end RegisterMachine.Json
