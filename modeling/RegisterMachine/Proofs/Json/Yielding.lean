import RegisterMachine.Json.Decoder
import RegisterMachine.Proofs.Meets

/-!
# What every result of a decoder satisfies

Whatever the document, a decoder's result has been through its checks. `Decoder.Yields d P` says that
all results of `d` satisfy `P`. A record reads its members one at a time into a draft, so there the
property is one of drafts that every step keeps, `Record.Yields`.
-/

namespace RegisterMachine.Json

/-- Everything that `d` makes of any document satisfies `P`. -/
def Decoder.Yields {α : Type} (d : Decoder α) (P : α → Prop) : Prop :=
  ∀ p j a, d p j = .ok a → P a

theorem map_eq_ok {ε α β : Type} {x : Except ε α} {f : α → β} {b : β}
    (h : x.map f = .ok b) : ∃ a, x = .ok a ∧ f a = b := by
  cases x with
  | error e => cases h
  | ok a => exact ⟨a, rfl, Except.ok.inj h⟩

namespace Decoder.Yields

variable {α β : Type} {d : Decoder α} {P : α → Prop}

theorem nat (greatest : Nat) : (Decoder.nat greatest).Yields (· ≤ greatest) := by
  intro p j a h
  obtain ⟨i, read, rfl⟩ := map_eq_ok h
  unfold Decoder.int at read
  split at read
  · split at read
    next bounds =>
      cases read
      omega
    · cases read
  · cases read

theorem map {f : α → β} {Q : β → Prop} (h : d.Yields P) (hf : ∀ a, P a → Q (f a)) :
    (d.map f).Yields Q := by
  intro p j b hb
  obtain ⟨a, read, rfl⟩ := map_eq_ok hb
  exact hf a (h _ _ _ read)

theorem list (h : d.Yields P) : (Decoder.list d).Yields fun as => ∀ a ∈ as, P a := by
  have items {p : Place} : ∀ {js : List Json} {stop : Option Problem} {as : List α},
      items d p js stop = .ok as → ∀ a ∈ as, P a := by
    intro js
    induction js with
    | nil =>
      intro stop as read
      obtain ⟨-, -, read⟩ := bind_eq_ok read
      cases read
      simp
    | cons j js ih =>
      intro stop as read
      obtain ⟨a, first, read⟩ := bind_eq_ok read
      obtain ⟨rest, others, read⟩ := bind_eq_ok read
      cases read
      exact List.forall_mem_cons.mpr ⟨h _ _ _ first, ih others⟩
  intro p j as read
  unfold Decoder.list at read
  split at read
  · obtain ⟨inner, -, read⟩ := bind_eq_ok read
    exact items read
  · cases read

end Decoder.Yields

namespace Record

variable {α β γ : Type}

/-- A property that an empty draft has and that reading a member keeps. -/
structure Keeps (r : Record α) (Kept : r.Draft → Prop) : Prop where
  blank : Kept r.blank
  step : ∀ {name : String} {p : Place} {j : Json} {draft next : r.Draft},
    Kept draft → r.read name p j draft = .ok next → Kept next

/-- Everything that `r` makes of any members satisfies `P`, because it is made of drafts with a
property that is kept. -/
def Yields (r : Record α) (P : α → Prop) : Prop :=
  ∃ Kept, r.Keeps Kept ∧ ∀ {draft : r.Draft} {a : α}, Kept draft → r.finish draft = .ok a → P a

namespace Yields

variable {P : α → Prop} {Q : β → Prop}

theorem const {a : α} (h : P a) : (Record.const a).Yields P := by
  refine ⟨fun _ => True, ⟨trivial, fun _ _ => trivial⟩, ?_⟩
  intro draft b _ finish
  cases finish
  exact h

theorem field {name : String} {d : Decoder α} {missing : Except Problem α} (h : d.Yields P)
    (without : ∀ a, missing = .ok a → P a) : (Record.field name d missing).Yields P := by
  refine ⟨fun draft : Option α => ∀ a ∈ draft, P a, ⟨?_, ?_⟩, ?_⟩
  · intro a ha
    cases ha
  · intro name p j draft next _ read
    obtain ⟨a, decoded, rfl⟩ := map_eq_ok read
    intro b hb
    cases hb
    exact h _ _ _ decoded
  · intro draft a kept finish
    cases draft with
    | none => exact without a finish
    | some b =>
      cases finish
      exact kept a rfl

theorem required {name : String} {d : Decoder α} (h : d.Yields P) :
    (Record.required name d).Yields P :=
  field h fun _ missing => nomatch missing

theorem optional {name : String} {d : Decoder α} {default : α} (h : d.Yields P)
    (without : P default) : (Record.optional name d default).Yields P := by
  apply field h
  intro a missing
  cases missing
  exact without

/-- Every record makes something. -/
theorem any (r : Record α) : r.Yields fun _ => True :=
  ⟨fun _ => True, ⟨trivial, fun _ _ => trivial⟩, fun _ _ => trivial⟩

theorem seq {f : Record (β → α)} {x : Record β} (hf : f.Yields fun g => ∀ b, Q b → P (g b))
    (hx : x.Yields Q) : (f <*> x).Yields P := by
  obtain ⟨KeptF, keepF, finishF⟩ := hf
  obtain ⟨KeptX, keepX, finishX⟩ := hx
  refine ⟨fun draft => KeptF draft.1 ∧ KeptX draft.2, ⟨⟨keepF.blank, keepX.blank⟩, ?_⟩, ?_⟩
  · intro name p j draft next kept read
    change (both f x).read name p j draft = _ at read
    simp only [both] at read
    split at read
    · obtain ⟨left, first, rfl⟩ := map_eq_ok read
      exact ⟨keepF.step kept.1 first, kept.2⟩
    · obtain ⟨right, second, rfl⟩ := map_eq_ok read
      exact ⟨kept.1, keepX.step kept.2 second⟩
  · intro draft a kept finish
    obtain ⟨g, left, finish⟩ := bind_eq_ok finish
    obtain ⟨b, right, finish⟩ := bind_eq_ok finish
    cases finish
    exact finishF kept.1 left b (finishX kept.2 right)

theorem map {x : Record β} {f : β → α} (hx : x.Yields Q) (hf : ∀ b, Q b → P (f b)) :
    (f <$> x).Yields P :=
  (const (P := fun g : β → α => ∀ b, Q b → P (g b)) hf).seq hx

/-- Nothing need be known of the last part. -/
theorem ap {f : Record (β → α)} {x : Record β} (hf : f.Yields fun g => ∀ b, P (g b)) :
    (f <*> x).Yields P := by
  refine seq (Q := fun _ => True) ?_ (any x)
  obtain ⟨Kept, keep, finish⟩ := hf
  exact ⟨Kept, keep, fun kept h b _ => finish kept h b⟩

end Yields

variable {r : Record α} {P : α → Prop} {Kept : r.Draft → Prop}

namespace Keeps

theorem members (keep : r.Keeps Kept) {p : Place} {stop : Option Problem} : ∀ {members : List (Key × Json)} {draft after : r.Draft},
      Kept draft → r.members p draft members stop = .ok after → Kept after := by
  intro members
  induction members with
  | nil =>
    intro draft after kept h
    obtain ⟨-, -, h⟩ := bind_eq_ok h
    cases h
    exact kept
  | cons first members ih =>
    intro draft after kept h
    obtain ⟨name, -, h⟩ := bind_eq_ok h
    split at h
    · split at h
      · cases h
      · obtain ⟨next, read, h⟩ := bind_eq_ok h
        exact ih (keep.step kept read) h
    · obtain ⟨-, -, h⟩ := bind_eq_ok h
      exact ih kept h

theorem inOrder (keep : r.Keeps Kept) {p : Place} {stop : Option Problem} : ∀ {names : List String} {items rest : List Json}
      {draft after : r.Draft}, Kept draft → r.inOrder p draft names items stop = .ok (after, rest) →
      Kept after := by
  intro names
  induction names with
  | nil =>
    intro items rest draft after kept h
    cases h
    exact kept
  | cons name names ih =>
    intro items rest draft after kept h
    cases items with
    | nil =>
      obtain ⟨-, -, h⟩ := bind_eq_ok h
      cases h
      exact kept
    | cons item items =>
      obtain ⟨next, read, h⟩ := bind_eq_ok h
      exact ih (keep.step kept read) h

theorem partition (keep : r.Keeps Kept) {p : Place} {stop : Option Problem} : ∀ {members aside others : List (Key × Json)}
      {draft after : r.Draft}, Kept draft →
      r.partition p draft aside members stop = .ok (after, others) → Kept after := by
  intro members
  induction members with
  | nil =>
    intro aside others draft after kept h
    obtain ⟨-, -, h⟩ := bind_eq_ok h
    cases h
    exact kept
  | cons first members ih =>
    intro aside others draft after kept h
    obtain ⟨name, -, h⟩ := bind_eq_ok h
    split at h
    · split at h
      · cases h
      · obtain ⟨next, read, h⟩ := bind_eq_ok h
        exact ih (keep.step kept read) h
    · obtain ⟨-, -, h⟩ := bind_eq_ok h
      exact ih kept h

end Keeps

theorem Yields.decoder (h : r.Yields P) : r.decoder.Yields P := by
  obtain ⟨Kept, keep, finish⟩ := h
  intro p j a read
  unfold Record.decoder at read
  split at read
  · obtain ⟨inner, -, read⟩ := bind_eq_ok read
    obtain ⟨draft, members, read⟩ := bind_eq_ok read
    exact finish (keep.members keep.blank members) read
  · obtain ⟨inner, -, read⟩ := bind_eq_ok read
    obtain ⟨⟨draft, rest⟩, items, read⟩ := bind_eq_ok read
    obtain ⟨b, finished, read⟩ := bind_eq_ok read
    obtain ⟨-, -, read⟩ := bind_eq_ok read
    cases read
    exact finish (keep.inOrder keep.blank items) finished
  · cases read

theorem Yields.flattened {own : Record β} {other : Record γ} {Q : β → Prop} {R : γ → Prop}
    (hb : own.Yields Q) (hc : other.Yields R) :
    (flattened own other).Yields fun (b, c) => Q b ∧ R c := by
  obtain ⟨KeptB, keepB, finishB⟩ := hb
  obtain ⟨KeptC, keepC, finishC⟩ := hc
  intro p j a read
  unfold Record.flattened at read
  split at read
  · obtain ⟨inner, -, read⟩ := bind_eq_ok read
    obtain ⟨⟨left, aside⟩, parts, read⟩ := bind_eq_ok read
    obtain ⟨b, ownFinish, read⟩ := bind_eq_ok read
    obtain ⟨right, members, read⟩ := bind_eq_ok read
    obtain ⟨c, otherFinish, read⟩ := bind_eq_ok read
    cases read
    exact ⟨finishB (keepB.partition keepB.blank parts) ownFinish,
      finishC (keepC.members keepC.blank members) otherFinish⟩
  · cases read

end Record

theorem Decoder.Yields.tagged {α : Type} {tag : String} {variants : List (String × Record α)}
    {P : α → Prop} (h : ∀ v ∈ variants, v.2.Yields P) : (tagged tag variants).Yields P := by
  have known {name : String} {r : Record α} (found : variants.lookup name = some r) :
      r.decoder.Yields P := by
    obtain ⟨before, after, rfl, -⟩ := List.lookup_eq_some_iff.mp found
    exact (h (name, r) (by simp)).decoder
  intro p j a read
  unfold Json.tagged at read
  split at read
  · obtain ⟨inner, -, read⟩ := bind_eq_ok read
    obtain ⟨⟨name, aside⟩, -, read⟩ := bind_eq_ok read
    simp only at read
    split at read
    · cases read
    · split at read
      · exact known ‹_› _ _ _ read
      · cases read
  · obtain ⟨inner, -, read⟩ := bind_eq_ok read
    split at read
    · obtain ⟨-, -, read⟩ := bind_eq_ok read
      cases read
    · obtain ⟨name, -, read⟩ := bind_eq_ok read
      split at read
      · cases read
      · obtain ⟨-, -, read⟩ := bind_eq_ok read
        simp only at read
        split at read
        · exact known ‹_› _ _ _ read
        · cases read
  · cases read

/-- What a text is decoded to. -/
theorem Decoder.Yields.decodeText {α : Type} {d : Decoder α} {P : α → Prop} (h : d.Yields P)
    {text : String} {a : α} (read : decodeText d text = .ok a) : P a := by
  obtain ⟨b, decoded, read⟩ := bind_eq_ok read
  split at read
  · cases read
  · cases read
    exact h _ _ _ decoded

end RegisterMachine.Json
