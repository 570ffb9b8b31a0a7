/-!
# Effects that stay

What a thing can do is defined by what comes of it: a new state, or an error. Whoever does it changes one
state as it goes, and when something fails half way nobody takes back what has been done by then. `InPlace`
is for definitions that are written that way.

`InPlace.Follows` relates the two. A chain follows its definition if it only reads, or changes what does
not matter to anyone else, up to its last link that can fail: reads are followed by anything
(`InPlace.Follows.read`), and what comes after a change must not fail, or leave what does not matter
(`InPlace.Follows.bind`).
-/

namespace RegisterMachine

/-- A computation that changes a `σ` as it goes. What it has changed stays changed when it fails. -/
abbrev InPlace (σ ε α : Type) := ExceptT ε (StateM σ) α

namespace InPlace

variable {σ τ ε ε' α β : Type}

/-- What it comes to, and the state it leaves, also where it fails. -/
def on (c : InPlace σ ε α) (s : σ) : Except ε α × σ := (StateT.run (ExceptT.run c) s).run

/-- One effect. -/
def effect (f : σ → Except ε α × σ) : InPlace σ ε α := ExceptT.mk fun s => f s

/-- Looks at the state, which may not be what was hoped for. -/
def look (f : σ → Except ε α) : InPlace σ ε α := effect fun s => (f s, s)

/-- Changes the state. This cannot fail. -/
def change (f : σ → σ) : InPlace σ ε Unit := effect fun s => (.ok (), f s)

/-- Changes the state, or fails before it has. -/
def tryChange (f : σ → Except ε σ) : InPlace σ ε Unit :=
  effect fun s =>
    match f s with
    | .ok s' => (.ok (), s')
    | .error e => (.error e, s)

/-- What has been done to a part of the state, as done to the state that the part is put back into. -/
def putBack (err : ε → ε') (put : τ → σ) (r : Except ε Unit × τ) : Except ε' Unit × σ :=
  (r.1.mapError err, put r.2)

theorem on_bind (c : InPlace σ ε α) (k : α → InPlace σ ε β) (s : σ) :
    (c >>= k).on s =
      match c.on s with
      | (.ok a, s') => (k a).on s'
      | (.error e, s') => (.error e, s') := by
  unfold on ExceptT.run StateT.run Id.run
  simp only [bind, ExceptT.bind, ExceptT.mk, StateT.bind]
  cases c s with
  | mk result s' => cases result <;> rfl

theorem on_effect (f : σ → Except ε α × σ) (s : σ) : (effect f).on s = f s := rfl

theorem on_look_bind (f : σ → Except ε α) (k : α → InPlace σ ε β) (s : σ) :
    (look f >>= k).on s =
      match f s with
      | .ok a => (k a).on s
      | .error e => (.error e, s) := by
  rw [on_bind, look, on_effect]
  cases f s <;> rfl

theorem map_mapError_id (put : τ → σ) (x : Except ε τ) : (x.mapError id).map put = x.map put := by
  cases x <;> rfl

/-- `r` is `x` carried out in place: the same state, or the same error and a state that is `Own`. -/
def Follows (Own : σ → Prop) (r : Except ε Unit × σ) : Except ε σ → Prop
  | .ok s => r = (.ok (), s)
  | .error e => r.1 = .error e ∧ Own r.2

namespace Follows

variable {Own : σ → Prop} {s : σ}

theorem look_ok {f : σ → Except ε α} {c : α → InPlace σ ε Unit} {x : Except ε σ} {a : α}
    (hf : f s = .ok a) (hc : Follows Own ((c a).on s) x) : Follows Own ((look f >>= c).on s) x := by
  rw [on_look_bind, hf]
  exact hc

theorem look_error {f : σ → Except ε α} {c : α → InPlace σ ε Unit} {e : ε} (hf : f s = .error e)
    (hs : Own s) : Follows Own ((look f >>= c).on s) (.error e) := by
  rw [on_look_bind, hf]
  exact ⟨rfl, hs⟩

/-- What has only been looked at is as it was. -/
theorem read {f : σ → Except ε α} {c : α → InPlace σ ε Unit} {y : α → Except ε σ} (hs : Own s)
    (hc : ∀ a, f s = .ok a → Follows Own ((c a).on s) (y a)) :
    Follows Own ((look f >>= c).on s) (f s >>= y) := by
  cases hf : f s with
  | ok a => exact look_ok hf (hc a hf)
  | error e => exact look_error hf hs

/-- After a change the rest goes on from there, and if it fails what it leaves must be `Own` all the same. -/
theorem bind {c d : InPlace σ ε Unit} {x : Except ε σ} {y : σ → Except ε σ}
    (hc : Follows Own (c.on s) x) (hd : ∀ s', x = .ok s' → Follows Own (d.on s') (y s')) :
    Follows Own ((c >>= fun _ => d).on s) (x >>= y) := by
  rw [on_bind]
  cases x with
  | ok s' =>
    rw [show c.on s = (.ok (), s') from hc]
    exact hd s' rfl
  | error e =>
    obtain ⟨he, hown⟩ := hc
    generalize c.on s = r at he hown
    obtain ⟨result, s'⟩ := r
    cases he
    exact ⟨rfl, hown⟩

theorem change (f : σ → σ) : Follows (ε := ε) Own ((change f).on s) (.ok (f s)) := rfl

theorem tryChange {f : σ → Except ε σ} (hs : Own s) : Follows Own ((tryChange f).on s) (f s) := by
  show Follows Own (match f s with | .ok s' => (.ok (), s') | .error e => (.error e, s)) (f s)
  cases f s with
  | ok s' => rfl
  | error e => exact ⟨rfl, hs⟩

theorem mono {Own' : σ → Prop} {r : Except ε Unit × σ} {x : Except ε σ} (hr : Follows Own r x)
    (h : ∀ s, Own s → Own' s) : Follows Own' r x := by
  cases x with
  | ok s => exact hr
  | error e => exact ⟨hr.1, h _ hr.2⟩

/-- What leaves nothing behind when it fails is its definition. -/
theorem eq_of_same {r : Except ε Unit × σ} {x : Except ε σ} (hr : Follows (· = s) r x) :
    r = match x with
      | .ok s' => (.ok (), s')
      | .error e => (.error e, s) := by
  cases x with
  | ok s' => exact hr
  | error e => exact Prod.ext hr.1 hr.2

theorem putBack (Own : σ → Prop) {Part : τ → Prop} {r : Except ε Unit × τ} {x : Except ε τ}
    (hr : Follows Part r x) (err : ε → ε') (put : τ → σ) (hput : ∀ t, Part t → Own (put t)) :
    Follows Own (putBack err put r) ((x.mapError err).map put) := by
  cases x with
  | ok t =>
    cases hr
    rfl
  | error e =>
    obtain ⟨result, t⟩ := r
    obtain ⟨rfl, ht⟩ := hr
    exact ⟨rfl, hput t ht⟩

end Follows

end InPlace

end RegisterMachine
