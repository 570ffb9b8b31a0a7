import RegisterMachine.Proofs.Value.Soundness
import RegisterMachine.Value.Iterator

/-!
# Going through a collection that changes

An iterator settles how far it goes when it is made, and reads the elements when it gets to them. In the
meantime the collection may be written to and may grow, and there may be other iterators over it.
`Traversal` is a collection with all its iterators, and `Traversal.run` goes through any order in which
they are made, used and overtaken by changes. Beside each iterator stands what it is judged by: the
collection as it was when the iterator was made, and how many elements it has delivered.

The invariant, `Traversal.Sound`, is that every iterator is where those two say (`Iterator.Stands`), and
that the collection has only grown since it was made (`Object.Extends`): an array loses no index, and a map
keeps its keys in their places. So an element that was there to be delivered still is when its turn comes
(`Iterator.Stands.next_of_lt`), and **`Traversal.delivers`** is what follows for every run.
-/

namespace RegisterMachine

/-! ## Collections that grow -/

namespace Entries

/-- A new key goes last. -/
theorem keys_prefix_insert (entries : Entries) (key : String) (v : Value) :
    entries.keys <+: (entries.insert key v).keys := by
  induction entries with
  | nil => exact List.nil_prefix
  | cons entry rest ih =>
    obtain ⟨k, old⟩ := entry
    unfold insert
    split
    · exact List.prefix_rfl
    · exact List.prefix_cons_inj k |>.mpr ih

/-- A key of the map has a value. -/
theorem exists_get? {entries : Entries} {key : String} (h : key ∈ entries.keys) :
    ∃ v, entries.get? key = some v := by
  obtain ⟨entry, hmem, hkey⟩ := List.mem_map.mp h
  cases hget : entries.get? key with
  | some v => exact ⟨v, rfl⟩
  | none => exact absurd hkey.symm (by simpa using List.lookup_eq_none_iff.mp hget entry hmem)

end Entries

namespace Object

/-- How many elements there are to go through. -/
def count : Object → Nat
  | array a => a.size
  | map entries => entries.length
  | record _ _ => 0

/-- What is due as the `k`-th element, counted from 0, to who began when the collection was `seen` and
comes to it when it is `now`: the index and the element at it, or the key that was the `k`-th and its
value. -/
def visit (seen now : Object) (k : Nat) : Option (Value × Value) :=
  match seen, now with
  | array _, array a => a.toList[k]?.map fun element => (.int (.ofNat k), element)
  | map entries, map entries' => do
      let key ← entries.keys[k]?
      let element ← entries'.get? key
      some (.str key, element)
  | _, _ => none

/-- The collection is still what it was, but for new elements and other values. -/
inductive Extends : Object → Object → Prop
  | array {a b : ArrayObject} (hsize : a.size ≤ b.size) : Extends (array a) (array b)
  | map {entries entries' : Entries} (hkeys : entries.keys <+: entries'.keys) :
      Extends (map entries) (map entries')

namespace Extends

variable {seen now later : Object} {k : Nat}

theorem trans (h : seen.Extends now) (h' : now.Extends later) : seen.Extends later := by
  cases h with
  | array hsize =>
    cases h' with
    | array hsize' => exact .array (Nat.le_trans hsize hsize')
  | map hkeys =>
    cases h' with
    | map hkeys' => exact .map (hkeys.trans hkeys')

end Extends

end Object

/-! ## One iterator -/

namespace Iterator

/-- The iterator was made when the collection at `source` was `seen`, and has delivered `k` elements. -/
inductive Stands (source : Ref) (k : Nat) : Object → Iterator → Prop
  | array {a : ArrayObject} : Stands source k (.array a) (.array source k a.size)
  | map {entries : Entries} :
      Stands source k (.map entries) (.map source (entries.keys.drop k))

namespace Stands

variable {source : Ref} {k : Nat} {seen now : Object} {it : Iterator} {h : Heap} {isHeld : Ref → Bool}

/-- An iterator that has just been made is at the beginning. -/
theorem of_over? (hget : h.get? source = some seen) (hit : over? h (.collection source) = some it) :
    Stands source 0 seen it ∧ seen.Extends seen := by
  simp only [over?, hget] at hit
  cases seen with
  | array a =>
    cases hit
    exact ⟨.array, .array (Nat.le_refl _)⟩
  | map entries =>
    cases hit
    exact ⟨.map, .map List.prefix_rfl⟩
  | record typeName fields => cases hit

theorem hasNext_eq (hit : Stands source k seen it) :
    it.hasNext isHeld = (decide (k < seen.count) && isHeld source) := by
  cases hit with
  | array => rfl
  | @map entries =>
    have hempty : (entries.keys.drop k).isEmpty = decide (entries.length ≤ k) := by
      rw [Bool.eq_iff_iff, List.isEmpty_iff, List.drop_eq_nil_iff, Entries.keys, List.length_map,
        decide_eq_true_eq]
    show (!(entries.keys.drop k).isEmpty && isHeld source) = (decide (k < entries.length) && _)
    rw [hempty, ← decide_not, decide_eq_decide.mpr Nat.not_le]

/-- At the end there is nothing more, whether or not anyone holds the collection. -/
theorem next_of_count_le (hit : Stands source k seen it) (hk : seen.count ≤ k) (arity : Arity) :
    it.next h isHeld arity = .error .exhausted := by
  cases hit with
  | array => exact if_neg (Nat.not_lt.mpr hk)
  | @map entries =>
    have hnil : entries.keys.drop k = [] :=
      List.drop_eq_nil_iff.mpr (by rw [Entries.keys, List.length_map]; exact hk)
    rw [hnil]
    rfl

/-- The keys that are left begin with the one that is due. -/
theorem keys_drop {entries : Entries} (hk : k < (Object.map entries).count) :
    ∃ key, entries.keys[k]? = some key ∧ entries.keys.drop k = key :: entries.keys.drop (k + 1) := by
  have hlt : k < entries.keys.length := by
    rw [Entries.keys, List.length_map]
    exact hk
  exact ⟨_, List.getElem?_eq_getElem hlt, List.drop_eq_getElem_cons hlt⟩

theorem next_of_dropped (hit : Stands source k seen it) (hk : k < seen.count)
    (hheld : isHeld source = false) (arity : Arity) :
    it.next h isHeld arity = .error .collectionDropped := by
  cases hit with
  | @array a =>
    have hlt : k < a.size := hk
    simp [next, hlt, hheld]
  | map =>
    obtain ⟨key, -, hdrop⟩ := keys_drop hk
    rw [hdrop]
    simp [next, hheld]

/-- An element that is left is delivered, as it is now, and the iterator moves past it. -/
theorem next_of_lt (hit : Stands source k seen it) (hext : seen.Extends now) (hs : now.Sound)
    (hget : h.get? source = some now) (hheld : isHeld source = true) (hk : k < seen.count) :
    ∃ position element it', seen.visit now k = some (position, element) ∧
      Stands source (k + 1) seen it' ∧
      ∀ arity, it.next h isHeld arity = .ok (arity.pack position element, it') := by
  cases hit with
  | @array a =>
    cases hext with
    | @array a b hsize =>
      obtain ⟨element, hat, hread⟩ := ArrayObject.Sound.get_of_lt hs (Nat.lt_of_lt_of_le hk hsize)
      refine ⟨.int (.ofNat k), element, _, by rw [Object.visit, hat]; rfl, .array, fun arity => ?_⟩
      have hlt : k < a.size := hk
      simp [next, hlt, hheld, hget, hread]
  | @map entries =>
    cases hext with
    | @map entries entries' hkeys =>
      obtain ⟨key, hkey, hdrop⟩ := keys_drop hk
      obtain ⟨element, hat⟩ := Entries.exists_get? (hkeys.subset (List.mem_of_getElem? hkey))
      refine ⟨.str key, element, _, by simp [Object.visit, hkey, hat], .map, fun arity => ?_⟩
      rw [hdrop]
      simp [next, hheld, hget, Entries.get, hat]

end Stands

end Iterator

/-! ## A collection and its iterators -/

/-- An iterator, and what it is judged by. -/
structure Opened where
  it : Iterator
  /-- The collection when the iterator was made. -/
  seen : Object
  /-- How many elements the iterator has delivered. -/
  delivered : Nat

structure Traversal where
  heap : Heap
  /-- Where the collection is. -/
  source : Ref
  /-- Whether anyone holds the collection. -/
  held : Bool
  /-- The iterators over it, in the order in which they were made. -/
  opened : List Opened

namespace Traversal

/-- A collection that nobody has begun to go through. -/
def start (heap : Heap) (source : Ref) : Traversal := ⟨heap, source, true, []⟩

inductive Move
  /-- Makes an iterator. -/
  | make
  /-- Writes an element of the array. -/
  | set (index : Int64) (v : Value)
  /-- Adds an element to the array. -/
  | push (v : Value)
  /-- Gives a key of the map a value. -/
  | insert (key : String) (v : Value)
  /-- Asks an iterator for its next element. -/
  | next (i : Nat) (arity : Arity)
  /-- The last who held the collection lets go of it. -/
  | release

/-- Nobody asks for anything but the collection. -/
def isHeld (s : Traversal) : Ref → Bool := fun _ => s.held

/-- Writes to the array. What fails changes nothing. -/
def write (s : Traversal) (written : ArrayObject → Except ArrayError Heap) : Option Traversal :=
  match s.held, s.heap.get? s.source with
  | true, some (.array a) =>
      match written a with
      | .ok heap => some { s with heap }
      | .error _ => some s
  | _, _ => none

/-- What a move makes of it; `none` if the move cannot be made. -/
def step (s : Traversal) : Move → Option Traversal
  | .make =>
      if s.held then do
        let seen ← s.heap.get? s.source
        let it ← Iterator.over? s.heap (.collection s.source)
        some { s with opened := s.opened ++ [⟨it, seen, 0⟩] }
      else none
  | .set index v => s.write fun a => s.heap.setElement s.source a index v
  | .push v => s.write fun a => s.heap.pushElement s.source a v
  | .insert key v =>
      match s.held, s.heap.get? s.source with
      | true, some (.map entries) =>
          some { s with heap := s.heap.set s.source (.map (entries.insert key v)) }
      | _, _ => none
  | .next i arity => do
      let x ← s.opened[i]?
      match x.it.next s.heap s.isHeld arity with
      | .ok (_, it) => some { s with opened := s.opened.set i ⟨it, x.seen, x.delivered + 1⟩ }
      | .error _ => some s
  | .release => some { s with held := false }

/-- Makes moves one after another. -/
def run (s : Traversal) : List Move → Option Traversal
  | [] => some s
  | m :: moves => (s.step m).bind fun s => s.run moves

/-- The collection is `now`, and each iterator is where it is due. -/
structure Sound (s : Traversal) (now : Object) : Prop where
  get : s.heap.get? s.source = some now
  sound : now.Sound
  opened : ∀ x ∈ s.opened, Iterator.Stands s.source x.delivered x.seen x.it ∧ x.seen.Extends now

/-- What every move leaves: nobody takes hold of the collection again, and the iterators stay, each with
as many elements delivered as before or more. -/
structure Later (s s' : Traversal) : Prop where
  held : s'.held = true → s.held = true
  opened (i : Nat) (x : Opened) : s.opened[i]? = some x →
    ∃ x', s'.opened[i]? = some x' ∧ x'.seen = x.seen ∧ x.delivered ≤ x'.delivered

variable {s s' s'' : Traversal} {now : Object} {m : Move} {moves : List Move} {i : Nat} {x : Opened}

theorem Later.refl (s : Traversal) : s.Later s := ⟨id, fun _ x hx => ⟨x, hx, rfl, Nat.le_refl _⟩⟩

theorem Later.trans (h : s.Later s') (h' : s'.Later s'') : s.Later s'' where
  held hheld := h.held (h'.held hheld)
  opened i x hx := by
    obtain ⟨x', hx', hseen, hle⟩ := h.opened i x hx
    obtain ⟨x'', hx'', hseen', hle'⟩ := h'.opened i x' hx'
    exact ⟨x'', hx'', hseen'.trans hseen, Nat.le_trans hle hle'⟩

/-- The collection has got other contents, which go on from those it had. -/
theorem Sound.changed (h : s.Sound now) {o : Object} (hext : now.Extends o) (ho : o.Sound) :
    Sound { s with heap := s.heap.set s.source o } o where
  get := Heap.get?_set_self o h.get
  sound := ho
  opened x hx := ⟨(h.opened x hx).1, (h.opened x hx).2.trans hext⟩

/-- A write to an element, wherever it is. -/
theorem Sound.write (h : s.Sound now) (index : ArrayObject → Int64) (v : Value)
    (hs : (s.write fun a => s.heap.setElement s.source a (index a) v) = some s') :
    ∃ now', s'.Sound now' ∧ s.Later s' := by
  unfold Traversal.write at hs
  rw [h.get] at hs
  split at hs
  · rename_i a hheld hget
    cases hget
    cases hset : a.set (index a) v (s.heap.tag v) with
    | ok b =>
      obtain ⟨hsound, hsize⟩ := (ArrayObject.Sound.set_meets h.sound _ _ _).of_ok hset
      simp only [Heap.setElement, hset, Except.map] at hs
      cases hs
      exact ⟨.array b, h.changed (.array hsize) hsound, (Later.refl s).held, (Later.refl s).opened⟩
    | error e =>
      simp only [Heap.setElement, hset, Except.map] at hs
      cases hs
      exact ⟨_, h, .refl s⟩
  · cases hs

/-- An iterator is asked. Either it has moved, and nothing else, or nothing has changed. -/
theorem step_next {arity : Arity} (hx : s.opened[i]? = some x) :
    s.step (.next i arity) =
      match x.it.next s.heap s.isHeld arity with
      | .ok (_, it) => some { s with opened := s.opened.set i ⟨it, x.seen, x.delivered + 1⟩ }
      | .error _ => some s := by
  simp only [step, hx, Option.bind_eq_bind, Option.bind_some]

theorem Sound.next (h : s.Sound now) (hx : s.opened[i]? = some x) (arity : Arity) :
    (s.held = true ∧ x.delivered < x.seen.count ∧ ∃ position element it',
      x.seen.visit now x.delivered = some (position, element) ∧
      Iterator.Stands s.source (x.delivered + 1) x.seen it' ∧
      x.it.next s.heap s.isHeld arity = .ok (arity.pack position element, it')) ∨
    (¬ (s.held = true ∧ x.delivered < x.seen.count) ∧ x.it.next s.heap s.isHeld arity =
      .error (if x.delivered < x.seen.count then .collectionDropped else .exhausted)) := by
  obtain ⟨hstands, hext⟩ := h.opened x (List.mem_of_getElem? hx)
  by_cases hlt : x.delivered < x.seen.count
  · cases hheld : s.held with
    | true =>
      obtain ⟨position, element, it', hvisit, hit', hnext⟩ :=
        hstands.next_of_lt hext h.sound h.get (show s.isHeld s.source = true from hheld) hlt
      exact Or.inl ⟨rfl, hlt, position, element, it', hvisit, hit', hnext arity⟩
    | false =>
      rw [if_pos hlt]
      exact Or.inr ⟨by simp, hstands.next_of_dropped hlt hheld arity⟩
  · rw [if_neg hlt]
    exact Or.inr ⟨fun h => hlt h.2, hstands.next_of_count_le (Nat.le_of_not_lt hlt) arity⟩

/-- **What one move keeps.** -/
theorem Sound.step (h : s.Sound now) (hs : s.step m = some s') :
    ∃ now', s'.Sound now' ∧ s.Later s' := by
  cases m with
  | make =>
    obtain ⟨-, hs⟩ := Option.ite_none_right_eq_some.mp hs
    obtain ⟨seen, hseen, hs⟩ := Option.bind_eq_some_iff.mp hs
    obtain ⟨it, hit, hs⟩ := Option.bind_eq_some_iff.mp hs
    cases h.get.symm.trans hseen
    cases hs
    refine ⟨now, ⟨h.get, h.sound, fun x hx => ?_⟩, id, fun i x hx => ⟨x, ?_, rfl, Nat.le_refl _⟩⟩
    · rcases List.mem_append.mp hx with hx | hx
      · exact h.opened x hx
      · rw [List.mem_singleton.mp hx]
        exact Iterator.Stands.of_over? h.get hit
    · rw [List.getElem?_append_left (List.getElem?_eq_some_iff.mp hx).1]
      exact hx
  | set index v => exact h.write (fun _ => index) v hs
  | push v => exact h.write (fun a => .ofNat a.size) v hs
  | insert key v =>
    simp only [Traversal.step, h.get] at hs
    split at hs
    · rename_i entries hheld hget
      cases hs
      cases hget
      refine ⟨_, h.changed (.map ?_) trivial, (Later.refl s).held, (Later.refl s).opened⟩
      exact entries.keys_prefix_insert key v
    · cases hs
  | next i arity =>
    obtain ⟨x, hx, -⟩ := Option.bind_eq_some_iff.mp hs
    rw [step_next hx] at hs
    rcases h.next hx arity with ⟨-, -, position, element, it', -, hit', hnext⟩ | ⟨-, hnext⟩
    · rw [hnext] at hs
      cases hs
      have hseen := (h.opened x (List.mem_of_getElem? hx)).2
      refine ⟨now, ⟨h.get, h.sound, fun y hy => ?_⟩, id, fun j y hy => ?_⟩
      · rcases List.mem_or_eq_of_mem_set hy with hy | rfl
        · exact h.opened y hy
        · exact ⟨hit', hseen⟩
      · by_cases hij : i = j
        · subst hij
          cases hx.symm.trans hy
          have hlt := (List.getElem?_eq_some_iff.mp hx).1
          exact ⟨_, List.getElem?_set_self hlt, rfl, Nat.le_succ _⟩
        · exact ⟨y, (List.getElem?_set_ne hij).trans hy, rfl, Nat.le_refl _⟩
    · rw [hnext] at hs
      cases hs
      exact ⟨now, h, .refl s⟩
  | release =>
    cases hs
    exact ⟨now, ⟨h.get, h.sound, h.opened⟩, nofun, (Later.refl s).opened⟩

theorem Sound.run (h : s.Sound now) (hs : s.run moves = some s') :
    ∃ now', s'.Sound now' ∧ s.Later s' := by
  induction moves generalizing s now with
  | nil =>
    cases hs
    exact ⟨now, h, .refl _⟩
  | cons m moves ih =>
    obtain ⟨s₁, hstep, hrun⟩ := Option.bind_eq_some_iff.mp hs
    obtain ⟨now₁, h₁, hlater⟩ := h.step hstep
    obtain ⟨now', h', hlater'⟩ := ih h₁ hrun
    exact ⟨now', h', hlater.trans hlater'⟩

theorem Sound.hasNext_eq (h : s.Sound now) (hx : s.opened[i]? = some x) :
    x.it.hasNext s.isHeld = (decide (x.delivered < x.seen.count) && s.held) :=
  (h.opened x (List.mem_of_getElem? hx)).1.hasNext_eq

/-- **An iterator delivers what was there when it was made, as it is when its turn comes.** Take a
collection through any moves, and any of its iterators then. It has a next element just if it delivers one
when it is asked, and that is when the collection is held and fewer elements have been delivered than
there were. What it delivers is the element that is due, as it is now, with its index or key if that is
wanted, and only this iterator moves. If it fails, it says that the collection is gone if there were
elements left and that they are exhausted if not, and nothing changes. Other iterators can be asked
without any difference to this one. Once it has no next element it has none ever after. -/
theorem delivers {heap : Heap} {source : Ref} {first : Object} (hget : heap.get? source = some first)
    (hfirst : first.Sound) (hrun : (start heap source).run moves = some s)
    (hx : s.opened[i]? = some x) :
    ∃ now, s.heap.get? s.source = some now ∧
      x.it.hasNext s.isHeld = (decide (x.delivered < x.seen.count) && s.held) ∧
      (∀ arity, x.it.hasNext s.isHeld = (x.it.next s.heap s.isHeld arity).isOk) ∧
      (∀ arity, s.held = true → x.delivered < x.seen.count → ∃ position element it',
        x.seen.visit now x.delivered = some (position, element) ∧
        x.it.next s.heap s.isHeld arity = .ok (arity.pack position element, it') ∧
        s.step (.next i arity) =
          some { s with opened := s.opened.set i ⟨it', x.seen, x.delivered + 1⟩ }) ∧
      (∀ arity, ¬ (s.held = true ∧ x.delivered < x.seen.count) →
        x.it.next s.heap s.isHeld arity =
          .error (if x.delivered < x.seen.count then .collectionDropped else .exhausted) ∧
        s.step (.next i arity) = some s) ∧
      (∀ j arity s', j ≠ i → s.step (.next j arity) = some s' →
        s'.opened[i]? = some x ∧ s'.heap = s.heap ∧ s'.held = s.held) ∧
      (x.it.hasNext s.isHeld = false → ∀ moves' s', s.run moves' = some s' →
        ∃ x', s'.opened[i]? = some x' ∧ x'.it.hasNext s'.isHeld = false) := by
  have hstart : (start heap source).Sound first := ⟨hget, hfirst, nofun⟩
  obtain ⟨now, h, -⟩ := hstart.run hrun
  refine ⟨now, h.get, h.hasNext_eq hx, fun arity => ?_, fun arity hheld hlt => ?_,
    fun arity hnot => ?_, fun j arity s' hji hstep => ?_, fun hnone moves' s' hrun' => ?_⟩
  · rw [h.hasNext_eq hx]
    rcases h.next hx arity with ⟨hheld, hlt, _, _, _, -, -, hnext⟩ | ⟨hnot, hnext⟩
    · rw [hnext, hheld, decide_eq_true hlt]
      rfl
    · rw [hnext]
      show _ = false
      rw [Bool.and_eq_false_iff, decide_eq_false_iff_not, ← Bool.not_eq_true]
      exact Decidable.not_and_iff_not_or_not.mp fun h => hnot h.symm
  · rcases h.next hx arity with ⟨-, -, position, element, it', hvisit, -, hnext⟩ | ⟨hnot, -⟩
    · refine ⟨position, element, it', hvisit, hnext, ?_⟩
      rw [step_next hx, hnext]
    · exact absurd ⟨hheld, hlt⟩ hnot
  · rcases h.next hx arity with ⟨hheld, hlt, -⟩ | ⟨-, hnext⟩
    · exact absurd ⟨hheld, hlt⟩ hnot
    · refine ⟨hnext, ?_⟩
      rw [step_next hx, hnext]
  · obtain ⟨y, hy, -⟩ := Option.bind_eq_some_iff.mp hstep
    rw [step_next hy] at hstep
    split at hstep
    · cases hstep
      exact ⟨(List.getElem?_set_ne hji).trans hx, rfl, rfl⟩
    · cases hstep
      exact ⟨hx, rfl, rfl⟩
  · -- neither can the collection be held again nor an element be taken back
    obtain ⟨now', h', hlater⟩ := h.run hrun'
    obtain ⟨x', hx', hseen, hle⟩ := hlater.opened i x hx
    refine ⟨x', hx', ?_⟩
    rw [h.hasNext_eq hx] at hnone
    rw [h'.hasNext_eq hx', hseen, Bool.and_eq_false_iff, decide_eq_false_iff_not]
    rcases Bool.and_eq_false_iff.mp hnone with hnone | hnone
    · exact Or.inl fun hlt => of_decide_eq_false hnone (Nat.lt_of_le_of_lt hle hlt)
    · refine Or.inr (Bool.eq_false_iff.mpr fun hheld => ?_)
      rw [hlater.held hheld] at hnone
      cases hnone

/-- An array of two strings. -/
def pair : Object := .array ⟨.string, #["x", "y"], 2⟩

/-- The first of two strings is overwritten and a third is added after the iterator was made. It has
delivered the new first one and goes on to the second. -/
theorem pair_delivered :
    pair.Sound ∧ ∃ s x, (start ⟨#[pair]⟩ ⟨0⟩).run
        [.make, .set 0 (.str "z"), .push (.str "w"), .next 0 .two] = some s ∧
      s.opened[0]? = some x ∧ s.held = true ∧ x.delivered < x.seen.count ∧
      ∃ now position element it', s.heap.get? s.source = some now ∧
        x.seen.visit now x.delivered = some (position, element) ∧
        x.it.next s.heap s.isHeld .two = .ok ([position, element], it') := by
  have hsound : pair.Sound := (ArrayObject.ofStrings_meets ["x", "y"]).of_ok rfl
  let s : Traversal := ⟨⟨#[.array ⟨.string, #["z", "y", "w"], 3⟩]⟩, ⟨0⟩, true,
    [⟨.array ⟨0⟩ 1 2, pair, 1⟩]⟩
  have hrun : (start ⟨#[pair]⟩ ⟨0⟩).run
      [.make, .set 0 (.str "z"), .push (.str "w"), .next 0 .two] = some s := rfl
  have hx : s.opened[0]? = some ⟨.array ⟨0⟩ 1 2, pair, 1⟩ := rfl
  obtain ⟨now, hnow, -, -, hnext, -⟩ := delivers rfl hsound hrun hx
  obtain ⟨position, element, it', hvisit, hdelivered, -⟩ := hnext .two rfl (by decide)
  exact ⟨hsound, s, _, hrun, hx, rfl, by decide, now, position, element, it', hnow, hvisit,
    hdelivered⟩

end Traversal

end RegisterMachine
