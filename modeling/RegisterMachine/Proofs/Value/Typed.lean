import RegisterMachine.Proofs.Value.Soundness

/-!
# Arrays stay typed

Anyone who has a handle on an array can write to it and read from it. `Heap.serve` is one such request, and
`Heap.serveAll` any number of them to any arrays of a heap, in the order they are made.

An array decides twice whether it can store a value, once by a look at the value (`ElementKind.accepts`) and once by
turning it into an element (`ElementKind.ofValue?`). The two agree (`ArrayObject.set_of_accepts`), so nothing that
has passed the first is turned down at the second, and what comes back is what was stored
(`ArrayObject.Sound.get_of_set`). What cannot be stored is turned down whatever the index
(`ArrayObject.set_of_not_accepts`).

**`Heap.arrays_stay_typed`** is what that comes to for an array that others hold as well. Its invariant is that there
is an array of the kind at the reference (`Heap.HasArray`), and for what was written that nothing else has been
written there since (`Heap.HasArray.get_served`). Writes are made in place, so that one that is turned down could have
left something behind; it has not (`Heap.act_eq_attempt`).
-/

namespace RegisterMachine

namespace Growable

variable {α : Type} [Inhabited α] {a b : Growable α} {v : View α} {index index' : Int64} {x y : α}

/-- A read finds the element that there is. -/
theorem get_eq_ok_iff (h : a.Shows v) :
    a.get index = .ok x ↔ 0 ≤ index.toInt ∧ v.elements[index.toInt.toNat]? = some x := by
  have hget := get_eq h index
  rw [View.serve] at hget
  dsimp only at hget
  cases hx : a.get index with
  | ok y =>
    rw [hx] at hget
    by_cases hpos : 0 ≤ index.toInt
    · rw [if_pos hpos] at hget
      cases hy : v.elements[index.toInt.toNat]? with
      | none =>
        rw [hy] at hget
        cases hget
      | some z =>
        rw [hy] at hget
        cases hget
        simp [hpos]
    · rw [if_neg hpos] at hget
      cases hget
  | error e =>
    rw [hx] at hget
    refine iff_of_false (by simp) ?_
    rintro ⟨hpos, hy⟩
    rw [if_pos hpos, hy] at hget
    cases hget

/-- What has been written is read. -/
theorem get_of_set (h : a.Shows v) (hs : a.set index x = .ok b) : b.get index = .ok x := by
  obtain ⟨⟨hpos, -⟩, hb⟩ := (set_meets h index x).of_ok hs
  refine (get_eq_ok_iff hb).mpr ⟨hpos, ?_⟩
  refine List.getElem?_set_self ?_
  rw [View.length_padded]
  omega

/-- What is elsewhere is still there. -/
theorem get_of_set_of_ne (h : a.Shows v) (hs : a.set index' x = .ok b) (hne : index ≠ index')
    (hy : a.get index = .ok y) : b.get index = .ok y := by
  obtain ⟨⟨hpos', -⟩, hb⟩ := (set_meets h index' x).of_ok hs
  obtain ⟨hpos, hy⟩ := (get_eq_ok_iff h).mp hy
  have hplace : index'.toInt.toNat ≠ index.toInt.toNat := fun he =>
    hne (Int64.toInt_inj.mp (by omega))
  refine (get_eq_ok_iff hb).mpr ⟨hpos, ?_⟩
  show ((View.padded v.elements _).set _ x)[index.toInt.toNat]? = _
  rw [List.getElem?_set_ne hplace, View.padded,
    List.getElem?_append_left (List.getElem?_eq_some_iff.mp hy).1, hy]

end Growable

/-! ## One array -/

/-- The kind of array that has such values for elements, and no others. -/
def Value.elementKind? : Value → Option ElementKind
  | int _ => some .int
  | float _ => some .float
  | bool _ => some .boolean
  | str _ => some .string
  | blob _ => some .blob
  | _ => none

/-- Arrays of the kind have such values for elements. -/
def ElementKind.Holds (kind : ElementKind) (v : Value) : Prop := kind = .any ∨ v.elementKind? = some kind

/-- The check is for the values that an array of the kind has. -/
theorem ElementKind.accepts_iff {kind : ElementKind} {v : Value} : kind.accepts v = true ↔ kind.Holds v := by
  cases kind <;> cases v <;> simp [accepts, Holds, Value.elementKind?]

theorem ElementKind.accepts_eq_false_iff {kind : ElementKind} {v : Value} :
    kind.accepts v = false ↔ ¬ kind.Holds v := by
  rw [← accepts_iff, Bool.not_eq_true]

theorem ElementKind.accepts_toValue (kind : ElementKind) (x : kind.Slot) :
    kind.accepts (kind.toValue x) = true := by
  cases kind <;> rfl

namespace ArrayObject

variable {a b : ArrayObject} {v w : Value} {index index' : Int64} {tag : TypeTag}

/-- What has passed the check can be stored, and nothing but the index matters then. -/
theorem set_of_accepts (hv : a.kind.accepts v = true) :
    ∃ x, a.kind.ofValue? v = some x ∧ a.kind.toValue x = v ∧ ∀ index tag, a.set index v tag =
      ((a.elements.set index x).map (⟨a.kind, ·⟩)).mapError .index := by
  obtain ⟨x, hx⟩ := Option.isSome_iff_exists.mp ((a.kind.isSome_ofValue? v).trans hv)
  refine ⟨x, hx, ElementKind.toValue_of_ofValue? hx, fun index tag => ?_⟩
  rw [set, if_pos hv, hx]
  dsimp only
  cases a.elements.set index x <;> rfl

/-- What has not is turned down, whatever the index. -/
theorem set_of_not_accepts (hv : a.kind.accepts v = false) (index : Int64) (tag : TypeTag) :
    a.set index v tag = .error (.elementType a.kind tag) := by
  rw [set, if_neg (by simp [hv])]

/-- A write that has gone through. -/
theorem set_eq_ok (hs : a.set index v tag = .ok b) :
    ∃ x elements, a.kind.accepts v = true ∧ a.kind.toValue x = v ∧
      a.elements.set index x = .ok elements ∧ b = ⟨a.kind, elements⟩ := by
  cases hv : a.kind.accepts v with
  | false =>
    rw [set_of_not_accepts hv] at hs
    cases hs
  | true =>
    obtain ⟨x, -, hx, hset⟩ := set_of_accepts hv
    rw [hset] at hs
    cases helements : a.elements.set index x with
    | error e =>
      rw [helements] at hs
      cases hs
    | ok elements =>
      rw [helements] at hs
      cases hs
      exact ⟨x, elements, rfl, hx, helements, rfl⟩

theorem get_eq_ok (hg : a.get index = .ok v) :
    ∃ x, a.elements.get index = .ok x ∧ a.kind.toValue x = v := by
  unfold get at hg
  cases hx : a.elements.get index with
  | error e =>
    rw [hx] at hg
    cases hg
  | ok x =>
    rw [hx] at hg
    cases hg
    exact ⟨x, rfl, rfl⟩

theorem accepts_of_get (hg : a.get index = .ok v) : a.kind.accepts v = true := by
  obtain ⟨x, -, rfl⟩ := get_eq_ok hg
  exact a.kind.accepts_toValue x

theorem accepts_of_mem_toList (hv : v ∈ a.toList) : a.kind.accepts v = true := by
  obtain ⟨x, -, rfl⟩ := List.mem_map.mp hv
  exact a.kind.accepts_toValue x

/-- An element is in front of the end. -/
theorem Sound.lt_size (ha : a.Sound) (hg : a.get index = .ok v) : index ≠ .ofNat a.size := by
  obtain ⟨view, hview⟩ := ha
  obtain ⟨x, hx, -⟩ := get_eq_ok hg
  obtain ⟨-, hx⟩ := (Growable.get_eq_ok_iff hview).mp hx
  have hlt := (List.getElem?_eq_some_iff.mp hx).1
  have hle := hview.elements_le
  have hmax := hview.le_max
  have hlimit : maxArraySize < 2 ^ 63 := by decide
  rintro rfl
  rw [size, hview.size, Int64.toInt_ofNat_of_lt (by omega), Int.toNat_natCast] at hlt
  exact Nat.lt_irrefl _ hlt

/-- What has been stored is what is read. -/
theorem Sound.get_of_set (ha : a.Sound) (hs : a.set index v tag = .ok b) : b.get index = .ok v := by
  obtain ⟨view, hview⟩ := ha
  obtain ⟨x, elements, -, rfl, hset, rfl⟩ := set_eq_ok hs
  simp only [get, Growable.get_of_set hview hset]

theorem Sound.get_of_set_of_ne (ha : a.Sound) (hs : a.set index' w tag = .ok b) (hne : index ≠ index')
    (hg : a.get index = .ok v) : b.get index = .ok v := by
  obtain ⟨view, hview⟩ := ha
  obtain ⟨x, elements, -, -, hset, rfl⟩ := set_eq_ok hs
  obtain ⟨y, hy, rfl⟩ := get_eq_ok hg
  simp only [get, Growable.get_of_set_of_ne hview hset hne hy]

end ArrayObject

/-! ## Requests -/

/-- What can be asked of an array through a handle. -/
inductive ArrayRequest
  | set (index : Int64) (v : Value)
  | push (v : Value)
  | get (index : Int64)
  /-- All elements in their order. -/
  | elements

/-- The write that is asked for, where one is. -/
def ArrayRequest.write? (a : ArrayObject) : ArrayRequest → Option (Int64 × Value)
  | set index v => some (index, v)
  | push v => some (.ofNat a.size, v)
  | get _ => none
  | elements => none

namespace Heap

/-- Changes the heap in place. Whatever that leaves is the heap from then on, also where it fails. -/
def act (h : Heap) (change : InPlace Heap ArrayError Unit) : Heap × Except ArrayError (List Value) :=
  let (result, k) := change.on h
  (k, result.map fun _ => [])

/-- Serves one request through the handle `r`: the heap after it, and the elements asked for. A handle that leads to
no array gets no elements. -/
def serve (h : Heap) (r : Ref) (request : ArrayRequest) : Heap × Except ArrayError (List Value) :=
  match h.get? r with
  | some (.array a) =>
      match request with
      | .set index v => h.act (setElementInPlace r a index v)
      | .push v => h.act (pushElementInPlace r a v)
      | .get index => (h, (a.get index).map fun v => [v])
      | .elements => (h, .ok a.toList)
  | _ => (h, .ok [])

/-- Serves requests in order, each through its handle. -/
def serveAll (h : Heap) (requests : List (Ref × ArrayRequest)) : Heap :=
  requests.foldl (fun h q => (h.serve q.1 q.2).1) h

/-- There is an array of the kind at the reference. -/
def HasArray (h : Heap) (r : Ref) (kind : ElementKind) : Prop :=
  ∃ a, h.get? r = some (.array a) ∧ a.kind = kind ∧ a.Sound

section

variable {h : Heap} {r s : Ref} {kind : ElementKind} {a b : ArrayObject} {request : ArrayRequest}
  {index : Int64} {v : Value}

/-- What comes of an attempt to change the heap where one that fails leaves it as it is. -/
def attempt (h : Heap) : Except ArrayError Heap → Heap × Except ArrayError (List Value)
  | .ok k => (k, .ok [])
  | .error e => (h, .error e)

/-- A change that follows its definition leaves the heap as it is where it fails. -/
theorem act_eq_attempt {change : InPlace Heap ArrayError Unit} {changed : Except ArrayError Heap}
    (hc : InPlace.Follows (· = h) (change.on h) changed) : h.act change = h.attempt changed := by
  rw [act, hc.eq_of_same]
  cases changed <;> rfl

theorem serve_set (hr : h.get? r = some (.array a)) (index : Int64) (v : Value) :
    h.serve r (.set index v) = h.attempt (h.setElement r a index v) := by
  rw [serve, hr]
  exact act_eq_attempt (setElementInPlace_follows hr index v)

/-- Adding an element is writing right behind the last one. -/
theorem serve_push (hr : h.get? r = some (.array a)) (v : Value) :
    h.serve r (.push v) = h.serve r (.set (.ofNat a.size) v) := by
  rw [serve_set hr, serve, hr]
  exact act_eq_attempt (pushElementInPlace_follows hr v)

theorem serve_get (hr : h.get? r = some (.array a)) (index : Int64) :
    h.serve r (.get index) = (h, (a.get index).map fun v => [v]) := by
  rw [serve, hr]

theorem serve_get_eq_ok (hr : h.get? r = some (.array a)) :
    (h.serve r (.get index)).2 = .ok [v] ↔ a.get index = .ok v := by
  rw [serve_get hr]
  cases a.get index <;> simp [Except.map]

theorem serve_elements (hr : h.get? r = some (.array a)) : h.serve r .elements = (h, .ok a.toList) := by
  rw [serve, hr]

/-- A request to write an element that has gone through. -/
theorem set_of_serve_set (hr : h.get? r = some (.array a)) {k : Heap} {values : List Value}
    (hs : h.serve r (.set index v) = (k, .ok values)) :
    ∃ b, a.set index v (h.tag v) = .ok b ∧ k = h.set r (.array b) := by
  rw [serve_set hr, setElement] at hs
  cases hb : a.set index v (h.tag v) with
  | error e =>
    rw [hb] at hs
    cases hs
  | ok b =>
    rw [hb] at hs
    cases hs
    exact ⟨b, rfl, rfl⟩

/-- What is read from an array is of its kind. -/
theorem accepts_of_serve (hr : h.get? r = some (.array a)) {values : List Value}
    (hs : (h.serve r request).2 = .ok values) : ∀ v ∈ values, a.kind.accepts v = true := by
  have written : ∀ index v, (h.serve r (.set index v)).2 = .ok values → values = [] := by
    intro index v hs
    rw [serve_set hr] at hs
    cases hk : h.setElement r a index v with
    | ok k =>
      rw [hk] at hs
      cases hs
      rfl
    | error e =>
      rw [hk] at hs
      cases hs
  cases request with
  | set index v => simp [written index v hs]
  | push v =>
    rw [serve_push hr] at hs
    simp [written _ v hs]
  | get index =>
    rw [serve_get hr] at hs
    cases hg : a.get index with
    | error e =>
      rw [hg] at hs
      cases hs
    | ok u =>
      rw [hg] at hs
      cases hs
      simp [ArrayObject.accepts_of_get hg]
  | elements =>
    rw [serve_elements hr] at hs
    cases hs
    exact fun v hv => ArrayObject.accepts_of_mem_toList hv

theorem serve_set_of_not_accepts (hr : h.get? r = some (.array a)) (hv : a.kind.accepts v = false)
    (index : Int64) : h.serve r (.set index v) = (h, .error (.elementType a.kind (h.tag v))) := by
  rw [serve_set hr, setElement, ArrayObject.set_of_not_accepts hv]
  rfl

/-- What a request can make of a heap. -/
inductive Served (h : Heap) (r : Ref) (request : ArrayRequest) : Heap → Prop
  | same : Served h r request h
  | written {a b : ArrayObject} {index : Int64} {v : Value} (hr : h.get? r = some (.array a))
      (hw : request.write? a = some (index, v)) (hb : a.set index v (h.tag v) = .ok b) :
      Served h r request (h.set r (.array b))

theorem attempt_served (hr : h.get? r = some (.array a)) (hw : request.write? a = some (index, v)) :
    h.Served r request (h.attempt (h.setElement r a index v)).1 := by
  unfold setElement
  cases hb : a.set index v (h.tag v) with
  | ok b => exact .written hr hw hb
  | error e => exact .same

/-- A request makes the write that it asks for, or leaves the heap alone. -/
theorem serve_served (h : Heap) (r : Ref) (request : ArrayRequest) :
    h.Served r request (h.serve r request).1 := by
  cases hr : h.get? r with
  | none =>
    rw [serve, hr]
    exact .same
  | some o =>
    cases o with
    | array a =>
      cases request with
      | set index v =>
        rw [serve_set hr]
        exact attempt_served hr rfl
      | push v =>
        rw [serve_push hr, serve_set hr]
        exact attempt_served hr rfl
      | get index =>
        rw [serve_get hr]
        exact .same
      | elements =>
        rw [serve_elements hr]
        exact .same
    | _ =>
      rw [serve, hr]
      exact .same

end

/-! ## What requests keep -/

namespace HasArray

variable {h k : Heap} {r s : Ref} {kind : ElementKind} {request : ArrayRequest} {index : Int64} {v : Value}

theorem served (hh : h.HasArray r kind) (hk : h.Served s request k) : k.HasArray r kind := by
  obtain ⟨a, hr, hkind, ha⟩ := hh
  cases hk with
  | same => exact ⟨a, hr, hkind, ha⟩
  | @written c b index v hs hw hb =>
    by_cases hrs : r = s
    · subst hrs
      cases hr.symm.trans hs
      obtain ⟨x, elements, -, -, -, hb'⟩ := ArrayObject.set_eq_ok hb
      refine ⟨b, get?_set_self _ hs, ?_, ((ha.set_meets index v (h.tag v)).of_ok hb).1⟩
      rw [hb', ← hkind]
    · exact ⟨a, by rw [get?_set_of_ne _ hrs, hr], hkind, ha⟩

theorem serveAll (hh : h.HasArray r kind) (requests : List (Ref × ArrayRequest)) :
    (h.serveAll requests).HasArray r kind := by
  induction requests generalizing h with
  | nil => exact hh
  | cons q rest ih => exact ih (hh.served (h.serve_served q.1 q.2))

/-- An element stays for as long as nothing that can be stored is written to its place. Elements that are added have
places of their own. -/
theorem get_served (hh : h.HasArray r kind) (hk : h.Served s request k)
    (hother : s = r → ∀ w, request = .set index w → kind.accepts w = false)
    (hg : (h.serve r (.get index)).2 = .ok [v]) : (k.serve r (.get index)).2 = .ok [v] := by
  obtain ⟨a, hr, rfl, ha⟩ := hh
  cases hk with
  | same => exact hg
  | @written c b place w hs hw hb =>
    by_cases hrs : r = s
    · subst hrs
      cases hr.symm.trans hs
      rw [serve_get_eq_ok hr] at hg
      have hne : index ≠ place := by
        rintro rfl
        cases request with
        | set i w' =>
          cases hw
          obtain ⟨x, elements, haccepts, -⟩ := ArrayObject.set_eq_ok hb
          rw [hother rfl _ rfl] at haccepts
          cases haccepts
        | push w' =>
          obtain ⟨hplace, -⟩ := Prod.mk.inj (Option.some.inj hw)
          exact ha.lt_size hg hplace.symm
        | get i => cases hw
        | elements => cases hw
      exact (serve_get_eq_ok (get?_set_self _ hs)).mpr (ha.get_of_set_of_ne hb hne hg)
    · rw [serve_get_eq_ok hr] at hg
      exact (serve_get_eq_ok (by rw [get?_set_of_ne _ hrs, hr])).mpr hg

theorem get_serveAll (hh : h.HasArray r kind) {requests : List (Ref × ArrayRequest)}
    (hother : ∀ w, (r, .set index w) ∈ requests → kind.accepts w = false)
    (hg : (h.serve r (.get index)).2 = .ok [v]) : ((h.serveAll requests).serve r (.get index)).2 = .ok [v] := by
  induction requests generalizing h with
  | nil => exact hg
  | cons q rest ih =>
    obtain ⟨s, request⟩ := q
    have hserved := h.serve_served s request
    refine ih (hh.served hserved) (fun w hw => hother w (List.mem_cons_of_mem _ hw)) ?_
    refine hh.get_served hserved ?_ hg
    rintro rfl w rfl
    exact hother w List.mem_cons_self

end HasArray

/-- **Arrays stay typed.** An array has been asked for something any number of times, through any number of handles,
and so have others. It still has its kind. All that is read from it is of that kind. A value of another kind is
turned down whatever the index, and changes nothing; the array itself is such a value, unless it is for all values.
A value that has passed the check can be stored as far as its kind goes: the error that `set` has for one that cannot
be turned into an element is never met. And what has been stored at an index is what is read there, until something
else of the kind is written there. -/
theorem arrays_stay_typed {h : Heap} {r : Ref} {a : ArrayObject} (hr : h.get? r = some (.array a))
    (ha : a.Sound) (requests : List (Ref × ArrayRequest)) :
    let k := h.serveAll requests
    ∃ b, k.get? r = some (.array b) ∧ b.kind = a.kind ∧
      (∀ request values, (k.serve r request).2 = .ok values → ∀ v ∈ values, a.kind.Holds v) ∧
      (∀ v, ¬ a.kind.Holds v →
        (∀ index, k.serve r (.set index v) = (k, .error (.elementType a.kind (k.tag v)))) ∧
        k.serve r (.push v) = (k, .error (.elementType a.kind (k.tag v)))) ∧
      (a.kind ≠ .any → ¬ a.kind.Holds (.collection r) ∧ k.tag (.collection r) = .array a.kind) ∧
      (∀ v, b.kind.accepts v = true → ∃ x, b.kind.ofValue? v = some x ∧ b.kind.toValue x = v ∧
        ∀ index tag, b.set index v tag =
          ((b.elements.set index x).map (⟨b.kind, ·⟩)).mapError .index) ∧
      ∀ index v k' answer, k.serve r (.set index v) = (k', .ok answer) →
        ∀ later, (∀ w, (r, .set index w) ∈ later → ¬ a.kind.Holds w) →
          ((k'.serveAll later).serve r (.get index)).2 = .ok [v] := by
  intro k
  obtain ⟨b, hb, hkind, hsound⟩ : k.HasArray r a.kind := .serveAll ⟨a, hr, rfl, ha⟩ requests
  refine ⟨b, hb, hkind, ?_, ?_, ?_, fun v hv => ArrayObject.set_of_accepts hv, ?_⟩
  · intro request values hs v hv
    rw [← hkind, ← ElementKind.accepts_iff]
    exact accepts_of_serve hb hs v hv
  · intro v hv
    rw [← hkind, ← ElementKind.accepts_eq_false_iff] at hv
    rw [← hkind]
    have hset : ∀ index, k.serve r (.set index v) = (k, .error (.elementType b.kind (k.tag v))) :=
      fun index => serve_set_of_not_accepts hb hv index
    exact ⟨hset, (serve_push hb v).trans (hset _)⟩
  · intro hany
    refine ⟨fun hholds => hholds.elim hany nofun, ?_⟩
    rw [← hkind]
    show ((k.get? r).map Object.tag).getD .null = _
    rw [hb]
    rfl
  · intro index v k' answer hset later hlater
    obtain ⟨c, hc, rfl⟩ := set_of_serve_set hb hset
    have hserved : k.Served r (.set index v) (k.set r (.array c)) := .written hb rfl hc
    have hkeeps : (k.set r (.array c)).HasArray r a.kind := HasArray.served ⟨b, hb, hkind, hsound⟩ hserved
    refine hkeeps.get_serveAll (fun w hw => ElementKind.accepts_eq_false_iff.mpr (hlater w hw)) ?_
    exact (serve_get_eq_ok (get?_set_self _ hb)).mpr (hsound.get_of_set hc)

/-- An array of integers does not take itself, and 7 is still at 3 when 8 has been added and a string turned down. -/
theorem integers_stay_typed :
    let h : Heap := ⟨#[.array (.empty .int)]⟩
    let k := h.serveAll [(⟨0⟩, .push (.int 5))]
    k.serve ⟨0⟩ (.set 0 (.collection ⟨0⟩)) = (k, .error (.elementType .int (.array .int))) ∧
      (((k.serve ⟨0⟩ (.set 3 (.int 7))).1.serveAll
        [(⟨0⟩, .push (.int 8)), (⟨0⟩, .set 3 (.str "8"))]).serve ⟨0⟩ (.get 3)).2 = .ok [.int 7] := by
  have hok : ((((⟨#[.array (.empty .int)]⟩ : Heap).serveAll [(⟨0⟩, .push (.int 5))]).serve ⟨0⟩
      (.set 3 (.int 7))).2.map List.isEmpty).toOption = some true := by decide +kernel
  intro h k
  obtain ⟨b, -, -, -, hwrong, hself, -, hstored⟩ :=
    arrays_stay_typed (rfl : h.get? ⟨0⟩ = some (.array (.empty .int))) (ArrayObject.sound_empty .int)
      [(⟨0⟩, .push (.int 5))]
  obtain ⟨hother, htag⟩ := hself nofun
  change ((k.serve ⟨0⟩ (.set 3 (.int 7))).2.map List.isEmpty).toOption = some true at hok
  refine ⟨?_, ?_⟩
  · rw [(hwrong _ hother).1, htag]
    rfl
  · cases hset : k.serve ⟨0⟩ (.set 3 (.int 7)) with
    | mk k' result =>
      rw [hset] at hok
      cases result with
      | error e => cases hok
      | ok answer =>
        refine hstored 3 (.int 7) k' answer hset _ fun w hw => ?_
        have hstring : w = .str "8" := by simpa using hw
        rw [hstring, ← ElementKind.accepts_eq_false_iff]
        rfl

end Heap

end RegisterMachine
