import RegisterMachine.Json.Reader
import RegisterMachine.Proofs.Json.Lexing

/-!
# A document that is written is read as the same

`Whole` says what a document must be for that: nothing in it is missing or wrong, and its numbers
read back. It also counts containers, because a decoder does not go into too many of them.
-/

namespace RegisterMachine.Json

/-- A document with nothing wrong in it and at most `room` containers one in another. -/
inductive Whole : (room : Nat) → Json → Prop
  | null {room : Nat} : Whole room .null
  | bool {room : Nat} (b : Bool) : Whole room (.bool b)
  | number {room : Nat} {n : Number} (h : n.ReadsBack) : Whole room (.number n)
  | string {room : Nat} (s : String) : Whole room (.string s)
  | list {room : Nat} {items : List Json} (h : ∀ j ∈ items, Whole room j) :
      Whole (room + 1) (.list items none)
  | object {room : Nat} {members : List (Key × Json)} (names : ∀ m ∈ members, ∃ s, m.1 = .name s)
      (h : ∀ m ∈ members, Whole room m.2) : Whole (room + 1) (.object members none)

theorem Whole.ofMembers {room : Nat} {members : List (String × Json)}
    (h : ∀ m ∈ members, Whole room m.2) : Whole (room + 1) (.ofMembers members) := by
  apply Whole.object
  · intro m hm
    obtain ⟨⟨name, value⟩, -, rfl⟩ := List.mem_map.mp hm
    exact ⟨name, rfl⟩
  · intro m hm
    obtain ⟨n, hn, rfl⟩ := List.mem_map.mp hm
    exact h n hn

/-- Wherever a value may stand, the text of `j` is read as `j`. -/
def Taken (j : Json) : Prop :=
  ∀ stack mayClose rest, Delimited rest →
    build stack (.value mayClose) (tokens (j.compact.toList ++ rest)) =
      build stack (.separator j) (tokens rest)

/-- The items of a list up to its end. What has been read before them does not matter. -/
theorem taken_items {item : Json} {items : List Json} (first : Taken item)
    (others : ∀ j ∈ items, Taken j) : ∀ acc stack mayClose rest,
    build (.list acc :: stack) (.value mayClose)
        (tokens ((String.intercalate "," (compactItems (item :: items))).toList ++ ']' :: rest)) =
      build stack (.separator (.list (acc.reverse ++ item :: items) none)) (tokens rest) := by
  induction items generalizing item with
  | nil =>
    intro acc stack mayClose rest
    simp only [compactItems, String.intercalate_singleton]
    rw [first _ _ _ (.closeList rest)]
    simp [build]
  | cons next items ih =>
    intro acc stack mayClose rest
    have comma : ",".toList = [','] := rfl
    have more := ih (others next (by simp)) (fun j h => others j (by simp [h]))
      (item :: acc) stack false rest
    simp only [compactItems, String.intercalate_cons_cons, String.toList_append, comma,
      List.append_assoc, List.cons_append, List.nil_append] at more ⊢
    rw [first _ _ _ (.comma _), tokens_comma]
    simpa [build] using more

/-- The members of an object up to its end, from the first name on. -/
theorem taken_members (name : String) {value : Json} {members : List (Key × Json)}
    (first : Taken value) (names : ∀ m ∈ members, ∃ s, m.1 = .name s)
    (others : ∀ m ∈ members, Taken m.2) : ∀ acc stack mayClose rest,
    build stack (.key acc mayClose)
        (tokens ((String.intercalate "," (compactMembers ((.name name, value) :: members))).toList ++
          '\x7d' :: rest)) =
      build stack (.separator (.object (acc.reverse ++ (.name name, value) :: members) none))
        (tokens rest) := by
  induction members generalizing name value with
  | nil =>
    intro acc stack mayClose rest
    have colon : ":".toList = [':'] := rfl
    simp only [compactMembers, String.intercalate_singleton, Key.text, String.toList_append, colon,
      List.append_assoc, List.cons_append, List.nil_append]
    rw [tokens_quoted, tokens_colon]
    simp only [build]
    rw [first _ _ _ (.closeObject rest)]
    simp [build]
  | cons next members ih =>
    intro acc stack mayClose rest
    have comma : ",".toList = [','] := rfl
    have colon : ":".toList = [':'] := rfl
    obtain ⟨key, nextValue⟩ := next
    obtain ⟨nextName, rfl⟩ : ∃ s, key = .name s := names _ List.mem_cons_self
    have more := ih nextName (others _ List.mem_cons_self)
      (fun m h => names m (List.mem_cons_of_mem _ h))
      (fun m h => others m (List.mem_cons_of_mem _ h)) ((.name name, value) :: acc) stack false rest
    simp only [compactMembers, String.intercalate_cons_cons, Key.text, String.toList_append, comma,
      colon, List.append_assoc, List.cons_append, List.nil_append] at more ⊢
    rw [tokens_quoted, tokens_colon]
    simp only [build]
    rw [first _ _ _ (.comma _), tokens_comma]
    simpa [build] using more

/-- A whole document is read as itself wherever it stands. -/
theorem Whole.taken {room : Nat} {j : Json} (h : Whole room j) : Taken j := by
  induction h with
  | null =>
    intro stack mayClose rest _
    have text : Json.null.compact.toList = ['n', 'u', 'l', 'l'] := rfl
    simp [text, build]
  | bool b =>
    intro stack mayClose rest _
    cases b with
    | false =>
      have text : (Json.bool false).compact.toList = ['f', 'a', 'l', 's', 'e'] := rfl
      simp [text, build]
    | true =>
      have text : (Json.bool true).compact.toList = ['t', 'r', 'u', 'e'] := rfl
      simp [text, build]
  | number h =>
    intro stack mayClose rest d
    rw [compact, h.tokens_append d]
    simp only [build]
  | string s =>
    intro stack mayClose rest _
    rw [compact, tokens_quoted]
    simp only [build]
  | @list room items h ih =>
    intro stack mayClose rest _
    have opening : "[".toList = ['['] := rfl
    have closing : "]".toList = [']'] := rfl
    simp only [compact, String.toList_append, opening, closing, List.append_assoc,
      List.cons_append, List.nil_append, tokens_openList, build]
    cases items with
    | nil => simp [compactItems, build]
    | cons item items =>
      exact taken_items (ih item (by simp)) (fun j h => ih j (by simp [h])) [] _ _ _
  | @object room members names h ih =>
    intro stack mayClose rest _
    have opening : "\x7b".toList = ['\x7b'] := rfl
    have closing : "\x7d".toList = ['\x7d'] := rfl
    simp only [compact, String.toList_append, opening, closing, List.append_assoc,
      List.cons_append, List.nil_append, tokens_openObject, build]
    cases members with
    | nil => simp [compactMembers, build]
    | cons first members =>
      obtain ⟨key, value⟩ := first
      obtain ⟨name, rfl⟩ : ∃ s, key = .name s := names _ List.mem_cons_self
      exact taken_members name (ih _ List.mem_cons_self) (fun m h => names m (List.mem_cons_of_mem _ h))
        (fun m h => ih m (List.mem_cons_of_mem _ h)) [] _ _ _

/-- The text of a whole document is a document with nothing after it, and the same. -/
theorem ofText_compact {room : Nat} {j : Json} (h : Whole room j) :
    Document.ofText j.compact = ⟨j, false⟩ := by
  have taken := h.taken [] false [] .nil
  rw [List.append_nil] at taken
  rw [Document.ofText, taken]
  rfl

end RegisterMachine.Json
