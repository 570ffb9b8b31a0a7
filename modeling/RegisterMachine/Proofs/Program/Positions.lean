import Mathlib.Data.List.Induction
import RegisterMachine.Proofs.Meets
import RegisterMachine.Proofs.Program.Loading

/-!
# Where code comes from

Line entries may stand in a file in any order, and more than one may be for the same offset. What they
are to mean is told best by going through them as they stand: `LineEntry.scan` keeps an entry until it
meets a better one, and of two that are equally good the later. A program is loaded with its entries in
order and looks a position up in a shorter way, for which it is enough to know how many entries are not
past the offset.

Both give the same (**`Program.positions_scanned`**). Which entry a scan is left with can be said without
speaking of any order but that among entries of one offset (`LineEntry.Kept`), and that order is all that
sorting leaves alone.
-/

namespace RegisterMachine

namespace LineEntry

variable {ip : Nat} {lines : List LineEntry} {kept : Option LineEntry} {e : LineEntry}

/-! ## Going through the entries as they stand -/

/-- An entry takes the place of the one kept so far, unless it is past `ip` or falls behind that one. -/
def keep (ip : Nat) (kept : Option LineEntry) (e : LineEntry) : Option LineEntry :=
  if e.ip ≤ ip ∧ ∀ k ∈ kept, k.ip ≤ e.ip then some e else kept

/-- The entry that is left when all have been gone through from left to right. -/
def scan (ip : Nat) (lines : List LineEntry) : Option LineEntry := lines.foldl (keep ip) none

example : scan 5 [⟨2, ⟨"a", 1⟩⟩, ⟨0, ⟨"a", 2⟩⟩, ⟨7, ⟨"a", 3⟩⟩, ⟨2, ⟨"a", 4⟩⟩] = some ⟨2, ⟨"a", 4⟩⟩ := by
  decide

theorem scan_concat (ip : Nat) (lines : List LineEntry) (e : LineEntry) :
    scan ip (lines ++ [e]) = keep ip (scan ip lines) e := by
  simp [scan]

/-- What a scan is left with: of the entries not past `ip` one with the greatest offset, and of those with
that offset the last. -/
inductive Kept (ip : Nat) (lines : List LineEntry) : Option LineEntry → Prop
  | nothing (past : ∀ e ∈ lines, ip < e.ip) : Kept ip lines none
  | entry {e : LineEntry} (le : e.ip ≤ ip) (greatest : ∀ e' ∈ lines, e'.ip ≤ ip → e'.ip ≤ e.ip)
      (last : (lines.filter (·.ip == e.ip)).getLast? = some e) : Kept ip lines (some e)

theorem mem_of_last {n : Nat} (h : (lines.filter (·.ip == n)).getLast? = some e) : e ∈ lines :=
  List.mem_of_mem_filter (List.mem_of_getLast? h)

theorem Kept.unique {o o' : Option LineEntry} (h : Kept ip lines o) (h' : Kept ip lines o') : o = o' := by
  cases h with
  | nothing past =>
    cases h' with
    | nothing => rfl
    | entry le _ last => exact absurd (past _ (mem_of_last last)) (Nat.not_lt.mpr le)
  | entry le greatest last =>
    cases h' with
    | nothing past => exact absurd (past _ (mem_of_last last)) (Nat.not_lt.mpr le)
    | entry le' greatest' last' =>
      have hip := Nat.le_antisymm (greatest' _ (mem_of_last last) le) (greatest _ (mem_of_last last') le')
      rw [hip] at last
      exact last.symm.trans last'

/-- An entry that is taken is behind none and is the last of its offset. -/
theorem Kept.taken (h : Kept ip lines kept) (hle : e.ip ≤ ip) (hbehind : ∀ k ∈ kept, k.ip ≤ e.ip) :
    Kept ip (lines ++ [e]) (some e) := by
  refine .entry hle ?_ (by simp)
  intro e' he' hle'
  rcases List.mem_append.mp he' with hold | hnew
  · cases h with
    | nothing past => exact absurd (past e' hold) (Nat.not_lt.mpr hle')
    | entry _ greatest _ => exact Nat.le_trans (greatest e' hold hle') (hbehind _ rfl)
  · simp [List.mem_singleton.mp hnew]

/-- An entry that is passed over is past `ip`, or has another offset than the one kept. -/
theorem Kept.passed (h : Kept ip lines kept) (hbetter : e.ip ≤ ip → ∃ k ∈ kept, e.ip < k.ip) :
    Kept ip (lines ++ [e]) kept := by
  cases h with
  | nothing past =>
    refine .nothing fun e' he' => ?_
    rcases List.mem_append.mp he' with hold | hnew
    · exact past e' hold
    · rw [List.mem_singleton.mp hnew]
      simpa using hbetter
  | @entry k le greatest last =>
    have hbehind : e.ip ≤ ip → e.ip < k.ip := by simpa using hbetter
    refine .entry le (fun e' he' hle' => ?_) ?_
    · rcases List.mem_append.mp he' with hold | hnew
      · exact greatest e' hold hle'
      · rw [List.mem_singleton.mp hnew] at hle' ⊢
        exact Nat.le_of_lt (hbehind hle')
    · have hne : e.ip ≠ k.ip := by
        intro heq
        exact Nat.ne_of_lt (hbehind (heq ▸ le)) heq
      simpa [hne] using last

theorem scan_kept (ip : Nat) (lines : List LineEntry) : Kept ip lines (scan ip lines) := by
  induction lines using List.reverseRecOn with
  | nil => exact .nothing (by simp)
  | append_singleton lines e ih =>
    rw [scan_concat, keep]
    split
    next htaken => exact ih.taken htaken.1 htaken.2
    next hpassed =>
      refine ih.passed fun hle => ?_
      simpa [hle] using hpassed

theorem scan_eq_none_iff : scan ip lines = none ↔ ∀ e ∈ lines, ip < e.ip := by
  refine ⟨fun h => ?_, fun h => (scan_kept ip lines).unique (.nothing h)⟩
  have hkept := scan_kept ip lines
  rw [h] at hkept
  cases hkept with
  | nothing past => exact past

/-! ## Going through them in order -/

theorem past_of_first {rest : List LineEntry} (hordered : (e :: rest).Pairwise fun a b => a.ip ≤ b.ip)
    (hpast : ip < e.ip) : ∀ e' ∈ e :: rest, ip < e'.ip := by
  refine List.forall_mem_cons.mpr ⟨hpast, fun e' he' => ?_⟩
  exact Nat.lt_of_lt_of_le hpast ((List.pairwise_cons.mp hordered).1 e' he')

/-- Once the entries are past `ip`, nothing is taken any more. -/
theorem foldl_keep_of_past (h : ∀ e ∈ lines, ip < e.ip) : lines.foldl (keep ip) kept = kept := by
  induction lines with
  | nil => rfl
  | cons e rest ih =>
    obtain ⟨hpast, hrest⟩ := List.forall_mem_cons.mp h
    have hpassed : keep ip kept e = kept := if_neg fun htaken => Nat.not_lt.mpr htaken.1 hpast
    rw [List.foldl_cons, hpassed]
    exact ih hrest

/-- Until then every entry is. -/
theorem foldl_keep_of_ordered (hordered : lines.Pairwise fun a b => a.ip ≤ b.ip)
    (hkept : ∀ k ∈ kept, ∀ e ∈ lines, k.ip ≤ e.ip) :
    lines.foldl (keep ip) kept = (lines.takeWhile fun e => e.ip ≤ ip).getLast?.or kept := by
  induction lines generalizing kept with
  | nil => rfl
  | cons e rest ih =>
    obtain ⟨hfirst, hrest⟩ := List.pairwise_cons.mp hordered
    by_cases hle : e.ip ≤ ip
    · have htaken : keep ip kept e = some e :=
        if_pos ⟨hle, fun k hk => hkept k hk e List.mem_cons_self⟩
      rw [List.foldl_cons, htaken, ih hrest (by simpa using hfirst), Option.or_some,
        List.takeWhile_cons_of_pos (by simpa using hle), List.getLast?_cons, Option.some_or]
    · rw [foldl_keep_of_past (past_of_first hordered (Nat.lt_of_not_le hle))]
      simp [hle]

theorem scan_of_ordered (hordered : lines.Pairwise fun a b => a.ip ≤ b.ip) :
    scan ip lines = (lines.takeWhile fun e => e.ip ≤ ip).getLast? := by
  rw [scan, foldl_keep_of_ordered hordered (by simp), Option.or_none]

/-! ## Bringing them into order -/

/-- Entries of one offset are left as they stand. -/
theorem filter_sortLines (lines : List LineEntry) (n : Nat) :
    (Program.sortLines lines).filter (·.ip == n) = lines.filter (·.ip == n) := by
  have hequal : (lines.filter (·.ip == n)).Pairwise fun a b => decide (a.ip ≤ b.ip) = true := by
    refine List.Pairwise.imp_of_mem ?_ (List.pairwise_of_forall fun _ _ => trivial)
    intro a b ha hb _
    simp only [List.mem_filter, beq_iff_eq] at ha hb
    simp [ha.2, hb.2]
  have hsub : (lines.filter (·.ip == n)).Sublist (Program.sortLines lines) := by
    apply List.sublist_mergeSort
    · simp only [decide_eq_true_eq]
      omega
    · simp only [Bool.or_eq_true, decide_eq_true_eq]
      omega
    · exact hequal
    · exact List.filter_sublist
  have hfiltered := hsub.filter (·.ip == n)
  simp only [List.filter_filter, Bool.and_self] at hfiltered
  refine (hfiltered.eq_of_length ?_).symm
  exact ((List.mergeSort_perm _ _).filter _).length_eq.symm

theorem Kept.sortLines (h : Kept ip lines kept) : Kept ip (Program.sortLines lines) kept := by
  cases h with
  | nothing past => exact .nothing fun e he => past e (List.mem_mergeSort.mp he)
  | entry le greatest last =>
    refine .entry le (fun e he => greatest e (List.mem_mergeSort.mp he)) ?_
    rw [filter_sortLines, last]

/-- A scan is left with the same. -/
theorem scan_sortLines (ip : Nat) (lines : List LineEntry) :
    scan ip (Program.sortLines lines) = scan ip lines :=
  (scan_kept ip _).unique (scan_kept ip lines).sortLines

/-! ## Looking up -/

/-- The first `k` entries are not past `ip` and all others are. -/
structure PartsAt (lines : List LineEntry) (ip k : Nat) : Prop where
  le_length : k ≤ lines.length
  within : ∀ e ∈ lines.take k, e.ip ≤ ip
  past : ∀ e ∈ lines.drop k, ip < e.ip

theorem PartsAt.take_eq {k : Nat} (h : PartsAt lines ip k) :
    lines.take k = lines.takeWhile fun e => e.ip ≤ ip := by
  have hwithin : ∀ e ∈ lines.take k, decide (e.ip ≤ ip) = true := by simpa using h.within
  have hnone : (lines.drop k).takeWhile (fun e => e.ip ≤ ip) = [] := by
    cases hdrop : lines.drop k with
    | nil => rfl
    | cons e rest =>
      have hpast := h.past e (by simp [hdrop])
      simp [hpast]
  conv_rhs => rw [← List.take_append_drop k lines]
  rw [List.takeWhile_append_of_pos hwithin, hnone, List.append_nil]

theorem past_of_mem_dropWhile (hordered : lines.Pairwise fun a b => a.ip ≤ b.ip) :
    ∀ e ∈ lines.dropWhile fun e => e.ip ≤ ip, ip < e.ip := by
  induction lines with
  | nil => simp
  | cons e rest ih =>
    by_cases hle : e.ip ≤ ip
    · rw [List.dropWhile_cons_of_pos (by simpa using hle)]
      exact ih (List.pairwise_cons.mp hordered).2
    · rw [List.dropWhile_cons_of_neg (by simpa using hle)]
      exact past_of_first hordered (Nat.lt_of_not_le hle)

/-- In order, the entries part at one place. -/
theorem partsAt_iff (hordered : lines.Pairwise fun a b => a.ip ≤ b.ip) {k : Nat} :
    PartsAt lines ip k ↔ k = (lines.takeWhile fun e => e.ip ≤ ip).length := by
  constructor
  · intro h
    rw [← h.take_eq, List.length_take, Nat.min_eq_left h.le_length]
  · rintro rfl
    have hfront := List.takeWhile_prefix (l := lines) fun e => decide (e.ip ≤ ip)
    have htake := List.prefix_iff_eq_take.mp hfront
    have hdrop := congrArg (List.drop (lines.takeWhile fun e => e.ip ≤ ip).length)
      (List.takeWhile_append_dropWhile (p := fun e => decide (e.ip ≤ ip)) (l := lines))
    rw [List.drop_left] at hdrop
    refine ⟨hfront.length_le, ?_, ?_⟩
    · rw [← htake]
      intro e he
      simpa using List.all_eq_true.mp List.all_takeWhile e he
    · rw [← hdrop]
      exact past_of_mem_dropWhile hordered

end LineEntry

namespace Program

open LineEntry (scan PartsAt)

variable {p : Program} {ip : Nat}

theorem position?_eq_scan (hordered : p.lines.Pairwise fun a b => a.ip ≤ b.ip) :
    p.position? ip = (scan ip p.lines).map LineEntry.pos := by
  rw [LineEntry.scan_of_ordered hordered, position?]

/-- The position of an offset is that of the entry in front of the place where the entries part. -/
theorem position?_of_partsAt {k : Nat} (h : PartsAt p.lines ip k) :
    p.position? ip = if k = 0 then none else p.lines[k - 1]?.map LineEntry.pos := by
  rw [position?, ← h.take_eq, List.getLast?_take]
  by_cases hzero : k = 0
  · simp [hzero]
  · have hlast : k - 1 < p.lines.length := by
      have := h.le_length
      omega
    simp [hzero, hlast]

/-- What the text of a program is loaded as is what it reads as, with the line entries brought into
order. -/
theorem ofText_eq (text : String) :
    ofText text = (Json.decodeText recordDecoder text).map fun written =>
      { written with lines := sortLines written.lines } := by
  unfold ofText Json.decodeText Json.Document.decode decoder Json.Decoder.map
  cases recordDecoder .root (Json.Document.ofText text).root with
  | error e => rfl
  | ok written => cases (Json.Document.ofText text).trailing <;> rfl

/-- **Positions are what a scan of the file finds.** A text is loaded as what it reads as, with the line
entries brought into order, or fails to be read. The position of any offset is then that of the entry that
a scan of the entries as written is left with, and there is none just where all of them are past the
offset. It is found in front of the one place where the entries in order part into those that are not past
the offset and those that are. -/
theorem positions_scanned (text : String) :
    Meets
      (fun p => ∃ written, Json.decodeText recordDecoder text = .ok written ∧
        p = { written with lines := sortLines written.lines } ∧
        ∀ ip,
          p.position? ip = (scan ip written.lines).map LineEntry.pos ∧
          (p.position? ip = none ↔ ∀ e ∈ written.lines, ip < e.ip) ∧
          ∃ k, (∀ j, PartsAt p.lines ip j ↔ j = k) ∧
            p.position? ip = if k = 0 then none else p.lines[k - 1]?.map LineEntry.pos)
      (fun e => Json.decodeText recordDecoder text = .error e) (ofText text) := by
  rw [ofText_eq]
  cases Json.decodeText recordDecoder text with
  | error e => rfl
  | ok written =>
    refine ⟨written, rfl, rfl, fun ip => ?_⟩
    have hordered := sortLines_ordered written.lines
    have hscan : ({ written with lines := sortLines written.lines } : Program).position? ip
        = (scan ip written.lines).map LineEntry.pos := by
      rw [position?_eq_scan hordered, LineEntry.scan_sortLines]
    refine ⟨hscan, ?_, _, fun j => LineEntry.partsAt_iff hordered, ?_⟩
    · rw [hscan, Option.map_eq_none_iff, LineEntry.scan_eq_none_iff]
    · exact position?_of_partsAt ((LineEntry.partsAt_iff hordered).mpr rfl)

end Program

end RegisterMachine
