import Bridget.Threads.Operations

/-!
# Pages of a thread

When the entries of a thread are numbered without gaps, a page is a run of numbers that begins
where it was asked to begin. The page of a receipt can be read again, and later deposits do not
change it.
-/

namespace Bridget.Threads

open Foundation ThreadStore List Table

/-- Lists are equal when they agree on a column that identifies their elements. -/
theorem eq_of_map_eq {α β : Type} {f : α → β} {xs ys : List α} (h : xs.map f = ys.map f)
    (hinj : ∀ x ∈ xs, ∀ y ∈ ys, f x = f y → x = y) : xs = ys := by
  induction xs generalizing ys with
  | nil => exact (map_eq_nil_iff.mp h.symm).symm
  | cons x _ ih =>
    cases ys with
    | nil => cases h
    | cons y =>
      obtain ⟨hhead, htail⟩ := cons.inj h
      rw [hinj x (by simp) y (by simp) hhead, ih htail]
      exact fun a ha b hb => hinj a (by simp [ha]) b (by simp [hb])

theorem take_range' (start length count : Nat) :
    (range' start length).take count = range' start (min count length) := by
  induction length generalizing start count with
  | zero => simp
  | succ _ ih =>
    cases count with
    | zero => simp
    | succ => rw [range'_succ, take_succ_cons, ih, Nat.succ_min_succ, range'_succ]

section

variable (size : PageEntry → Nat) {budget used : Nat}

theorem takeBudget_prefix_self (budget used : Nat) (entries : List PageEntry) :
    takeBudget size budget used entries <+: entries := by
  induction entries generalizing used with
  | nil => exact prefix_rfl
  | cons _ _ ih =>
    unfold takeBudget
    split
    · exact nil_prefix
    · exact prefix_cons_inj _ |>.mpr (ih _)

theorem takeBudget_eq_nil {entries : List PageEntry} :
    takeBudget size budget 0 entries = [] ↔ entries = [] := by
  cases entries with
  | nil | cons => simp [takeBudget]

/-- What fits once fits again. -/
theorem takeBudget_takeBudget {more : Nat} (hmore : budget ≤ more) (entries : List PageEntry) :
    takeBudget size more used (takeBudget size budget used entries) =
      takeBudget size budget used entries := by
  induction entries generalizing used with
  | nil => rfl
  | cons _ _ ih =>
    conv_lhs => rw [takeBudget]
    conv_rhs => rw [takeBudget]
    split
    · rfl
    next hfits => rw [takeBudget, if_neg fun h => hfits ⟨h.1, by omega⟩, ih]

end

namespace ThreadStore

/-- The entries of the thread are numbered from one to `last`. -/
def Consecutive (s : ThreadStore) (threadId : String) (last : Nat) : Prop :=
  ∀ n, (∃ e ∈ s.entries, e.threadId = threadId ∧ e.seq = n) ↔ 1 ≤ n ∧ n ≤ last

def range (s : ThreadStore) (threadId : String) (fromSeq toSeq : Nat) : List EntryRow :=
  (s.entries.select fun e => e.threadId = threadId ∧ fromSeq ≤ e.seq ∧ e.seq ≤ toSeq).insertionSort
    fun a b => a.seq ≤ b.seq

variable {s s' : ThreadStore} {threadId : String} {last fromSeq toSeq : Nat}

theorem mem_range {e : EntryRow} :
    e ∈ s.range threadId fromSeq toSeq ↔
      e ∈ s.entries ∧ e.threadId = threadId ∧ fromSeq ≤ e.seq ∧ e.seq ≤ toSeq := by
  rw [range, mem_insertionSort, mem_select, decide_eq_true_eq]

theorem eq_of_mem_range {a b : EntryRow} {fromSeq' toSeq' : Nat}
    (ha : a ∈ s.range threadId fromSeq toSeq) (hb : b ∈ s.range threadId fromSeq' toSeq')
    (hseq : a.seq = b.seq) : a = b := by
  obtain ⟨ha, hathread, -⟩ := mem_range.mp ha
  obtain ⟨hb, hbthread, -⟩ := mem_range.mp hb
  exact eq_of_conflicts ha hb (.inl ⟨hathread.trans hbthread.symm, hseq⟩)

/-- The numbers of a range are all there are. -/
theorem Consecutive.range_seqs (h : s.Consecutive threadId last) (hfrom : 1 ≤ fromSeq)
    (hto : toSeq ≤ last) :
    (s.range threadId fromSeq toSeq).map EntryRow.seq = range' fromSeq (toSeq + 1 - fromSeq) := by
  have hrows : s.entries.rows.Nodup :=
    s.entries.unique.imp fun hconflict heq => hconflict (.inr (.inl (congrArg _ heq)))
  have hnodup : ((s.range threadId fromSeq toSeq).map EntryRow.seq).Nodup := by
    apply List.Nodup.map_on
    · intro a ha b hb hseq
      exact eq_of_mem_range ha hb hseq
    · exact ((perm_insertionSort _ _).nodup_iff).mpr (hrows.filter _)
  have hsorted : ((s.range threadId fromSeq toSeq).map EntryRow.seq).Pairwise (· ≤ ·) := by
    rw [pairwise_map]
    exact pairwise_insertionSort _ _
  refine List.Perm.eq_of_pairwise (fun _ _ _ _ => le_antisymm) hsorted ?_ ?_
  · have hlt : (range' fromSeq (toSeq + 1 - fromSeq)).Pairwise (· < ·) := pairwise_lt_range'
    exact hlt.imp le_of_lt
  apply (perm_ext_iff_of_nodup hnodup nodup_range').mpr
  intro n
  rw [mem_map, mem_range'_1]
  constructor
  · rintro ⟨_, he, rfl⟩
    obtain ⟨-, -, _, _⟩ := mem_range.mp he
    omega
  · intro _
    obtain ⟨e, he, hthread, rfl⟩ := (h n).mpr (by omega)
    exact ⟨e, mem_range.mpr ⟨he, hthread, by omega, by omega⟩, rfl⟩

theorem readRange_eq (size : PageEntry → Nat) (s : ThreadStore) (threadId : String)
    (fromSeq toSeq limit byteBudget snapshot : Nat) :
    s.readRange size threadId fromSeq toSeq limit byteBudget (some snapshot) =
      if toSeq < fromSeq ∨ limit = 0 then []
      else takeBudget size byteBudget 0
        (((s.range threadId fromSeq toSeq).take limit).map (s.pageEntry true snapshot)) := rfl

section

variable {size : PageEntry → Nat} {base limit byteBudget snapshot : Nat} {entries : List PageEntry}

section

variable (h : s.Consecutive threadId last) (hto : toSeq ≤ last)
  (hpage : s.readRange size threadId (base + 1) toSeq limit byteBudget (some snapshot) = entries)

include h hto hpage

/-- A page shows the numbers that follow its base, as many as it has entries. -/
theorem Consecutive.page_seqs :
    entries.map PageEntry.seq = range' (base + 1) entries.length ∧
      base + entries.length ≤ max base toSeq ∧ entries.length ≤ limit ∧
      (entries = [] ↔ toSeq ≤ base ∨ limit = 0) := by
  rw [readRange_eq] at hpage
  split at hpage
  · subst hpage
    simp only [map_nil, length_nil, range'_zero, Nat.zero_le, true_and, true_iff]
    omega
  rename_i hmore
  obtain ⟨_, _⟩ := not_or.mp hmore
  have hseqs := h.range_seqs (Nat.le_add_left 1 base) hto
  have hrows : ((s.range threadId (base + 1) toSeq).take limit).map EntryRow.seq =
      range' (base + 1) (min limit (toSeq - base)) := by
    rw [map_take, hseqs, take_range', Nat.add_sub_add_right]
  have hprefix : entries.map PageEntry.seq <+:
      range' (base + 1) (min limit (toSeq - base)) := by
    have hseq : PageEntry.seq ∘ s.pageEntry true snapshot = EntryRow.seq := rfl
    rw [← hrows, ← hseq, ← map_map, ← hpage]
    exact (takeBudget_prefix_self size byteBudget 0 _).map PageEntry.seq
  have hle := hprefix.length_le
  rw [length_map, length_range'] at hle
  refine ⟨?_, by omega, by omega, ?_⟩
  · have heq := prefix_iff_eq_take.mp hprefix
    rwa [length_map, take_range', min_eq_left hle] at heq
  · rw [← hpage, takeBudget_eq_nil, map_eq_nil_iff, ← map_eq_nil_iff, hrows, range'_eq_nil_iff]
    omega

/-- A page that was read can be read again up to its last number. -/
theorem Consecutive.reread (hlimit : limit ≤ u32Max) (hbudget : byteBudget ≤ usizeMax) :
    s.readRange size threadId (base + 1) (base + entries.length) u32Max usizeMax (some snapshot) =
      entries := by
  obtain ⟨_, _, _, hempty⟩ := h.page_seqs hto hpage
  by_cases hnil : entries = []
  · rw [hnil, readRange_eq, if_pos (.inl (by simp))]
  obtain ⟨_, _⟩ := not_or.mp fun hor => hnil (hempty.mpr hor)
  have hlength : 0 < entries.length := length_pos_of_ne_nil hnil
  rw [readRange_eq, if_neg (by omega)] at hpage
  have hprefix : entries <+: ((s.range threadId (base + 1) toSeq).take limit).map
      (s.pageEntry true snapshot) := by
    rw [← hpage]
    exact takeBudget_prefix_self size byteBudget 0 _
  -- The rows up to the last number are the rows that the page was cut from.
  have hrows : (s.range threadId (base + 1) (base + entries.length)).take u32Max =
      ((s.range threadId (base + 1) toSeq).take limit).take entries.length := by
    apply @eq_of_map_eq _ _ EntryRow.seq
    · rw [map_take, map_take, map_take, h.range_seqs (Nat.le_add_left 1 base) (by omega),
        h.range_seqs (Nat.le_add_left 1 base) hto, take_range', take_range', take_range']
      congr 1
      omega
    · intro _ ha _ hb hseq
      exact eq_of_mem_range (mem_of_mem_take ha)
        (mem_of_mem_take (mem_of_mem_take hb)) hseq
  have hcut : takeBudget size usizeMax 0 entries = entries := by
    rw [← hpage]
    exact takeBudget_takeBudget size hbudget _
  rw [readRange_eq, if_neg (by simp only [u32Max]; omega), hrows, map_take,
    ← prefix_iff_eq_take.mp hprefix, hcut]

end

theorem readRange_congr (hentries : s'.entries = s.entries) :
    s'.readRange size threadId fromSeq toSeq limit byteBudget (some snapshot) =
      s.readRange size threadId fromSeq toSeq limit byteBudget (some snapshot) := by
  cases s
  cases s'
  cases hentries
  rfl

/-- An entry that the snapshot does not know of is not seen in a page. -/
theorem readRange_insert {entry : EntryRow} (hinsert : s.entries.insert entry = .ok s'.entries)
    (hnew : entry.threadId = threadId → snapshot < entry.seq) (hto : toSeq ≤ snapshot) :
    s'.readRange size threadId fromSeq toSeq limit byteBudget (some snapshot) =
      s.readRange size threadId fromSeq toSeq limit byteBudget (some snapshot) := by
  have hselect : s'.range threadId fromSeq toSeq = s.range threadId fromSeq toSeq := by
    have hout : ¬ (entry.threadId = threadId ∧ fromSeq ≤ entry.seq ∧ entry.seq ≤ toSeq) := by
      rintro ⟨hthread, -, _⟩
      have := hnew hthread
      omega
    unfold range select
    rw [insert_rows hinsert, filter_append]
    simp [hout]
  have hsuccessor :
      ∀ seq, s'.successor threadId seq snapshot = s.successor threadId seq snapshot := by
    intro seq
    have hout : ¬ (entry.threadId = threadId ∧ entry.supersedesSeq = some seq ∧
        entry.seq ≤ snapshot) := by
      rintro ⟨hthread, -, _⟩
      have := hnew hthread
      omega
    unfold successor
    rw [find?_insert hinsert, if_neg (by simpa using hout), Option.or_none]
  rw [readRange_eq, readRange_eq, hselect]
  split
  · rfl
  congr 1
  apply map_congr_left
  intro _ he
  obtain ⟨-, hthread, -⟩ := mem_range.mp (mem_of_mem_take he)
  unfold pageEntry
  rw [hthread, hsuccessor]

end

end ThreadStore

end Bridget.Threads
