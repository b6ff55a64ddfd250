import Bridget.Foundation.Bounded

/-!
# Tables with uniqueness constraints

A table is a list of rows in which no two rows conflict: whatever the schema declares
`PRIMARY KEY` or `UNIQUE` is a conflict. The constraint is a field of the table, so a
statement that would break it fails and leaves no table behind. The number returned by
an update is the number of rows its condition selected.
-/

namespace Bridget.Foundation

/-- The ways a statement fails that the modelled code can meet. -/
inductive SqlError where
  | constraint | noRows | invalidParameter | conversion | malformedJson
  deriving DecidableEq

/-- An unsigned counter crosses the boundary of the database only as a nonnegative
64-bit integer, in both directions. -/
def sqlCounter (value : Nat) : Except SqlError Nat :=
  if (value : Int) ≤ i64Max then .ok value else .error .conversion

theorem sqlCounter_eq_ok {value counter : Nat} :
    sqlCounter value = .ok counter ↔ (value : Int) ≤ i64Max ∧ value = counter := by
  unfold sqlCounter
  split
  next h => simp [h]
  next h => simp [h]

/-- The uniqueness constraints of a schema: two distinct rows may not conflict. -/
class UniqueKeys (Row : Type) where
  conflicts : Row → Row → Prop
  symm : ∀ a b, conflicts a b → conflicts b a := by grind
  decidable : DecidableRel conflicts := by exact fun _ _ => inferInstance

instance {Row : Type} [UniqueKeys Row] : DecidableRel (@UniqueKeys.conflicts Row _) :=
  UniqueKeys.decidable

/-- Rows of which no two conflict. -/
structure Table (Row : Type) [UniqueKeys Row] where
  rows : List Row
  unique : rows.Pairwise fun a b => ¬ UniqueKeys.conflicts a b

namespace Table

open UniqueKeys List Function

variable {Row Key : Type} [UniqueKeys Row] {t t' : Table Row} {row r : Row} {n : Nat}
  {p q : Row → Bool} {f : Row → Row}

instance : Membership Row (Table Row) := ⟨fun t r => r ∈ t.rows⟩

def empty : Table Row := ⟨[], .nil⟩

/-- `SELECT` of at most one row. -/
def find? (t : Table Row) (p : Row → Bool) : Option Row := t.rows.find? p

section

variable (t : Table Row)

def select (p : Row → Bool) : List Row := t.rows.filter p

def count (p : Row → Bool) : Nat := t.rows.countP p

/-- `INSERT`, refused when a row with the same key is present. -/
def insert (row : Row) : Except SqlError (Table Row) :=
  if h : ∀ r ∈ t.rows, ¬ conflicts r row then
    .ok ⟨t.rows ++ [row], by
      refine pairwise_append.mpr ⟨t.unique, pairwise_singleton _ _, ?_⟩
      intro a ha b hb
      exact mem_singleton.mp hb ▸ h a ha⟩
  else .error .constraint

/-- `INSERT … ON CONFLICT DO NOTHING`, with the number of rows inserted. -/
def insertOrIgnore (row : Row) : Table Row × Nat :=
  match t.insert row with
  | .ok t' => (t', 1)
  | .error _ => (t, 0)

/-- `DELETE`. -/
def delete (p : Row → Bool) : Table Row := ⟨t.rows.filter (fun r => !p r), t.unique.filter _⟩

/-- `INSERT OR REPLACE`: the rows in conflict with the new one are dropped first. -/
def insertOrReplace (row : Row) : Table Row :=
  let rest := t.delete fun r => conflicts r row
  ⟨rest.rows ++ [row], by
    refine pairwise_append.mpr ⟨rest.unique, pairwise_singleton _ _, ?_⟩
    intro a ha b hb
    have hkept := (mem_filter.mp ha).2
    rw [mem_singleton.mp hb]
    simpa using hkept⟩

end

/-- What an update does to one row. -/
def rewrite (p : Row → Bool) (f : Row → Row) (r : Row) : Row := if p r then f r else r

/-- `UPDATE`, refused when the rewritten rows would conflict. -/
def update (t : Table Row) (p : Row → Bool) (f : Row → Row) : Except SqlError (Table Row × Nat) :=
  if h : (t.rows.map (rewrite p f)).Pairwise fun a b => ¬ conflicts a b then
    .ok (⟨t.rows.map (rewrite p f), h⟩, t.count p)
  else .error .constraint

/-- A condition that pins a key: two rows that satisfy it are in conflict. -/
def PinsKey (p : Row → Bool) : Prop := ∀ a b, p a → p b → conflicts a b

/-- A rewriting that leaves every key column alone. -/
def KeepsKeys (f : Row → Row) : Prop :=
  ∀ a b, (conflicts (f a) b ↔ conflicts a b) ∧ (conflicts a (f b) ↔ conflicts a b)

theorem pinsKey_field {κ : Type} [DecidableEq κ] {field : Row → κ} {value : κ}
    (h : ∀ a b, field a = field b → conflicts a b) :
    PinsKey fun r => decide (field r = value) := fun a b ha hb =>
  h a b ((of_decide_eq_true ha).trans (of_decide_eq_true hb).symm)

@[simp] theorem mem_rows : r ∈ t.rows ↔ r ∈ t := Iff.rfl

@[simp] theorem not_mem_empty : r ∉ (empty : Table Row) := not_mem_nil

@[simp] theorem find?_empty : (empty : Table Row).find? p = none := rfl

theorem mem_select : r ∈ t.select p ↔ r ∈ t ∧ p r = true := mem_filter

theorem eq_of_conflicts {a b : Row} (ha : a ∈ t) (hb : b ∈ t) (h : conflicts a b) : a = b := by
  by_contra hne
  have hsymm : Std.Symm fun a b : Row => ¬ conflicts a b := ⟨fun _ _ hxy hyx => hxy (symm _ _ hyx)⟩
  exact t.unique.forall ha hb hne h

theorem select_pinned (hp : PinsKey p) (hr : r ∈ t) (hpr : p r = true) : t.select p = [r] := by
  have hall : ∀ a ∈ t.select p, a = r := by
    intro a ha
    obtain ⟨hmem, hpa⟩ := mem_select.mp ha
    exact eq_of_conflicts hmem hr (hp a r hpa hpr)
  have hin : r ∈ t.select p := mem_select.mpr ⟨hr, hpr⟩
  have hunique : (t.select p).Pairwise fun a b => ¬ conflicts a b := t.unique.filter p
  cases hrows : t.select p with
  | nil => simp [hrows] at hin
  | cons first rest =>
    rw [hrows] at hall hunique
    cases rest with
    | nil => rw [hall first mem_cons_self]
    | cons second =>
      -- two rows under the key would conflict
      have hne := (pairwise_cons.mp hunique).1 second mem_cons_self
      rw [hall first mem_cons_self, hall second (by simp)] at hne
      exact absurd (hp r r hpr hpr) hne

theorem mem_of_find? (h : t.find? p = some r) : r ∈ t := mem_of_find?_eq_some h

theorem find?_some (h : t.find? p = some r) : p r = true := List.find?_some h

theorem find?_eq_none : t.find? p = none ↔ ∀ r ∈ t, p r = false := by simp [find?]

/-- A condition that pins a key finds every row that satisfies it. -/
theorem find?_eq_some (hp : PinsKey p) : t.find? p = some r ↔ r ∈ t ∧ p r = true := by
  constructor
  · exact fun h => ⟨mem_of_find? h, find?_some h⟩
  · rintro ⟨hmem, hpr⟩
    cases hfind : t.find? p with
    | none => simp [find?_eq_none.mp hfind r hmem] at hpr
    | some => rw [eq_of_conflicts (mem_of_find? hfind) hmem (hp _ _ (find?_some hfind) hpr)]

theorem count_eq_one (hq : PinsKey q) (hpq : ∀ r, p r = true → q r = true) (hr : r ∈ t)
    (hpr : p r = true) : t.count p = 1 := by
  obtain ⟨before, after, hrows⟩ := append_of_mem hr
  have hunique := t.unique
  rw [hrows, pairwise_append, pairwise_cons] at hunique
  obtain ⟨-, ⟨hafter, -⟩, hbefore⟩ := hunique
  have hzero : ∀ l : List Row, (∀ x ∈ l, ¬ conflicts x r) → l.countP p = 0 := by
    intro l hl
    exact countP_eq_zero.mpr fun x hx hpx => hl x hx (hq _ _ (hpq _ hpx) (hpq _ hpr))
  have hbefore' := hzero before fun x hx => hbefore x hx r (by simp)
  have hafter' := hzero after fun x hx hxr => hafter x hx (symm _ _ hxr)
  simp [count, hrows, countP_append, hpr, hbefore', hafter']

theorem exists_of_count_eq_one (h : t.count p = 1) : ∃ r ∈ t, p r = true := by
  have hpos : 0 < t.rows.countP p := by rw [show t.rows.countP p = 1 from h]; decide
  exact countP_pos_iff.mp hpos

section

variable (h : t.insert row = .ok t')

include h

theorem insert_rows : t'.rows = t.rows ++ [row] := by
  unfold insert at h
  split at h
  · cases h
    rfl
  · cases h

theorem mem_insert : r ∈ t' ↔ r ∈ t ∨ r = row := by
  rw [← mem_rows, insert_rows h]
  simp

theorem not_conflicts_of_insert (hr : r ∈ t) : ¬ conflicts r row := by
  unfold insert at h
  split at h
  next hfree => exact hfree r hr
  · cases h

theorem find?_eq_none_of_insert (hp : ∀ r, p r = true → conflicts r row) : t.find? p = none :=
  find?_eq_none.mpr fun r hr =>
    Bool.eq_false_iff.mpr fun hpr => not_conflicts_of_insert h hr (hp r hpr)

end

theorem insert_eq_ok (h : ∀ r ∈ t, ¬ conflicts r row) : ∃ t', t.insert row = .ok t' :=
  ⟨_, dif_pos h⟩

theorem find?_insert (h : t.insert row = .ok t') :
    t'.find? q = (t.find? q).or (if q row then some row else none) := by
  unfold find?
  rw [insert_rows h, find?_append]
  congr 1
  cases hq : q row <;> simp [hq]

theorem insertOrIgnore_inserted (h : (t.insertOrIgnore row).2 = 1) :
    t.insert row = .ok (t.insertOrIgnore row).1 := by
  unfold insertOrIgnore at h ⊢
  cases hinsert : t.insert row with
  | ok => rfl
  | error => simp [hinsert] at h

theorem insertOrIgnore_ignored (h : (t.insertOrIgnore row).2 ≠ 1) :
    (t.insertOrIgnore row).1 = t ∧ ∃ r ∈ t, conflicts r row := by
  unfold insertOrIgnore at h ⊢
  cases hinsert : t.insert row with
  | ok => simp [hinsert] at h
  | error =>
    refine ⟨rfl, ?_⟩
    by_contra hfree
    push Not at hfree
    obtain ⟨_, ht'⟩ := insert_eq_ok hfree
    simp [hinsert] at ht'

theorem mem_delete : r ∈ t.delete p ↔ r ∈ t ∧ p r = false := by
  rw [← mem_rows, delete, mem_filter]
  simp

theorem find?_delete (hq : PinsKey q) :
    (t.delete p).find? q = (t.find? q).filter (fun r => !p r) := by
  ext r
  rw [Option.filter_eq_some_iff, find?_eq_some hq, find?_eq_some hq, mem_delete]
  simp only [Bool.not_eq_eq_eq_not, Bool.not_true]
  tauto

theorem mem_insertOrReplace : r ∈ t.insertOrReplace row ↔ r ∈ t ∧ ¬ conflicts r row ∨ r = row := by
  have hrows : (t.insertOrReplace row).rows =
    (t.delete fun r => conflicts r row).rows ++ [row] := rfl
  rw [← mem_rows, hrows, mem_append, mem_rows, mem_delete, decide_eq_false_iff_not, mem_singleton]

section

variable (h : t.update p f = .ok (t', n))

include h

theorem update_rows : t'.rows = t.rows.map (rewrite p f) ∧ n = t.count p := by
  unfold update at h
  split at h
  · cases h
    exact ⟨rfl, rfl⟩
  · cases h

theorem mem_update : r ∈ t' ↔ ∃ r₀ ∈ t, rewrite p f r₀ = r := by
  rw [← mem_rows, (update_rows h).1, mem_map]
  rfl

theorem count_update_le
    (hq : ∀ r ∈ t, p r = true → q (f r) = true → q r = true) : t'.count q ≤ t.count q := by
  rw [count, (update_rows h).1, countP_map]
  apply countP_mono_left
  intro r hr hqr
  simp only [comp_apply, rewrite] at hqr
  split at hqr
  next hp => exact hq r hr hp hqr
  · exact hqr

end

theorem update_eq_self (h : ∀ r ∈ t, p r = false) : t.update p f = .ok (t, 0) := by
  have hrows : t.rows.map (rewrite p f) = t.rows := by
    refine (map_congr_left fun r hr => ?_).trans (map_id _)
    exact if_neg (Bool.eq_false_iff.mp (h r hr))
  have hpair : (t.rows.map (rewrite p f)).Pairwise fun a b => ¬ conflicts a b := by
    rw [hrows]
    exact t.unique
  have htable : (⟨t.rows.map (rewrite p f), hpair⟩ : Table Row) = t := by
    cases t
    simp only [mk.injEq]
    exact hrows
  rw [update, dif_pos hpair, htable, count, countP_eq_zero.mpr (by simpa using h)]

/-- An `UPDATE` within a pinned key changes nothing, or one row. -/
theorem update_pinned (hq : PinsKey q) (hpq : ∀ r, p r = true → q r = true)
    (h : t.update p f = .ok (t', n)) :
    n = 0 ∧ t' = t ∨ n = 1 ∧ ∃ r₀ ∈ t, p r₀ = true ∧ ∀ r, r ∈ t' ↔ r = f r₀ ∨ r ≠ r₀ ∧ r ∈ t := by
  by_cases hnone : ∀ r ∈ t, p r = false
  · rw [update_eq_self hnone] at h
    cases h
    exact .inl ⟨rfl, rfl⟩
  push Not at hnone
  obtain ⟨r₀, hr₀, hp⟩ := hnone
  rw [ne_eq, Bool.not_eq_false] at hp
  refine .inr ⟨(update_rows h).2.trans (count_eq_one hq hpq hr₀ hp), r₀, hr₀, hp, ?_⟩
  intro r
  rw [mem_update h]
  constructor
  · rintro ⟨_, hx, rfl⟩
    unfold rewrite
    split
    next hpx =>
      rw [eq_of_conflicts hx hr₀ (hq _ _ (hpq _ hpx) (hpq _ hp))]
      exact .inl rfl
    next hpx =>
      refine .inr ⟨?_, hx⟩
      rintro rfl
      exact hpx hp
  · rintro (rfl | ⟨hne, hr⟩)
    · exact ⟨r₀, hr₀, if_pos hp⟩
    · refine ⟨r, hr, if_neg fun hpr => hne ?_⟩
      exact eq_of_conflicts hr hr₀ (hq _ _ (hpq _ hpr) (hpq _ hp))

/-- An update does not disturb a lookup by columns it leaves alone. -/
theorem find?_update (h : t.update p f = .ok (t', n)) (hq : ∀ r, q (f r) = q r) :
    t'.find? q = (t.find? q).map (rewrite p f) := by
  have hcomp : q ∘ rewrite p f = q := by
    funext r
    unfold comp rewrite
    split
    · exact hq r
    · rfl
  unfold find?
  rw [(update_rows h).1, find?_map, hcomp]

/-- An update that hit exactly one row, selected within one key: seen through the key it
replaces that row. -/
theorem lookup_update [DecidableEq Key] (key : Row → Key) (k : Key)
    (hpins : ∀ k, PinsKey fun r => decide (key r = k)) (h : t.update p f = .ok (t', 1))
    (hp : ∀ r, p r = true → key r = k) (hkeeps : ∀ r, key (f r) = key r) :
    ∃ row, t.find? (fun r => decide (key r = k)) = some row ∧ p row = true ∧
      (fun k => t'.find? fun r => decide (key r = k)) =
        Function.update (fun k => t.find? fun r => decide (key r = k)) k (some (f row)) := by
  obtain ⟨row, hrow, hprow⟩ := exists_of_count_eq_one (update_rows h).2.symm
  have hfind : t.find? (fun r => decide (key r = k)) = some row :=
    (find?_eq_some (hpins k)).mpr ⟨hrow, by simp [hp row hprow]⟩
  refine ⟨row, hfind, hprow, ?_⟩
  funext k'
  rw [find?_update h fun r => by rw [hkeeps]]
  by_cases hk : k' = k
  · subst hk
    rw [hfind, update_self, Option.map_some, rewrite, if_pos hprow]
  rw [update_of_ne hk]
  cases hfind' : t.find? fun r => decide (key r = k') with
  | none => rfl
  | some r =>
    have hr : key r = k' := by simpa using find?_some hfind'
    rw [Option.map_some, rewrite, if_neg]
    exact fun hpr => hk (hr.symm.trans (hp r hpr))

/-- Seen through a key, an inserted row is the one under its key. -/
theorem lookup_insert [DecidableEq Key] (key : Row → Key)
    (hfree : t.find? (fun r => decide (key r = key row)) = none) (h : t.insert row = .ok t') :
    (fun k => t'.find? fun r => decide (key r = k)) =
      Function.update (fun k => t.find? fun r => decide (key r = k)) (key row) (some row) := by
  funext k
  rw [find?_insert h]
  by_cases hk : k = key row
  · subst hk
    simp [hfree]
  · rw [update_of_ne hk]
    simp [Ne.symm hk]

/-- An update of other columns than the keys never fails. -/
theorem update_eq_ok (hf : KeepsKeys f) : ∃ t', t.update p f = .ok (t', t.count p) := by
  have hpair : (t.rows.map (rewrite p f)).Pairwise fun a b => ¬ conflicts a b := by
    refine pairwise_map.mpr (t.unique.imp ?_)
    intro a b hab
    unfold rewrite
    split <;> split
    · rwa [(hf a (f b)).1, (hf a b).2]
    · rwa [(hf a b).1]
    · rwa [(hf a b).2]
    · exact hab
  exact ⟨_, dif_pos hpair⟩

/-- An update selected within one key hits the row under that key. -/
theorem update_one_eq_ok [DecidableEq Key] (key : Row → Key) (k : Key)
    (hpins : PinsKey fun r => decide (key r = k)) (hf : KeepsKeys f)
    (hp : ∀ r, p r = true → key r = k) (hfind : t.find? (fun r => decide (key r = k)) = some row)
    (hprow : p row = true) : ∃ t', t.update p f = .ok (t', 1) := by
  obtain ⟨t', h⟩ := update_eq_ok (t := t) (p := p) hf
  have hone : t.count p = 1 :=
    count_eq_one hpins (fun r hr => by simp [hp r hr]) (mem_of_find? hfind) hprow
  exact ⟨t', hone ▸ h⟩

/-- An update selected within one key leaves the table as it is, or replaces the row under
that key. -/
theorem update_keyed [DecidableEq Key] (key : Row → Key) (k : Key)
    (hpins : ∀ k, PinsKey fun r => decide (key r = k)) (hf : KeepsKeys f)
    (hp : ∀ r, p r = true → key r = k) (hkeeps : ∀ r, key (f r) = key r) :
    (t.update p f = .ok (t, 0) ∧
      ∀ row, t.find? (fun r => decide (key r = k)) = some row → p row = false) ∨
    ∃ row t', t.find? (fun r => decide (key r = k)) = some row ∧ p row = true ∧
      t.update p f = .ok (t', 1) ∧ (fun k => t'.find? fun r => decide (key r = k)) =
        Function.update (fun k => t.find? fun r => decide (key r = k)) k (some (f row)) := by
  by_cases hhit : ∃ row ∈ t, p row = true
  · obtain ⟨row, hrow, hprow⟩ := hhit
    have hfind : t.find? (fun r => decide (key r = k)) = some row :=
      (find?_eq_some (hpins k)).mpr ⟨hrow, by simp [hp row hprow]⟩
    obtain ⟨t', h⟩ := update_one_eq_ok key k (hpins k) hf hp hfind hprow
    obtain ⟨_, hfind', -, hlookup⟩ := lookup_update key k hpins h hp hkeeps
    cases hfind.symm.trans hfind'
    exact .inr ⟨row, t', hfind, hprow, h, hlookup⟩
  · push Not at hhit
    have hnone : ∀ r ∈ t, p r = false := fun r hr => by simpa using hhit r hr
    exact .inl ⟨update_eq_self hnone, fun row hfind => hnone row (mem_of_find? hfind)⟩

end Table

variable {Value : Type}

/-- What a changed lookup finds is the new value, or was there under another key. -/
theorem update_some_cases {Key : Type} [DecidableEq Key] {lookup : Key → Option Value}
    {k x : Key} {a b : Value} (h : Function.update lookup k (some a) x = some b) :
    x = k ∧ b = a ∨ x ≠ k ∧ lookup x = some b := by
  by_cases heq : x = k
  · subst heq
    rw [Function.update_self] at h
    exact .inl ⟨rfl, (Option.some.inj h).symm⟩
  · rw [Function.update_of_ne heq] at h
    exact .inr ⟨heq, h⟩

theorem lookup_insert_cases {m : AList fun _ : String => Value} {k x : String} {a b : Value}
    (h : (m.insert k a).lookup x = some b) : x = k ∧ b = a ∨ x ≠ k ∧ m.lookup x = some b := by
  by_cases heq : x = k
  · subst heq
    rw [AList.lookup_insert] at h
    exact .inl ⟨rfl, (Option.some.inj h).symm⟩
  · rw [AList.lookup_insert_ne heq] at h
    exact .inr ⟨heq, h⟩

theorem lookup_erase_cases {m : AList fun _ : String => Value} {k x : String}
    {b : Value} (h : (m.erase k).lookup x = some b) : x ≠ k ∧ m.lookup x = some b := by
  by_cases heq : x = k
  · subst heq
    simp at h
  · exact ⟨heq, AList.lookup_erase_ne heq ▸ h⟩

end Bridget.Foundation
