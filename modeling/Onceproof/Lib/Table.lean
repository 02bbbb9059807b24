import Mathlib.Data.List.Nodup
import Mathlib.Tactic.Common

/-!
# Tables with a primary key

A `Table ρ key` is a list of rows of type `ρ` in insertion order whose keys are pairwise
distinct. The uniqueness of the key is a field, so no operation can build a table without
it: `insert?` refuses a key that is taken, `delete` drops rows, and `update` rewrites rows
by a function that leaves the key alone.
-/

namespace Onceproof

/-- Rows with pairwise distinct primary keys. -/
@[ext]
structure Table (ρ : Type) {κ : Type} (key : ρ → κ) where
  rows : List ρ
  nodup : (rows.map key).Nodup

namespace Table

variable {ρ κ : Type} {key : ρ → κ}

instance : Membership ρ (Table ρ key) := ⟨fun t r => r ∈ t.rows⟩

theorem mem_def {t : Table ρ key} {r : ρ} : r ∈ t ↔ r ∈ t.rows := Iff.rfl

/-- The table without rows. -/
def empty : Table ρ key := ⟨[], by simp⟩

@[simp] theorem rows_empty : (empty : Table ρ key).rows = [] := rfl

@[simp] theorem not_mem_empty {r : ρ} : r ∉ (empty : Table ρ key) := by
  simp [mem_def]

/-- Two rows of a table with the same key are the same row. -/
theorem eq_of_key_eq {t : Table ρ key} {r r' : ρ} (h : r ∈ t) (h' : r' ∈ t)
    (hk : key r = key r') : r = r' :=
  List.inj_on_of_nodup_map t.nodup h h' hk

section Keyed

variable [DecidableEq κ]

/-- The row with a given key. -/
def get? (t : Table ρ key) (k : κ) : Option ρ := t.rows.find? fun r => key r = k

theorem get?_eq_some {t : Table ρ key} {k : κ} {r : ρ} :
    t.get? k = some r ↔ r ∈ t ∧ key r = k := by
  constructor
  · intro h
    exact ⟨List.mem_of_find?_eq_some h, by simpa using List.find?_some h⟩
  · rintro ⟨hr, rfl⟩
    cases h : t.get? (key r) with
    | none =>
      have := List.find?_eq_none.mp h r hr
      simp at this
    | some r' =>
      have hk : key r' = key r := by simpa using List.find?_some h
      rw [eq_of_key_eq (List.mem_of_find?_eq_some h) hr hk]

theorem get?_eq_none {t : Table ρ key} {k : κ} :
    t.get? k = none ↔ ∀ r ∈ t, key r ≠ k := by
  simp [get?, mem_def]

/-- Insert a row whose key is not taken. -/
def insert? (t : Table ρ key) (r : ρ) : Option (Table ρ key) :=
  if h : key r ∈ t.rows.map key then none
  else some ⟨t.rows ++ [r], by
    rw [List.map_append, List.nodup_append]
    refine ⟨t.nodup, by simp, ?_⟩
    rintro a ha b hb rfl
    rw [List.map_singleton, List.mem_singleton] at hb
    exact h (hb ▸ ha)⟩

theorem insert?_eq_some {t t' : Table ρ key} {r : ρ} :
    t.insert? r = some t' ↔ (∀ r' ∈ t, key r' ≠ key r) ∧ t'.rows = t.rows ++ [r] := by
  unfold insert?
  split_ifs with h
  · obtain ⟨r', hr', hk⟩ := List.mem_map.mp h
    simp only [false_iff, not_and]
    exact fun hn => absurd hk (hn r' hr')
  · constructor
    · intro h'
      obtain rfl := Option.some.inj h'
      exact ⟨fun r' hr' hk => h (List.mem_map.mpr ⟨r', hr', hk⟩), rfl⟩
    · rintro ⟨_, h'⟩
      exact congrArg some (Table.ext h'.symm)

theorem insert?_eq_none {t : Table ρ key} {r : ρ} :
    t.insert? r = none ↔ ∃ r' ∈ t, key r' = key r := by
  unfold insert?
  split_ifs with h
  · simpa [mem_def] using h
  · simp only [false_iff]
    rintro ⟨r', hr', hk⟩
    exact h (List.mem_map.mpr ⟨r', hr', hk⟩)

/-- A row with a new key can be inserted. -/
theorem insert?_of_fresh {t : Table ρ key} {r : ρ} (h : t.get? (key r) = none) :
    ∃ t', t.insert? r = some t' := by
  refine Option.ne_none_iff_exists'.mp fun hnone => ?_
  obtain ⟨r', hr', hkey⟩ := insert?_eq_none.mp hnone
  exact get?_eq_none.mp h r' hr' hkey

/-- A row whose key is taken cannot. -/
theorem insert?_of_taken {t : Table ρ key} {r r' : ρ} (h : t.get? (key r) = some r') :
    t.insert? r = none :=
  insert?_eq_none.mpr ⟨r', get?_eq_some.mp h⟩

end Keyed

/-- Delete the rows that satisfy a condition. -/
def delete (t : Table ρ key) (p : ρ → Bool) : Table ρ key :=
  ⟨t.rows.filter fun r => !p r, t.nodup.sublist (List.filter_sublist.map key)⟩

@[simp] theorem rows_delete (t : Table ρ key) (p : ρ → Bool) :
    (t.delete p).rows = t.rows.filter fun r => !p r := rfl

@[simp] theorem mem_delete {t : Table ρ key} {p : ρ → Bool} {r : ρ} :
    r ∈ t.delete p ↔ r ∈ t ∧ p r = false := by
  simp [mem_def]

/-- Rewrite the rows that satisfy a condition, keeping their keys. -/
def update (t : Table ρ key) (p : ρ → Bool) (f : ρ → ρ) (hf : ∀ r, key (f r) = key r) :
    Table ρ key :=
  ⟨t.rows.map fun r => if p r then f r else r, by
    have hk : (key ∘ fun r => if p r then f r else r) = key := by
      funext r
      by_cases h : p r <;> simp [h, hf]
    rw [List.map_map, hk]
    exact t.nodup⟩

@[simp] theorem rows_update (t : Table ρ key) (p : ρ → Bool) (f : ρ → ρ)
    (hf : ∀ r, key (f r) = key r) :
    (t.update p f hf).rows = t.rows.map fun r => if p r then f r else r := rfl

theorem mem_update {t : Table ρ key} {p : ρ → Bool} {f : ρ → ρ}
    {hf : ∀ r, key (f r) = key r} {r : ρ} :
    r ∈ t.update p f hf ↔ ∃ r' ∈ t, r = if p r' then f r' else r' := by
  simp only [mem_def, rows_update, List.mem_map]
  exact ⟨fun ⟨r', hr', h⟩ => ⟨r', hr', h.symm⟩, fun ⟨r', hr', h⟩ => ⟨r', hr', h.symm⟩⟩

section Lookup

variable [DecidableEq κ]

/-- A lookup after the rows were rewritten and others appended. -/
theorem get?_map_append {t t' : Table ρ key} {f : ρ → ρ} {rs : List ρ}
    (h : t'.rows = t.rows.map f ++ rs) (hf : ∀ r, key (f r) = key r) (k : κ) :
    t'.get? k = ((t.get? k).map f).or (rs.find? fun r => key r = k) := by
  simp only [get?, h, List.find?_append, List.find?_map, Function.comp_def, hf]

/-- A lookup after rows were appended. -/
theorem get?_append {t t' : Table ρ key} {rs : List ρ} (h : t'.rows = t.rows ++ rs) (k : κ) :
    t'.get? k = (t.get? k).or (rs.find? fun r => key r = k) := by
  simp only [get?, h, List.find?_append]

/-- A lookup after the rows were rewritten. -/
theorem get?_map {t t' : Table ρ key} {f : ρ → ρ} (h : t'.rows = t.rows.map f)
    (hf : ∀ r, key (f r) = key r) (k : κ) : t'.get? k = (t.get? k).map f := by
  simp only [get?, h, List.find?_map, Function.comp_def, hf]

/-- A lookup after rows were dropped. -/
theorem get?_filter {t t' : Table ρ key} {p : ρ → Bool} (h : t'.rows = t.rows.filter p)
    (k : κ) : t'.get? k = (t.get? k).filter p := by
  ext r
  simp only [get?_eq_some, mem_def, h, List.mem_filter, Option.filter_eq_some_iff]
  tauto

/-- A lookup after an insert. -/
theorem get?_of_insert? {t t' : Table ρ key} {r : ρ} (h : t.insert? r = some t') (k : κ) :
    t'.get? k = if key r = k then some r else t.get? k := by
  obtain ⟨hfresh, hrows⟩ := insert?_eq_some.mp h
  rw [get?_append hrows, List.find?_singleton]
  by_cases hk : key r = k
  · rw [get?_eq_none.mpr fun r' hr' => hk ▸ hfresh r' hr', Option.none_or]
    simp [hk]
  · simp [hk]

/-- A lookup after an update. -/
theorem get?_update (t : Table ρ key) (p : ρ → Bool) (f : ρ → ρ)
    (hf : ∀ r, key (f r) = key r) (k : κ) :
    (t.update p f hf).get? k = (t.get? k).map fun r => if p r then f r else r :=
  get?_map (rows_update t p f hf) (fun r => by split_ifs <;> simp [hf]) k

/-- A key was free if a row with it was appended. -/
theorem get?_eq_none_of_append {t t' : Table ρ key} {r : ρ} (h : t'.rows = t.rows ++ [r]) :
    t.get? (key r) = none := by
  refine get?_eq_none.mpr fun r' hr' hk => ?_
  have hnodup := t'.nodup
  rw [h, List.map_append, List.nodup_append] at hnodup
  exact hnodup.2.2 _ (List.mem_map_of_mem hr') _ (List.mem_map_of_mem List.mem_cons_self) hk

/-- A key that is free in a table is free in a smaller one. -/
theorem get?_eq_none_of_subset {t t' : Table ρ key} (h : ∀ r ∈ t, r ∈ t') {k : κ}
    (hk : t'.get? k = none) : t.get? k = none :=
  get?_eq_none.mpr fun r hr => get?_eq_none.mp hk r (h r hr)

/-- Tables with the same rows under a condition have the same lookups under it. -/
theorem filter_get?_congr {t t' : Table ρ key} {p : ρ → Bool}
    (h : t.rows.filter p = t'.rows.filter p) (k : κ) :
    (t.get? k).filter p = (t'.get? k).filter p := by
  have hfilter : ∀ u : Table ρ key, (u.get? k).filter p = (u.delete fun r => !p r).get? k :=
    fun u => (get?_filter (by simp) k).symm
  have hsame : (t.delete fun r => !p r) = t'.delete fun r => !p r := Table.ext (by simpa using h)
  rw [hfilter, hfilter, hsame]

/-- And the same lookups of keys that imply it. -/
theorem get?_congr {t t' : Table ρ key} {p : ρ → Bool} (h : t.rows.filter p = t'.rows.filter p)
    {k : κ} (hk : ∀ r, key r = k → p r = true) : t.get? k = t'.get? k := by
  have hfilter : ∀ u : Table ρ key, (u.get? k).filter p = u.get? k := by
    intro u
    cases hu : u.get? k with
    | none => rfl
    | some r => exact if_pos (hk r (get?_eq_some.mp hu).2)
  rw [← hfilter t, ← hfilter t', filter_get?_congr h]

end Lookup

/-- Rewriting and appending keeps one table within another. -/
theorem subset_map_append {t u t' u' : Table ρ key} {f : ρ → ρ} {rs : List ρ}
    (h : ∀ r ∈ t, r ∈ u) (ht : t'.rows = t.rows.map f ++ rs) (hu : u'.rows = u.rows.map f ++ rs) :
    ∀ r ∈ t', r ∈ u' := by
  intro r hr
  rw [mem_def, ht, List.mem_append, List.mem_map] at hr
  rw [mem_def, hu, List.mem_append, List.mem_map]
  rcases hr with ⟨r', hr', rfl⟩ | hr
  · exact Or.inl ⟨r', h r' hr', rfl⟩
  · exact Or.inr hr

/-- Appending keeps one table within another. -/
theorem subset_append {t u t' u' : Table ρ key} {rs : List ρ} (h : ∀ r ∈ t, r ∈ u)
    (ht : t'.rows = t.rows ++ rs) (hu : u'.rows = u.rows ++ rs) : ∀ r ∈ t', r ∈ u' :=
  subset_map_append (f := id) h (by rw [ht, List.map_id]) (by rw [hu, List.map_id])

/-- Rewriting keeps one table within another. -/
theorem subset_map {t u t' u' : Table ρ key} {f : ρ → ρ} (h : ∀ r ∈ t, r ∈ u)
    (ht : t'.rows = t.rows.map f) (hu : u'.rows = u.rows.map f) : ∀ r ∈ t', r ∈ u' :=
  subset_map_append h (ht.trans (List.append_nil _).symm) (hu.trans (List.append_nil _).symm)

/-- Dropping rows keeps one table within another. -/
theorem subset_filter {t u t' u' : Table ρ key} {p : ρ → Bool} (h : ∀ r ∈ t, r ∈ u)
    (ht : t'.rows = t.rows.filter p) (hu : u'.rows = u.rows.filter p) : ∀ r ∈ t', r ∈ u' := by
  intro r hr
  rw [mem_def, ht, List.mem_filter] at hr
  rw [mem_def, hu, List.mem_filter]
  exact ⟨h r hr.1, hr.2⟩

/-- A condition on rows that were rewritten and appended. -/
theorem forall_map_append {t t' : Table ρ key} {f : ρ → ρ} {rs : List ρ} {P : ρ → Prop}
    (h : ∀ r ∈ t, P r) (ht : t'.rows = t.rows.map f ++ rs) (hf : ∀ r, P r → P (f r))
    (hrs : ∀ r ∈ rs, P r) : ∀ r ∈ t', P r := by
  intro r hr
  rw [mem_def, ht, List.mem_append, List.mem_map] at hr
  rcases hr with ⟨r', hr', rfl⟩ | hr
  · exact hf r' (h r' hr')
  · exact hrs r hr

/-- A condition on rows that were rewritten. -/
theorem forall_map {t t' : Table ρ key} {f : ρ → ρ} {P : ρ → Prop} (h : ∀ r ∈ t, P r)
    (ht : t'.rows = t.rows.map f) (hf : ∀ r, P r → P (f r)) : ∀ r ∈ t', P r :=
  forall_map_append h (ht.trans (List.append_nil _).symm) hf fun _ hr => absurd hr List.not_mem_nil

/-- A condition on rows that were appended. -/
theorem forall_append {t t' : Table ρ key} {rs : List ρ} {P : ρ → Prop} (h : ∀ r ∈ t, P r)
    (ht : t'.rows = t.rows ++ rs) (hrs : ∀ r ∈ rs, P r) : ∀ r ∈ t', P r :=
  forall_map_append (f := id) h (by rw [ht, List.map_id]) (fun _ hr => hr) hrs

/-- A condition on rows that were kept. -/
theorem forall_filter {t t' : Table ρ key} {p : ρ → Bool} {P : ρ → Prop} (h : ∀ r ∈ t, P r)
    (ht : t'.rows = t.rows.filter p) : ∀ r ∈ t', P r := by
  intro r hr
  rw [mem_def, ht, List.mem_filter] at hr
  exact h r hr.1

/-- The number of rows that satisfy a condition: what an `UPDATE` or `DELETE` reports. -/
def count (t : Table ρ key) (p : ρ → Bool) : ℕ := t.rows.countP p

theorem count_eq_one_of_mem {t : Table ρ key} {p : ρ → Bool} {r : ρ} (h : r ∈ t)
    (hp : p r = true) (huniq : ∀ r' ∈ t, p r' = true → key r' = key r) : t.count p = 1 := by
  obtain ⟨l₁, l₂, hl⟩ := List.append_of_mem h
  have hnd := t.nodup
  have hout : ∀ r' ∈ l₁ ++ l₂, p r' = false := by
    intro r' hr'
    by_contra hne
    have hmem : r' ∈ t := by
      rw [mem_def, hl]
      simp only [List.mem_append, List.mem_cons] at hr' ⊢
      tauto
    have hk := huniq r' hmem (by simpa using hne)
    rw [hl] at hnd
    simp only [List.map_append, List.map_cons, List.nodup_append, List.nodup_cons,
      List.mem_map, List.mem_cons] at hnd
    rcases List.mem_append.mp hr' with h₁ | h₂
    · exact hnd.2.2 _ ⟨r', h₁, rfl⟩ _ (Or.inl rfl) hk
    · exact hnd.2.1.1 ⟨r', h₂, hk⟩
  simp only [List.mem_append] at hout
  rw [count, hl, List.countP_append, List.countP_cons, hp,
    List.countP_eq_zero.mpr fun r' hr' => by simp [hout r' (Or.inl hr')],
    List.countP_eq_zero.mpr fun r' hr' => by simp [hout r' (Or.inr hr')]]
  rfl

end Table

/-! ### Rows under a condition -/

section Filter

variable {α : Type} {l l' : List α} {p q : α → Bool} {f : α → α}

/-- Rewriting rows and then selecting some that the rewriting does not change. -/
theorem filter_map_of_comm (hf : ∀ a, p (f a) = p a) :
    (l.map f).filter p = (l.filter p).map f := by
  rw [List.filter_map]
  exact congrArg (fun p => (l.filter p).map f) (funext hf)

/-- Rewriting rows that are not selected. -/
theorem filter_map_of_fixed (hp : ∀ a, p (f a) = p a) (hf : ∀ a ∈ l, p a = true → f a = a) :
    (l.map f).filter p = l.filter p := by
  rw [filter_map_of_comm hp]
  exact (List.map_congr_left fun a ha => hf a (List.mem_filter.mp ha).1
    (List.mem_filter.mp ha).2).trans (List.map_id _)

/-- Dropping rows commutes with selecting them. -/
theorem filter_filter_comm (p q : α → Bool) (l : List α) :
    (l.filter q).filter p = (l.filter p).filter q := by
  rw [List.filter_filter, List.filter_filter]
  exact congrArg (fun r => l.filter r) (funext fun a => Bool.and_comm _ _)

/-- A search among the rows under a condition that what is sought implies. -/
theorem find?_congr_filter (h : l.filter p = l'.filter p) (hq : ∀ a, q a = true → p a = true) :
    l.find? q = l'.find? q := by
  have hfilter : ∀ m : List α, m.find? q = (m.filter p).find? q := by
    intro m
    rw [List.find?_filter]
    refine congrArg (fun r => List.find? r m) (funext fun a => ?_)
    rw [Bool.eq_iff_iff, decide_eq_true_eq]
    exact ⟨fun ha => ⟨hq a ha, ha⟩, fun ha => ha.2⟩
  rw [hfilter, hfilter l', h]

end Filter

end Onceproof
