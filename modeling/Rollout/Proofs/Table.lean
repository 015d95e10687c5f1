import Rollout.Table
import Mathlib.Data.List.Induction
import Mathlib.Data.List.Nodup

/-!
# Tables as maps

A table is known by what is found in it. What is found under a key is the value of its row, and,
where the table was filled row by row, the value of the last row for the key.
-/

namespace Rollout.Table

section Find

variable {κ ν : Type} [DecidableEq κ]

private theorem mem_of_findRow? {rows : List (κ × ν)} {k : κ} {v : ν}
    (h : findRow? k rows = some v) : (k, v) ∈ rows := by
  induction rows with
  | nil => cases h
  | cons row rows ih =>
      obtain ⟨j, w⟩ := row
      by_cases hj : j = k
      · simp only [findRow?, hj, ↓reduceIte, Option.some.injEq] at h
        rw [hj, h]
        exact List.mem_cons_self
      · simp only [findRow?, hj, ↓reduceIte] at h
        exact List.mem_cons_of_mem _ (ih h)

variable [LT κ]

private theorem findRow?_of_mem [Std.Irrefl (α := κ) (· < ·)] {rows : List (κ × ν)}
    (hasc : Ascending rows) {k : κ} {v : ν} (h : (k, v) ∈ rows) : findRow? k rows = some v := by
  induction rows with
  | nil => cases h
  | cons row rows ih =>
      obtain ⟨j, w⟩ := row
      obtain ⟨hj, hrest⟩ := List.pairwise_cons.mp hasc
      rcases List.mem_cons.mp h with he | hmem
      · cases he
        simp [findRow?]
      · have hne : j ≠ k := by
          rintro rfl
          exact Std.Irrefl.irrefl j (hj _ hmem)
        simp only [findRow?, hne, ↓reduceIte]
        exact ih hrest hmem

theorem find?_eq_some_iff [Std.Irrefl (α := κ) (· < ·)] {t : Table κ ν} {k : κ} {v : ν} :
    t.find? k = some v ↔ (k, v) ∈ t.rows :=
  ⟨mem_of_findRow?, findRow?_of_mem t.ascending⟩

omit [DecidableEq κ] in
theorem nodup_rows [Std.Irrefl (α := κ) (· < ·)] (t : Table κ ν) : t.rows.Nodup := by
  refine t.ascending.imp ?_
  rintro ⟨k, v⟩ _ hlt rfl
  exact Std.Irrefl.irrefl k hlt

theorem filterMap_rows_eq [Std.Asymm (α := κ) (· < ·)] {β : Type} {t u : Table κ ν}
    {pick : κ × ν → Option β}
    (htu : ∀ k v, t.find? k = some v → (pick (k, v)).isSome → u.find? k = some v)
    (hut : ∀ k v, u.find? k = some v → (pick (k, v)).isSome → t.find? k = some v) :
    t.rows.filterMap pick = u.rows.filterMap pick := by
  have hsplit : ∀ rows : List (κ × ν),
      rows.filterMap pick = (rows.filter fun row => (pick row).isSome).filterMap pick := by
    intro rows
    rw [List.filterMap_filter]
    congr 1
    funext row
    cases hrow : pick row <;> simp
  have hmem : ∀ row, row ∈ t.rows.filter (fun row => (pick row).isSome) ↔
      row ∈ u.rows.filter fun row => (pick row).isSome := by
    rintro ⟨k, v⟩
    simp only [List.mem_filter, ← find?_eq_some_iff]
    constructor
    · rintro ⟨hfind, hpick⟩
      exact ⟨htu k v hfind hpick, hpick⟩
    · rintro ⟨hfind, hpick⟩
      exact ⟨hut k v hfind hpick, hpick⟩
  have hperm := (List.perm_ext_iff_of_nodup (t.nodup_rows.filter _) (u.nodup_rows.filter _)).mpr hmem
  have hsame := hperm.eq_of_pairwise
    (fun a b _ _ hab hba => absurd hba (Std.Asymm.asymm _ _ hab))
    (t.ascending.filter _) (u.ascending.filter _)
  rw [hsplit t.rows, hsplit u.rows, hsame]

theorem ext_find? [Std.Asymm (α := κ) (· < ·)] {t u : Table κ ν}
    (h : ∀ k, t.find? k = u.find? k) : t = u := by
  have hrows : t.rows.filterMap some = u.rows.filterMap some :=
    filterMap_rows_eq (fun k v hfind _ => h k ▸ hfind) fun k v hfind _ => (h k).trans hfind
  rw [List.filterMap_some, List.filterMap_some] at hrows
  cases t
  cases u
  cases hrows
  rfl

end Find

section Last

variable {κ ν : Type} {rows : List (κ × ν)} {k : κ} {v : ν}

/-- The last row of this key has this value. -/
def Last (rows : List (κ × ν)) (k : κ) (v : ν) : Prop :=
  ∃ before after, rows = before ++ (k, v) :: after ∧ ∀ row ∈ after, row.1 ≠ k

theorem not_last_nil : ¬ Last [] k v := by
  rintro ⟨before, after, h, -⟩
  simp at h

theorem last_concat_iff {j : κ} {w : ν} :
    Last (rows ++ [(j, w)]) k v ↔ j = k ∧ w = v ∨ j ≠ k ∧ Last rows k v := by
  constructor
  · rintro ⟨before, after, h, hafter⟩
    rcases List.eq_nil_or_concat' after with rfl | ⟨after, row, rfl⟩
    · obtain ⟨-, hrow⟩ := List.append_inj' h rfl
      cases hrow
      exact .inl ⟨rfl, rfl⟩
    · rw [← List.cons_append, ← List.append_assoc] at h
      obtain ⟨rfl, hrow⟩ := List.append_inj' h rfl
      cases hrow
      refine .inr ⟨hafter (j, w) (by simp), before, after, rfl, fun row hmem => ?_⟩
      exact hafter row (List.mem_append_left _ hmem)
  · rintro (⟨rfl, rfl⟩ | ⟨hne, before, after, rfl, hafter⟩)
    · exact ⟨rows, [], rfl, by simp⟩
    · refine ⟨before, after ++ [(j, w)], by simp, ?_⟩
      simpa [or_imp, forall_and, hne] using hafter

theorem last_iff_mem (hkeys : (rows.map (·.1)).Nodup) : Last rows k v ↔ (k, v) ∈ rows := by
  constructor
  · rintro ⟨before, after, rfl, -⟩
    simp
  · intro hmem
    obtain ⟨before, after, rfl⟩ := List.append_of_mem hmem
    refine ⟨before, after, rfl, ?_⟩
    rw [List.map_append, List.map_cons] at hkeys
    rintro row hrow rfl
    exact (List.nodup_cons.mp hkeys.of_append_right).1 (List.mem_map.mpr ⟨row, hrow, rfl⟩)

variable [LT κ] [DecidableEq κ] [LE κ] [DecidableLT κ] [Std.IsLinearOrder κ] [Std.LawfulOrderLT κ]

/-- Of rows with one key the last stays. -/
theorem find?_ofList_eq_some_iff : (ofList rows).find? k = some v ↔ Last rows k v := by
  -- From the end: the row inserted last hides those of its key before it.
  induction rows using List.reverseRecOn with
  | nil => simp [ofList, not_last_nil]
  | append_singleton rows row ih =>
      rw [ofList, List.foldl_append, List.foldl_cons, List.foldl_nil, find?_insert,
        last_concat_iff, ← ih, ofList]
      split_ifs with hkey <;> simp [hkey]

theorem ofList_rows [Std.Irrefl (α := κ) (· < ·)] [Std.Asymm (α := κ) (· < ·)] (t : Table κ ν) :
    ofList t.rows = t := by
  have hkeys : (t.rows.map (·.1)).Nodup := (List.pairwise_map.mpr t.ascending).nodup
  refine ext_find? fun k => Option.ext fun v => ?_
  rw [find?_ofList_eq_some_iff, last_iff_mem hkeys, find?_eq_some_iff]

end Last

end Rollout.Table
