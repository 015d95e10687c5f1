/-!
# Tables in key order

A table keeps at most one row for a key, and its rows in ascending order of keys, so a walk over
it needs no sorting and two tables with the same rows are equal. Inserting replaces the row of a
key, erasing drops it, and neither touches the row of another key.
-/

namespace Rollout

variable {κ ν : Type}

/-- Rows in strictly ascending order of keys. -/
abbrev Ascending [LT κ] (rows : List (κ × ν)) : Prop := rows.Pairwise (fun a b => a.1 < b.1)

structure Table (κ ν : Type) [LT κ] where
  rows : List (κ × ν)
  ascending : Ascending rows

namespace Table

section Rows

variable [LT κ] [DecidableEq κ]

/-- Puts a row in its place; a row with its key is replaced. -/
def insertRow [DecidableLT κ] (k : κ) (v : ν) : List (κ × ν) → List (κ × ν)
  | [] => [(k, v)]
  | (j, w) :: rest =>
    if k < j then (k, v) :: (j, w) :: rest
    else if j = k then (k, v) :: rest
    else (j, w) :: insertRow k v rest

def findRow? (k : κ) : List (κ × ν) → Option ν
  | [] => none
  | (j, w) :: rest => if j = k then some w else findRow? k rest

theorem mem_insertRow [DecidableLT κ] {k : κ} {v : ν} {rows : List (κ × ν)} {row : κ × ν}
    (h : row ∈ insertRow k v rows) : row = (k, v) ∨ row ∈ rows := by
  induction rows with
  | nil => simpa [insertRow] using h
  | cons r rest ih =>
    obtain ⟨j, w⟩ := r
    simp only [insertRow] at h
    split at h
    · simpa using h
    · split at h
      · rcases List.mem_cons.1 h with rfl | h
        · exact .inl rfl
        · exact .inr (List.mem_cons_of_mem _ h)
      · rcases List.mem_cons.1 h with rfl | h
        · exact .inr List.mem_cons_self
        · exact (ih h).imp_right (List.mem_cons_of_mem _)

theorem ascending_insertRow [LE κ] [DecidableLT κ] [Std.IsLinearOrder κ]
    [Std.LawfulOrderLT κ] (k : κ) (v : ν) {rows : List (κ × ν)} (h : Ascending rows) :
    Ascending (insertRow k v rows) := by
  induction rows with
  | nil => simp [insertRow]
  | cons r rest ih =>
    obtain ⟨j, w⟩ := r
    obtain ⟨hj, hrest⟩ := List.pairwise_cons.1 h
    simp only [insertRow]
    split
    next hk =>
      refine List.pairwise_cons.2 ⟨fun row hrow => ?_, h⟩
      rcases List.mem_cons.1 hrow with rfl | hrow
      · exact hk
      · exact Std.lt_trans hk (hj row hrow)
    next hk =>
      split
      next hjk => exact List.pairwise_cons.2 ⟨fun row hrow => hjk ▸ hj row hrow, hrest⟩
      next hjk =>
        refine List.pairwise_cons.2 ⟨fun row hrow => ?_, ih hrest⟩
        rcases mem_insertRow hrow with rfl | hrow
        · rcases Std.lt_trichotomy j k with h | h | h
          · exact h
          · exact absurd h hjk
          · exact absurd h hk
        · exact hj row hrow

end Rows

variable [LT κ]

def empty : Table κ ν := ⟨[], List.Pairwise.nil⟩

instance : EmptyCollection (Table κ ν) := ⟨empty⟩

instance : Inhabited (Table κ ν) := ⟨empty⟩

def keys (t : Table κ ν) : List κ := t.rows.map (·.1)

def values (t : Table κ ν) : List ν := t.rows.map (·.2)

def size (t : Table κ ν) : Nat := t.rows.length

variable [DecidableEq κ]

instance [DecidableEq ν] : DecidableEq (Table κ ν) := fun s t =>
  decidable_of_iff (s.rows = t.rows) ⟨fun h => by cases s; cases t; simp_all, fun h => h ▸ rfl⟩

def find? (t : Table κ ν) (k : κ) : Option ν := findRow? k t.rows

def insert [LE κ] [DecidableLT κ] [Std.IsLinearOrder κ] [Std.LawfulOrderLT κ] (t : Table κ ν)
    (k : κ) (v : ν) : Table κ ν :=
  ⟨insertRow k v t.rows, ascending_insertRow k v t.ascending⟩

def erase (t : Table κ ν) (k : κ) : Table κ ν :=
  ⟨t.rows.filter (·.1 != k), t.ascending.filter _⟩

/-- The table of these rows; of rows with one key the last stays. -/
def ofList [LE κ] [DecidableLT κ] [Std.IsLinearOrder κ] [Std.LawfulOrderLT κ]
    (rows : List (κ × ν)) : Table κ ν :=
  rows.foldl (fun t (k, v) => t.insert k v) empty

@[simp] theorem findRow?_insertRow [DecidableLT κ] (j k : κ) (v : ν) (rows : List (κ × ν)) :
    findRow? j (insertRow k v rows) = if k = j then some v else findRow? j rows := by
  induction rows with
  | nil => simp [insertRow, findRow?]
  | cons r rest ih =>
    obtain ⟨i, w⟩ := r
    simp only [insertRow]
    split
    · simp [findRow?]
    · split
      next hik => subst hik; by_cases hij : i = j <;> simp [findRow?, hij]
      next hik =>
        simp only [findRow?, ih]
        by_cases hij : i = j
        · subst hij; simp [Ne.symm hik]
        · simp [hij]

@[simp] theorem find?_insert [LE κ] [DecidableLT κ] [Std.IsLinearOrder κ]
    [Std.LawfulOrderLT κ] (t : Table κ ν) (j k : κ) (v : ν) :
    (t.insert k v).find? j = if k = j then some v else t.find? j :=
  findRow?_insertRow j k v t.rows

@[simp] theorem find?_erase (t : Table κ ν) (j k : κ) :
    (t.erase k).find? j = if k = j then none else t.find? j := by
  simp only [find?, erase]
  induction t.rows with
  | nil => simp [findRow?]
  | cons r rest ih =>
    obtain ⟨i, w⟩ := r
    by_cases hik : i = k
    · subst hik
      by_cases hij : i = j
      · subst hij; simpa [findRow?] using ih
      · simpa [findRow?, hij] using ih
    · by_cases hij : i = j
      · subst hij; simp [findRow?, hik, Ne.symm hik]
      · simpa [findRow?, hik, hij] using ih

@[simp] theorem find?_empty (k : κ) : (empty : Table κ ν).find? k = none := rfl

end Table
end Rollout
