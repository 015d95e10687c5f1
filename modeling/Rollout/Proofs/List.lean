import Mathlib.Data.List.Nodup
import Mathlib.Data.List.TakeWhile

/-!
# Lists

Facts about lists that mention nothing of the project: longest runs, places, and maps that may
fail.
-/

namespace List

variable {α β : Type}

/-- The longest run of elements of a class, and what is behind it. -/
theorem takeWhile_drop_iff {p : α → Bool} {as run rest : List α} :
    as.takeWhile p = run ∧ as.drop run.length = rest ↔
      as = run ++ rest ∧ (∀ a ∈ run, p a = true) ∧ ∀ a ∈ rest.head?, p a = false := by
  constructor
  · rintro ⟨rfl, hrest⟩
    have happend := takeWhile_append_dropWhile (p := p) (l := as)
    have hdrop : as.dropWhile p = rest :=
      calc as.dropWhile p
          = (as.takeWhile p ++ as.dropWhile p).drop (as.takeWhile p).length := drop_left.symm
        _ = rest := by rw [happend, hrest]
    rw [hdrop] at happend
    refine ⟨happend.symm, fun a ha => mem_takeWhile_imp ha, fun a ha => ?_⟩
    have hhead := head?_dropWhile_not p as
    rw [hdrop, Option.mem_def.mp ha] at hhead
    exact hhead
  · rintro ⟨rfl, hrun, hrest⟩
    have hstop : rest.takeWhile p = [] := by
      cases rest with
      | nil => rfl
      | cons a rest => rw [takeWhile_cons, hrest a rfl]; rfl
    exact ⟨by rw [takeWhile_append_of_pos hrun, hstop, append_nil], drop_left⟩

theorem run_unique {p : α → Bool} {run run' rest rest' : List α}
    (h : run ++ rest = run' ++ rest') (hrun : ∀ a ∈ run, p a = true)
    (hrest : ∀ a ∈ rest.head?, p a = false) (hrun' : ∀ a ∈ run', p a = true)
    (hrest' : ∀ a ∈ rest'.head?, p a = false) : run = run' ∧ rest = rest' := by
  obtain ⟨htake, -⟩ := takeWhile_drop_iff.mpr ⟨rfl, hrun, hrest⟩
  obtain ⟨htake', -⟩ := takeWhile_drop_iff.mpr ⟨rfl, hrun', hrest'⟩
  have hruns : run = run' := by rw [← htake, h, htake']
  rw [hruns] at h
  exact ⟨hruns, append_cancel_left h⟩

theorem takeWhile_ne_append [DecidableEq α] {mark : α} {run rest : List α} (hrun : mark ∉ run)
    (hrest : ∀ a ∈ rest.head?, a = mark) : (run ++ rest).takeWhile (· ≠ mark) = run := by
  refine (takeWhile_drop_iff.mpr ⟨rfl, fun a ha => ?_, fun a ha => ?_⟩).1
  · exact decide_eq_true fun heq => hrun (heq ▸ ha)
  · exact decide_eq_false fun hne => hne (hrest a ha)

theorem getElem?_concat_eq_some {as : List α} {a b : α} {i : Nat}
    (h : (as ++ [a])[i]? = some b) : i < as.length ∧ as[i]? = some b ∨ i = as.length ∧ a = b := by
  rcases Nat.lt_trichotomy i as.length with hlt | rfl | hgt
  · rw [getElem?_append_left hlt] at h
    exact .inl ⟨hlt, h⟩
  · rw [getElem?_concat_length, Option.some.injEq] at h
    exact .inr ⟨rfl, h⟩
  · have hnone : (as ++ [a])[i]? = none := by
      rw [getElem?_eq_none_iff, length_append]
      exact hgt
    rw [hnone] at h
    cases h

/-- In an ascending list as many elements are smaller as stand before. -/
theorem countP_lt_of_ascending [LT α] [DecidableLT α] [Std.Irrefl (α := α) (· < ·)]
    [Std.Asymm (α := α) (· < ·)] {before after : List α} {a : α}
    (h : (before ++ a :: after).Pairwise (· < ·)) :
    (before ++ a :: after).countP (· < a) = before.length := by
  obtain ⟨_, hafter, hbefore⟩ := pairwise_append.mp h
  have hall : before.countP (· < a) = before.length := by
    rw [countP_eq_length]
    exact fun b hb => decide_eq_true (hbefore b hb a mem_cons_self)
  have hnone : (a :: after).countP (· < a) = 0 := by
    rw [countP_eq_zero]
    intro b hb
    rw [decide_eq_true_iff]
    rcases mem_cons.mp hb with rfl | hb
    · exact Std.Irrefl.irrefl b
    · exact Std.Asymm.asymm a b ((pairwise_cons.mp hafter).1 b hb)
  rw [countP_append, hall, hnone, Nat.add_zero]

theorem mapM_eq_some_iff {f : α → Option β} {as : List α} {bs : List β} :
    as.mapM f = some bs ↔ as.map f = bs.map some := by
  induction as generalizing bs with
  | nil => cases bs <;> simp
  | cons a as ih =>
      cases bs with
      | nil => simp [mapM_cons, Option.bind_eq_some_iff]
      | cons b bs =>
          simp only [mapM_cons, map_cons, cons.injEq, ← ih, Option.bind_eq_bind,
            Option.bind_eq_some_iff, Option.pure_def, Option.some.injEq]
          constructor
          · rintro ⟨_, hb, _, hbs, rfl, rfl⟩
            exact ⟨hb, hbs⟩
          · rintro ⟨hb, hbs⟩
            exact ⟨b, hb, bs, hbs, rfl, rfl⟩

end List
