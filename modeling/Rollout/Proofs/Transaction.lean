import Rollout.Edit.Transaction
import Rollout.Proofs.Store
import Mathlib.Data.List.Basic

/-!
# How transactions end

Two transactions in a row succeed when each does, the second one on the working copy that the
first one leaves. On a store in good order a read fails only for a key without a record, so that
every transaction can be taken apart into the records it found and the records it wrote.
-/

namespace Rollout
namespace Transaction

section Sequence

variable {α β : Type} {s s' : Store} {e : StoreError}

-- The two sides are pairs in the identity monad, where injectivity of pairs does not fire.
private theorem pair_eq {r r' : Except StoreError α} :
    @Eq (Id (Except StoreError α × Store)) (r, s) (r', s') ↔ r = r' ∧ s = s' :=
  Prod.mk.injEq .. ▸ Iff.rfl

theorem ok_unique {x : Transaction α} {a b : α} {t : Store} (ha : x s = (.ok a, s'))
    (hb : x s = (.ok b, t)) : a = b ∧ s' = t := by
  have h := ha.symm.trans hb
  simpa [pair_eq] using h

private theorem bind_apply (x : Transaction α) (f : α → Transaction β) (s : Store) :
    (x >>= f) s = match x s with
      | (.ok a, working) => f a working
      | (.error e, working) => (.error e, working) := by
  change StateT.bind x (ExceptT.bindCont f) s = _
  rw [StateT.bind]
  rcases x s with ⟨result, working⟩
  cases result <;> rfl

theorem bind_of_ok {x : Transaction α} {f : α → Transaction β} {a : α} (h : x s = (.ok a, s')) :
    (x >>= f) s = f a s' := by
  rw [bind_apply, h]

theorem bind_of_error {x : Transaction α} {f : α → Transaction β} (h : x s = (.error e, s')) :
    (x >>= f) s = (.error e, s') := by
  rw [bind_apply, h]

theorem bind_ok {x : Transaction α} {f : α → Transaction β} {b : β} :
    (x >>= f) s = (.ok b, s') ↔ ∃ a working, x s = (.ok a, working) ∧ f a working = (.ok b, s') := by
  rw [bind_apply]
  rcases x s with ⟨_ | a, working⟩ <;> simp [pair_eq]

theorem bind_error {x : Transaction α} {f : α → Transaction β} :
    (x >>= f) s = (.error e, s') ↔
      x s = (.error e, s') ∨ ∃ a working, x s = (.ok a, working) ∧ f a working = (.error e, s') := by
  rw [bind_apply]
  rcases x s with ⟨_ | a, working⟩ <;> simp [pair_eq]

theorem pure_ok {a b : α} : (pure a : Transaction α) s = (.ok b, s') ↔ a = b ∧ s = s' := by
  change (Except.ok a, s) = (Except.ok b, s') ↔ _
  simp

theorem pure_error {a : α} : ¬ (pure a : Transaction α) s = (.error e, s') := by
  intro h
  cases h

theorem throw_ok {reason : StoreError} {a : α} :
    ¬ (throw reason : Transaction α) s = (.ok a, s') := by
  intro h
  cases h

theorem throw_error {reason : StoreError} :
    (throw reason : Transaction α) s = (.error e, s') ↔ reason = e ∧ s = s' := by
  change (Except.error reason, s) = (Except.error e, s') ↔ _
  simp

end Sequence

section Access

variable {ρ : Type} [Tabled ρ] {s s' : Store} {e : StoreError} {holds : Bool} {reason : Conflict}

theorem expect_ok {u : Unit} : expect holds reason s = (.ok u, s') ↔ holds = true ∧ s = s' := by
  cases holds
  · simp [expect, throw_ok]
  · simp [expect, pure_ok]

theorem expect_error :
    expect holds reason s = (.error e, s') ↔ holds = false ∧ e = .conflict reason ∧ s = s' := by
  cases holds
  · rw [expect, if_neg Bool.false_ne_true, throw_error, eq_comm]
    simp
  · simp [expect, pure_error]

theorem put_ok {r : ρ} {u : Unit} : put r s = (.ok u, s') ↔ s.put r = s' := by
  simp [put, pair_eq]

theorem put_error {r : ρ} : ¬ put r s = (.error e, s') := by
  intro h
  cases h

theorem drop_ok {key : Guid} {u : Unit} : drop ρ key s = (.ok u, s') ↔ s.drop ρ key = s' := by
  simp [drop, pair_eq]

theorem drop_error {key : Guid} : ¬ drop ρ key s = (.error e, s') := by
  intro h
  cases h

variable [LawfulTabled ρ]

theorem lookup_ok (hs : s.Keyed) {key : Guid} {found : Option ρ} :
    lookup ρ key s = (.ok found, s') ↔ (Tabled.rows ρ s).record ρ key = found ∧ s = s' := by
  simp [lookup, Store.get?_eq hs, pair_eq]

theorem lookup_error (hs : s.Keyed) {key : Guid} : ¬ lookup ρ key s = (.error e, s') := by
  simp [lookup, Store.get?_eq hs, pair_eq]

theorem require_ok (hs : s.Keyed) {key : Guid} {r : ρ} :
    require ρ key s = (.ok r, s') ↔ (Tabled.rows ρ s).record ρ key = some r ∧ s = s' := by
  rw [require, bind_ok]
  constructor
  · rintro ⟨found, working, hl, hf⟩
    obtain ⟨hrec, rfl⟩ := (lookup_ok hs).mp hl
    cases found with
    | none => exact absurd hf throw_ok
    | some r' =>
        obtain ⟨rfl, rfl⟩ := pure_ok.mp hf
        exact ⟨hrec, rfl⟩
  · rintro ⟨hrec, rfl⟩
    exact ⟨some r, s, (lookup_ok hs).mpr ⟨hrec, rfl⟩, pure_ok.mpr ⟨rfl, rfl⟩⟩

theorem require_error (hs : s.Keyed) {key : Guid} :
    require ρ key s = (.error e, s') ↔
      (Tabled.rows ρ s).record ρ key = none ∧ e = .missing key ∧ s = s' := by
  rw [require, bind_error]
  constructor
  · rintro (hl | ⟨found, working, hl, hf⟩)
    · exact absurd hl (lookup_error hs)
    · obtain ⟨hrec, rfl⟩ := (lookup_ok hs).mp hl
      cases found with
      | some r => exact absurd hf pure_error
      | none =>
          obtain ⟨rfl, rfl⟩ := throw_error.mp hf
          exact ⟨hrec, rfl, rfl⟩
  · rintro ⟨hrec, rfl, rfl⟩
    exact .inr ⟨none, s, (lookup_ok hs).mpr ⟨hrec, rfl⟩, throw_error.mpr ⟨rfl, rfl⟩⟩

theorem select_ok (hs : s.Keyed) {keep : ρ → Bool} {found : List ρ} :
    select keep s = (.ok found, s') ↔
      ((Tabled.rows ρ s).records ρ).filter keep = found ∧ s = s' := by
  simp [select, Store.select_eq hs, pair_eq]

theorem select_error (hs : s.Keyed) {keep : ρ → Bool} : ¬ select keep s = (.error e, s') := by
  simp [select, Store.select_eq hs, pair_eq]

end Access

section Many

variable {ρ : Type} [Tabled ρ] {s s' : Store} {e : StoreError} {write : ρ → ρ} {rs : List ρ}

theorem forM_put {s : Store} :
    (rs.forM fun r => put (write r)) s = (.ok (), (rs.map write).foldl Store.put s) := by
  induction rs generalizing s with
  | nil => rfl
  | cons r rs ih =>
      exact bind_ok.mpr ⟨(), s.put (write r), put_ok.mpr rfl, ih⟩

theorem forM_put_ok {u : Unit} :
    (rs.forM fun r => put (write r)) s = (.ok u, s') ↔ (rs.map write).foldl Store.put s = s' := by
  simp [forM_put, pair_eq]

theorem forM_put_error : ¬ (rs.forM fun r => put (write r)) s = (.error e, s') := by
  simp [forM_put, pair_eq]

end Many

/-- The transaction ends well on this store. -/
def Succeeds {α : Type} (x : Transaction α) (s : Store) : Prop := ∃ a s', x s = (.ok a, s')

theorem Succeeds.bind {α β : Type} {x : Transaction α} {f : α → Transaction β}
    {s working : Store} {a : α} (hx : x s = (.ok a, working)) (hf : Succeeds (f a) working) :
    Succeeds (x >>= f) s := by
  obtain ⟨b, s', hb⟩ := hf
  exact ⟨b, s', bind_ok.mpr ⟨a, working, hx, hb⟩⟩

theorem succeeds_pure {α : Type} (a : α) {s : Store} : Succeeds (pure a) s :=
  ⟨a, s, pure_ok.mpr ⟨rfl, rfl⟩⟩

/-- Whatever error the transaction ends in on this store, it is a conflict. -/
def FailsInConflict {α : Type} (x : Transaction α) (s : Store) : Prop :=
  ∀ e s', x s = (.error e, s') → ∃ reason, e = .conflict reason

theorem FailsInConflict.bind {α β : Type} {x : Transaction α} {f : α → Transaction β} {s : Store}
    (hx : FailsInConflict x s)
    (hf : ∀ a working, x s = (.ok a, working) → FailsInConflict (f a) working) :
    FailsInConflict (x >>= f) s := by
  intro e s' h
  rcases bind_error.mp h with h | ⟨a, working, ha, h⟩
  · exact hx e s' h
  · exact hf a working ha e s' h

section FailsInConflict

variable {ρ : Type} [Tabled ρ] {s : Store}

theorem failsInConflict_of_ok {α : Type} {x : Transaction α} {a : α} {s' : Store}
    (h : x s = (.ok a, s')) : FailsInConflict x s := by
  intro e t he
  have hcontra := h.symm.trans he
  simp [pair_eq] at hcontra

theorem failsInConflict_pure {α : Type} (a : α) : FailsInConflict (pure a) s :=
  fun _ _ h => absurd h pure_error

theorem failsInConflict_expect (holds : Bool) (reason : Conflict) :
    FailsInConflict (expect holds reason) s :=
  fun _ _ h => ⟨reason, (expect_error.mp h).2.1⟩

theorem failsInConflict_put (r : ρ) : FailsInConflict (put r) s := fun _ _ h => absurd h put_error

theorem failsInConflict_drop (key : Guid) : FailsInConflict (drop ρ key) s :=
  fun _ _ h => absurd h drop_error

theorem failsInConflict_forM_put {write : ρ → ρ} {rs : List ρ} :
    FailsInConflict (rs.forM fun r => put (write r)) s :=
  fun _ _ h => absurd h forM_put_error

theorem failsInConflict_select [LawfulTabled ρ] (hs : s.Keyed) (keep : ρ → Bool) :
    FailsInConflict (select keep) s :=
  fun _ _ h => absurd h (select_error hs)

theorem failsInConflict_require [LawfulTabled ρ] (hs : s.Keyed) {key : Guid} {r : ρ}
    (hr : Rows.record ρ (Tabled.rows ρ s) key = some r) : FailsInConflict (require ρ key) s := by
  intro e s' h
  rw [require_error hs, hr] at h
  cases h.1

end FailsInConflict
end Transaction

namespace Store

variable {α : Type} {s s' : Store} {t : Transaction α}

theorem commit_ok {a : α} : s.commit t = (.ok a, s') ↔ t s = (.ok a, s') := by
  rw [commit]
  rcases t s with ⟨_ | b, working⟩ <;> simp [Transaction.pair_eq]

theorem commit_error {e : StoreError} :
    s.commit t = (.error e, s') ↔ (∃ working, t s = (.error e, working)) ∧ s = s' := by
  rw [commit]
  rcases t s with ⟨_ | b, working⟩ <;> simp [Transaction.pair_eq]

end Store
end Rollout
