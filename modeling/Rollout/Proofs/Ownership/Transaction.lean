import Rollout.Proofs.Ownership
import Rollout.Proofs.Transaction

/-!
# Transactions of one owner

A transaction of an owner looks up and writes only rows of this owner. Run on two stores with the
same rows of the owner, it ends in the same way and leaves the same rows of the owner, and in
neither does it touch a row of anybody else. Only a walk over a whole table can tell the two stores
apart, when it meets a row without a record in one of them and would meet none in the other.
-/

namespace Rollout

namespace Store

variable {σ : Type}

/-- What a transaction of this owner may have made of a store. -/
structure Within (o : Owners σ) (x : σ) (before after : Store) : Prop where
  origin : before.Divided o
  divided : after.Divided o
  rest : ∀ y, y ≠ x → Same o y before after

/-- Two working copies, each of its own store, in which the owner's rows are the same. -/
structure Alike (o : Owners σ) (x : σ) (u v s t : Store) : Prop where
  left : Within o x u s
  right : Within o x v t
  same : Same o x s t

variable {o : Owners σ} {x : σ} {u v s t : Store}

theorem Within.refl (h : s.Divided o) : Within o x s s := ⟨h, h, fun y _ => Same.refl o y s⟩

theorem Alike.refl (hs : s.Divided o) (ht : t.Divided o) (h : Same o x s t) :
    Alike o x s t s t := ⟨.refl hs, .refl ht, h⟩

section Rows

variable {ρ : Type} [Tabled ρ] [Ownable ρ] [LawfulOwnable ρ]

theorem Within.put (h : Within o x u s) {r : ρ}
    (howner : Ownable.owner ρ o (Record.guid r) = some x) (hr : Ownable.Belongs o x r) :
    Within o x u (s.put r) where
  origin := h.origin
  divided := h.divided.put howner hr
  rest y hy := (h.rest y hy).trans (same_put s howner hy)

theorem Within.drop (h : Within o x u s) {key : Guid}
    (howner : Ownable.owner ρ o key = some x) : Within o x u (s.drop ρ key) where
  origin := h.origin
  divided := h.divided.drop key
  rest y hy := (h.rest y hy).trans (same_drop s howner hy)

theorem Alike.put (h : Alike o x u v s t) {r : ρ}
    (howner : Ownable.owner ρ o (Record.guid r) = some x) (hr : Ownable.Belongs o x r) :
    Alike o x u v (s.put r) (t.put r) :=
  ⟨h.left.put howner hr, h.right.put howner hr, h.same.put r⟩

theorem Alike.drop (h : Alike o x u v s t) {key : Guid}
    (howner : Ownable.owner ρ o key = some x) :
    Alike o x u v (s.drop ρ key) (t.drop ρ key) :=
  ⟨h.left.drop howner, h.right.drop howner, h.same.drop key⟩

private theorem readableBeyond_of_within (h : Within o x u s) :
    ReadableBeyond ρ o x u ↔ ReadableBeyond ρ o x s := by
  have hrow : ∀ key, Ownable.owner ρ o key ≠ some x →
      (Tabled.rows ρ u).find? key = (Tabled.rows ρ s).find? key := by
    intro key hkey
    cases howner : Ownable.owner ρ o key with
    | none =>
        rw [(LawfulOwnable.rows_divided h.origin).vacant key howner,
          (LawfulOwnable.rows_divided h.divided).vacant key howner]
    | some y =>
        have hne : y ≠ x := by
          rintro rfl
          exact hkey howner
        exact LawfulOwnable.rows_same (h.rest y hne) key howner
  refine forall_congr' fun key => forall_congr' fun bytes => forall_congr' fun hkey => ?_
  rw [hrow key hkey]

end Rows
end Store

namespace Transaction

open Store

variable {σ α β : Type}

/-- A transaction of this owner, on working copies of two stores: it ends in the same way and the
copies stay alike, or it comes to a row without a record, which one of the two conditions excuses,
the first one in the first copy and the second one in the second. -/
def Local (o : Owners σ) (x : σ) (u v : Store) (left right : Prop) (q : Transaction α)
    (post : α → Prop) : Prop :=
  ∀ s t, Alike o x u v s t →
    (∃ r s' t', q s = (r, s') ∧ q t = (r, t') ∧ Alike o x u v s' t' ∧ ∀ a, r = .ok a → post a) ∨
      (left ∧ ∃ s', q s = (.error .notARecord, s')) ∨
      (right ∧ ∃ t', q t = (.error .notARecord, t'))

variable {o : Owners σ} {x : σ} {u v : Store} {left right : Prop}

namespace Local

theorem bind {q : Transaction α} {f : α → Transaction β} {mid : α → Prop} {post : β → Prop}
    (hq : Local o x u v left right q mid)
    (hf : ∀ a, mid a → Local o x u v left right (f a) post) :
    Local o x u v left right (q >>= f) post := by
  intro s t h
  rcases hq s t h with ⟨r, s', t', hs, ht, h', hmid⟩ | ⟨hl, s', hs⟩ | ⟨hr, t', ht⟩
  · cases r with
    | error e =>
        refine .inl ⟨.error e, s', t', bind_of_error hs, bind_of_error ht, h', ?_⟩
        intro b hb
        cases hb
    | ok a =>
        rw [bind_of_ok hs, bind_of_ok ht]
        exact hf a (hmid a rfl) s' t' h'
  · exact .inr (.inl ⟨hl, s', bind_of_error hs⟩)
  · exact .inr (.inr ⟨hr, t', bind_of_error ht⟩)

theorem pure {a : α} {post : α → Prop} (h : post a) :
    Local o x u v left right (Pure.pure a : Transaction α) post := by
  intro s t hst
  refine .inl ⟨.ok a, s, t, rfl, rfl, hst, ?_⟩
  intro b hb
  cases hb
  exact h

theorem throw (e : StoreError) (post : α → Prop) :
    Local o x u v left right (MonadExcept.throw e : Transaction α) post := by
  intro s t hst
  refine .inl ⟨.error e, s, t, rfl, rfl, hst, ?_⟩
  intro b hb
  cases hb

theorem expect (holds : Bool) (reason : Conflict) :
    Local o x u v left right (Transaction.expect holds reason) fun _ => holds = true := by
  cases holds with
  | true => exact .pure rfl
  | false => exact .throw _ _

section Rows

variable {ρ : Type} [Tabled ρ] [Ownable ρ] [LawfulOwnable ρ] {key : Guid} {r : ρ}

theorem lookup (hkey : Ownable.owner ρ o key = some x ∨ Ownable.owner ρ o key = none) :
    Local o x u v left right (Transaction.lookup ρ key) fun found =>
      ∀ r, found = some r → Ownable.Belongs o x r := by
  intro s t hst
  have hsame := get?_eq_of_same hst.left.divided hst.right.divided hst.same hkey
  refine .inl ⟨s.get? ρ key, s, t, rfl, ?_, hst, ?_⟩
  · rw [hsame]
    rfl
  · rintro _ hfound r rfl
    exact belongs_of_get? hst.left.divided hkey hfound

theorem require (hkey : Ownable.owner ρ o key = some x ∨ Ownable.owner ρ o key = none) :
    Local o x u v left right (Transaction.require ρ key) (Ownable.Belongs o x) := by
  apply bind (lookup hkey)
  intro found hfound
  cases found with
  | none => exact .throw _ _
  | some r => exact .pure (hfound r rfl)

theorem put (howner : Ownable.owner ρ o (Record.guid r) = some x) (hr : Ownable.Belongs o x r) :
    Local o x u v left right (Transaction.put r) fun _ => True := by
  intro s t hst
  exact .inl ⟨.ok (), s.put r, t.put r, rfl, rfl, hst.put howner hr, fun _ _ => trivial⟩

theorem drop (howner : Ownable.owner ρ o key = some x) :
    Local o x u v left right (Transaction.drop ρ key) fun _ => True := by
  intro s t hst
  exact .inl ⟨.ok (), s.drop ρ key, t.drop ρ key, rfl, rfl, hst.drop howner, fun _ _ => trivial⟩

theorem select {keep : ρ → Bool} (hkeep : ∀ y r, Ownable.Belongs o y r → keep r = true → y = x)
    (hleft : ¬ ReadableBeyond ρ o x u → ReadableBeyond ρ o x v → left)
    (hright : ReadableBeyond ρ o x u → ¬ ReadableBeyond ρ o x v → right) :
    Local o x u v left right (Transaction.select keep) fun found =>
      ∀ r ∈ found, Ownable.Belongs o x r := by
  intro s t hst
  have hs := readableBeyond_of_within (ρ := ρ) hst.left
  have ht := readableBeyond_of_within (ρ := ρ) hst.right
  by_cases hread : ReadableBeyond ρ o x s ↔ ReadableBeyond ρ o x t
  · have hsame := select_eq_of_same hst.left.divided hst.right.divided hst.same hread hkeep
    refine .inl ⟨s.select keep, s, t, rfl, ?_, hst, ?_⟩
    · rw [hsame]
      rfl
    · intro found hfound
      exact belongs_of_select hst.left.divided hkeep hfound
  · refine .inr ?_
    have hfails : ∀ {w : Store}, ¬ ReadableBeyond ρ o x w →
        ∃ w', Transaction.select keep w = (.error .notARecord, w') := by
      intro w hw
      have hreadable : ¬ (Tabled.rows ρ w).Readable ρ := fun h => hw fun key bytes _ => h key bytes
      refine ⟨w, ?_⟩
      rw [Transaction.select, select_of_not_readable hreadable]
    by_cases hreads : ReadableBeyond ρ o x s
    · have hreadt : ¬ ReadableBeyond ρ o x t := fun h => hread ⟨fun _ => h, fun _ => hreads⟩
      exact .inr ⟨hright (hs.mpr hreads) (mt ht.mp hreadt), hfails hreadt⟩
    · have hreadt : ReadableBeyond ρ o x t := by
        by_contra h
        exact hread ⟨fun h' => absurd h' hreads, fun h' => absurd h' h⟩
      exact .inl ⟨hleft (mt hs.mp hreads) (ht.mpr hreadt), hfails hreads⟩

theorem forM_put {write : ρ → ρ} {rs : List ρ}
    (h : ∀ r ∈ rs, Ownable.owner ρ o (Record.guid (write r)) = some x ∧
      Ownable.Belongs o x (write r)) :
    Local o x u v left right (rs.forM fun r => Transaction.put (write r)) fun _ => True := by
  induction rs with
  | nil => exact .pure trivial
  | cons r rs ih =>
      obtain ⟨howner, hr⟩ := h r List.mem_cons_self
      apply bind (put howner hr)
      intro _ _
      exact ih fun r' hr' => h r' (List.mem_cons_of_mem r hr')

end Rows
end Local
end Transaction
end Rollout
