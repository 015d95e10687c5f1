import Rollout.Proofs.Store

/-!
# Whose records these are

The keys of a store are divided among owners, such as the apps. A store respects the division when
every record is under a key of its owner, under its own key or one of the same owner, and names
only processes of its owner or keys that no process has. A row without a record names nothing, so a
broken row never offends. What one owner writes leaves the rows of every other one as they were.
-/

namespace Rollout

/-- Whose the keys of a store are. A key may be no owner's as the key of a process: then it has no
row among the processes. -/
structure Owners (σ : Type) where
  app : Guid → σ
  process : Guid → Option σ
  deployment : Guid → σ
  route : Guid → σ

namespace Owners

variable {σ : Type}

/-- A key that the records of this owner may name. -/
def MayName (o : Owners σ) (x : σ) (key : Guid) : Prop :=
  o.process key = some x ∨ o.process key = none

/-- A deployment of this owner, with all that it names. -/
structure Deploys (o : Owners σ) (x : σ) (d : Deployment) : Prop where
  guid : o.deployment d.guid = x
  app : o.app d.app = x
  webish : ∀ key, d.webish = some key → o.MayName x key
  stopped : ∀ key ∈ d.stopped, o.MayName x key

end Owners

/-- A kind of record whose keys have owners. -/
class Ownable (ρ : Type) [Tabled ρ] where
  owner {σ : Type} : Owners σ → Guid → Option σ
  Belongs {σ : Type} : Owners σ → σ → ρ → Prop

instance : Ownable App where
  owner o key := some (o.app key)
  Belongs o x a := o.app a.guid = x ∧ ∀ web, a.web = some web → o.MayName x web

instance : Ownable AppProcess where
  owner o key := o.process key
  Belongs o x p := o.process p.guid = some x ∧ o.app p.app = x

/-- Of a deployment that is over nothing is asked, since no edit follows what it names. -/
instance : Ownable Deployment where
  owner o key := some (o.deployment key)
  Belongs o x d := d.state = .deploying → o.Deploys x d

instance : Ownable Route where
  owner o key := some (o.route key)
  Belongs o x r := o.route r.guid = x ∧ o.MayName x r.process

theorem Owners.MayName.owner {σ : Type} {o : Owners σ} {x : σ} {key : Guid}
    (h : o.MayName x key) :
    Ownable.owner AppProcess o key = some x ∨ Ownable.owner AppProcess o key = none := h

/-- The rows of a table respect the division of keys. -/
structure OwnedRows (ρ : Type) [Tabled ρ] [Ownable ρ] {σ : Type} (o : Owners σ) (t : Rows) :
    Prop where
  vacant : ∀ key, Ownable.owner ρ o key = none → t.find? key = none
  belongs : ∀ key (r : ρ), t.record ρ key = some r →
    ∃ x, Ownable.owner ρ o key = some x ∧ Ownable.Belongs o x r

/-- Two tables hold the same rows under the keys of an owner. -/
def SameRows (ρ : Type) [Tabled ρ] [Ownable ρ] {σ : Type} (o : Owners σ) (x : σ) (t u : Rows) :
    Prop :=
  ∀ key, Ownable.owner ρ o key = some x → t.find? key = u.find? key

/-- Under the keys that are not this owner's, every row of the table holds a record. -/
def ReadableBeyond (ρ : Type) [Tabled ρ] [Ownable ρ] {σ : Type} (o : Owners σ) (x : σ)
    (s : Store) : Prop :=
  ∀ key bytes, Ownable.owner ρ o key ≠ some x → (Tabled.rows ρ s).find? key = some bytes →
    ∃ r : ρ, Record.decode? bytes = some r

section Rows

variable {ρ : Type} [Tabled ρ] [Ownable ρ] {σ : Type} {o : Owners σ} {x y : σ} {t u : Rows}

theorem OwnedRows.insert [LawfulRecord ρ] (h : OwnedRows ρ o t) {r : ρ}
    (howner : Ownable.owner ρ o (Record.guid r) = some x) (hr : Ownable.Belongs o x r) :
    OwnedRows ρ o (t.insert (Record.guid r) (Record.encode r)) where
  vacant key hkey := by
    have hne : Record.guid r ≠ key := by
      rintro rfl
      rw [howner] at hkey
      cases hkey
    rw [Table.find?_insert, if_neg hne]
    exact h.vacant key hkey
  belongs key found hfound := by
    rw [Rows.record_insert] at hfound
    by_cases hkey : key = Record.guid r
    · rw [hkey, Function.update_self, Option.some.injEq] at hfound
      rw [hkey, ← hfound]
      exact ⟨x, howner, hr⟩
    · rw [Function.update_of_ne hkey] at hfound
      exact h.belongs key found hfound

/-- Bytes that are no record offend under no key that has an owner. -/
theorem OwnedRows.insert_undecodable (h : OwnedRows ρ o t) {written : Guid} {bytes : Bytes}
    (howner : Ownable.owner ρ o written = some x)
    (hbytes : (Record.decode? bytes : Option ρ) = none) :
    OwnedRows ρ o (t.insert written bytes) where
  vacant key hkey := by
    have hne : written ≠ key := by
      rintro rfl
      rw [howner] at hkey
      cases hkey
    rw [Table.find?_insert, if_neg hne]
    exact h.vacant key hkey
  belongs key found hfound := by
    rw [Rows.record, Table.find?_insert] at hfound
    split at hfound
    · rw [Option.bind_some, hbytes] at hfound
      cases hfound
    · exact h.belongs key found hfound

theorem OwnedRows.erase (h : OwnedRows ρ o t) (dropped : Guid) :
    OwnedRows ρ o (t.erase dropped) where
  vacant key hkey := by
    rw [Table.find?_erase]
    split
    · rfl
    · exact h.vacant key hkey
  belongs key found hfound := by
    rw [Rows.record_erase] at hfound
    by_cases hkey : key = dropped
    · rw [hkey, Function.update_self] at hfound
      cases hfound
    · rw [Function.update_of_ne hkey] at hfound
      exact h.belongs key found hfound

theorem SameRows.insert (h : SameRows ρ o x t u) (written : Guid) (bytes : Bytes) :
    SameRows ρ o x (t.insert written bytes) (u.insert written bytes) := by
  intro key hkey
  rw [Table.find?_insert, Table.find?_insert, h key hkey]

theorem SameRows.erase (h : SameRows ρ o x t u) (dropped : Guid) :
    SameRows ρ o x (t.erase dropped) (u.erase dropped) := by
  intro key hkey
  rw [Table.find?_erase, Table.find?_erase, h key hkey]

theorem sameRows_insert (t : Rows) {written : Guid} (bytes : Bytes)
    (hwritten : Ownable.owner ρ o written = some x) (hne : y ≠ x) :
    SameRows ρ o y t (t.insert written bytes) := by
  intro key hkey
  have hother : written ≠ key := by
    rintro rfl
    rw [hwritten, Option.some.injEq] at hkey
    exact hne hkey.symm
  rw [Table.find?_insert, if_neg hother]

theorem sameRows_erase (t : Rows) {dropped : Guid}
    (hdropped : Ownable.owner ρ o dropped = some x) (hne : y ≠ x) :
    SameRows ρ o y t (t.erase dropped) := by
  intro key hkey
  have hother : dropped ≠ key := by
    rintro rfl
    rw [hdropped, Option.some.injEq] at hkey
    exact hne hkey.symm
  rw [Table.find?_erase, if_neg hother]

end Rows

namespace Store

/-- Every table respects the division of keys. -/
structure Divided {σ : Type} (o : Owners σ) (s : Store) : Prop where
  apps : OwnedRows App o s.apps
  processes : OwnedRows AppProcess o s.processes
  deployments : OwnedRows Deployment o s.deployments
  routes : OwnedRows Route o s.routes

/-- All rows under the keys of an owner are the same, byte for byte. -/
structure Same {σ : Type} (o : Owners σ) (x : σ) (s t : Store) : Prop where
  apps : SameRows App o x s.apps t.apps
  processes : SameRows AppProcess o x s.processes t.processes
  deployments : SameRows Deployment o x s.deployments t.deployments
  routes : SameRows Route o x s.routes t.routes

variable {σ : Type} {o : Owners σ} {x : σ} {s t u : Store}

theorem Same.refl (o : Owners σ) (x : σ) (s : Store) : Same o x s s :=
  ⟨fun _ _ => rfl, fun _ _ => rfl, fun _ _ => rfl, fun _ _ => rfl⟩

theorem Same.symm (h : Same o x s t) : Same o x t s where
  apps key hkey := (h.apps key hkey).symm
  processes key hkey := (h.processes key hkey).symm
  deployments key hkey := (h.deployments key hkey).symm
  routes key hkey := (h.routes key hkey).symm

theorem Same.trans (h : Same o x s t) (h' : Same o x t u) : Same o x s u where
  apps key hkey := (h.apps key hkey).trans (h'.apps key hkey)
  processes key hkey := (h.processes key hkey).trans (h'.processes key hkey)
  deployments key hkey := (h.deployments key hkey).trans (h'.deployments key hkey)
  routes key hkey := (h.routes key hkey).trans (h'.routes key hkey)

theorem eq_of_same (hs : s.Divided o) (ht : t.Divided o) (h : ∀ x, Same o x s t) : s = t := by
  have happs : s.apps = t.apps := Table.ext_find? fun key => (h (o.app key)).apps key rfl
  have hprocesses : s.processes = t.processes := by
    apply Table.ext_find?
    intro key
    cases hkey : o.process key with
    | none => rw [hs.processes.vacant key hkey, ht.processes.vacant key hkey]
    | some x => exact (h x).processes key hkey
  have hdeployments : s.deployments = t.deployments :=
    Table.ext_find? fun key => (h (o.deployment key)).deployments key rfl
  have hroutes : s.routes = t.routes := Table.ext_find? fun key => (h (o.route key)).routes key rfl
  cases s
  cases t
  simp only [] at happs hprocesses hdeployments hroutes
  rw [happs, hprocesses, hdeployments, hroutes]

end Store

/-- A kind of record whose table is one of the four that are divided. -/
class LawfulOwnable (ρ : Type) [Tabled ρ] [Ownable ρ] : Prop extends LawfulTabled ρ where
  rows_divided {σ : Type} {o : Owners σ} {s : Store} :
    s.Divided o → OwnedRows ρ o (Tabled.rows ρ s)
  divided_withRows {σ : Type} {o : Owners σ} {s : Store} {t : Rows} :
    s.Divided o → OwnedRows ρ o t → (Tabled.withRows ρ s t).Divided o
  rows_same {σ : Type} {o : Owners σ} {x : σ} {s t : Store} :
    Store.Same o x s t → SameRows ρ o x (Tabled.rows ρ s) (Tabled.rows ρ t)
  same_withRows {σ : Type} {o : Owners σ} {x : σ} {s t : Store} {rows rows' : Rows} :
    Store.Same o x s t → SameRows ρ o x rows rows' →
      Store.Same o x (Tabled.withRows ρ s rows) (Tabled.withRows ρ t rows')

instance : LawfulOwnable App where
  rows_divided h := h.apps
  divided_withRows h ht := { h with apps := ht }
  rows_same h := h.apps
  same_withRows h ht := { h with apps := ht }

instance : LawfulOwnable AppProcess where
  rows_divided h := h.processes
  divided_withRows h ht := { h with processes := ht }
  rows_same h := h.processes
  same_withRows h ht := { h with processes := ht }

instance : LawfulOwnable Deployment where
  rows_divided h := h.deployments
  divided_withRows h ht := { h with deployments := ht }
  rows_same h := h.deployments
  same_withRows h ht := { h with deployments := ht }

instance : LawfulOwnable Route where
  rows_divided h := h.routes
  divided_withRows h ht := { h with routes := ht }
  rows_same h := h.routes
  same_withRows h ht := { h with routes := ht }

namespace Store

variable {ρ : Type} [Tabled ρ] [Ownable ρ] [LawfulOwnable ρ] {σ : Type} {o : Owners σ} {x y : σ}
  {s t : Store} {key : Guid}

theorem Divided.put (h : s.Divided o) {r : ρ}
    (howner : Ownable.owner ρ o (Record.guid r) = some x) (hr : Ownable.Belongs o x r) :
    (s.put r).Divided o :=
  LawfulOwnable.divided_withRows h ((LawfulOwnable.rows_divided h).insert howner hr)

theorem Divided.drop (h : s.Divided o) (key : Guid) : (s.drop ρ key).Divided o :=
  LawfulOwnable.divided_withRows h ((LawfulOwnable.rows_divided h).erase key)

theorem Same.put (h : Same o x s t) (r : ρ) : Same o x (s.put r) (t.put r) :=
  LawfulOwnable.same_withRows h ((LawfulOwnable.rows_same h).insert _ _)

theorem Same.drop (h : Same o x s t) (key : Guid) : Same o x (s.drop ρ key) (t.drop ρ key) :=
  LawfulOwnable.same_withRows h ((LawfulOwnable.rows_same h).erase key)

theorem same_put (s : Store) {r : ρ} (howner : Ownable.owner ρ o (Record.guid r) = some x)
    (hne : y ≠ x) : Same o y s (s.put r) := by
  have h := LawfulOwnable.same_withRows (Same.refl o y s)
    (sameRows_insert (Tabled.rows ρ s) (Record.encode r) howner hne)
  rwa [LawfulTabled.withRows_rows] at h

theorem same_drop (s : Store) (howner : Ownable.owner ρ o key = some x) (hne : y ≠ x) :
    Same o y s (s.drop ρ key) := by
  have h := LawfulOwnable.same_withRows (Same.refl o y s)
    (sameRows_erase (Tabled.rows ρ s) howner hne)
  rwa [LawfulTabled.withRows_rows] at h

theorem Same.record_eq (h : Same o x s t) (hkey : Ownable.owner ρ o key = some x) :
    (Tabled.rows ρ s).record ρ key = (Tabled.rows ρ t).record ρ key := by
  rw [Rows.record, Rows.record, LawfulOwnable.rows_same h key hkey]

theorem find?_eq (hs : s.Divided o) (ht : t.Divided o) (h : Same o x s t)
    (hkey : Ownable.owner ρ o key = some x ∨ Ownable.owner ρ o key = none) :
    (Tabled.rows ρ s).find? key = (Tabled.rows ρ t).find? key := by
  rcases hkey with hkey | hkey
  · exact LawfulOwnable.rows_same h key hkey
  · rw [(LawfulOwnable.rows_divided hs).vacant key hkey,
      (LawfulOwnable.rows_divided ht).vacant key hkey]

theorem get?_eq_of_same (hs : s.Divided o) (ht : t.Divided o) (h : Same o x s t)
    (hkey : Ownable.owner ρ o key = some x ∨ Ownable.owner ρ o key = none) :
    s.get? ρ key = t.get? ρ key := by
  rw [get?, get?, find?_eq hs ht h hkey]

theorem belongs_of_get? (hs : s.Divided o)
    (hkey : Ownable.owner ρ o key = some x ∨ Ownable.owner ρ o key = none) {r : ρ}
    (hr : s.get? ρ key = .ok (some r)) : Ownable.Belongs o x r := by
  have hrow : (Tabled.rows ρ s).record ρ key = some r := by
    rw [get?] at hr
    rw [Rows.record]
    cases hb : (Tabled.rows ρ s).find? key with
    | none =>
        rw [hb] at hr
        cases hr
    | some bytes =>
        rw [hb] at hr
        cases hd : (Record.decode? bytes : Option ρ) with
        | none => simp [decodeRow, hd, Except.map] at hr
        | some found => simpa [decodeRow, hd, Except.map] using hr
  obtain ⟨y, howner, hy⟩ := (LawfulOwnable.rows_divided hs).belongs key r hrow
  rcases hkey with hkey | hkey
  · rw [howner, Option.some.injEq] at hkey
    rwa [← hkey]
  · rw [howner] at hkey
    cases hkey

omit [LawfulOwnable ρ] in
private theorem readable_iff : (Tabled.rows ρ s).Readable ρ ↔
    (∀ key bytes, Ownable.owner ρ o key = some x → (Tabled.rows ρ s).find? key = some bytes →
      ∃ r : ρ, Record.decode? bytes = some r) ∧ ReadableBeyond ρ o x s := by
  constructor
  · intro h
    exact ⟨fun key bytes _ => h key bytes, fun key bytes _ => h key bytes⟩
  · rintro ⟨hown, hbeyond⟩ key bytes hb
    by_cases hkey : Ownable.owner ρ o key = some x
    · exact hown key bytes hkey hb
    · exact hbeyond key bytes hkey hb

private theorem readable_congr (h : Same o x s t)
    (hread : ReadableBeyond ρ o x s ↔ ReadableBeyond ρ o x t) :
    (Tabled.rows ρ s).Readable ρ ↔ (Tabled.rows ρ t).Readable ρ := by
  have hrows := LawfulOwnable.rows_same (ρ := ρ) h
  rw [readable_iff (o := o) (x := x), readable_iff (o := o) (x := x), hread]
  apply and_congr_left
  intro _
  refine forall_congr' fun key => forall_congr' fun bytes => forall_congr' fun hkey => ?_
  rw [hrows key hkey]

private theorem filter_records_eq (hs : s.Divided o) (ht : t.Divided o) (h : Same o x s t)
    {keep : ρ → Bool} (hkeep : ∀ y r, Ownable.Belongs o y r → keep r = true → y = x) :
    ((Tabled.rows ρ s).records ρ).filter keep = ((Tabled.rows ρ t).records ρ).filter keep := by
  have hrows := LawfulOwnable.rows_same (ρ := ρ) h
  have hown : ∀ {u : Store}, u.Divided o → ∀ key bytes,
      (Tabled.rows ρ u).find? key = some bytes →
      ((Record.decode? bytes : Option ρ).filter keep).isSome → Ownable.owner ρ o key = some x := by
    intro u hu key bytes hb hpick
    obtain ⟨r, hr⟩ := Option.isSome_iff_exists.mp hpick
    obtain ⟨hd, hk⟩ := Option.filter_eq_some_iff.mp hr
    have hrecord : (Tabled.rows ρ u).record ρ key = some r := by
      rw [Rows.record, hb, Option.bind_some, hd]
    obtain ⟨y, howner, hy⟩ := (LawfulOwnable.rows_divided hu).belongs key r hrecord
    rw [howner, hkeep y r hy hk]
  simp only [Rows.records, Table.values, List.filterMap_map, List.filter_filterMap]
  apply Table.filterMap_rows_eq
  · intro key bytes hb hpick
    rw [← hrows key (hown hs key bytes hb hpick)]
    exact hb
  · intro key bytes hb hpick
    rw [hrows key (hown ht key bytes hb hpick)]
    exact hb

/-- A walk that picks only records of an owner picks the same from stores with the same rows of the
owner, provided that the other rows can be read in both or in neither. -/
theorem select_eq_of_same (hs : s.Divided o) (ht : t.Divided o) (h : Same o x s t)
    (hread : ReadableBeyond ρ o x s ↔ ReadableBeyond ρ o x t) {keep : ρ → Bool}
    (hkeep : ∀ y r, Ownable.Belongs o y r → keep r = true → y = x) :
    s.select keep = t.select keep := by
  by_cases hreadable : (Tabled.rows ρ s).Readable ρ
  · have hreadable' := (readable_congr h hread).mp hreadable
    rw [select_of_readable hreadable, select_of_readable hreadable',
      filter_records_eq hs ht h hkeep]
  · have hreadable' := mt (readable_congr h hread).mpr hreadable
    rw [select_of_not_readable hreadable, select_of_not_readable hreadable']

theorem belongs_of_mem_select (hs : s.Divided o) {keep : ρ → Bool} {found : List ρ}
    (h : s.select keep = .ok found) {r : ρ} (hr : r ∈ found) :
    keep r = true ∧ ∃ y, Ownable.Belongs o y r := by
  by_cases hreadable : (Tabled.rows ρ s).Readable ρ
  · rw [select_of_readable hreadable, Except.ok.injEq] at h
    rw [← h] at hr
    obtain ⟨hmem, hk⟩ := List.mem_filter.mp hr
    obtain ⟨bytes, hb, hd⟩ := List.mem_filterMap.mp hmem
    obtain ⟨⟨key, _⟩, hrow, rfl⟩ := List.mem_map.mp hb
    have hrecord : (Tabled.rows ρ s).record ρ key = some r := by
      rw [Rows.record, Table.find?_eq_some_iff.mpr hrow, Option.bind_some, hd]
    obtain ⟨y, _, hy⟩ := (LawfulOwnable.rows_divided hs).belongs key r hrecord
    exact ⟨hk, y, hy⟩
  · rw [select_of_not_readable hreadable] at h
    cases h

theorem belongs_of_select (hs : s.Divided o) {keep : ρ → Bool}
    (hkeep : ∀ y r, Ownable.Belongs o y r → keep r = true → y = x) {found : List ρ}
    (h : s.select keep = .ok found) : ∀ r ∈ found, Ownable.Belongs o x r := by
  intro r hr
  obtain ⟨hk, y, hy⟩ := belongs_of_mem_select hs h hr
  rwa [← hkeep y r hy hk]

theorem divided_empty (o : Owners σ) : empty.Divided o := by
  constructor <;>
    · constructor
      · intro key _
        rfl
      · intro key r hr
        cases hr

end Store

/-! A store with two apps, each with a rollout of its own. -/

namespace Sample

def blog : App := App.create "blog" "Blog" (some "blog-1") 0

def blogWeb : AppProcess := AppProcess.create "blog-1" "blog" "web" 3 0

def blogWebish : AppProcess := AppProcess.create "blog-2" "blog" "web-next" 1 0

def relaunch : Deployment := Deployment.create "relaunch" "blog" "blog-2" 0

def twoApps : Store := ((((store 1 2).put blog).put blogWeb).put blogWebish).put relaunch

theorem keyed_twoApps : twoApps.Keyed := ((((keyed_store 1 2).put _).put _).put _).put _

/-- The records of the shop, and all the others. -/
def shopOrNot : Owners Bool where
  app key := key = "shop"
  process key := some (key = "shop-1" || key = "shop-2")
  deployment key := key = "rollout"
  route key := key = "shop-route"

theorem divided_twoApps : twoApps.Divided shopOrNot := by
  have hdeploys : shopOrNot.Deploys true deployment := by
    refine ⟨rfl, rfl, ?_, by simp [deployment, Deployment.create]⟩
    intro key hkey
    obtain rfl := Option.some.inj hkey
    exact .inl rfl
  have hrelaunches : shopOrNot.Deploys false relaunch := by
    refine ⟨rfl, rfl, ?_, by simp [relaunch, Deployment.create]⟩
    intro key hkey
    obtain rfl := Option.some.inj hkey
    exact .inl rfl
  have hshop : ∀ web, app.web = some web → shopOrNot.MayName true web := by
    intro web hweb
    obtain rfl := Option.some.inj hweb
    exact .inl rfl
  have hblog : ∀ web, blog.web = some web → shopOrNot.MayName false web := by
    intro web hweb
    obtain rfl := Option.some.inj hweb
    exact .inl rfl
  have h := Store.divided_empty shopOrNot
  have h := h.put (r := app) rfl ⟨rfl, hshop⟩
  have h := h.put (r := web 1) rfl ⟨rfl, rfl⟩
  have h := h.put (r := webish 2) rfl ⟨rfl, rfl⟩
  have h := h.put (r := deployment) rfl fun _ => hdeploys
  have h := h.put (r := route) rfl ⟨rfl, .inl rfl⟩
  have h := h.put (r := blog) rfl ⟨rfl, hblog⟩
  have h := h.put (r := blogWeb) rfl ⟨rfl, rfl⟩
  have h := h.put (r := blogWebish) rfl ⟨rfl, rfl⟩
  exact h.put (r := relaunch) rfl fun _ => hrelaunches

end Sample
end Rollout
