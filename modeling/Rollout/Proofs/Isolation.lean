import Rollout.Proofs.List
import Rollout.Proofs.Ownership.Turn

/-!
# Isolation

When a process or a route of somebody else is no record any more, an owner's deployments fare as
before: their turns end in the same way and leave the same rows. The one exception is a turn whose
edit walks over the broken table, a retirement that stops the other processes or a cut-over. It
fails on the store in which the table cannot be read, and is without effect there.
-/

namespace Rollout

namespace Store

variable {σ : Type} {o : Owners σ} {x : σ} {s t : Store}

/-- A row of a process or a route of somebody else is replaced by bytes that are no record. -/
inductive Broken (o : Owners σ) (x : σ) (s : Store) : Store → Prop where
  | process {key : Guid} {y : σ} {bytes : Bytes} (owner : o.process key = some y) (other : y ≠ x)
      (undecodable : (Record.decode? bytes : Option AppProcess) = none) :
      Broken o x s { s with processes := s.processes.insert key bytes }
  | route {key : Guid} {bytes : Bytes} (other : o.route key ≠ x)
      (undecodable : (Record.decode? bytes : Option Route) = none) :
      Broken o x s { s with routes := s.routes.insert key bytes }

theorem Broken.divided (h : Broken o x s t) (hs : s.Divided o) : t.Divided o := by
  cases h with
  | process owner other undecodable =>
      exact { hs with processes := hs.processes.insert_undecodable owner undecodable }
  | @route key _ other undecodable =>
      have howner : Ownable.owner Route o key = some (o.route key) := rfl
      exact { hs with routes := hs.routes.insert_undecodable howner undecodable }

theorem Broken.same (h : Broken o x s t) : Same o x s t := by
  cases h with
  | process owner other undecodable =>
      exact { Same.refl o x s with processes := sameRows_insert _ _ owner other.symm }
  | @route key _ other undecodable =>
      have howner : Ownable.owner Route o key = some (o.route key) := rfl
      exact { Same.refl o x s with routes := sameRows_insert _ _ howner other.symm }

theorem Broken.agenda_eq (h : Broken o x s t) : Cycle.agenda s = Cycle.agenda t := by
  cases h with
  | process | route => rfl

end Store

namespace Cycle

open Store

section Turns

variable {σ : Type} (o : Owners σ) (x : σ)

/-- Two runs of the turns of these deployments have the same entries for the deployments of an
owner, and leave the same rows of the owner. -/
structure Agree (ds : List Deployment) (first second : Report × Store) : Prop where
  entries : ∀ (i : Nat) (d : Deployment), ds[i]? = some d → o.deployment d.guid = x →
    ∃ entry, first.1[i]? = some entry ∧ second.1[i]? = some entry
  rows : Same o x first.2 second.2

/-- Two runs agree up to a turn of the owner that is hindered in one of them. -/
def Part (stopOthers : Bool) (clock : Clock) (reporter : Reporter) (ds : List Deployment)
    (s t : Store) : Prop :=
  ∃ (i : Nat) (d : Deployment), ds[i]? = some d ∧ o.deployment d.guid = x ∧
    let first := turns stopOthers clock reporter 0 (ds.take i) s
    let second := turns stopOthers clock reporter 0 (ds.take i) t
    Agree o x (ds.take i) first second ∧
      (Hindered o x stopOthers (clock i) (reporter i) d first.2 second.2 ∨
        Hindered o x stopOthers (clock i) (reporter i) d second.2 first.2)

variable {o x} {s t : Store} {ds : List Deployment} {d : Deployment} {stopOthers : Bool}
  {clock : Clock} {reporter : Reporter}

theorem Agree.concat {first second : Report × Store} (h : Agree o x ds first second)
    (hfirst : first.1.length = ds.length) (hsecond : second.1.length = ds.length)
    {entry entry' : Entry} (hentry : o.deployment d.guid = x → entry = entry')
    (hsame : Same o x s t) :
    Agree o x (ds ++ [d]) (first.1 ++ [entry], s) (second.1 ++ [entry'], t) where
  entries i d' hd' howner := by
    rcases List.getElem?_concat_eq_some hd' with ⟨hlt, hd'⟩ | ⟨rfl, rfl⟩
    · rw [List.getElem?_append_left (hfirst ▸ hlt), List.getElem?_append_left (hsecond ▸ hlt)]
      exact h.entries i d' hd' howner
    · refine ⟨entry, ?_, ?_⟩
      · rw [← hfirst, List.getElem?_concat_length]
      · rw [← hsecond, List.getElem?_concat_length, hentry howner]
  rows := hsame

theorem Part.concat (h : Part o x stopOthers clock reporter ds s t) :
    Part o x stopOthers clock reporter (ds ++ [d]) s t := by
  obtain ⟨i, d', hd', howner, hpart⟩ := h
  have hlt : i < ds.length := (List.getElem?_eq_some_iff.mp hd').1
  refine ⟨i, d', ?_, howner, ?_⟩
  · rw [List.getElem?_append_left hlt]
    exact hd'
  · rw [List.take_append_of_le_length (Nat.le_of_lt hlt)]
    exact hpart

theorem divided_turns (hs : s.Divided o) (hds : ∀ d ∈ ds, o.Deploys (o.deployment d.guid) d) :
    (turns stopOthers clock reporter 0 ds s).2.Divided o := by
  induction ds using List.reverseRecOn with
  | nil => exact hs
  | append_singleton ds d ih =>
      have hbefore := ih fun d' hd' => hds d' (List.mem_append_left [d] hd')
      have hd := hds d (List.mem_append_right ds List.mem_cons_self)
      rw [turns_concat]
      exact (within_turn hbefore hd stopOthers _ _).divided

/-- Whoever else makes turns between them, the turns of an owner agree on stores with the same rows
of the owner, up to the first one that is hindered. -/
theorem agree_or_part (hs : s.Divided o) (ht : t.Divided o) (h : Same o x s t)
    (hds : ∀ d ∈ ds, o.Deploys (o.deployment d.guid) d) (stopOthers : Bool) (clock : Clock)
    (reporter : Reporter) :
    Agree o x ds (turns stopOthers clock reporter 0 ds s) (turns stopOthers clock reporter 0 ds t) ∨
      Part o x stopOthers clock reporter ds s t := by
  induction ds using List.reverseRecOn with
  | nil =>
      refine .inl ⟨?_, h⟩
      intro i d hd
      cases hd
  | append_singleton ds d ih =>
      have hfront : ∀ d' ∈ ds, o.Deploys (o.deployment d'.guid) d' :=
        fun d' hd' => hds d' (List.mem_append_left [d] hd')
      have hd := hds d (List.mem_append_right ds List.mem_cons_self)
      rcases ih hfront with hagree | hpart
      · have hdivided : (turns stopOthers clock reporter 0 ds s).2.Divided o :=
          divided_turns hs hfront
        have hdivided' : (turns stopOthers clock reporter 0 ds t).2.Divided o :=
          divided_turns ht hfront
        have hfirst := length_turns stopOthers clock reporter 0 ds s
        have hsecond := length_turns stopOthers clock reporter 0 ds t
        rw [turns_concat, turns_concat, Nat.zero_add]
        by_cases howner : o.deployment d.guid = x
        · rw [howner] at hd
          rcases turn_alike hdivided hdivided' hagree.rows hd stopOthers (clock ds.length)
            (reporter ds.length) with ⟨entry, s', t', hturn, hturn', halike⟩ | hhindered
          · simp only [hturn, hturn']
            exact .inl (hagree.concat hfirst hsecond (fun _ => rfl) halike.same)
          · refine .inr ⟨ds.length, d, List.getElem?_concat_length, howner, ?_⟩
            rw [List.take_left]
            exact ⟨hagree, hhindered⟩
        · have hrest := (within_turn hdivided hd stopOthers (clock ds.length)
            (reporter ds.length)).rest x (Ne.symm howner)
          have hrest' := (within_turn hdivided' hd stopOthers (clock ds.length)
            (reporter ds.length)).rest x (Ne.symm howner)
          have hsame := (hrest.symm.trans hagree.rows).trans hrest'
          exact .inl (hagree.concat hfirst hsecond (fun hx => absurd hx howner) hsame)
      · exact .inr hpart.concat

end Turns

/-- A broken row of somebody else changes nothing for an owner in a cycle, or the cycles part at a
turn of the owner whose edit walks, in one of them, over such a row. -/
theorem update_of_broken {σ : Type} {o : Owners σ} {x : σ} {s t : Store} (hs : s.Divided o)
    (hread : s.deployments.Readable Deployment) (hbroken : Broken o x s t) (stopOthers : Bool)
    (clock : Clock) (reporter : Reporter) :
    ∃ (ds : List Deployment) (first second : Report × Store),
      agenda s = .ok ds ∧ agenda t = .ok ds ∧
      update stopOthers clock reporter s = (.ok first.1, first.2) ∧
      update stopOthers clock reporter t = (.ok second.1, second.2) ∧
      (Agree o x ds first second ∨ Part o x stopOthers clock reporter ds s t) := by
  have hds := select_of_readable hread fun d => decide (d.state = .deploying)
  change agenda s = _ at hds
  have hds' := hbroken.agenda_eq ▸ hds
  have hcases := agree_or_part hs (hbroken.divided hs) hbroken.same
    (fun _ => deploys_of_mem_agenda hs hds) stopOthers clock reporter
  refine ⟨_, _, _, hds, hds', ?_, ?_, hcases⟩
  · rw [update, hds]
  · rw [update, hds']

theorem update_of_broken_sample :
    let s := Sample.twoApps
    let t := { s with processes := s.processes.insert "blog-2" [] }
    s.Divided Sample.shopOrNot ∧ s.deployments.Readable Deployment ∧
      Broken Sample.shopOrNot true s t ∧
      Part Sample.shopOrNot true true (fun _ => 5) (fun _ _ => .ok ∅)
        [Sample.relaunch, Sample.deployment] s t := by
  intro s t
  have hread : s.deployments.Readable Deployment := Sample.keyed_twoApps.deployments.readable
  have hbroken : Broken Sample.shopOrNot true s t :=
    .process rfl Bool.false_ne_true (by decide +kernel)
  refine ⟨Sample.divided_twoApps, hread, hbroken, ?_⟩
  obtain ⟨ds, first, second, hds, _, hrun, hrun', hcases⟩ :=
    update_of_broken Sample.divided_twoApps hread hbroken true (fun _ => 5) fun _ _ => .ok ∅
  have hlisted : agenda s = .ok [Sample.relaunch, Sample.deployment] := by decide +kernel
  obtain rfl := Except.ok.inj (hds.symm.trans hlisted)
  refine hcases.resolve_left ?_
  intro hagree
  obtain ⟨entry, hentry, hentry'⟩ := hagree.entries 1 Sample.deployment rfl rfl
  have hsame : ((update true (fun _ => 5) (fun _ _ => .ok ∅) s).1.toOption.bind (·[1]?)) =
      (update true (fun _ => 5) (fun _ _ => .ok ∅) t).1.toOption.bind (·[1]?) := by
    rw [hrun, hrun']
    simp [Except.toOption, hentry, hentry']
  have hdiffer : ((update true (fun _ => 5) (fun _ _ => .ok ∅) s).1.toOption.bind (·[1]?)).map
      Entry.result ≠ ((update true (fun _ => 5) (fun _ _ => .ok ∅) t).1.toOption.bind
      (·[1]?)).map Entry.result := by
    decide +kernel
  exact hdiffer (congrArg (Option.map Entry.result) hsame)

end Cycle
end Rollout
