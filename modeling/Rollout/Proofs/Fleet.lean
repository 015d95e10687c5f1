import Rollout.Cycle.Fleet
import Rollout.Proofs.Course
import Rollout.Proofs.List

/-!
# The course of a rollout among replicas

However many replicas share a store and in whatever order they make their steps, what they commit
for a deployment are the moves of its course, one after another. A turn whose records others have
replaced meanwhile commits nothing.
-/

namespace Rollout
namespace Fleet

@[simp] theorem after_concat (stopOthers : Nat → Bool) (moves : List Move) (m : Move)
    (s : Store) :
    after stopOthers (moves ++ [m]) s = (after stopOthers moves s).step stopOthers m := by
  simp [after]

/-- The commits for one deployment, in their order. -/
def commitsOf (f : Fleet) (deployment : Guid) : List Commit :=
  f.commits.filter (·.plan.deployment = deployment)

section Step

variable (stopOthers : Nat → Bool) (f : Fleet) (m : Move)

theorem replica_step : (f.step stopOthers m).replica = Function.update f.replica m.replica
    ((f.replica m.replica).step (stopOthers m.replica) m.now m.answer f.store).1 :=
  rfl

theorem store_step : (f.step stopOthers m).store =
    ((f.replica m.replica).step (stopOthers m.replica) m.now m.answer f.store).2.1 :=
  rfl

theorem commits_step : (f.step stopOthers m).commits = f.commits ++
    ((f.replica m.replica).step (stopOthers m.replica) m.now m.answer f.store).2.2 :=
  rfl

end Step
end Fleet

namespace Replica

/-- All that the replica has taken up is of this kind, and so is what its turn holds in hand. -/
def Holds (listed : Deployment → Prop) (hand : Deployment → Turn → Prop) : Replica → Prop
  | .idle => True
  | .busy d turn rest => listed d ∧ hand d turn ∧ ∀ d' ∈ rest, listed d'

variable {listed : Deployment → Prop} {hand : Deployment → Turn → Prop}

theorem holds_takeUp (hstart : ∀ d, hand d .readApp) {ds : List Deployment}
    (h : ∀ d ∈ ds, listed d) : (takeUp ds).Holds listed hand := by
  cases ds with
  | nil => trivial
  | cons d rest =>
      exact ⟨h d List.mem_cons_self, hstart d, fun d' hd' => h d' (List.mem_cons_of_mem d hd')⟩

/-- What each step of a turn keeps in hand, each step of a replica does. -/
theorem holds_step {s : Store} {stopOthers : Bool} {now : Time} {answer : Answer}
    (hagenda : ∀ ds, Cycle.agenda s = .ok ds → ∀ d ∈ ds, listed d)
    (hstart : ∀ d, hand d .readApp)
    (hstep : ∀ d turn, listed d → hand d turn → hand d (turn.step stopOthers now d answer s).1)
    {replica : Replica} (h : replica.Holds listed hand) :
    (replica.step stopOthers now answer s).1.Holds listed hand := by
  cases replica with
  | idle =>
      rw [step]
      cases hds : Cycle.agenda s with
      | error e => trivial
      | ok ds => exact holds_takeUp hstart (hagenda ds hds)
  | busy d turn rest =>
      obtain ⟨hd, hturn, hrest⟩ := h
      have hnext := hstep d turn hd hturn
      cases turn with
      | ended r => exact holds_takeUp hstart hrest
      | readApp | readOld | readNew | ask | commit => exact ⟨hd, hnext, hrest⟩

end Replica

namespace Course

variable (c : Course)

/-- What a turn holds in hand: the two processes if its deployment is this one, though the web
process may be the new one by now, and other processes if it is not. -/
def InHand (d : Deployment) : Turn → Prop
  | .readApp | .ended _ => True
  | .readOld web =>
    if d.guid = c.deployment then web = c.old ∨ web = c.new else web ≠ c.old ∧ web ≠ c.new
  | .readNew old webish =>
    if d.guid = c.deployment then old.guid = c.old ∧ webish = c.new
    else old.guid ≠ c.old ∧ old.guid ≠ c.new
  | .ask pair | .commit pair =>
    if d.guid = c.deployment then pair.plan d = c.plan
    else pair.old.guid ≠ c.old ∧ pair.old.guid ≠ c.new

def InCourse : Replica → Prop
  | .idle => True
  | .busy d turn rest => c.Listed d ∧ c.InHand d turn ∧ ∀ d' ∈ rest, c.Listed d'

/-- What holds of a fleet at every moment. -/
structure Kept (f : Fleet) : Prop where
  keyed : f.store.Keyed
  apart : c.Apart f.store.records
  moves : c.At f.store.records (f.commitsOf c.deployment).length
  due : ∀ i commit, (f.commitsOf c.deployment)[i]? = some commit →
    commit.plan = c.plan ∧ c.Due i commit.change
  replica : ∀ i, c.InCourse (f.replica i)

variable {c} {s : Store} {k : Nat} {d : Deployment}

theorem inHand_step (hs : s.Keyed) (hat : c.At s.records k) (hapart : c.Apart s.records)
    (hlisted : c.Listed d) {turn : Turn} (h : c.InHand d turn) (stopOthers : Bool) (now : Time)
    (answer : Answer) : c.InHand d (turn.step stopOthers now d answer s).1 := by
  have hnext := Turn.next_step stopOthers now d answer turn s
  generalize (turn.step stopOthers now d answer s).1 = next at hnext ⊢
  cases hnext with
  | ended r => trivial
  | web hweb =>
      obtain ⟨app, happ, hweb⟩ := (Turn.webOf_ok hs).mp hweb
      change if d.guid = c.deployment then _ else _
      rcases hlisted with ⟨hown, hsame, _⟩ | ⟨hother, hne⟩
      · rw [if_pos hown]
        rw [hsame] at happ
        exact hat.web_cases happ hweb
      · rw [if_neg hother]
        obtain ⟨hold, hnew⟩ := hapart.web _ app happ hne
        rw [hweb, Ne, Option.some.injEq] at hold hnew
        exact ⟨hold, hnew⟩
  | old hold hwebish =>
      have hguid := hs.guid_process ((Turn.processAt_ok hs).mp hold)
      obtain ⟨hbound, hne⟩ := Turn.webishOf_ok.mp hwebish
      simp only [InHand] at h ⊢
      rw [← hguid] at h
      rcases hlisted with ⟨hown, _, htarget⟩ | ⟨hother, _⟩
      · rw [if_pos hown] at h ⊢
        obtain rfl := Option.some.inj (hbound.symm.trans htarget)
        exact ⟨h.resolve_right hne.symm, rfl⟩
      · rw [if_neg hother] at h ⊢
        exact h
  | new hnew =>
      have hguid := hs.guid_process ((Turn.processAt_ok hs).mp hnew)
      simp only [InHand] at h ⊢
      by_cases hown : d.guid = c.deployment
      · rw [if_pos hown] at h ⊢
        rw [Pair.plan, plan, hown, h.1, hguid, h.2]
      · rw [if_neg hown] at h ⊢
        exact h
  | ready => exact h

theorem inCourse_iff {replica : Replica} :
    c.InCourse replica ↔ replica.Holds c.Listed c.InHand := by
  cases replica <;> rfl

theorem inCourse_step (hs : s.Keyed) (hat : c.At s.records k) (hapart : c.Apart s.records)
    {replica : Replica} (h : c.InCourse replica) (stopOthers : Bool) (now : Time)
    (answer : Answer) : c.InCourse (replica.step stopOthers now answer s).1 := by
  rw [inCourse_iff] at h ⊢
  refine Replica.holds_step ?_ (fun _ => trivial) ?_ h
  · intro ds hds
    exact listed_of_mem_agenda hs hat hapart hds
  · intro d turn hlisted hturn
    exact inHand_step hs hat hapart hlisted hturn stopOthers now answer

end Course

/-- A step of a replica leaves the store as it is, unless it commits an edit. -/
theorem Replica.step_commit (replica : Replica) (stopOthers : Bool) (now : Time) (answer : Answer)
    (s : Store) :
    (replica.step stopOthers now answer s).2 = (s, []) ∨
    ∃ d pair rest change s', replica = .busy d (.commit pair) rest ∧
      (replica.step stopOthers now answer s).2 = (s', [⟨pair.plan d, change⟩]) ∧
      (pair.edit stopOthers).apply (pair.plan d) now s = (.ok change, s') := by
  cases replica with
  | idle =>
      refine .inl ?_
      rw [step]
      cases Cycle.agenda s <;> rfl
  | busy d turn rest =>
      cases turn with
      | ended r => exact .inl rfl
      | readApp | readOld | readNew | ask =>
          refine .inl ?_
          rw [step, Turn.step]
          · rfl
          · simp
      | commit pair =>
          rcases Turn.conclude_commit stopOthers now d pair s with
            ⟨change, s', h, happly⟩ | ⟨r, h, hr⟩
          · refine .inr ⟨d, pair, rest, change, s', rfl, ?_, happly⟩
            simp only [step, Turn.step, h, committed]
          · refine .inl ?_
            simp only [step, Turn.step, h]
            rw [committed]
            intro _ change hcommit hmoved
            cases hmoved
            exact hr change rfl

theorem Replica.step_cases {s : Store} (hs : s.Keyed) (replica : Replica) (stopOthers : Bool)
    (now : Time) (answer : Answer) :
    (replica.step stopOthers now answer s).2 = (s, []) ∨
    ∃ d pair rest change s', replica = .busy d (.commit pair) rest ∧
      (replica.step stopOthers now answer s).2 = (s', [⟨pair.plan d, change⟩]) ∧ s'.Keyed ∧
      Edit.Effect (pair.plan d) now s.records (pair.edit stopOthers) change s'.records := by
  rcases replica.step_commit stopOthers now answer s with
    hsame | ⟨d, pair, rest, change, s', hbusy, hcommit, happly⟩
  · exact .inl hsame
  · obtain ⟨hkeyed, heffect⟩ := Edit.effect_of_apply hs happly
    exact .inr ⟨d, pair, rest, change, s', hbusy, hcommit, hkeyed, heffect⟩

theorem Replica.store_step (replica : Replica) (stopOthers : Bool) (now : Time) (answer : Answer)
    (s : Store) : (replica.step stopOthers now answer s).2.1 = s ∨
      ∃ call : Call, (replica.step stopOthers now answer s).2.1 = (call.run s).2 := by
  rcases replica.step_commit stopOthers now answer s with
    hsame | ⟨d, pair, rest, change, s', hbusy, hcommit, happly⟩
  · exact .inl (congrArg Prod.fst hsame)
  · refine .inr ⟨⟨pair.edit stopOthers, pair.plan d, now⟩, ?_⟩
    rw [hcommit, Call.run, happly]

/-- What holds of a store after any calls holds of the store that a fleet shares. -/
theorem Fleet.store_after_eq_calls (stopOthers : Nat → Bool) (moves : List Move) (s : Store) :
    ∃ calls, (after stopOthers moves s).store = Call.after calls s := by
  induction moves using List.reverseRecOn with
  | nil => exact ⟨[], rfl⟩
  | append_singleton moves m ih =>
      obtain ⟨calls, hcalls⟩ := ih
      rw [after_concat, Fleet.store_step]
      rcases Replica.store_step ((after stopOthers moves s).replica m.replica)
        (stopOthers m.replica) m.now m.answer (after stopOthers moves s).store with
        hsame | ⟨call, hcall⟩
      · rw [hsame]
        exact ⟨calls, hcalls⟩
      · rw [hcall, hcalls]
        exact ⟨calls ++ [call], (Call.after_concat calls call s).symm⟩

namespace Course.Kept

variable {c : Course} {f g : Fleet}

private theorem hold (h : c.Kept f) (hreplica : ∀ i, c.InCourse (g.replica i))
    (hkeyed : g.store.Keyed) (hapart : c.Apart g.store.records)
    (hcommits : g.commitsOf c.deployment = f.commitsOf c.deployment)
    (hmoves : c.At g.store.records (f.commitsOf c.deployment).length) : c.Kept g where
  keyed := hkeyed
  apart := hapart
  moves := by
    rw [hcommits]
    exact hmoves
  due := by
    rw [hcommits]
    exact h.due
  replica := hreplica

private theorem advance (h : c.Kept f) (hreplica : ∀ i, c.InCourse (g.replica i))
    (hkeyed : g.store.Keyed) (hapart : c.Apart g.store.records) {change : Change}
    (hcommits : g.commitsOf c.deployment = f.commitsOf c.deployment ++ [⟨c.plan, change⟩])
    (hdue : c.Due (f.commitsOf c.deployment).length change)
    (hmoves : c.At g.store.records ((f.commitsOf c.deployment).length + 1)) : c.Kept g where
  keyed := hkeyed
  apart := hapart
  moves := by
    rw [hcommits, List.length_append]
    exact hmoves
  due i commit hi := by
    rw [hcommits] at hi
    rcases List.getElem?_concat_eq_some hi with ⟨_, hi⟩ | ⟨rfl, rfl⟩
    · exact h.due i commit hi
    · exact ⟨rfl, hdue⟩
  replica := hreplica

theorem step (h : c.Kept f) (stopOthers : Nat → Bool) (m : Move) :
    c.Kept (f.step stopOthers m) := by
  have hreplica : ∀ i, c.InCourse ((f.step stopOthers m).replica i) := by
    intro i
    rw [Fleet.replica_step]
    by_cases hi : i = m.replica
    · rw [hi, Function.update_self]
      exact inCourse_step h.keyed h.moves h.apart (h.replica m.replica) _ _ _
    · rw [Function.update_of_ne hi]
      exact h.replica i
  rcases Replica.step_cases h.keyed (f.replica m.replica) (stopOthers m.replica) m.now m.answer with
    hsame | ⟨d, pair, rest, change, s', hbusy, hcommit, hkeyed, heffect⟩
  · have hstore : (f.step stopOthers m).store = f.store := by
      rw [Fleet.store_step, hsame]
    have hcommits : (f.step stopOthers m).commitsOf c.deployment = f.commitsOf c.deployment := by
      rw [Fleet.commitsOf, Fleet.commits_step, hsame, List.append_nil, Fleet.commitsOf]
    exact h.hold hreplica (hstore ▸ h.keyed) (hstore ▸ h.apart) hcommits (hstore ▸ h.moves)
  · have hstore : (f.step stopOthers m).store = s' := by
      rw [Fleet.store_step, hcommit]
    obtain ⟨hlisted, hhand, _⟩ : c.InCourse (.busy d (.commit pair) rest) :=
      hbusy ▸ h.replica m.replica
    have hapart : c.Apart s'.records :=
      h.apart.effect (fun _ => h.moves.app_of_deployment) heffect
    rw [← hstore] at hkeyed hapart
    by_cases hown : d.guid = c.deployment
    · have hplan : pair.plan d = c.plan := by
        simpa only [InHand, if_pos hown] using hhand
      have hcommits : (f.step stopOthers m).commitsOf c.deployment =
          f.commitsOf c.deployment ++ [⟨c.plan, change⟩] := by
        simp [Fleet.commitsOf, Fleet.commits_step, hcommit, hplan, plan]
      rw [hplan] at heffect
      obtain ⟨hdue, hmoved⟩ := h.moves.effect_own heffect fun _ _ => Pair.two_le_of_edit
      exact h.advance hreplica hkeyed hapart hcommits hdue (hstore ▸ hmoved)
    · have hcommits : (f.step stopOthers m).commitsOf c.deployment = f.commitsOf c.deployment := by
        simp [Fleet.commitsOf, Fleet.commits_step, hcommit, Pair.plan, hown]
      obtain ⟨hold, hnew⟩ : pair.old.guid ≠ c.old ∧ pair.old.guid ≠ c.new := by
        simpa only [InHand, if_neg hown] using hhand
      have hmoves := h.moves.effect_of_ne h.apart heffect hown hold hnew
      exact h.hold hreplica hkeyed hapart hcommits (hstore ▸ hmoves)

end Course.Kept

/-- No step is made twice and none is lost. Whatever the replicas do and in whatever order: what
they have committed for the deployment are the first moves of its course, in their order, and the
records are those after exactly these moves. -/
theorem Fleet.moves_of_commits {c : Course} {s : Store} (hs : s.Keyed) (hstart : c.At s.records 0)
    (hapart : c.Apart s.records) (stopOthers : Nat → Bool) (moves : List Move) :
    c.At (after stopOthers moves s).store.records
        ((after stopOthers moves s).commitsOf c.deployment).length ∧
      ∀ i commit, ((after stopOthers moves s).commitsOf c.deployment)[i]? = some commit →
        commit.plan = c.plan ∧ c.Due i commit.change := by
  have hkept : c.Kept (after stopOthers moves s) := by
    induction moves using List.reverseRecOn with
    | nil =>
        refine ⟨hs, hapart, hstart, ?_, fun _ => trivial⟩
        intro i commit hi
        cases hi
    | append_singleton moves m ih =>
        rw [after_concat]
        exact ih.step stopOthers m
  exact ⟨hkept.moves, hkept.due⟩

/-- Two replicas go side by side through three cycles. The first of them makes every move, and the
plans of the second one come too late. -/
theorem Fleet.moves_of_commits_sample :
    let c := Sample.course 2 1
    let s := Sample.store 2 1
    let sideBySide : List Move := [⟨0, 5, .ok ∅⟩, ⟨1, 5, .ok ∅⟩]
    let f := Fleet.after (fun _ => true) (List.replicate 21 sideBySide).flatten s
    (s.Keyed ∧ c.At s.records 0 ∧ c.Apart s.records) ∧
      (f.commitsOf c.deployment).map Commit.change =
        [.stepped 1 2, .retired 0, .cutOver 1 0] ∧
      c.Over f.store.records := by
  intro c s sideBySide f
  have hs := Sample.keyed_store 2 1
  have hstart := Sample.at_store 2 1
  have hapart := Sample.apart_store 2 1
  have hchanges : (f.commitsOf c.deployment).map Commit.change =
      [.stepped 1 2, .retired 0, .cutOver 1 0] := by
    decide +kernel
  have hlength : (f.commitsOf c.deployment).length = 3 := by
    rw [← List.length_map Commit.change, hchanges]
    rfl
  obtain ⟨hmoves, -⟩ := Fleet.moves_of_commits hs hstart hapart (fun _ => true)
    (List.replicate 21 sideBySide).flatten
  have hsize : c.size < (f.commitsOf c.deployment).length := hlength ▸ by decide
  exact ⟨⟨hs, hstart, hapart⟩, hchanges, hmoves.over_of_lt hsize⟩

end Rollout
