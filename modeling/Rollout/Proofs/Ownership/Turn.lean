import Rollout.Proofs.Ownership.Edit
import Rollout.Proofs.Turn

/-!
# Turns of one owner

A turn of a deployment reads its app and its two processes, all of them its owner's, and commits an
edit of this owner. On stores with the same rows of the owner it therefore ends in the same way,
unless its edit is hindered in one of them.
-/

namespace Rollout

open Store

variable {σ : Type} {o : Owners σ} {x : σ} {s t : Store} {d : Deployment}

namespace Turn

theorem mayName_of_webOf (hs : s.Divided o) (hd : o.Deploys x d) {web : Guid}
    (h : webOf s d = .ok web) : o.MayName x web := by
  obtain ⟨app, happ, hweb⟩ := webOf_eq_ok.mp h
  have hbelongs : Ownable.Belongs o x app :=
    belongs_of_get? hs (.inl (congrArg some hd.app)) happ
  exact hbelongs.2 web hweb

theorem belongs_of_processAt (hs : s.Divided o) {key : Guid} (hkey : o.MayName x key)
    {p : AppProcess} (h : processAt s key = .ok p) : Ownable.Belongs o x p :=
  belongs_of_get? hs hkey.owner (processAt_eq_ok.mp h)

theorem mayName_of_webishOf (hd : o.Deploys x d) {old : AppProcess} {webish : Guid}
    (h : webishOf d old = .ok webish) : o.MayName x webish :=
  hd.webish webish (webishOf_ok.mp h).1

theorem plans_of_pairOf (hs : s.Divided o) (hd : o.Deploys x d) {pair : Pair}
    (h : pairOf s d = .ok pair) : o.Plans x (pair.plan d) := by
  obtain ⟨web, webish, hweb, hold, hwebish, hnew⟩ := pairOf_eq_ok.mp h
  have holdOwner := belongs_of_processAt hs (mayName_of_webOf hs hd hweb) hold
  have hnewOwner := belongs_of_processAt hs (mayName_of_webishOf hd hwebish) hnew
  exact ⟨hd.guid, holdOwner.1, hnewOwner.1⟩

theorem pairOf_eq_of_same (hs : s.Divided o) (ht : t.Divided o) (h : Same o x s t)
    (hd : o.Deploys x d) : pairOf s d = pairOf t d := by
  have hweb : webOf s d = webOf t d := by
    rw [webOf, webOf, get?_eq_of_same hs ht h (.inl (congrArg some hd.app))]
  have hprocess : ∀ key, o.MayName x key → processAt s key = processAt t key := by
    intro key hkey
    rw [processAt, processAt, get?_eq_of_same hs ht h hkey.owner]
  rw [pairOf, pairOf, ← hweb]
  cases hwebOf : webOf s d with
  | error e => rfl
  | ok web =>
      change (processAt s web >>= _) = (processAt t web >>= _)
      rw [← hprocess web (mayName_of_webOf hs hd hwebOf)]
      cases hold : processAt s web with
      | error e => rfl
      | ok old =>
          change (webishOf d old >>= _) = (webishOf d old >>= _)
          cases hwebish : webishOf d old with
          | error e => rfl
          | ok webish =>
              change (processAt s webish >>= _) = (processAt t webish >>= _)
              rw [hprocess webish (mayName_of_webishOf hd hwebish)]

private theorem conclude_alike (hs : s.Divided o) (ht : t.Divided o) (h : Same o x s t)
    {pair : Pair} (hplan : o.Plans x (pair.plan d)) (stopOthers : Bool) (now : Time) :
    (∃ r s' t', conclude stopOthers now d pair s = (r, s') ∧
      conclude stopOthers now d pair t = (r, t') ∧ Alike o x s t s' t') ∨
    ((pair.edit stopOthers).Hindered o x s t ∧
      conclude stopOthers now d pair s = (.error (.store .notARecord), s)) ∨
    ((pair.edit stopOthers).Hindered o x t s ∧
      conclude stopOthers now d pair t = (.error (.store .notARecord), t)) := by
  simp only [conclude]
  rcases (pair.edit stopOthers).apply_alike hs ht h hplan now with
    ⟨r, s', t', hrun, hrun', halike⟩ | ⟨hhindered, hrun⟩ | ⟨hhindered, hrun⟩
  · rw [hrun, hrun']
    exact .inl ⟨ofCommit r, s', t', rfl, rfl, halike⟩
  · rw [hrun]
    exact .inr (.inl ⟨hhindered, rfl⟩)
  · rw [hrun]
    exact .inr (.inr ⟨hhindered, rfl⟩)

end Turn

namespace Owners

/-- What a turn holds in hand is its owner's, whatever has been committed since it was read. -/
def InHand (o : Owners σ) (x : σ) (d : Deployment) : Turn → Prop
  | .readApp | .ended _ => True
  | .readOld web => o.MayName x web
  | .readNew old webish => Ownable.Belongs o x old ∧ o.MayName x webish
  | .ask pair | .commit pair => o.Plans x (pair.plan d)

theorem inHand_step (hs : s.Divided o) (hd : o.Deploys x d) {turn : Turn} (h : o.InHand x d turn)
    (stopOthers : Bool) (now : Time) (answer : Answer) :
    o.InHand x d (turn.step stopOthers now d answer s).1 := by
  have hnext := Turn.next_step stopOthers now d answer turn s
  generalize (turn.step stopOthers now d answer s).1 = next at hnext ⊢
  cases hnext with
  | ended r => trivial
  | web hweb => exact Turn.mayName_of_webOf hs hd hweb
  | old hold hwebish =>
      exact ⟨Turn.belongs_of_processAt hs h hold, Turn.mayName_of_webishOf hd hwebish⟩
  | new hnew =>
      obtain ⟨hold, hwebish⟩ := h
      exact ⟨hd.guid, hold.1, (Turn.belongs_of_processAt hs hwebish hnew).1⟩
  | ready => exact h

end Owners

namespace Cycle

variable {stopOthers : Bool} {now : Time} {reporter : AppProcess → Answer}

/-- A turn fails on the first store and not on the second: its edit, planned from the same
processes, is hindered in the first one. It has no effect there. -/
structure Hindered (o : Owners σ) (x : σ) (stopOthers : Bool) (now : Time)
    (reporter : AppProcess → Answer) (d : Deployment) (s other : Store) : Prop where
  edit : ∃ pair, Turn.pairOf s d = .ok pair ∧ Turn.pairOf other d = .ok pair ∧
    (pair.edit stopOthers).Hindered o x s other
  fails : ∃ asked,
    turn stopOthers now reporter d s = (⟨d.guid, asked, .error (.store .notARecord)⟩, s)
  differs : (turn stopOthers now reporter d s).1 ≠ (turn stopOthers now reporter d other).1

private theorem not_moved {asked : Option AppProcess} {e : UpdateError} (change : Change) :
    (Entry.mk d.guid asked (.error e)).result ≠ .ok (.moved change) := by
  intro h
  cases h

/-- A turn that fails for a row of somebody else differs from the other turn, or neither of them
has an effect. -/
private theorem hindered_or_alike (hs : s.Divided o) (ht : t.Divided o) (h : Same o x s t)
    {pair : Pair} (hpair : Turn.pairOf s d = .ok pair) (hpair' : Turn.pairOf t d = .ok pair)
    (hedit : (pair.edit stopOthers).Hindered o x s t) {asked : Option AppProcess}
    (hfails : turn stopOthers now reporter d s =
      (⟨d.guid, asked, .error (.store .notARecord)⟩, s)) :
    Hindered o x stopOthers now reporter d s t ∨
    ∃ entry, turn stopOthers now reporter d s = (entry, s) ∧
      turn stopOthers now reporter d t = (entry, t) ∧ Alike o x s t s t := by
  by_cases hsame : (turn stopOthers now reporter d s).1 = (turn stopOthers now reporter d t).1
  · have hstore : (turn stopOthers now reporter d t).2 = t := by
      apply store_of_turn
      rw [← hsame, hfails]
      exact not_moved
    refine .inr ⟨_, hfails, ?_, .refl hs ht h⟩
    rw [hfails] at hsame
    exact Prod.ext hsame.symm hstore
  · exact .inl ⟨⟨pair, hpair, hpair', hedit⟩, ⟨asked, hfails⟩, hsame⟩

/-- On stores with the same rows of its owner a turn ends in the same way and leaves the same rows
of the owner, unless its edit is hindered in one of them. -/
theorem turn_alike (hs : s.Divided o) (ht : t.Divided o) (h : Same o x s t)
    (hd : o.Deploys x d) (stopOthers : Bool) (now : Time) (reporter : AppProcess → Answer) :
    (∃ entry s' t', turn stopOthers now reporter d s = (entry, s') ∧
      turn stopOthers now reporter d t = (entry, t') ∧ Alike o x s t s' t') ∨
    Hindered o x stopOthers now reporter d s t ∨ Hindered o x stopOthers now reporter d t s := by
  have hpairs := Turn.pairOf_eq_of_same hs ht h hd
  cases hpair : Turn.pairOf s d with
  | error e =>
      have hpair' := hpairs ▸ hpair
      refine .inl ⟨⟨d.guid, none, .error e⟩, s, t, ?_, ?_, .refl hs ht h⟩
      · rw [turn, hpair]
      · rw [turn, hpair']
  | ok pair =>
      have hpair' := hpairs ▸ hpair
      have hplan := Turn.plans_of_pairOf hs hd hpair
      cases hready : Readiness.ofAnswer (reporter pair.new) with
      | unavailable text =>
          refine .inl ⟨⟨d.guid, some pair.new, .ok (.skipped (.unavailable text))⟩, s, t, ?_, ?_,
            .refl hs ht h⟩
          · simp only [turn, hpair, Turn.verdict, hready]
          · simp only [turn, hpair', Turn.verdict, hready]
      | notRunning running total =>
          refine .inl ⟨⟨d.guid, some pair.new, .ok (.skipped (.notRunning running total))⟩, s, t,
            ?_, ?_, .refl hs ht h⟩
          · simp only [turn, hpair, Turn.verdict, hready]
          · simp only [turn, hpair', Turn.verdict, hready]
      | ready =>
          have hturn : ∀ {u r u'}, Turn.pairOf u d = .ok pair →
              Turn.conclude stopOthers now d pair u = (r, u') →
              turn stopOthers now reporter d u = (⟨d.guid, some pair.new, r⟩, u') := by
            intro u r u' hu hrun
            simp only [turn, hu, Turn.verdict, hready, hrun]
          rcases Turn.conclude_alike hs ht h hplan stopOthers now with
            ⟨r, s', t', hrun, hrun', halike⟩ | ⟨hedit, hrun⟩ | ⟨hedit, hrun⟩
          · exact .inl ⟨_, s', t', hturn hpair hrun, hturn hpair' hrun', halike⟩
          · rcases hindered_or_alike hs ht h hpair hpair' hedit (hturn hpair hrun) with
              hhindered | ⟨entry, hleft, hright, halike⟩
            · exact .inr (.inl hhindered)
            · exact .inl ⟨entry, s, t, hleft, hright, halike⟩
          · rcases hindered_or_alike ht hs h.symm hpair' hpair hedit (hturn hpair' hrun) with
              hhindered | ⟨entry, hleft, hright, halike⟩
            · exact .inr (.inr hhindered)
            · exact .inl ⟨entry, s, t, hright, hleft, ⟨halike.right, halike.left, h⟩⟩

theorem deploys_of_mem_agenda (hs : s.Divided o) {ds : List Deployment} (hds : agenda s = .ok ds)
    (hd : d ∈ ds) : o.Deploys (o.deployment d.guid) d := by
  obtain ⟨hdeploying, y, hy⟩ := belongs_of_mem_select hs hds hd
  have hdeploys : o.Deploys y d := hy (of_decide_eq_true hdeploying)
  rw [hdeploys.guid]
  exact hdeploys

theorem within_turn (hs : s.Divided o) (hd : o.Deploys x d) (stopOthers : Bool) (now : Time)
    (reporter : AppProcess → Answer) :
    Within o x s (turn stopOthers now reporter d s).2 := by
  rcases turn_alike hs hs (Same.refl o x s) hd stopOthers now reporter with
    ⟨entry, s', t', hturn, _, halike⟩ | hhindered | hhindered
  · rw [hturn]
    exact halike.left
  · exact absurd rfl hhindered.differs
  · exact absurd rfl hhindered.differs

end Cycle
end Rollout
