import Rollout.Backend
import Rollout.Proofs.Instance
import Rollout.Proofs.Turn

/-!
# Doubt holds a deployment

From the exchange with the backend to the store: only a response with a status of success, whose
body decodes, gives instances, and only instances that are all running let a turn go on to its
commit. Whatever else happens the turn is skipped and nothing is written.
-/

namespace Rollout

/-- Whether the answer says of every instance that it is running. -/
def Readiness.allRunning : Answer → Bool
  | .ok instances => instances.values.all InstanceStatus.isRunning
  | .error _ => false

theorem Readiness.ofAnswer_eq_ready {answer : Answer} :
    ofAnswer answer = .ready ↔ allRunning answer = true := by
  cases answer with
  | error e => simp [ofAnswer, allRunning]
  | ok instances =>
      have hcount : instances.running = instances.size ↔
          ∀ status ∈ instances.values, status.isRunning = true := by
        rw [Instances.running, Table.size, ← List.length_map (fun row => row.2)]
        exact List.countP_eq_length
      rw [ofAnswer, allRunning, List.all_eq_true]
      split
      · next h => simpa using hcount.mp h
      · next h => simpa using fun hall => h (hcount.mpr hall)

/-- A status names its state by this string, in a member or as its first element. -/
inductive InstanceStatus.Names : Json → List Symbol → Prop where
  | member {members : List (List Symbol × Json)} {raw lexeme : List Symbol}
      (hmem : (raw, .string lexeme) ∈ members) (hraw : Json.meaning? raw = some "state") :
      Names (.object members) lexeme
  | element (lexeme : List Symbol) (rest : List Json) :
      Names (.array (.string lexeme :: rest)) lexeme

theorem InstanceStatus.Told.state_of_names {j : Json} {status : InstanceStatus}
    {lexeme : List Symbol} (h : Told j status) (hnames : Names j lexeme) :
    ∃ name, Json.meaning? lexeme = some name ∧ InstanceState.Named name status.state := by
  cases hnames with
  | member hmem hraw =>
      cases h with
      | object hlegible hstate htag hnamed =>
          obtain rfl := hlegible.unique (by decide) hstate ⟨_, hmem, hraw⟩
          cases htag with
          | string hname => exact ⟨_, hname, hnamed⟩
  | element rest =>
      cases h with
      | array htag hnamed =>
          cases htag with
          | string hname => exact ⟨_, hname, hnamed⟩

namespace Instances

def AllRunning (m : Instances) : Prop := ∀ i status, m.find? i = some status → status.isRunning

theorem allRunning_iff (m : Instances) :
    m.AllRunning ↔ m.values.all InstanceStatus.isRunning = true := by
  rw [List.all_eq_true]
  constructor
  · intro h status hmem
    obtain ⟨⟨i, _⟩, hrow, rfl⟩ := List.mem_map.mp hmem
    exact h i _ (Table.find?_eq_some_iff.mpr hrow)
  · intro h i status hfind
    exact h status (List.mem_map.mpr ⟨(i, status), Table.find?_eq_some_iff.mp hfind, rfl⟩)

/-- The body names, in the last member for its index, a state other than running. -/
inductive NamesOther (body : Bytes) : Prop where
  | intro {before after : List (List Symbol × Json)} {raw lexeme : List Symbol} {status : Json}
      {i : UInt32}
      (hbody : Json.ofBytes? body = some (.object (before ++ (raw, status) :: after)))
      (hindex : index? raw = some i)
      (hlast : ∀ member ∈ after, index? member.1 ≠ some i)
      (hnames : InstanceStatus.Names status lexeme)
      (hother : Json.meaning? lexeme ≠ some "RUNNING")

theorem not_allRunning_of_namesOther {body : Bytes} {m : Instances} (h : NamesOther body)
    (hm : ofBytes? body = some m) : ¬ m.AllRunning := by
  obtain ⟨hbody, hindex, hlast, hnames, hother⟩ := h
  rw [ofBytes?, hbody, Option.bind_some, ofJson?_eq_some_iff] at hm
  simp only [ne_eq, index?_eq_some_iff] at hindex hlast
  obtain ⟨i, status, hspelled, htold⟩ := hm.each _ (List.mem_append_right _ List.mem_cons_self)
  obtain rfl := spelled_injective (hindex.symm.trans hspelled)
  subst hindex
  have hfind := (hm.last _ status).mpr ⟨_, ⟨_, _, rfl, hlast⟩, htold⟩
  obtain ⟨name, hname, hnamed⟩ := htold.state_of_names hnames
  intro hall
  have hrunning := hall _ status hfind
  rw [InstanceStatus.isRunning, decide_eq_true_iff] at hrunning
  rw [hrunning] at hnamed
  cases hnamed
  exact hother hname

end Instances

namespace Backend

variable {b : Backend} {guid : Guid} {detail : String}

theorem answerOf_eq_ok {e : Exchange} {m : Instances} : b.answerOf guid detail e = .ok m ↔
    ∃ status body, e = .responded status (.ok body) ∧
      (200 ≤ status.code ∧ status.code < 300) ∧ Instances.ofBytes? body = some m := by
  have hsuccess : ∀ status : Http.Status,
      status.isSuccess = true ↔ 200 ≤ status.code ∧ status.code < 300 := by
    simp [Http.Status.isSuccess]
  constructor
  · intro h
    cases e with
    | responded status body =>
        by_cases hstatus : status.isSuccess = true
        · cases body with
          | error reason => simp [answerOf, bodyOf, hstatus, bind, Except.bind, Except.mapError] at h
          | ok body =>
              simp only [answerOf, bodyOf, hstatus, if_true, bind, Except.bind,
                Except.mapError] at h
              refine ⟨status, body, rfl, (hsuccess status).mp hstatus, ?_⟩
              cases hm : Instances.ofBytes? body with
              | none =>
                  rw [hm] at h
                  cases h
              | some m' =>
                  rw [hm] at h
                  exact congrArg some (Except.ok.inj h)
        · simp [answerOf, bodyOf, hstatus, bind, Except.bind] at h
    | _ => cases h
  · rintro ⟨status, body, rfl, hcode, hm⟩
    simp [answerOf, bodyOf, (hsuccess status).mpr hcode, hm, bind, Except.bind, Except.mapError,
      pure, Except.pure]

theorem exchange_eq_responded {c : Connection} {status : Http.Status} {body : Bytes} :
    b.exchange guid detail c = .responded status (.ok body) ↔
      ∃ bytes head rest framing, c = .answered bytes ∧ b.request? guid ≠ none ∧
        Http.Head.readFinal? (bytes.length + 1) bytes = some (head, rest) ∧ head.status = status ∧
        Http.Framing.ofHead? head = some framing ∧ framing.read? rest = some body := by
  constructor
  · intro h
    cases hrequest : b.request? guid with
    | none => cases c <;> simp [exchange, hrequest] at h
    | some request =>
        cases c with
        | answered bytes =>
            simp only [exchange, hrequest, Exchange.ofReply] at h
            split at h
            · cases h
            next head rest hhead =>
              split at h
              · cases h
              next framing hframing =>
                obtain ⟨hstatus, hread⟩ := Exchange.responded.inj h
                split at hread
                · next hbody =>
                    cases hread
                    exact ⟨bytes, head, rest, framing, rfl, by simp, hhead, hstatus, hframing, hbody⟩
                · cases hread
        | _ => simp [exchange, hrequest] at h
  · rintro ⟨bytes, head, rest, framing, rfl, hrequest, hhead, rfl, hframing, hbody⟩
    obtain ⟨request, hrequest⟩ := Option.ne_none_iff_exists'.mp hrequest
    simp only [exchange, hrequest, Exchange.ofReply, hhead, hframing, hbody]

/-- Over a connection, instances are answered only if the server sent a whole response in time. -/
theorem answer_eq_ok {c : Connection} {m : Instances} : b.answer guid detail c = .ok m ↔
    ∃ bytes head rest framing body, c = .answered bytes ∧ b.request? guid ≠ none ∧
      Http.Head.readFinal? (bytes.length + 1) bytes = some (head, rest) ∧
      (200 ≤ head.status.code ∧ head.status.code < 300) ∧
      Http.Framing.ofHead? head = some framing ∧ framing.read? rest = some body ∧
      Instances.ofBytes? body = some m := by
  rw [answer, answerOf_eq_ok]
  constructor
  · rintro ⟨status, body, hresponded, hcode, hm⟩
    obtain ⟨bytes, head, rest, framing, hc, hrequest, hhead, rfl, hframing, hbody⟩ :=
      exchange_eq_responded.mp hresponded
    exact ⟨bytes, head, rest, framing, body, hc, hrequest, hhead, hcode, hframing, hbody, hm⟩
  · rintro ⟨bytes, head, rest, framing, body, hc, hrequest, hhead, hcode, hframing, hbody, hm⟩
    exact ⟨head.status, body, exchange_eq_responded.mpr
      ⟨bytes, head, rest, framing, hc, hrequest, hhead, rfl, hframing, hbody⟩, hcode, hm⟩

end Backend

namespace Turn

/-- The reason for which a turn is held after this answer. -/
inductive Held : Answer → SkipReason → Prop where
  | unavailable (e : ReporterError) : Held (.error e) (.unavailable e.text)
  | notRunning (m : Instances) (h : m.runningIndices.ncard < m.indices.ncard) :
      Held (.ok m) (.notRunning m.runningIndices.ncard m.indices.ncard)

variable {s : Store} {d : Deployment} {pair : Pair}

theorem verdict_eq_commit {answer : Answer} :
    verdict pair answer = .commit pair ↔ ∃ m, answer = .ok m ∧ m.AllRunning := by
  have hready : verdict pair answer = .commit pair ↔ Readiness.ofAnswer answer = .ready := by
    rw [verdict]
    cases Readiness.ofAnswer answer <;> simp
  rw [hready, Readiness.ofAnswer_eq_ready]
  cases answer with
  | error e => simp [Readiness.allRunning]
  | ok m => simp [Readiness.allRunning, m.allRunning_iff]

theorem held_of_verdict {answer : Answer} (h : verdict pair answer ≠ .commit pair) :
    ∃ reason, verdict pair answer = .ended (.ok (.skipped reason)) ∧ Held answer reason := by
  cases answer with
  | error e => exact ⟨_, rfl, .unavailable e⟩
  | ok m =>
      rw [verdict, Readiness.ofAnswer] at h ⊢
      by_cases hready : m.running = m.size
      · simp [hready] at h
      · have hlt : m.running < m.size := by
          have hle : m.running ≤ m.values.length := List.countP_le_length
          rw [Table.values, List.length_map] at hle
          exact Nat.lt_of_le_of_ne hle hready
        rw [m.running_eq, m.size_eq] at hlt
        rw [if_neg hready, m.running_eq, m.size_eq]
        exact ⟨_, rfl, .notRunning m hlt⟩

/-- After three reads and the question, a turn whose records are in order stands at the verdict. -/
theorem alone_question (hpair : pairOf s d = .ok pair) (stopOthers : Bool) (now : Time)
    (answer : Answer) :
    alone stopOthers now (fun _ => answer) d 4 .readApp s = (verdict pair answer, s) := by
  obtain ⟨web, webish, hweb, hold, hwebish, hnew⟩ := pairOf_eq_ok.mp hpair
  simp [alone, step, continueWith, hweb, hold, hwebish, hnew]

end Turn

namespace Cycle

variable {s : Store} {d : Deployment} {pair : Pair} {stopOthers : Bool} {now : Time}
  {reporter : AppProcess → Answer}

theorem turn_of_commit (hpair : Turn.pairOf s d = .ok pair)
    (h : Turn.verdict pair (reporter pair.new) = .commit pair) :
    let after := Turn.conclude stopOthers now d pair s
    turn stopOthers now reporter d s = (⟨d.guid, some pair.new, after.1⟩, after.2) := by
  simp only [turn, hpair, h]

theorem turn_of_ended (hpair : Turn.pairOf s d = .ok pair) {r : Result}
    (h : Turn.verdict pair (reporter pair.new) = .ended r) :
    turn stopOthers now reporter d s = (⟨d.guid, some pair.new, r⟩, s) := by
  simp only [turn, hpair, h]

end Cycle

/-- Doubt holds a deployment, whatever the exchange with the backend comes to; without a doubt the
edit that is next is made. -/
theorem Cycle.turn_of_exchange {s : Store} {d : Deployment} {pair : Pair}
    (hpair : Turn.pairOf s d = .ok pair) (stopOthers : Bool) (now : Time) (b : Backend)
    (detail : String) (exchange : Guid → Exchange) :
    let answer := b.answerOf pair.new.guid detail (exchange pair.new.guid)
    let question := Turn.alone stopOthers now (fun _ => answer) d 4 .readApp s
    let turn := turn stopOthers now (fun p => b.answerOf p.guid detail (exchange p.guid)) d s
    (∀ m, answer = .ok m ↔ ∃ status body,
      exchange pair.new.guid = .responded status (.ok body) ∧
        (200 ≤ status.code ∧ status.code < 300) ∧ Instances.ofBytes? body = some m) ∧
    (question = (.commit pair, s) ↔ ∃ m, answer = .ok m ∧ m.AllRunning) ∧
    (question = (.commit pair, s) →
      let attempt := (pair.edit stopOthers).apply (pair.plan d) now s
      turn = (⟨d.guid, some pair.new, Turn.ofCommit attempt.1⟩, attempt.2)) ∧
    (question ≠ (.commit pair, s) → ∃ reason,
      turn = (⟨d.guid, some pair.new, .ok (.skipped reason)⟩, s) ∧ Turn.Held answer reason) ∧
    ∀ status body, exchange pair.new.guid = .responded status (.ok body) →
      Instances.NamesOther body → question ≠ (.commit pair, s) := by
  intro answer question turn
  have hquestion : question = (Turn.verdict pair answer, s) :=
    Turn.alone_question hpair stopOthers now answer
  have hcommit : question = (.commit pair, s) ↔ Turn.verdict pair answer = .commit pair := by
    rw [hquestion, Prod.mk.injEq, eq_self, and_true]
  refine ⟨fun _ => Backend.answerOf_eq_ok, hcommit.trans Turn.verdict_eq_commit, ?_, ?_, ?_⟩
  · intro h
    exact Cycle.turn_of_commit hpair (hcommit.mp h)
  · intro h
    obtain ⟨reason, hverdict, hheld⟩ := Turn.held_of_verdict (mt hcommit.mpr h)
    exact ⟨reason, Cycle.turn_of_ended hpair hverdict, hheld⟩
  · intro status body hresponded hnames h
    obtain ⟨m, hm, hall⟩ := Turn.verdict_eq_commit.mp (hcommit.mp h)
    obtain ⟨_, _, hresponded', _, hdecoded⟩ := Backend.answerOf_eq_ok.mp hm
    cases hresponded.symm.trans hresponded'
    exact Instances.not_allRunning_of_namesOther hnames hdecoded hall

namespace Sample

theorem pairOf_store (old new : UInt32) :
    Turn.pairOf (store old new) deployment = .ok ⟨web old, webish new⟩ := by
  have happ : (store old new).records.app "shop" = some app := by
    simp [records_store]
  have hold : (store old new).records.process "shop-1" = some (web old) := by
    simp [records_store]
  have hnew : (store old new).records.process "shop-2" = some (webish new) := by
    simp [records_store]
  exact Turn.pairOf_of_records (keyed_store old new) happ rfl hold rfl (by decide) hnew

def backend : Backend := ⟨"backend", 8080, "", .ofSecs 1⟩

/-- The only instance is running. -/
def certain : Bytes := Utf8.encode "\x7b\"0\":[\"RUNNING\",5,2]\x7d"

/-- One instance is running, the other is in a state without a name here. -/
def doubtful : Bytes := Utf8.encode "\x7b\"0\":[\"RUNNING\",5,2],\"1\":[\"EVACUATING\",0,9]\x7d"

theorem ofBytes?_certain :
    Instances.ofBytes? certain = some (.ofList [(0, ⟨.running, 5, 2⟩)]) := by
  have hbody : Json.ofBytes? certain = some (.object
      [("0".toList.map .char,
        .array [.string ("RUNNING".toList.map .char), .number ['5'], .number ['2']])]) := rfl
  rw [Instances.ofBytes?, hbody]
  rfl

theorem namesOther_doubtful : Instances.NamesOther doubtful := by
  have hbody : Json.ofBytes? doubtful = some (.object (
      [("0".toList.map .char,
        .array [.string ("RUNNING".toList.map .char), .number ['5'], .number ['2']])] ++
      [("1".toList.map .char,
        .array [.string ("EVACUATING".toList.map .char), .number ['0'], .number ['9']])])) := rfl
  exact .intro hbody rfl (by simp) (.element _ _) (by decide)

/-- A reply with this body, which ends with the connection. -/
def reply (body : Bytes) : Bytes := Utf8.encode "HTTP/1.1 200 OK\r\n\r\n" ++ body

theorem request?_ne_none : backend.request? "shop-2" ≠ none := by decide +kernel

theorem exchange_certain :
    backend.exchange "shop-2" "" (.answered (reply certain)) = .responded ⟨200⟩ (.ok certain) := by
  refine Backend.exchange_eq_responded.mpr
    ⟨_, ⟨.http11, ⟨200⟩, []⟩, certain, .untilClose, rfl, request?_ne_none, ?_, rfl, rfl, rfl⟩
  decide +kernel

theorem exchange_doubtful :
    backend.exchange "shop-2" "" (.answered (reply doubtful)) =
      .responded ⟨200⟩ (.ok doubtful) := by
  refine Backend.exchange_eq_responded.mpr
    ⟨_, ⟨.http11, ⟨200⟩, []⟩, doubtful, .untilClose, rfl, request?_ne_none, ?_, rfl, rfl, rfl⟩
  decide +kernel

end Sample

/-- The first of these replies moves the deployment, the second one holds it. -/
theorem Cycle.turn_of_exchange_sample :
    let s := Sample.store 2 1
    let answer := fun (reply : Bytes) (p : AppProcess) =>
      Sample.backend.answer p.guid "" (.answered reply)
    Turn.pairOf s Sample.deployment = .ok ⟨Sample.web 2, Sample.webish 1⟩ ∧
      (∃ s', turn true 5 (answer (Sample.reply Sample.certain)) Sample.deployment s =
          (⟨"rollout", some (Sample.webish 1), .ok (.moved (.stepped 1 2))⟩, s') ∧
        s'.records.process "shop-1" = some { Sample.web 1 with updatedAt := 5 } ∧
        s'.records.process "shop-2" = some { Sample.webish 2 with updatedAt := 5 }) ∧
      ∃ reason, turn true 5 (answer (Sample.reply Sample.doubtful)) Sample.deployment s =
        (⟨"rollout", some (Sample.webish 1), .ok (.skipped reason)⟩, s) := by
  intro s answer
  have hpair := Sample.pairOf_store 2 1
  refine ⟨hpair, ?_, ?_⟩
  · obtain ⟨hanswer, hready, hmoves, -, -⟩ :=
      turn_of_exchange hpair true 5 Sample.backend "" fun guid =>
        Sample.backend.exchange guid "" (.answered (Sample.reply Sample.certain))
    have hdecoded := (hanswer _).mpr
      ⟨_, _, Sample.exchange_certain, by decide, Sample.ofBytes?_certain⟩
    have hturn := hmoves (hready.mpr ⟨_, hdecoded, (Instances.allRunning_iff _).mpr rfl⟩)
    let attempt := (Edit.step 2 1).apply ⟨"rollout", "shop-1", "shop-2"⟩ 5 s
    obtain ⟨hchange, hold, hnew⟩ : attempt.1 = .ok (.stepped 1 2) ∧
        attempt.2.records.process "shop-1" = some { Sample.web 1 with updatedAt := 5 } ∧
        attempt.2.records.process "shop-2" = some { Sample.webish 2 with updatedAt := 5 } := by
      decide +kernel
    have hresult : Turn.ofCommit attempt.1 = .ok (.moved (.stepped 1 2)) :=
      congrArg Turn.ofCommit hchange
    refine ⟨attempt.2, ?_, hold, hnew⟩
    rw [← hresult]
    exact hturn
  · obtain ⟨-, -, -, hheld, hdoubt⟩ :=
      turn_of_exchange hpair true 5 Sample.backend "" fun guid =>
        Sample.backend.exchange guid "" (.answered (Sample.reply Sample.doubtful))
    have hquestion := hdoubt ⟨200⟩ _ Sample.exchange_doubtful Sample.namesOther_doubtful
    obtain ⟨reason, hturn, _⟩ := hheld hquestion
    exact ⟨reason, hturn⟩

end Rollout
