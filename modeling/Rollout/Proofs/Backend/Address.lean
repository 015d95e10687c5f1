import Rollout.Backend
import Rollout.Proofs.Uri

/-!
# Where a backend is connected to

The text of a URL is taken apart in one way only: a user, a host, what is written behind the host,
and the rest. A backend has the host, and the port that is written behind it or the default one. A
port that is written and is no number is not told from one that is left out.
-/

namespace Rollout
namespace Uri

/-- The text of a URL. The user goes up to the last at sign; the rest begins with the path. -/
@[ext]
structure Parts where
  scheme : List Char
  user : List Char
  host : List Char
  tail : List Char
  rest : List Char

/-- A host is a bracketed address, or a name up to the first colon. -/
inductive IsHost : List Char → List Char → Prop where
  | address {inner tail : List Char} (hinner : ']' ∉ inner) : IsHost ('[' :: inner ++ [']']) tail
  | name {host tail : List Char} (hbracket : host.head? ≠ some '[') (hcolon : ':' ∉ host)
      (htail : ∀ c ∈ tail.head?, c = ':') : IsHost host tail

theorem IsHost.host_of_location {a : Authority} {host tail : List Char} (h : IsHost host tail)
    (hlocation : a.location = host ++ tail) : a.host = host := by
  rw [Authority.host, hlocation]
  cases h with
  | @address inner _ hinner =>
      have hrun : (inner ++ ']' :: tail).takeWhile (· ≠ ']') = inner :=
        List.takeWhile_ne_append hinner fun c hc => (Option.some.inj hc).symm
      simp only [List.cons_append, List.append_assoc, List.nil_append, hrun]
  | name hbracket hcolon htail =>
      split
      · next rest hopen =>
          cases host with
          | nil => exact absurd (htail '[' (congrArg List.head? hopen)) (by decide)
          | cons c host => exact absurd (congrArg List.head? hopen) hbracket
      · exact List.takeWhile_ne_append hcolon htail

theorem IsHost.bounded {host tail port : List Char} (h : IsHost host tail) (hport : ']' ∉ port) :
    ':' ∉ host ∨ ∀ c ∈ host.getLast?, c ∉ ':' :: port := by
  cases h with
  | @address inner =>
      refine .inr fun c hc => ?_
      rw [List.getLast?_concat, Option.mem_some_iff] at hc
      exact hc ▸ List.not_mem_cons_of_ne_of_not_mem (by decide) hport
  | name _ hcolon => exact .inl hcolon

/-- Digits, perhaps after a plus sign, that spell a number of 16 bits. -/
def IsPort (port : List Char) (n : UInt16) : Prop :=
  ∃ digits, (port = digits ∨ port = '+' :: digits) ∧ digits ≠ [] ∧
    (∀ c ∈ digits, Json.Number.isDigit c = true) ∧ Json.Number.valueOf digits = n.toNat

private theorem port?_of_digits {digits : List Char} {n : UInt16} :
    (if digits ≠ [] && digits.all Json.Number.isDigit && Json.Number.valueOf digits < 65536 then
      some (UInt16.ofNat (Json.Number.valueOf digits)) else none) = some n ↔
      digits ≠ [] ∧ (∀ c ∈ digits, Json.Number.isDigit c = true) ∧
        Json.Number.valueOf digits = n.toNat := by
  simp only [Option.ite_none_right_eq_some, Bool.and_eq_true, decide_eq_true_eq, List.all_eq_true,
    Option.some.injEq, and_assoc]
  refine and_congr_right fun _ => and_congr_right fun _ => ?_
  constructor
  · rintro ⟨hlt, rfl⟩
    exact (UInt16.toNat_ofNat_of_lt hlt).symm
  · intro hvalue
    rw [hvalue, UInt16.ofNat_toNat]
    exact ⟨n.toNat_lt, rfl⟩

theorem port?_eq_some_iff {cs : List Char} {n : UInt16} : port? cs = some n ↔ IsPort cs n := by
  unfold port?
  rw [port?_of_digits, IsPort]
  constructor
  · rintro ⟨hne, hdigits, hvalue⟩
    refine ⟨_, ?_, hne, hdigits, hvalue⟩
    split
    · exact .inr rfl
    · exact .inl rfl
  · rintro ⟨digits, rfl | rfl, hne, hdigits, hvalue⟩
    · split
      · exact absurd (hdigits '+' List.mem_cons_self) (by decide)
      · exact ⟨hne, hdigits, hvalue⟩
    · exact ⟨hne, hdigits, hvalue⟩

theorem IsPort.ne_nil {n : UInt16} : ¬ IsPort [] n := by
  rintro ⟨digits, rfl | h, hne, -⟩
  · exact hne rfl
  · cases h

theorem IsPort.not_mem {port : List Char} {n : UInt16} (h : IsPort port n) {c : Char}
    (hc : Json.Number.isDigit c = false) (hplus : c ≠ '+') : c ∉ port := by
  obtain ⟨digits, hport, -, hdigits, -⟩ := h
  have hmem : c ∉ digits := fun hmem => Bool.false_ne_true (hc.symm.trans (hdigits c hmem))
  rcases hport with rfl | rfl
  · exact hmem
  · exact List.not_mem_cons_of_ne_of_not_mem hplus hmem

namespace Parts

variable {p q : Parts} {url : String}

def authority (p : Parts) : Authority := ⟨p.user ++ (p.host ++ p.tail)⟩

/-- These are the parts of a URL. -/
structure Of (p : Parts) (url : String) : Prop where
  text : url.toList = p.scheme ++ "://".toList ++ (p.authority.chars ++ p.rest)
  scheme : p.scheme.map Char.toLower = "http".toList
  user : ∀ c ∈ p.user.getLast?, c = '@'
  located : '@' ∉ p.host ++ p.tail
  host : IsHost p.host p.tail
  whole : ∀ c ∈ p.authority.chars, Authority.isEnd c = false
  rest : ∀ c ∈ p.rest.head?, Authority.isEnd c = true

/-- What is written for a port follows the last colon, unless a bracket closes after it. -/
def Writes (p : Parts) (port : List Char) : Prop :=
  ∃ before, p.tail = before ++ ':' :: port ∧ ':' ∉ port ∧ ']' ∉ port

/-- The port that the URL asks for: the number that is written, or the default one if none is. -/
inductive Asks (p : Parts) : UInt16 → Prop where
  | written {port : List Char} {n : UInt16} (hport : p.Writes port) (hn : IsPort port n) : Asks p n
  | unwritten (hport : ∀ port, p.Writes port → port = []) : Asks p Backend.defaultPort

theorem Of.location_eq (h : p.Of url) : p.authority.location = p.host ++ p.tail := by
  rw [Authority.location, Parts.authority]
  cases hlast : p.user.getLast? with
  | none =>
      rw [List.getLast?_eq_none_iff.mp hlast, List.nil_append, afterLast?_of_not_mem h.located]
      rfl
  | some c =>
      obtain rfl := h.user c hlast
      obtain ⟨before, huser⟩ := List.getLast?_eq_some_iff.mp hlast
      rw [huser, List.append_assoc, List.singleton_append, afterLast?_append h.located]
      rfl

theorem Of.host_eq (h : p.Of url) : p.authority.host = p.host :=
  h.host.host_of_location h.location_eq

/-- A URL has one set of parts at most. -/
theorem Of.unique (hp : p.Of url) (hq : q.Of url) : q = p := by
  obtain ⟨hscheme, hbehind⟩ := scheme_unique (hq.text.symm.trans hp.text) hq.scheme hp.scheme
  obtain ⟨hchars, hrest⟩ := Authority.end_unique hbehind hq.whole hq.rest hp.whole hp.rest
  have hauthority : q.authority = p.authority := congrArg Authority.mk hchars
  have hlocation : q.host ++ q.tail = p.host ++ p.tail := by
    rw [← hq.location_eq, hauthority, hp.location_eq]
  have hhost : q.host = p.host := by
    rw [← hq.host_eq, hauthority, hp.host_eq]
  have htail : q.tail = p.tail := by
    rw [hhost] at hlocation
    exact List.append_cancel_left hlocation
  have huser : q.user = p.user := by
    rw [Parts.authority, hlocation] at hchars
    exact List.append_cancel_right hchars
  exact Parts.ext hscheme huser hhost htail hrest

private theorem behind_of_append {front behind before port : List Char} {mark : Char}
    (h : front ++ behind = before ++ mark :: port)
    (hfront : mark ∉ front ∨ ∀ c ∈ front.getLast?, c ∉ mark :: port) :
    ∃ before', behind = before' ++ mark :: port := by
  rcases List.append_eq_append_iff.mp h with ⟨between, -, hbehind⟩ | ⟨between, rfl, hport⟩
  · exact ⟨between, hbehind⟩
  · cases between with
    | nil => exact ⟨[], hport.symm⟩
    | cons c between =>
        exfalso
        obtain ⟨rfl, rfl⟩ := List.cons.inj hport
        rcases hfront with hmark | hlast
        · exact hmark (List.mem_append_right before List.mem_cons_self)
        · have hsome := List.getLast?_eq_some_getLast (List.cons_ne_nil mark between)
          refine hlast _ ?_ (List.mem_append_left behind (List.getLast_mem (List.cons_ne_nil _ _)))
          rw [List.getLast?_append, hsome, Option.some_or]
          exact Option.mem_some_self _

theorem Of.port?_eq_some_iff (h : p.Of url) {n : UInt16} :
    p.authority.port? = some n ↔ ∃ port, p.Writes port ∧ IsPort port n := by
  rw [Authority.port?, Option.bind_eq_some_iff]
  simp only [Uri.port?_eq_some_iff, afterLast?_eq_some_iff]
  constructor
  · rintro ⟨port, ⟨⟨before, hchars⟩, hcolon⟩, hport⟩
    have hbracket : ']' ∉ port := hport.not_mem (by decide) (by decide)
    have hat : '@' ∉ port := hport.not_mem (by decide) (by decide)
    obtain ⟨before', hlocation⟩ := behind_of_append hchars (.inr fun c hc => by
      rw [h.user c hc]
      exact List.not_mem_cons_of_ne_of_not_mem (by decide) hat)
    obtain ⟨before'', htail⟩ := behind_of_append hlocation (h.host.bounded hbracket)
    exact ⟨port, ⟨before'', htail, hcolon, hbracket⟩, hport⟩
  · rintro ⟨port, ⟨before, htail, hcolon, -⟩, hport⟩
    refine ⟨port, ⟨⟨p.user ++ (p.host ++ before), ?_⟩, hcolon⟩, hport⟩
    simp [Parts.authority, htail]

theorem Asks.port_eq (h : p.Of url) {n : UInt16} (hn : p.Asks n) :
    p.authority.port?.getD Backend.defaultPort = n := by
  cases hn with
  | written hport hn =>
      rw [h.port?_eq_some_iff.mpr ⟨_, hport, hn⟩]
      rfl
  | unwritten hnone =>
      have hport : p.authority.port? = none := by
        refine Option.eq_none_iff_forall_ne_some.mpr fun n hsome => ?_
        obtain ⟨port, hport, hn⟩ := h.port?_eq_some_iff.mp hsome
        obtain rfl := hnone port hport
        exact IsPort.ne_nil hn
      rw [hport]
      rfl

/-- A URL asks for no port only if one is written that is no number, and then none is read. -/
theorem Of.not_asks (h : p.Of url) (hnone : ∀ n, ¬ p.Asks n) :
    p.authority.port? = none ∧ ∃ port, p.Writes port ∧ port ≠ [] ∧ ∀ n, ¬ IsPort port n := by
  constructor
  · refine Option.eq_none_iff_forall_ne_some.mpr fun n hsome => ?_
    obtain ⟨port, hport, hn⟩ := h.port?_eq_some_iff.mp hsome
    exact hnone n (.written hport hn)
  · by_contra hwritten
    refine hnone _ (.unwritten fun port hport => ?_)
    by_contra hne
    exact hwritten ⟨port, hport, hne, fun n hn => hnone n (.written hport hn)⟩

theorem exists_isHost {location : List Char}
    (hclose : ∀ after, location = '[' :: after → ']' ∈ after) :
    ∃ host tail, location = host ++ tail ∧ IsHost host tail := by
  by_cases hopen : location.head? = some '['
  · obtain ⟨after, rfl⟩ := List.head?_eq_some_iff.mp hopen
    obtain ⟨inner, tail, rfl, hinner⟩ := List.eq_append_cons_of_mem (hclose after rfl)
    exact ⟨'[' :: inner ++ [']'], tail, by simp, .address hinner⟩
  · obtain ⟨hlocation, hcolon, hhead⟩ :=
      (@List.takeWhile_drop_iff Char (· ≠ ':') location _ _).mp ⟨rfl, rfl⟩
    refine ⟨_, _, hlocation, .name (fun hbracket => hopen ?_) (fun hmem => ?_) fun c hc => ?_⟩
    · have hhead := congrArg List.head? hlocation
      rwa [List.head?_append, hbracket] at hhead
    · exact of_decide_eq_true (hcolon ':' hmem) rfl
    · exact not_not.mp (of_decide_eq_false (hhead c hc))

theorem exists_of_parse? {a : Authority} {t : Resolved}
    (h : parse? url = some (.full "http".toList a t)) :
    ∃ p : Parts, p.Of url ∧ p.authority = a ∧ Resolved.parse? p.rest = some t := by
  obtain ⟨-, scheme, rest, htext, hscheme, hwhole, hrest, hvalid, -, ht⟩ := parse?_eq_http_iff.mp h
  obtain ⟨user, location, hchars, huser, hlocated⟩ : ∃ user location, a.chars = user ++ location ∧
      (∀ c ∈ user.getLast?, c = '@') ∧ '@' ∉ location := by
    cases hlast : afterLast? '@' a.chars with
    | none => exact ⟨[], a.chars, rfl, by simp, afterLast?_eq_none_iff.mp hlast⟩
    | some location =>
        obtain ⟨⟨before, hchars⟩, hlocated⟩ := afterLast?_eq_some_iff.mp hlast
        exact ⟨before ++ ['@'], location, by simp [hchars], by simp, hlocated⟩
  obtain ⟨host, tail, rfl, hhost⟩ := @exists_isHost location fun after hopen =>
    @Authority.closes_of_isValid user after (by rw [← hopen, ← hchars]; exact hvalid)
  have hauthority : (⟨user ++ (host ++ tail)⟩ : Authority) = a := congrArg Authority.mk hchars.symm
  refine ⟨⟨scheme, user, host, tail, rest⟩, ⟨?_, hscheme, huser, hlocated, hhost, ?_, hrest⟩,
    hauthority, ht⟩
  · rw [htext, Parts.authority, hauthority]
  · rw [Parts.authority, hauthority]
    exact hwhole

end Parts
end Uri

namespace Backend

theorem ofUrl_eq_ok_iff {url : String} {timeout : Duration} {b : Backend} :
    ofUrl url timeout = .ok b ↔ ∃ a t, Uri.parse? url = some (.full "http".toList a t) ∧
      b = ⟨String.ofList a.host, a.port?.getD defaultPort, String.ofList (trimSlashes t.path),
        timeout⟩ := by
  rw [ofUrl]
  constructor
  · intro h
    split at h
    · cases h
    · next scheme a t hparse =>
        split_ifs at h with hscheme
        exact ⟨a, t, hscheme ▸ hparse, (Except.ok.inj h).symm⟩
    · cases h
  · rintro ⟨a, t, hparse, rfl⟩
    simp only [hparse, if_true]

/-- A URL is refused, or the backend is connected to where it says: to its host, and to the port
that it asks for. A URL asks for no port when one is written that is no number; it is not refused,
and the default one takes the place. -/
theorem ofUrl_connects (url : String) (timeout : Duration) :
    ((∃ b, ofUrl url timeout = .ok b) ↔
      ∃ a t, Uri.parse? url = some (.full "http".toList a t)) ∧
    (∀ e, ofUrl url timeout = .error e →
      ∀ detail, ∃ text, e.report url detail = .invalidUrl text) ∧
    ∀ b, ofUrl url timeout = .ok b →
      ∃ p : Uri.Parts, p.Of url ∧ (∀ q : Uri.Parts, q.Of url → q = p) ∧
        b.address = String.ofList p.host ++ ":" ++ toString b.port.toNat ∧
        (∀ n, p.Asks n → b.port = n) ∧
        ((∀ n, ¬ p.Asks n) → b.port = defaultPort ∧
          ∃ port, p.Writes port ∧ port ≠ [] ∧ ∀ n, ¬ Uri.IsPort port n) := by
  refine ⟨?_, ?_, ?_⟩
  · simp only [ofUrl_eq_ok_iff]
    constructor
    · rintro ⟨_, a, t, hparse, -⟩
      exact ⟨a, t, hparse⟩
    · rintro ⟨a, t, hparse⟩
      exact ⟨_, a, t, hparse, rfl⟩
  · intro e _ detail
    cases e <;> exact ⟨_, rfl⟩
  · intro b hb
    obtain ⟨a, t, hparse, rfl⟩ := ofUrl_eq_ok_iff.mp hb
    obtain ⟨p, hp, rfl, -⟩ := Uri.Parts.exists_of_parse? hparse
    refine ⟨p, hp, fun q hq => hp.unique hq, ?_, fun n hn => hn.port_eq hp, fun hnone => ?_⟩
    · rw [hp.host_eq]
      rfl
    · obtain ⟨hport, hwritten⟩ := hp.not_asks hnone
      exact ⟨by rw [hport]; rfl, hwritten⟩

/-- A user with a colon, an address with colons, and a port that is no number. -/
theorem ofUrl_connects_sample :
    let url := "http://u:1@[::1]:99999/api/"
    let p : Uri.Parts :=
      ⟨"http".toList, "u:1@".toList, "[::1]".toList, ":99999".toList, "/api/".toList⟩
    p.Of url ∧ p.Writes "99999".toList ∧ (∀ n, ¬ p.Asks n) ∧
      ∃ b, ofUrl url (.ofSecs 1) = .ok b ∧ b.address = "[::1]:80" := by
  intro url p
  have hp : p.Of url :=
    ⟨by decide +kernel, by decide +kernel, by simp [p], by decide +kernel,
      @Uri.IsHost.address "::1".toList _ (by decide +kernel),
      by simp [p, Uri.Parts.authority, Authority.isEnd], by simp [p, Authority.isEnd]⟩
  have hwrites : p.Writes "99999".toList := ⟨[], rfl, by decide, by decide⟩
  have hport : Uri.port? "99999".toList = none := by decide
  have hnone : ∀ n, ¬ p.Asks n := by
    rintro n (⟨⟨before, htail, hcolon, -⟩, hn⟩ | hunwritten)
    · have hlast := Uri.afterLast?_eq_some_iff.mpr ⟨⟨before, htail⟩, hcolon⟩
      obtain rfl := Option.some.inj (hlast.symm.trans (by decide : _ = some "99999".toList))
      cases hport.symm.trans (Uri.port?_eq_some_iff.mpr hn)
    · exact absurd (hunwritten _ hwrites) (by decide)
  obtain ⟨haccepts, -, hconnects⟩ := ofUrl_connects url (.ofSecs 1)
  obtain ⟨b, hb⟩ :=
    haccepts.mpr ⟨⟨"u:1@[::1]:99999".toList⟩, ⟨"/api/".toList, none⟩, by decide +kernel⟩
  obtain ⟨p', -, hunique, haddress, -, hdefault⟩ := hconnects b hb
  obtain rfl := hunique p hp
  obtain ⟨hport, -⟩ := hdefault hnone
  rw [hport] at haddress
  exact ⟨hp, hwrites, hnone, b, hb, haddress⟩

end Backend
end Rollout
