import Rollout.Proofs.Backend.Address
import Mathlib.Data.List.DropRight

/-!
# What a backend is asked for

A request names the resource of a process by its guid as it stands. What follows the first mark of
a fragment is not sent: a guid without the mark is sent whole, and two of them never come to the
same target; of a guid with the mark neither its end nor the end of the path is sent.
-/

namespace Rollout

/-- The path of a URL stands before a query or a fragment. -/
def Uri.Parts.path (p : Uri.Parts) : List Char := p.rest.takeWhile fun c => c ≠ '?' && c ≠ '#'

namespace Backend

/-- A path without the slashes at its end. -/
structure IsBase (base path : List Char) : Prop where
  path : ∃ slashes, path = base ++ slashes ∧ ∀ c ∈ slashes, c = '/'
  trimmed : base.getLast? ≠ some '/'

theorem isBase_trimSlashes (path : List Char) : IsBase (trimSlashes path) path := by
  have htrim : trimSlashes path = path.rdropWhile (· = '/') := rfl
  rw [htrim]
  constructor
  · refine ⟨path.rtakeWhile (· = '/'), List.rdropWhile_append_rtakeWhile.symm, fun c hc => ?_⟩
    have hclass := List.mem_rtakeWhile_imp hc
    exact of_decide_eq_true hclass
  · intro hlast
    have hne : path.rdropWhile (· = '/') ≠ [] := fun hnil => by simp [hnil] at hlast
    rw [List.getLast?_eq_some_getLast hne] at hlast
    exact List.rdropWhile_last_not _ path hne (decide_eq_true (Option.some.inj hlast))

/-- What a URL makes of a backend. -/
structure Made (b : Backend) (p : Uri.Parts) : Prop where
  host : b.host.toList = p.host
  base : IsBase b.base.toList p.path

theorem made_of_ofUrl {url : String} {timeout : Duration} {b : Backend}
    (h : ofUrl url timeout = .ok b) : ∃ p : Uri.Parts, p.Of url ∧ b.Made p := by
  obtain ⟨a, t, hparse, rfl⟩ := ofUrl_eq_ok_iff.mp h
  obtain ⟨p, hp, rfl, ht⟩ := Uri.Parts.exists_of_parse? hparse
  refine ⟨p, hp, ?_, ?_⟩
  · rw [String.toList_ofList, hp.host_eq]
  · rw [String.toList_ofList, Uri.Parts.path, ← Resolved.path_of_parse? ht]
    exact isBase_trimSlashes t.path

/-- What is sent of a guid and the end of its path. -/
def sent (guid : Guid) : List Char := (guid ++ "/instances").toList.takeWhile (· ≠ '#')

/-- The resources of all processes are below this one. -/
def root (b : Backend) : String := "http://" ++ b.address ++ b.base ++ "/v1/processes/"

theorem sent_eq_iff {guid : Guid} :
    sent guid = (guid ++ "/instances").toList ↔ '#' ∉ guid.toList := by
  have hend : '#' ∉ "/instances".toList := by decide
  rw [sent, List.takeWhile_eq_self_iff, String.toList_append]
  constructor
  · intro h hmem
    exact of_decide_eq_true (h '#' (List.mem_append_left _ hmem)) rfl
  · intro h c hc
    refine decide_eq_true fun heq => ?_
    rcases List.mem_append.mp (heq ▸ hc) with hmem | hmem
    · exact h hmem
    · exact hend hmem

section Request

variable {b : Backend} {url : String} {p : Uri.Parts} {guid : Guid} {r : Request}

theorem Made.isEnd_address (h : b.Made p) (hp : p.Of url) :
    ∀ c ∈ b.address.toList, Authority.isEnd c = false := by
  have haddress : b.address.toList = p.host ++ ':' :: Nat.toDigits 10 b.port.toNat := by
    have hport : (toString b.port.toNat).toList = Nat.toDigits 10 b.port.toNat :=
      String.toList_ofList
    simp only [address, String.toList_append, hport, ← h.host, List.append_assoc]
    rfl
  intro c hc
  rw [haddress, List.mem_append, List.mem_cons] at hc
  rcases hc with hhost | rfl | hdigit
  · exact hp.whole c (by simp [Uri.Parts.authority, hhost])
  · rfl
  · have hclass : c.isDigit = true := Nat.isDigit_of_mem_toDigits (by decide) (by decide) hdigit
    by_contra hend
    simp only [Authority.isEnd, Bool.not_eq_false, Bool.or_eq_true, decide_eq_true_eq] at hend
    rcases hend with (rfl | rfl) | rfl <;> exact absurd hclass (by decide)

theorem Made.path_cons (h : b.Made p) (hp : p.Of url) (guid : Guid) :
    ∃ cs, (b.path guid).toList = '/' :: cs := by
  obtain ⟨⟨slashes, hpath, -⟩, -⟩ := h.base
  rw [path, String.toList_append, String.toList_append, String.toList_append]
  cases hbase : b.base.toList with
  | nil => exact ⟨_, rfl⟩
  | cons c cs =>
      rw [hbase, List.cons_append] at hpath
      obtain ⟨behind, hrest⟩ := List.takeWhile_prefix (l := p.rest) fun c => c ≠ '?' && c ≠ '#'
      rw [← Uri.Parts.path, hpath] at hrest
      have hend := hp.rest c (by rw [← hrest]; rfl)
      have hmem : c ∈ p.path := hpath ▸ List.mem_cons_self
      have hclass := List.mem_takeWhile_imp hmem
      simp only [Bool.and_eq_true, decide_eq_true_eq] at hclass
      simp only [Authority.isEnd, hclass, decide_false, Bool.or_false, decide_eq_true_eq] at hend
      exact ⟨_, by rw [hend]; rfl⟩

theorem Made.mark_not_mem (h : b.Made p) : '#' ∉ b.base.toList ++ "/v1/processes/".toList := by
  obtain ⟨⟨slashes, hpath, -⟩, -⟩ := h.base
  rw [List.mem_append, not_or]
  refine ⟨fun hmem => ?_, by decide⟩
  have hmem : '#' ∈ p.path := hpath ▸ List.mem_append_left slashes hmem
  have hclass := List.mem_takeWhile_imp hmem
  exact absurd hclass (by decide)

theorem Made.target_text (h : b.Made p) (hp : p.Of url) (hr : b.request? guid = some r) :
    r.target.text = b.root.toList ++ sent guid := by
  obtain ⟨target, hparse, rfl⟩ := Option.map_eq_some_iff.mp hr
  have huri : (b.uri guid).toList =
      "http".toList ++ "://".toList ++ (b.address.toList ++ (b.path guid).toList) := by
    simp [uri]
  have hhttp : "http".toList.map Char.toLower = "http".toList := by decide
  obtain ⟨a, t, rfl⟩ := Uri.full_of_parse? huri hhttp hparse
  obtain ⟨-, scheme, rest, htext, hscheme, hwhole, hrest, -, -, ht⟩ :=
    Uri.parse?_eq_http_iff.mp hparse
  obtain ⟨rfl, hbehind⟩ := Uri.scheme_unique (huri.symm.trans htext) hhttp hscheme
  obtain ⟨cs, hpath⟩ := h.path_cons hp guid
  obtain ⟨haddress, rfl⟩ := Authority.end_unique hbehind (h.isEnd_address hp)
    (by rw [hpath]; rintro c hc; cases hc; rfl) hwhole hrest
  rw [hpath] at ht
  change "http".toList ++ "://".toList ++ a.chars ++ t.text = _
  have hresource : (b.path guid).toList =
      b.base.toList ++ "/v1/processes/".toList ++ (guid ++ "/instances").toList := by
    simp [path]
  rw [Resolved.text_of_parse? ht, ← hpath, ← haddress, hresource, List.takeWhile_append_of_pos]
  · simp [root, sent]
  · exact fun c hc => decide_eq_true fun heq => h.mark_not_mem (heq ▸ hc)

theorem request?_of_received? {c : Connection} (h : b.received? guid c = some r) :
    b.request? guid = some r := by
  cases c with
  | answered bytes => exact h
  | refused | stalled | dropped => cases h

end Request

/-- What a server reads is the root of the backend, which is that of its URL, with what is sent of
the guid. All is sent of a guid without the mark of a fragment, so that two of these have targets of
their own. With the mark they need not. -/
theorem received_targets {url : String} {timeout : Duration} {b : Backend}
    (hb : ofUrl url timeout = .ok b) {g₁ g₂ : Guid} (hne : g₁ ≠ g₂) {c₁ c₂ : Connection}
    {r₁ r₂ : Request} (h₁ : b.received? g₁ c₁ = some r₁) (h₂ : b.received? g₂ c₂ = some r₂) :
    (∃ p : Uri.Parts, p.Of url ∧ IsBase b.base.toList p.path) ∧
      r₁.target.text = b.root.toList ++ sent g₁ ∧ r₂.target.text = b.root.toList ++ sent g₂ ∧
      (∀ g, sent g = (g ++ "/instances").toList ↔ '#' ∉ g.toList) ∧
      (r₁.target.text = r₂.target.text ↔ sent g₁ = sent g₂) ∧
      ('#' ∉ g₁.toList → '#' ∉ g₂.toList → r₁.target.text ≠ r₂.target.text) := by
  obtain ⟨p, hp, hmade⟩ := made_of_ofUrl hb
  have htext₁ := hmade.target_text hp (request?_of_received? h₁)
  have htext₂ := hmade.target_text hp (request?_of_received? h₂)
  have hsame : r₁.target.text = r₂.target.text ↔ sent g₁ = sent g₂ := by
    rw [htext₁, htext₂, List.append_cancel_left_eq]
  refine ⟨⟨p, hp, hmade.base⟩, htext₁, htext₂, fun g => sent_eq_iff, hsame, fun hg₁ hg₂ heq => ?_⟩
  have hguids := hsame.mp heq
  rw [sent_eq_iff.mpr hg₁, sent_eq_iff.mpr hg₂, String.toList_append, String.toList_append] at hguids
  exact hne (String.toList_inj.mp (List.append_cancel_right hguids))

/-- The instances of two processes are asked for in one place. -/
theorem received_targets_sample :
    let b : Backend := ⟨"127.0.0.1", 8080, "/api", .ofSecs 1⟩
    ofUrl "http://127.0.0.1:8080/api//" (.ofSecs 1) = .ok b ∧ "p#1" ≠ "p#2" ∧
      ∃ r₁ r₂, b.received? "p#1" (.answered []) = some r₁ ∧
        b.received? "p#2" (.answered []) = some r₂ ∧ r₁.target.text = r₂.target.text ∧
        r₁.target.text = "http://127.0.0.1:8080/api/v1/processes/p".toList := by
  intro b
  have hb : ofUrl "http://127.0.0.1:8080/api//" (.ofSecs 1) = .ok b :=
    ofUrl_eq_ok_iff.mpr ⟨⟨"127.0.0.1:8080".toList⟩, ⟨"/api//".toList, none⟩, by decide +kernel,
      by decide +kernel⟩
  have hne : "p#1" ≠ "p#2" := by decide
  have hread : ∀ g ∈ ["p#1", "p#2"], (b.received? g (.answered [])).isSome := by decide +kernel
  obtain ⟨r₁, h₁⟩ := Option.isSome_iff_exists.mp (hread "p#1" (by decide))
  obtain ⟨r₂, h₂⟩ := Option.isSome_iff_exists.mp (hread "p#2" (by decide))
  obtain ⟨-, htext, -, -, hsame, -⟩ := received_targets hb hne h₁ h₂
  exact ⟨hb, hne, r₁, r₂, h₁, h₂, hsame.mpr (by decide), htext.trans (by decide)⟩

end Backend
end Rollout
