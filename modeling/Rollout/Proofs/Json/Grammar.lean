import Rollout.Proofs.Json.Layout

/-!
# The grammar of JSON texts

A text of a document is a layout of its tokens. The reader accepts exactly the texts of documents,
and reads a text as the document whose text it is.
-/

namespace Rollout.Json

namespace Token

private theorem apart_mark {t : Token} {ts : List Token} (ht : t.isMark = true) (h : Apart ts) :
    Apart (t :: ts) :=
  List.isChain_cons.mpr ⟨fun _ _ => .inl ht, h⟩

private theorem apart_leaf {t : Token} {ts : List Token} (h : Apart ts)
    (hmark : ∀ u ∈ ts.head?, u.isMark = true) : Apart (t :: ts) :=
  List.isChain_cons.mpr ⟨fun u hu => .inr (hmark u hu), h⟩

private theorem mark_tokensOfElements (vs : List Json) (ts : List Token) :
    ∀ u ∈ (tokensOfElements vs ++ ts).head?, u.isMark = true := by
  cases vs <;> simp [tokensOfElements, isMark]

private theorem mark_tokensOfMembers (members : List (List Symbol × Json)) (ts : List Token) :
    ∀ u ∈ (tokensOfMembers members ++ ts).head?, u.isMark = true := by
  cases members <;> simp [tokensOfMembers, isMark]

mutual

private theorem apart_tokens : ∀ (j : Json) (ts : List Token), Apart ts →
    (∀ u ∈ ts.head?, u.isMark = true) → Apart (tokens j ++ ts)
  | .null, _, h, hmark => apart_leaf h hmark
  | .bool _, _, h, hmark => apart_leaf h hmark
  | .number _, _, h, hmark => apart_leaf h hmark
  | .string _, _, h, hmark => apart_leaf h hmark
  | .array [], _, h, _ => apart_mark rfl (apart_mark rfl h)
  | .array (v :: vs), ts, h, _ => by
      simp only [tokens, List.cons_append, List.append_assoc]
      exact apart_mark rfl (apart_tokens v _ (apart_tokensOfElements vs ts h)
        (mark_tokensOfElements vs ts))
  | .object [], _, h, _ => apart_mark rfl (apart_mark rfl h)
  | .object ((k, v) :: members), ts, h, _ => by
      simp only [tokens, List.cons_append, List.append_assoc]
      have hv := apart_tokens v _ (apart_tokensOfMembers members ts h)
        (mark_tokensOfMembers members ts)
      exact apart_mark rfl (apart_leaf (apart_mark rfl hv) (by simp [isMark]))

private theorem apart_tokensOfElements : ∀ (vs : List Json) (ts : List Token), Apart ts →
    Apart (tokensOfElements vs ++ ts)
  | [], _, h => apart_mark rfl h
  | v :: vs, ts, h => by
      simp only [tokensOfElements, List.cons_append, List.append_assoc]
      exact apart_mark rfl (apart_tokens v _ (apart_tokensOfElements vs ts h)
        (mark_tokensOfElements vs ts))

private theorem apart_tokensOfMembers : ∀ (members : List (List Symbol × Json))
    (ts : List Token), Apart ts → Apart (tokensOfMembers members ++ ts)
  | [], _, h => apart_mark rfl h
  | (k, v) :: members, ts, h => by
      simp only [tokensOfMembers, List.cons_append, List.append_assoc]
      have hv := apart_tokens v _ (apart_tokensOfMembers members ts h)
        (mark_tokensOfMembers members ts)
      exact apart_mark rfl (apart_leaf (apart_mark rfl hv) (by simp [isMark]))

end

private theorem apart_of_tokens (j : Json) : Apart (tokens j) := by
  have h := apart_tokens j [] List.isChain_nil (by simp)
  rwa [List.append_nil] at h

end Token

namespace Reading

/-- What has been read of an array before the element that comes next; elements in reverse. -/
private def elementsRead : List Json → List Token
  | [] => [.openArray]
  | v :: before => elementsRead before ++ tokens v ++ [.comma]

/-- What has been read of an object before the member that comes next; members in reverse. -/
private def membersRead : List (List Symbol × Json) → List Token
  | [] => [.openObject]
  | (k, v) :: before => membersRead before ++ .string k :: .colon :: tokens v ++ [.comma]

private def framesRead : List Frame → List Token
  | [] => []
  | .array before :: stack => framesRead stack ++ elementsRead before
  | .object before key :: stack =>
    framesRead stack ++ membersRead before ++ [.string key, .colon]

/-- These tokens bring the machine to where it stands. -/
private def After : Reading → List Token → Prop
  | .value stack, ts => ts = framesRead stack
  | .firstElement stack, ts => ts = framesRead stack ++ [.openArray]
  | .member mayClose before stack, ts =>
    (mayClose = true → before = []) ∧ ts = framesRead stack ++ membersRead before
  | .colon before key stack, ts => ts = framesRead stack ++ membersRead before ++ [.string key]
  | .afterElement before stack, ts => ∃ v rest, before = v :: rest ∧
    ts = framesRead stack ++ elementsRead rest ++ tokens v
  | .afterMember before stack, ts => ∃ k v rest, before = (k, v) :: rest ∧
    ts = framesRead stack ++ membersRead rest ++ .string k :: .colon :: tokens v
  | .done v, ts => ts = tokens v

private theorem tokens_array (before : List Json) (v : Json) (after : List Json) :
    tokens (.array (before.reverse ++ v :: after)) =
      elementsRead before ++ tokens v ++ tokensOfElements after := by
  induction before generalizing v after with
  | nil => simp [tokens, elementsRead]
  | cons u before ih =>
      rw [List.reverse_cons, List.append_assoc, List.singleton_append, ih]
      simp [elementsRead, tokensOfElements]

private theorem tokens_object (before : List (List Symbol × Json)) (k : List Symbol) (v : Json)
    (after : List (List Symbol × Json)) :
    tokens (.object (before.reverse ++ (k, v) :: after)) =
      membersRead before ++ .string k :: .colon :: tokens v ++ tokensOfMembers after := by
  induction before generalizing k v after with
  | nil => simp [tokens, membersRead]
  | cons m before ih =>
      rw [List.reverse_cons, List.append_assoc, List.singleton_append, ih]
      simp [membersRead, tokensOfMembers]

private theorem after_deliver (v : Json) (stack : List Frame) :
    After (deliver v stack) (framesRead stack ++ tokens v) := by
  match stack with
  | [] => rfl
  | .array before :: stack => exact ⟨v, before, rfl, rfl⟩
  | .object before key :: stack => exact ⟨key, v, before, rfl, by simp [framesRead]⟩

private theorem after_start (stack : List Frame) {t : Token} {r : Reading}
    (h : start stack t = some r) : After r (framesRead stack ++ [t]) := by
  cases t <;> cases h
  case openArray => rfl
  case openObject => exact ⟨fun _ => rfl, rfl⟩
  all_goals exact after_deliver _ stack

private theorem after_advance {r r' : Reading} {t : Token} {ts : List Token} (hr : After r ts)
    (h : advance r t = some r') : After r' (ts ++ [t]) := by
  cases r with
  | value stack =>
      cases hr
      exact after_start stack h
  | firstElement stack =>
      cases hr
      cases t with
      | closeArray =>
          cases h
          have hd := after_deliver (.array []) stack
          simpa [tokens] using hd
      | _ => exact after_start (.array [] :: stack) h
  | member mayClose before stack =>
      obtain ⟨hclose, rfl⟩ := hr
      cases t with
      | string raw =>
          cases h
          rfl
      | closeObject =>
          simp only [advance, Option.ite_none_right_eq_some] at h
          obtain ⟨hmay, h⟩ := h
          cases h
          rw [hclose hmay]
          have hd := after_deliver (.object []) stack
          simpa [tokens, membersRead] using hd
      | _ => cases h
  | colon before key stack =>
      cases hr
      cases t with
      | colon =>
          cases h
          simp [After, framesRead]
      | _ => cases h
  | afterElement before stack =>
      obtain ⟨v, rest, rfl, rfl⟩ := hr
      cases t with
      | comma =>
          cases h
          simp [After, framesRead, elementsRead]
      | closeArray =>
          cases h
          have hd := after_deliver (.array ((v :: rest).reverse)) stack
          rw [List.reverse_cons, tokens_array] at hd
          simpa [tokensOfElements] using hd
      | _ => cases h
  | afterMember before stack =>
      obtain ⟨k, v, rest, rfl, rfl⟩ := hr
      cases t with
      | comma =>
          cases h
          refine ⟨by simp, ?_⟩
          simp [membersRead]
      | closeObject =>
          cases h
          have hd := after_deliver (.object (((k, v) :: rest).reverse)) stack
          rw [List.reverse_cons, tokens_object] at hd
          simpa [tokensOfMembers] using hd
      | _ => cases h
  | done v => cases h

private theorem after_run {r r' : Reading} {before ts : List Token} (hr : After r before)
    (h : run r ts = some r') : After r' (before ++ ts) := by
  induction ts generalizing r before with
  | nil =>
      cases h
      rwa [List.append_nil]
  | cons t ts ih =>
      simp only [run] at h
      cases hadvance : advance r t with
      | none =>
          rw [hadvance] at h
          cases h
      | some next =>
          rw [hadvance] at h
          have hnext := ih (after_advance hr hadvance) h
          rwa [List.append_assoc] at hnext

end Reading

/-- A document is read from its own tokens and from no others. -/
theorem ofTokens?_eq_some_iff {ts : List Token} {j : Json} :
    ofTokens? ts = some j ↔ ts = tokens j := by
  constructor
  · intro h
    rw [ofTokens?] at h
    split at h
    next v hrun =>
      cases h
      have hstart : Reading.After (.value []) [] := rfl
      exact Reading.after_run hstart hrun
    · cases h
  · rintro rfl
    exact ofTokens?_tokens j

/-- The bytes of a text of this document. -/
def IsText (j : Json) (bytes : Bytes) : Prop := Token.Layout (tokens j) (Utf8.decode bytes)

/-- The reader accepts the texts of documents and nothing else. -/
theorem ofBytes?_eq_some_iff {bytes : Bytes} {j : Json} :
    ofBytes? bytes = some j ↔ IsText j bytes := by
  rw [ofBytes?, parse?, Option.bind_eq_bind, Option.bind_eq_some_iff]
  constructor
  · rintro ⟨ts, hscan, hread⟩
    obtain rfl := ofTokens?_eq_some_iff.mp hread
    exact Token.layout_of_scan hscan
  · intro h
    exact ⟨tokens j, Token.scan_of_layout h (Token.apart_of_tokens j), ofTokens?_tokens j⟩

end Rollout.Json
