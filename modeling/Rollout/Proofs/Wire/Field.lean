import Rollout.Wire.Field
import Rollout.Proofs.Wire.Varint

/-!
# Fields on the wire are read back

Fields that hold numbers of 64 bits, or bytes whose length is such a number, are read back in their
order. They are written in little more than the bytes that they hold, and fields that are read hold
no more bytes than there were to read.
-/

namespace Rollout.Wire

/-- What messages are made of: numbers of 64 bits, and bytes. -/
def Payload.Plain : Payload → Prop
  | .varint n => n < UInt64.size
  | .bytes _ => True
  | .fixed64 _ | .group | .fixed32 _ => False

/-- The bytes that a payload holds as its content. -/
def Payload.contentLength : Payload → Nat
  | .bytes content => content.length
  | .varint _ | .fixed64 _ | .group | .fixed32 _ => 0

namespace Field

structure Plain (f : Field) : Prop where
  number_pos : 1 ≤ f.number
  number_lt : f.number < 0x20000000
  payload : f.payload.Plain

/-- What the fields hold, in bytes. -/
def contentLength : List Field → Nat
  | [] => 0
  | f :: fields => f.payload.contentLength + contentLength fields

@[simp] theorem contentLength_nil : contentLength [] = 0 := rfl

@[simp] theorem contentLength_cons (f : Field) (fields : List Field) :
    contentLength (f :: fields) = f.payload.contentLength + contentLength fields := rfl

@[simp] theorem contentLength_append (fields more : List Field) :
    contentLength (fields ++ more) = contentLength fields + contentLength more := by
  induction fields with
  | nil => simp
  | cons f fields ih => simp [ih, Nat.add_assoc]

variable {depth number shape : Nat} {opened : List Nat} {bytes rest rest' : Bytes}
  {payload : Payload}

private theorem readKey?_writeKey (hpos : 1 ≤ number) (hlt : number < 0x20000000)
    (hshape : shape < 8) (rest : Bytes) :
    readKey? (writeKey number shape ++ rest) = some (number, shape, rest) := by
  have hkey : number * 8 + shape < UInt64.size := by
    simp only [UInt64.size]
    omega
  have hsize : number * 8 + shape < UInt32.size ∧ 8 ≤ number * 8 + shape := by
    simp only [UInt32.size]
    omega
  rw [readKey?, writeKey, Varint.read?_write hkey]
  simp only [if_pos hsize, Option.some.injEq, Prod.mk.injEq, and_true]
  omega

private theorem take?_append (content rest : Bytes) :
    take? content.length (content ++ rest) = some (content, rest) := by
  rw [take?, if_pos (by simp)]
  simp

private theorem readFrom_of_payload (hdepth : opened.length < depth)
    (hkey : readKey? bytes = some (number, shape, rest)) (hopen : shape ≠ 3) (hclose : shape ≠ 4)
    (hpayload : readPayload? shape rest = some (payload, rest')) :
    readFrom depth opened bytes =
      (readFrom depth opened rest').map (keep opened ⟨number, payload⟩) := by
  have hbytes : bytes.isEmpty = false := by
    cases bytes with
    | nil => cases hkey
    | cons b bs => rfl
  rw [readFrom, hbytes]
  simp only [Bool.false_eq_true, if_false]
  split
  next hnone =>
    rw [hkey] at hnone
    cases hnone
  next found hsome =>
    rw [hkey] at hsome
    cases hsome
    rw [if_neg hclose, if_neg (by omega), if_neg hopen]
    split
    next hnone =>
      rw [hpayload] at hnone
      cases hnone
    next hsome =>
      rw [hpayload] at hsome
      cases hsome
      rfl

private theorem readFrom_write {f : Field} (hf : f.Plain)
    (hlength : f.payload.contentLength < UInt64.size) (hdepth : 0 < depth) (rest : Bytes) :
    readFrom depth [] (f.write ++ rest) = (readFrom depth [] rest).map (f :: ·) := by
  obtain ⟨number, payload⟩ := f
  obtain ⟨hpos, hlt, hplain⟩ := hf
  cases payload with
  | varint n =>
      have hread : readPayload? 0 (Varint.write n ++ rest) = some (.varint n, rest) := by
        rw [readPayload?, Varint.read?_write hplain]
        rfl
      rw [write, List.append_assoc]
      exact readFrom_of_payload hdepth (readKey?_writeKey hpos hlt (by omega) _) (by omega)
        (by omega) hread
  | bytes content =>
      have hcount : content.length < UInt64.size := hlength
      have hread : readPayload? 2 (Varint.write content.length ++ (content ++ rest)) =
          some (.bytes content, rest) := by
        rw [readPayload?, Varint.read?_write hcount]
        simp only [take?_append, Option.map_some]
      rw [write, List.append_assoc, List.append_assoc]
      exact readFrom_of_payload hdepth (readKey?_writeKey hpos hlt (by omega) _) (by omega)
        (by omega) hread
  | fixed64 _ | group | fixed32 _ => cases hplain

theorem readAll_writeAll {fields : List Field} (h : ∀ f ∈ fields, f.Plain)
    (hlength : contentLength fields < UInt64.size) (hdepth : 0 < depth) :
    readAll depth (writeAll fields) = some fields := by
  rw [readAll]
  induction fields with
  | nil =>
      rw [writeAll, List.flatMap_nil, readFrom]
      rfl
  | cons f fields ih =>
      rw [contentLength_cons] at hlength
      have hrest := ih (fun g hg => h g (List.mem_cons_of_mem _ hg)) (by omega)
      change readFrom depth [] (f.write ++ writeAll fields) = _
      rw [readFrom_write (h f List.mem_cons_self) (by omega) hdepth, hrest, Option.map_some]

private theorem contentLength_le_length_write (f : Field) :
    f.payload.contentLength ≤ f.write.length := by
  obtain ⟨number, payload⟩ := f
  cases payload with
  | bytes content =>
      simp only [Payload.contentLength, write, List.length_append]
      omega
  | varint _ | fixed64 _ | group | fixed32 _ => exact Nat.zero_le _

theorem contentLength_le_length_writeAll (fields : List Field) :
    contentLength fields ≤ (writeAll fields).length := by
  induction fields with
  | nil => exact Nat.zero_le _
  | cons f fields ih =>
      have hf := contentLength_le_length_write f
      change _ ≤ (f.write ++ writeAll fields).length
      rw [contentLength_cons, List.length_append]
      omega

private theorem length_write_le {f : Field} (hf : f.Plain)
    (hlength : f.payload.contentLength < UInt64.size) :
    f.write.length ≤ f.payload.contentLength + 20 := by
  obtain ⟨number, payload⟩ := f
  obtain ⟨hpos, hlt, hplain⟩ := hf
  have hkey : ∀ shape < 8, (writeKey number shape).length ≤ 10 := by
    intro shape hshape
    apply Varint.length_write_le
    simp only [UInt64.size] at hlt ⊢
    omega
  cases payload with
  | varint n =>
      have hnumber := Varint.length_write_le hplain
      have hopen := hkey 0 (by omega)
      simp only [Payload.contentLength, write, List.length_append]
      omega
  | bytes content =>
      have hcount : (Varint.write content.length).length ≤ 10 := Varint.length_write_le hlength
      have hopen := hkey 2 (by omega)
      simp only [Payload.contentLength, write, List.length_append]
      omega
  | fixed64 _ | group | fixed32 _ => cases hplain

theorem length_writeAll_le {fields : List Field} (h : ∀ f ∈ fields, f.Plain)
    (hlength : contentLength fields < UInt64.size) :
    (writeAll fields).length ≤ contentLength fields + 20 * fields.length := by
  induction fields with
  | nil => exact Nat.zero_le _
  | cons f fields ih =>
      rw [contentLength_cons] at hlength
      have hrest := ih (fun g hg => h g (List.mem_cons_of_mem _ hg)) (by omega)
      have hf := length_write_le (h f List.mem_cons_self) (by omega)
      change (f.write ++ writeAll fields).length ≤ _
      rw [contentLength_cons, List.length_append, List.length_cons]
      omega

private theorem contentLength_keep_le (opened : List Nat) (f : Field) (fields : List Field) :
    contentLength (keep opened f fields) ≤ f.payload.contentLength + contentLength fields := by
  rw [keep]
  split
  · exact Nat.le_refl _
  · exact Nat.le_add_left _ _

private theorem length_of_take? {n : Nat} {content : Bytes}
    (h : take? n bytes = some (content, rest)) : content.length + rest.length = bytes.length := by
  rw [take?] at h
  split at h
  · obtain ⟨rfl, rfl⟩ := Prod.mk.inj (Option.some.inj h)
    rw [← List.length_append, List.take_append_drop]
  · cases h

private theorem length_of_readPayload? (h : readPayload? shape bytes = some (payload, rest)) :
    payload.contentLength + rest.length ≤ bytes.length := by
  cases payload with
  | bytes content =>
      simp only [readPayload?] at h
      split at h
      · simp at h
      · simp at h
      · split at h
        next n counted hread =>
          obtain ⟨⟨content', rest'⟩, htake, heq⟩ := Option.map_eq_some_iff.mp h
          simp only [Prod.mk.injEq, Payload.bytes.injEq] at heq
          obtain ⟨rfl, rfl⟩ := heq
          have hlength := length_of_take? htake
          have hcount := Varint.length_read? hread
          rw [Payload.contentLength]
          omega
        · cases h
      · simp at h
      · cases h
  | varint _ | fixed64 _ | group | fixed32 _ =>
      rw [Payload.contentLength, Nat.zero_add]
      exact length_readPayload? h

theorem contentLength_readFrom {fields : List Field}
    (h : readFrom depth opened bytes = some fields) : contentLength fields ≤ bytes.length := by
  fun_induction readFrom depth opened bytes generalizing fields with
  | case1 =>
      cases h
      exact Nat.zero_le _
  | case2 | case3 | case4 | case6 | case7 | case9 => cases h
  | case5 _ _ _ number outer _ hshort ih =>
      obtain ⟨later, hlater, rfl⟩ := Option.map_eq_some_iff.mp h
      have hkeep := contentLength_keep_le outer ⟨number, .group⟩ later
      have hrest := ih hlater
      simp only [Payload.contentLength] at hkeep
      omega
  | case8 _ _ _ _ _ _ _ hshort _ ih =>
      have hrest := ih h
      omega
  | case10 opened _ _ number _ _ _ hshort _ _ _ payload _ hpayload _ ih =>
      obtain ⟨later, hlater, rfl⟩ := Option.map_eq_some_iff.mp h
      have hkeep := contentLength_keep_le opened ⟨number, payload⟩ later
      have hread := length_of_readPayload? hpayload
      have hrest := ih hlater
      simp only at hkeep
      omega

end Field
end Rollout.Wire
