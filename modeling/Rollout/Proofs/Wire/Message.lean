import Rollout.Wire.Message
import Rollout.Proofs.Text.Spelling
import Rollout.Proofs.Wire.Field

/-!
# Messages survive the wire

A message is read back from its fields as it was: what is not written is what an unset field says,
and a number keeps its sign over 64 bits. A message that was read from other bytes (with fields of
other kinds, or several of one) is written in little more than the bytes that it came from, so it
can be read again.
-/

namespace Rollout.Wire

/-- What is written is read back, and so is what was read and is written again. A length on the
wire is a number of 64 bits, and no more than half that many bytes are ever received. -/
structure Survives {α : Type} (encode : α → Bytes) (decode? : Bytes → Option α) : Prop where
  decode?_encode : ∀ m, (encode m).length < UInt64.size → decode? (encode m) = some m
  decode?_again : ∀ bytes m, bytes.length < UInt64.size / 2 → decode? bytes = some m →
    decode? (encode m) = some m

section Fields

variable {α : Type} {merge : α → Field → Option α} {a m : α} {number : Nat}

theorem foldlM_textField (set : String → α)
    (hmerge : ∀ payload, merge a ⟨number, payload⟩ = (text? payload).map set) (hempty : set "" = a)
    (s : String) : (textField number s).foldlM merge a = some (set s) := by
  rw [textField]
  split
  next hs => rw [hs, hempty, List.foldlM_nil, Option.pure_def]
  next hs =>
    have htext : text? (.bytes (Utf8.encode s)) = some s := Utf8.string?_eq_some_iff.mpr rfl
    rw [List.foldlM_cons, hmerge, htext, Option.map_some]
    rfl

theorem foldlM_numberField (set : UInt64 → α)
    (hmerge : ∀ payload, merge a ⟨number, payload⟩ = (number? payload).map set)
    (hzero : set 0 = a) (n : UInt64) : (numberField number n).foldlM merge a = some (set n) := by
  rw [numberField]
  split
  next hn => rw [hn, hzero, List.foldlM_nil, Option.pure_def]
  next hn =>
    rw [List.foldlM_cons, hmerge, number?, Option.map_some, UInt64.ofNat_toNat]
    rfl

theorem plain_textField (hpos : 1 ≤ number) (hlt : number < 0x20000000) (s : String) :
    ∀ f ∈ textField number s, f.Plain := by
  intro f hf
  rw [textField] at hf
  split at hf
  · cases hf
  · obtain rfl := List.mem_singleton.mp hf
    exact ⟨hpos, hlt, trivial⟩

theorem plain_numberField (hpos : 1 ≤ number) (hlt : number < 0x20000000) (n : UInt64) :
    ∀ f ∈ numberField number n, f.Plain := by
  intro f hf
  rw [numberField] at hf
  split at hf
  · cases hf
  · obtain rfl := List.mem_singleton.mp hf
    exact ⟨hpos, hlt, n.toNat_lt_size⟩

@[simp] theorem contentLength_textField (number : Nat) (s : String) :
    Field.contentLength (textField number s) = (Utf8.encode s).length := by
  rw [textField]
  split
  next hs =>
    rw [hs]
    rfl
  · rfl

@[simp] theorem contentLength_numberField (number : Nat) (n : UInt64) :
    Field.contentLength (numberField number n) = 0 := by
  rw [numberField]
  split <;> rfl

theorem length_textField_le (number : Nat) (s : String) : (textField number s).length ≤ 1 := by
  rw [textField]
  split <;> simp

theorem length_numberField_le (number : Nat) (n : UInt64) : (numberField number n).length ≤ 1 := by
  rw [numberField]
  split <;> simp

/-- A message is read back if taking in its fields builds it up. -/
theorem merge_writeAll {fields : List Field} {depth : Nat}
    (hfields : fields.foldlM merge a = some m) (hplain : ∀ f ∈ fields, f.Plain)
    (hlength : Field.contentLength fields < UInt64.size)
    (hdepth : 0 < depth) :
    (Field.readAll depth (Field.writeAll fields)).bind (·.foldlM merge a) = some m := by
  rw [Field.readAll_writeAll hplain hlength hdepth, Option.bind_some, hfields]

theorem size_foldlM_le (size : α → Nat) (hmerge : ∀ {a f m}, merge a f = some m →
      size m ≤ size a + f.payload.contentLength)
    {fields : List Field} (h : fields.foldlM merge a = some m) :
    size m ≤ size a + Field.contentLength fields := by
  induction fields generalizing a with
  | nil =>
      obtain rfl := Option.some.inj h
      exact Nat.le_add_right _ _
  | cons f fields ih =>
      rw [List.foldlM_cons] at h
      obtain ⟨next, hnext, hrest⟩ := Option.bind_eq_some_iff.mp h
      have hf := hmerge hnext
      have hfields := ih hrest
      rw [Field.contentLength_cons]
      omega

theorem size_merge_le (size : α → Nat) (hmerge : ∀ {a f m}, merge a f = some m →
      size m ≤ size a + f.payload.contentLength)
    {depth : Nat} {bytes : Bytes}
    (h : (Field.readAll depth bytes).bind (·.foldlM merge a) = some m) :
    size m ≤ size a + bytes.length := by
  obtain ⟨fields, hread, hfold⟩ := Option.bind_eq_some_iff.mp h
  have hbytes := Field.contentLength_readFrom hread
  have hfields := size_foldlM_le size hmerge hfold
  omega

end Fields

/-- A number of 32 bits keeps its sign when it is written as one of 64. -/
theorem low32_toUInt64 (t : Int32) : low32 t.toInt64.toUInt64 = t := by
  rw [← Int32.toBitVec_inj]
  change BitVec.setWidth 32 (Int32.toInt64 t).toBitVec = _
  rw [Int32.toBitVec_toInt64]
  ext i hi
  rw [BitVec.getElem_setWidth, BitVec.getLsbD_signExtend, if_pos hi, decide_eq_true (by omega),
    Bool.true_and, BitVec.getLsbD_eq_getElem hi]

end Wire

open Wire

namespace Resource

/-- The bytes of the texts. -/
def size (r : Resource) : Nat :=
  (Utf8.encode r.key).length + (Utf8.encode r.owner).length + (Utf8.encode r.value).length

theorem foldlM_fields (r : Resource) : r.fields.foldlM merge .empty = some r := by
  obtain ⟨key, owner, value, typeCode⟩ := r
  have hkey : (textField 1 key).foldlM merge .empty = some ⟨key, "", "", 0⟩ :=
    foldlM_textField (fun s => (⟨s, "", "", 0⟩ : Resource)) (fun _ => rfl) rfl key
  have howner : (textField 2 owner).foldlM merge ⟨key, "", "", 0⟩ = some ⟨key, owner, "", 0⟩ :=
    foldlM_textField (fun s => (⟨key, s, "", 0⟩ : Resource)) (fun _ => rfl) rfl owner
  have hvalue : (textField 3 value).foldlM merge ⟨key, owner, "", 0⟩ =
      some ⟨key, owner, value, 0⟩ :=
    foldlM_textField (fun s => (⟨key, owner, s, 0⟩ : Resource)) (fun _ => rfl) rfl value
  have hcode : (numberField 5 typeCode.toInt64.toUInt64).foldlM merge ⟨key, owner, value, 0⟩ =
      some ⟨key, owner, value, low32 typeCode.toInt64.toUInt64⟩ :=
    foldlM_numberField (fun n => (⟨key, owner, value, low32 n⟩ : Resource)) (fun _ => rfl) rfl _
  rw [fields, List.foldlM_append, List.foldlM_append, List.foldlM_append, hkey]
  simp only [Option.bind_eq_bind, Option.bind_some, howner, hvalue, hcode, low32_toUInt64]

theorem plain_fields (r : Resource) : ∀ f ∈ r.fields, f.Plain := by
  intro f hf
  simp only [fields, List.mem_append] at hf
  rcases hf with ((hf | hf) | hf) | hf
  · exact plain_textField (by omega) (by omega) _ f hf
  · exact plain_textField (by omega) (by omega) _ f hf
  · exact plain_textField (by omega) (by omega) _ f hf
  · exact plain_numberField (by omega) (by omega) _ f hf

@[simp] theorem contentLength_fields (r : Resource) : Field.contentLength r.fields = r.size := by
  simp [fields, size, Nat.add_assoc]

theorem length_fields_le (r : Resource) : r.fields.length ≤ 4 := by
  have hkey := length_textField_le 1 r.key
  have howner := length_textField_le 2 r.owner
  have hvalue := length_textField_le 3 r.value
  have hcode := length_numberField_le 5 r.typeCode.toInt64.toUInt64
  simp only [fields, List.length_append]
  omega

theorem mergeBytes_encode {depth : Nat} (hdepth : 0 < depth) (r : Resource)
    (hsize : r.size < UInt64.size) : mergeBytes depth .empty r.encode = some r :=
  merge_writeAll r.foldlM_fields r.plain_fields (r.contentLength_fields ▸ hsize) hdepth

theorem size_le_length_encode (r : Resource) : r.size ≤ r.encode.length :=
  r.contentLength_fields ▸ Field.contentLength_le_length_writeAll r.fields

theorem length_encode_le (r : Resource) (hsize : r.size < UInt64.size) :
    r.encode.length ≤ r.size + 80 := by
  have hfields := r.length_fields_le
  have hlength := Field.length_writeAll_le r.plain_fields (r.contentLength_fields ▸ hsize)
  rw [contentLength_fields] at hlength
  rw [encode]
  omega

private theorem length_of_text? {payload : Payload} {s : String} (h : text? payload = some s) :
    (Utf8.encode s).length = payload.contentLength := by
  cases payload with
  | bytes content => rw [Utf8.string?_eq_some_iff.mp h, Payload.contentLength]
  | varint _ | fixed64 _ | group | fixed32 _ => cases h

theorem size_merge_le {r r' : Resource} {f : Field} (h : merge r f = some r') :
    r'.size ≤ r.size + f.payload.contentLength := by
  rw [merge] at h
  split at h
  · obtain ⟨s, hs, rfl⟩ := Option.map_eq_some_iff.mp h
    have hlength := length_of_text? hs
    simp only [size]
    omega
  · obtain ⟨s, hs, rfl⟩ := Option.map_eq_some_iff.mp h
    have hlength := length_of_text? hs
    simp only [size]
    omega
  · obtain ⟨s, hs, rfl⟩ := Option.map_eq_some_iff.mp h
    have hlength := length_of_text? hs
    simp only [size]
    omega
  · obtain ⟨n, hn, rfl⟩ := Option.map_eq_some_iff.mp h
    exact Nat.le_add_right _ _
  · obtain rfl := Option.some.inj h
    exact Nat.le_add_right _ _

theorem size_mergeBytes_le {depth : Nat} {r r' : Resource} {bytes : Bytes}
    (h : mergeBytes depth r bytes = some r') : r'.size ≤ r.size + bytes.length :=
  Wire.size_merge_le size size_merge_le h

/-- The texts of a resource that may be there. -/
def sizeOf? (r : Option Resource) : Nat := r.elim 0 size

theorem sizeOf?_mergeField_le {r r' : Option Resource} {payload : Payload}
    (h : mergeField r payload = some r') : sizeOf? r' ≤ sizeOf? r + payload.contentLength := by
  cases payload with
  | bytes content =>
      obtain ⟨merged, hmerged, rfl⟩ := Option.map_eq_some_iff.mp h
      have hsize : (r.getD .empty).size = sizeOf? r := by cases r <;> rfl
      exact hsize ▸ size_mergeBytes_le hmerged
  | varint _ | fixed64 _ | group | fixed32 _ => cases h

theorem plain_field (r : Option Resource) : ∀ f ∈ field r, f.Plain := by
  intro f hf
  cases r with
  | none => cases hf
  | some r =>
      obtain rfl := List.mem_singleton.mp hf
      exact ⟨Nat.le_refl 1, (by decide : 1 < 0x20000000), trivial⟩

theorem sizeOf?_le_contentLength_field (r : Option Resource) :
    sizeOf? r ≤ Field.contentLength (field r) := by
  cases r with
  | none => exact Nat.zero_le _
  | some r => exact r.size_le_length_encode

theorem contentLength_field_lt (r : Option Resource) (hsize : sizeOf? r < UInt64.size / 2) :
    Field.contentLength (field r) < UInt64.size := by
  simp only [UInt64.size] at hsize
  cases r with
  | none => decide
  | some r =>
      have hlength : r.encode.length ≤ r.size + 80 :=
        r.length_encode_le (Nat.lt_of_lt_of_le hsize (by decide))
      change r.size < _ at hsize
      change r.encode.length < _
      simp only [UInt64.size]
      omega

theorem foldlM_field {α : Type} {merge : α → Field → Option α} {a : α} (set : Option Resource → α)
    (hmerge : ∀ payload, merge a ⟨1, payload⟩ = (mergeField none payload).map set)
    (hnone : set none = a) (r : Option Resource) (hsize : sizeOf? r < UInt64.size) :
    (field r).foldlM merge a = some (set r) := by
  cases r with
  | none => rw [field, List.foldlM_nil, hnone, Option.pure_def]
  | some r =>
      have hinner : mergeBytes (maxDepth - 1) .empty r.encode = some r :=
        mergeBytes_encode (by decide) r hsize
      rw [field, List.foldlM_cons, hmerge, mergeField, Option.getD_none, hinner, Option.map_some,
        Option.map_some]
      rfl

private theorem contentLength_field_empty :
    Field.contentLength (field (some .empty)) < UInt64.size := by
  decide

/-- A message about a resource survives if it is read back whenever the field of the resource is
short enough. -/
theorem survives_of {α : Type} {encode : α → Bytes} {decode? : Bytes → Option α}
    (resource : α → Option Resource)
    (hwrite : ∀ m, Field.contentLength (field (resource m)) ≤ (encode m).length)
    (hback : ∀ m, Field.contentLength (field (resource m)) < UInt64.size →
      decode? (encode m) = some m)
    (hread : ∀ bytes m, decode? bytes = some m → sizeOf? (resource m) ≤ bytes.length) :
    Survives encode decode? where
  decode?_encode m hlength := hback m (Nat.lt_of_le_of_lt (hwrite m) hlength)
  decode?_again bytes m hbytes h :=
    hback m (contentLength_field_lt (resource m) (Nat.lt_of_le_of_lt (hread bytes m h) hbytes))

theorem survives : Survives encode decode? where
  decode?_encode r hlength := by
    have hsize := r.size_le_length_encode
    exact mergeBytes_encode (by decide) r (by omega)
  decode?_again bytes r hbytes hread := by
    have hsize : r.size ≤ Resource.empty.size + bytes.length := size_mergeBytes_le hread
    have hempty : Resource.empty.size = 0 := by decide
    exact mergeBytes_encode (by decide) r (by omega)

end Resource

namespace LockRequest

theorem decode?_encode_of_size (m : LockRequest)
    (hlength : Field.contentLength (Resource.field m.resource) < UInt64.size) :
    decode? m.encode = some m := by
  obtain ⟨resource, ttl⟩ := m
  have hsize := Resource.sizeOf?_le_contentLength_field resource
  have hresource : (Resource.field resource).foldlM merge empty = some ⟨resource, 0⟩ :=
    Resource.foldlM_field (fun r => (⟨r, 0⟩ : LockRequest)) (fun _ => rfl) rfl resource
      (Nat.lt_of_le_of_lt hsize hlength)
  have httl : (numberField 2 ttl.toUInt64).foldlM merge ⟨resource, 0⟩ =
      some ⟨resource, ttl.toUInt64.toInt64⟩ :=
    foldlM_numberField (fun n => (⟨resource, n.toInt64⟩ : LockRequest)) (fun _ => rfl) rfl _
  have hfields : (fields ⟨resource, ttl⟩).foldlM merge empty = some ⟨resource, ttl⟩ := by
    rw [fields, List.foldlM_append, hresource]
    simp only [Option.bind_eq_bind, Option.bind_some, httl, Int64.toInt64_toUInt64]
  have hplain : ∀ f ∈ fields ⟨resource, ttl⟩, f.Plain := by
    intro f hf
    rcases List.mem_append.mp hf with hf | hf
    · exact Resource.plain_field resource f hf
    · exact plain_numberField (by omega) (by omega) _ f hf
  have hcontent : Field.contentLength (fields ⟨resource, ttl⟩) < UInt64.size := by
    rw [fields, Field.contentLength_append, contentLength_numberField, Nat.add_zero]
    exact hlength
  exact merge_writeAll hfields hplain hcontent (by decide)

theorem sizeOf?_merge_le {m m' : LockRequest} {f : Field} (h : merge m f = some m') :
    Resource.sizeOf? m'.resource ≤ Resource.sizeOf? m.resource + f.payload.contentLength := by
  rw [merge] at h
  split at h
  · obtain ⟨r, hr, rfl⟩ := Option.map_eq_some_iff.mp h
    exact Resource.sizeOf?_mergeField_le hr
  · obtain ⟨n, hn, rfl⟩ := Option.map_eq_some_iff.mp h
    exact Nat.le_add_right _ _
  · obtain rfl := Option.some.inj h
    exact Nat.le_add_right _ _

theorem contentLength_le_length_encode (m : LockRequest) :
    Field.contentLength (Resource.field m.resource) ≤ m.encode.length := by
  have hcontent := Field.contentLength_le_length_writeAll m.fields
  rw [fields, Field.contentLength_append] at hcontent
  rw [encode, fields]
  omega

theorem sizeOf?_le_length {bytes : Bytes} {m : LockRequest} (h : decode? bytes = some m) :
    Resource.sizeOf? m.resource ≤ bytes.length := by
  have hsize : Resource.sizeOf? m.resource ≤ 0 + bytes.length :=
    size_merge_le (fun m => Resource.sizeOf? m.resource) sizeOf?_merge_le h
  omega

theorem survives : Survives encode decode? :=
  Resource.survives_of (·.resource) contentLength_le_length_encode decode?_encode_of_size
    fun _ _ => sizeOf?_le_length

end LockRequest

namespace ReleaseRequest

theorem decode?_encode_of_size (m : ReleaseRequest)
    (hlength : Field.contentLength (Resource.field m.resource) < UInt64.size) :
    decode? m.encode = some m := by
  have hsize := Resource.sizeOf?_le_contentLength_field m.resource
  have hfields : (Resource.field m.resource).foldlM merge empty = some m :=
    Resource.foldlM_field (fun r => (⟨r⟩ : ReleaseRequest)) (fun _ => rfl) rfl m.resource
      (Nat.lt_of_le_of_lt hsize hlength)
  exact merge_writeAll hfields (Resource.plain_field m.resource) hlength (by decide)

theorem sizeOf?_merge_le {m m' : ReleaseRequest} {f : Field} (h : merge m f = some m') :
    Resource.sizeOf? m'.resource ≤ Resource.sizeOf? m.resource + f.payload.contentLength := by
  rw [merge] at h
  split at h
  · obtain ⟨r, hr, rfl⟩ := Option.map_eq_some_iff.mp h
    exact Resource.sizeOf?_mergeField_le hr
  · obtain rfl := Option.some.inj h
    exact Nat.le_add_right _ _

theorem sizeOf?_le_length {bytes : Bytes} {m : ReleaseRequest} (h : decode? bytes = some m) :
    Resource.sizeOf? m.resource ≤ bytes.length := by
  have hsize : Resource.sizeOf? m.resource ≤ 0 + bytes.length :=
    size_merge_le (fun m => Resource.sizeOf? m.resource) sizeOf?_merge_le h
  omega

theorem survives : Survives encode decode? :=
  Resource.survives_of (·.resource)
    (fun m => Field.contentLength_le_length_writeAll (Resource.field m.resource))
    decode?_encode_of_size fun _ _ => sizeOf?_le_length

end ReleaseRequest

namespace Acknowledgement

theorem decode?_nil : decode? [] = some ⟨⟩ := by
  have hread : Field.readAll maxDepth [] = some [] := by
    rw [Field.readAll, Field.readFrom]
    rfl
  rw [decode?, hread, Option.map_some]

theorem survives : Survives encode decode? where
  decode?_encode _ _ := decode?_nil
  decode?_again _ _ _ _ := decode?_nil

end Acknowledgement

namespace Wire

private theorem lockRequest_encode_none_ne (ttl : Int64) :
    LockRequest.encode ⟨none, ttl⟩ ≠ LockRequest.encode ⟨some .empty, ttl⟩ := by
  intro h
  have hnone : LockRequest.decode? (LockRequest.encode ⟨none, ttl⟩) = some ⟨none, ttl⟩ :=
    LockRequest.decode?_encode_of_size _ (by decide : Field.contentLength [] < UInt64.size)
  rw [h, LockRequest.decode?_encode_of_size _ Resource.contentLength_field_empty] at hnone
  cases hnone

private theorem releaseRequest_encode_none_ne :
    ReleaseRequest.encode ⟨none⟩ ≠ ReleaseRequest.encode ⟨some .empty⟩ := by
  intro h
  have hnone : ReleaseRequest.decode? (ReleaseRequest.encode ⟨none⟩) = some ⟨none⟩ :=
    ReleaseRequest.decode?_encode_of_size _ (by decide : Field.contentLength [] < UInt64.size)
  rw [h, ReleaseRequest.decode?_encode_of_size _ Resource.contentLength_field_empty] at hnone
  cases hnone

/-- Every message is read back from what is written of it, and an absent resource is told from one
whose fields are all empty. -/
theorem messages_survive :
    Survives Resource.encode Resource.decode? ∧
      Survives LockRequest.encode LockRequest.decode? ∧
      Survives ReleaseRequest.encode ReleaseRequest.decode? ∧
      Survives Acknowledgement.encode Acknowledgement.decode? ∧
      (∀ ttl, LockRequest.encode ⟨none, ttl⟩ ≠ LockRequest.encode ⟨some .empty, ttl⟩) ∧
      ReleaseRequest.encode ⟨none⟩ ≠ ReleaseRequest.encode ⟨some .empty⟩ :=
  ⟨Resource.survives, LockRequest.survives, ReleaseRequest.survives, Acknowledgement.survives,
    lockRequest_encode_none_ne, releaseRequest_encode_none_ne⟩

/-- First a message with a negative kind, the least number and characters of one to four bytes. Then
bytes with an unknown field, a resource in two parts, and a number in more bytes than it needs. -/
theorem messages_survive_sample :
    let m : LockRequest := ⟨some ⟨"a\u0000", "é€", "😀", -7⟩, Int64.minValue⟩
    let bytes : Bytes := [0x3D, 1, 2, 3, 4, 0x0A, 3, 0x0A, 1, 0x61, 0x0A, 2, 0x28, 3, 0x10, 0x85, 0]
    let merged : LockRequest := ⟨some ⟨"a", "", "", 3⟩, 5⟩
    (m.encode.length < UInt64.size ∧ LockRequest.decode? m.encode = some m) ∧
      bytes.length < UInt64.size / 2 ∧ LockRequest.decode? bytes = some merged ∧
      LockRequest.decode? merged.encode = some merged := by
  intro m bytes merged
  have hlength : m.encode.length < UInt64.size := by decide +kernel
  have hbytes : bytes.length < UInt64.size / 2 := by decide
  have hread : LockRequest.decode? bytes = some merged := by decide +kernel
  have hsurvives : Survives LockRequest.encode LockRequest.decode? := messages_survive.2.1
  exact ⟨⟨hlength, hsurvives.decode?_encode m hlength⟩, hbytes, hread,
    hsurvives.decode?_again bytes merged hbytes hread⟩

end Wire
end Rollout
