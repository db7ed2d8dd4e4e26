import KeyWallet.ByteCodec
import KeyWallet.ObjectContainer
import Mathlib.Data.UInt

/-! The bytes of a container manifest: `file_object_manifest_build` and
`file_object_manifest_parse` of object_container.c. -/
namespace KeyWallet

namespace Container.Codec

abbrev Bytes := List UInt8

def manifestMagic : UInt32 := 0x504b4f43
def manifestFormatVersion : UInt8 := 1
def extensionFlagCritical : UInt8 := 0x01

/-- file_object_descriptor_t. -/
structure Descriptor where
  objectType : UInt16 := 0
  objectTag : UInt16 := 0
  generation : UInt32 := 0
  logicalSize : UInt32 := 0
  recordId : UInt64 := 0
  storedSize : UInt32 := 0
  policyId : UInt16 := 0
  keyDomain : UInt8 := 0
  protection : UInt8 := 0
  flags : UInt16 := 0
  extensionOffset : UInt16 := 0
  extensionSize : UInt16 := 0
  transactionGroup : UInt16 := 0
deriving DecidableEq, Repr

/-- file_object_manifest_t. The member `object` of the union is `objects[0]`. -/
structure Manifest where
  flags : UInt16
  namespaceId : UInt16
  containerKind : UInt16
  containerId : UInt32
  generation : UInt32
  previousGeneration : UInt32
  extensionOffset : UInt16 := 0
  extensionSize : UInt16 := 0
  totalSize : UInt16 := 0
  objectCount : UInt16
  hasObject : Bool
  objects : Vector Descriptor manifestMaxObjects
deriving DecidableEq

/-- file_object_authenticator_t: the tag of these bytes, or the error of one of its steps. -/
structure Authenticator where
  tag : Bytes → Except ObjErr Bytes
  tag_length : ∀ {data t}, tag data = .ok t → t.length = authTagSize

/-! The fields at their offsets. -/

def descriptorWidths : List Nat := [2, 2, 4, 4, 8, 4, 2, 1, 1, 2, 2, 2, 2]

def Descriptor.values (o : Descriptor) : List Nat :=
  [o.objectType.toNat, o.objectTag.toNat, o.generation.toNat, o.logicalSize.toNat, o.recordId.toNat,
    o.storedSize.toNat, o.policyId.toNat, o.keyDomain.toNat, o.protection.toNat, o.flags.toNat,
    o.extensionOffset.toNat, o.extensionSize.toNat, o.transactionGroup.toNat]

def Descriptor.ofValues (vs : List Nat) : Descriptor where
  objectType := .ofNat (vs.getD 0 0)
  objectTag := .ofNat (vs.getD 1 0)
  generation := .ofNat (vs.getD 2 0)
  logicalSize := .ofNat (vs.getD 3 0)
  recordId := .ofNat (vs.getD 4 0)
  storedSize := .ofNat (vs.getD 5 0)
  policyId := .ofNat (vs.getD 6 0)
  keyDomain := .ofNat (vs.getD 7 0)
  protection := .ofNat (vs.getD 8 0)
  flags := .ofNat (vs.getD 9 0)
  extensionOffset := .ofNat (vs.getD 10 0)
  extensionSize := .ofNat (vs.getD 11 0)
  transactionGroup := .ofNat (vs.getD 12 0)

/-- file_object_descriptor_encode. -/
def descriptorEncode (o : Descriptor) : Bytes := ByteCodec.encode descriptorWidths o.values

/-- file_object_descriptor_decode. -/
def descriptorDecode (data : Bytes) : Descriptor := .ofValues (ByteCodec.decode descriptorWidths data)

/-- The first 32 bytes of a manifest. -/
structure Header where
  magic : UInt32
  version : UInt8
  headerSize : UInt8
  flags : UInt16
  namespaceId : UInt16
  containerKind : UInt16
  containerId : UInt32
  generation : UInt32
  previousGeneration : UInt32
  objectCount : UInt16
  descriptorSize : UInt8
  reserved : UInt8
  extensionSize : UInt16
  totalSize : UInt16
deriving DecidableEq

def headerWidths : List Nat := [4, 1, 1, 2, 2, 2, 4, 4, 4, 2, 1, 1, 2, 2]

def Header.values (h : Header) : List Nat :=
  [h.magic.toNat, h.version.toNat, h.headerSize.toNat, h.flags.toNat, h.namespaceId.toNat,
    h.containerKind.toNat, h.containerId.toNat, h.generation.toNat, h.previousGeneration.toNat,
    h.objectCount.toNat, h.descriptorSize.toNat, h.reserved.toNat, h.extensionSize.toNat,
    h.totalSize.toNat]

def Header.ofValues (vs : List Nat) : Header where
  magic := .ofNat (vs.getD 0 0)
  version := .ofNat (vs.getD 1 0)
  headerSize := .ofNat (vs.getD 2 0)
  flags := .ofNat (vs.getD 3 0)
  namespaceId := .ofNat (vs.getD 4 0)
  containerKind := .ofNat (vs.getD 5 0)
  containerId := .ofNat (vs.getD 6 0)
  generation := .ofNat (vs.getD 7 0)
  previousGeneration := .ofNat (vs.getD 8 0)
  objectCount := .ofNat (vs.getD 9 0)
  descriptorSize := .ofNat (vs.getD 10 0)
  reserved := .ofNat (vs.getD 11 0)
  extensionSize := .ofNat (vs.getD 12 0)
  totalSize := .ofNat (vs.getD 13 0)

def headerEncode (h : Header) : Bytes := ByteCodec.encode headerWidths h.values

def headerDecode (data : Bytes) : Header := .ofValues (ByteCodec.decode headerWidths data)

/-! The checks of both sides. -/

/-- file_object_descriptor_core_valid. -/
def descriptorCoreValid (o : Descriptor) : Bool :=
  o.objectType ≠ 0 && o.objectType ≠ 0xffff && o.generation ≠ 0 && o.recordId ≠ 0 &&
  1 ≤ o.protection && o.protection ≤ 3 && o.flags &&& ~~~0x003f = 0 && o.flags &&& 0x0001 = 0 &&
  ((o.flags &&& 0x0010 ≠ 0 : Bool) == (o.transactionGroup ≠ 0 : Bool)) &&
  ((o.extensionOffset = 0 : Bool) == (o.extensionSize = 0 : Bool))

/-- file_object_descriptor_valid. -/
def descriptorValid (extensionStart extensionEnd : Nat) (o : Descriptor) : Bool :=
  descriptorCoreValid o &&
    !(o.extensionSize.toNat > 0 && (o.extensionOffset.toNat < extensionStart ||
      o.extensionOffset.toNat > extensionEnd ||
      o.extensionSize.toNat > extensionEnd - o.extensionOffset.toNat))

/-- The order that file_object_descriptors_valid asks of neighbours. -/
def descriptorBefore (a b : Descriptor) : Prop :=
  a.objectType < b.objectType ∨ (a.objectType = b.objectType ∧ a.objectTag < b.objectTag)

instance : DecidableRel descriptorBefore := fun _ _ => inferInstanceAs (Decidable (_ ∨ _))

/-- file_object_descriptors_valid. -/
def descriptorsValid (os : List Descriptor) (extensionStart extensionEnd : Nat) : Bool :=
  os.all (descriptorValid extensionStart extensionEnd) && decide (os.IsChain descriptorBefore)

/-- file_object_extensions_validate, from the current offset on. -/
def extensionsValidate (supported : UInt8 → Bool) : Bytes → Except ObjErr Unit
  | [] => .ok ()
  | kind :: flags :: high :: low :: rest =>
    if kind = 0 ∨ flags &&& ~~~extensionFlagCritical ≠ 0 ∨
        ByteCodec.get [high, low] > rest.length then .error .wrongData
    else if flags &&& extensionFlagCritical ≠ 0 ∧ supported kind = false then .error .wrongData
    else extensionsValidate supported (rest.drop (ByteCodec.get [high, low]))
  | _ => .error .wrongData
termination_by data => data.length
decreasing_by
  simp only [List.length_drop, List.length_cons]
  omega

/-- file_object_extension_accept_all. -/
def extensionAcceptAll (_ : UInt8) : Bool := true

/-- The bytes from `offset` on, `size` of them. -/
def slice (data : Bytes) (offset size : Nat) : Bytes := (data.drop offset).take size

/-- The loop over the extensions of the descriptors; `origin` is the offset that `data` starts at. -/
def objectExtensionsValidate (supported : UInt8 → Bool) (data : Bytes) (origin : Nat) :
    List Descriptor → Except ObjErr Unit
  | [] => .ok ()
  | o :: os =>
    if o.extensionSize.toNat > 0 then
      match extensionsValidate supported
          (slice data (o.extensionOffset.toNat - origin) o.extensionSize.toNat) with
      | .error e => .error e
      | .ok () => objectExtensionsValidate supported data origin os
    else objectExtensionsValidate supported data origin os

/-! Building. -/

/-- The number of descriptors that are written: the single-object form leaves the count 0. -/
def Manifest.count (m : Manifest) : Nat :=
  if m.objectCount = 0 ∧ m.hasObject then 1 else m.objectCount.toNat

def Manifest.descriptors (m : Manifest) : List Descriptor := m.objects.toList.take m.count

def extensionStart (count : Nat) : Nat := manifestHeaderSize + count * descriptorSize

def totalSize (count extensions : Nat) : Nat := extensionStart count + extensions + authTagSize

def buildHeader (m : Manifest) (extensions : Bytes) : Header where
  magic := manifestMagic
  version := manifestFormatVersion
  headerSize := 32
  flags := m.flags
  namespaceId := m.namespaceId
  containerKind := m.containerKind
  containerId := m.containerId
  generation := m.generation
  previousGeneration := m.previousGeneration
  objectCount := .ofNat m.count
  descriptorSize := 36
  reserved := 0
  extensionSize := .ofNat extensions.length
  totalSize := .ofNat (totalSize m.count extensions.length)

/-- The bytes under the tag. -/
def buildBody (m : Manifest) (extensions : Bytes) : Bytes :=
  headerEncode (buildHeader m extensions) ++ m.descriptors.flatMap descriptorEncode ++ extensions

/-- file_object_manifest_build into a buffer with this much room: the bytes that are appended. -/
def manifestBuild (auth : Authenticator) (m : Manifest) (extensions : Bytes) (room : Nat) :
    Except ObjErr Bytes :=
  if extensions.length > uint16Max then .error .nullParam
  else if m.count > manifestMaxObjects then .error .wrongData
  else if m.generation = 0 ∨ m.previousGeneration ≥ m.generation then .error .wrongData
  else if totalSize m.count extensions.length > uint16Max ∨
      room < totalSize m.count extensions.length then .error .wrongLength
  else if descriptorsValid m.descriptors (extensionStart m.count)
      (extensionStart m.count + extensions.length) = false then .error .wrongData
  else match extensionsValidate extensionAcceptAll extensions with
  | .error e => .error e
  | .ok () =>
    match objectExtensionsValidate extensionAcceptAll extensions (extensionStart m.count)
        m.descriptors with
    | .error e => .error e
    | .ok () =>
      match auth.tag (buildBody m extensions) with
      | .error e => .error e
      | .ok tag => .ok (buildBody m extensions ++ tag)

/-! Parsing. -/

/-- The descriptors after the header. -/
def descriptorsDecode : Nat → Bytes → List Descriptor
  | 0, _ => []
  | n + 1, data => descriptorDecode data :: descriptorsDecode n (data.drop descriptorSize)

/-- The array of the parsed manifest; what is not filled is zero. -/
def objectArray (os : List Descriptor) : Vector Descriptor manifestMaxObjects :=
  .ofFn fun i => os.getD i {}

/-- The manifest that is returned, by its header and its descriptors. -/
def parsedManifest (h : Header) (os : List Descriptor) : Manifest where
  flags := h.flags
  namespaceId := h.namespaceId
  containerKind := h.containerKind
  containerId := h.containerId
  generation := h.generation
  previousGeneration := h.previousGeneration
  extensionOffset := .ofNat (extensionStart h.objectCount.toNat)
  extensionSize := h.extensionSize
  totalSize := h.totalSize
  objectCount := h.objectCount
  hasObject := h.objectCount > 0
  objects := objectArray os

/-- The checks on the header fields, against the size of the data. -/
def headerValid (h : Header) (size : Nat) : Bool :=
  h.magic = manifestMagic && h.version = manifestFormatVersion && h.headerSize = 32 &&
  h.objectCount.toNat ≤ manifestMaxObjects && h.descriptorSize = 36 && h.reserved = 0 &&
  h.totalSize.toNat = size && totalSize h.objectCount.toNat h.extensionSize.toNat = size

/-- file_object_manifest_parse. -/
def manifestParse (auth : Authenticator) (supported : UInt8 → Bool) (data : Bytes) :
    Except ObjErr Manifest :=
  if data.length < manifestHeaderSize + authTagSize ∨ data.length > uint16Max then
    .error .wrongLength
  else
    let h := headerDecode data
    if headerValid h data.length = false then .error .wrongData
    else match auth.tag (data.take (data.length - authTagSize)) with
    | .error e => .error e
    | .ok tag =>
      if tag ≠ data.drop (data.length - authTagSize) then .error .wrongSignature
      else
        let start := extensionStart h.objectCount.toNat
        match extensionsValidate supported (slice data start h.extensionSize.toNat) with
        | .error e => .error e
        | .ok () =>
          if h.generation = 0 ∨ h.previousGeneration ≥ h.generation then .error .wrongData
          else
            let os := descriptorsDecode h.objectCount.toNat (data.drop manifestHeaderSize)
            if descriptorsValid os start (start + h.extensionSize.toNat) = false then
              .error .wrongData
            else match objectExtensionsValidate supported data 0 os with
            | .error e => .error e
            | .ok () => .ok (parsedManifest h os)

/-! Fields and bytes. -/
section Fields

open ByteCodec (Fits)

theorem Descriptor.values_fits (o : Descriptor) : Fits descriptorWidths o.values := by
  simp only [Fits, descriptorWidths, values, List.forall₂_cons, List.Forall₂.nil, and_true]
  exact ⟨UInt16.toNat_lt _, UInt16.toNat_lt _, UInt32.toNat_lt _, UInt32.toNat_lt _, UInt64.toNat_lt _,
    UInt32.toNat_lt _, UInt16.toNat_lt _, UInt8.toNat_lt _, UInt8.toNat_lt _, UInt16.toNat_lt _,
    UInt16.toNat_lt _, UInt16.toNat_lt _, UInt16.toNat_lt _⟩

theorem Descriptor.ofValues_values (o : Descriptor) : ofValues o.values = o := by
  simp [ofValues, values]

theorem Descriptor.values_ofValues {vs : List Nat} (h : Fits descriptorWidths vs) :
    (ofValues vs).values = vs := by
  simp only [Fits, descriptorWidths, List.forall₂_cons_left_iff, List.forall₂_nil_left_iff] at h
  obtain ⟨a, _, h1, ⟨b, _, h2, ⟨c, _, h3, ⟨d, _, h4, ⟨e, _, h5, ⟨f, _, h6, ⟨g, _, h7, ⟨i, _, h8,
    ⟨j, _, h9, ⟨k, _, h10, ⟨l, _, h11, ⟨m, _, h12, ⟨n, _, h13, rfl, rfl⟩, rfl⟩, rfl⟩, rfl⟩, rfl⟩, rfl⟩,
    rfl⟩, rfl⟩, rfl⟩, rfl⟩, rfl⟩, rfl⟩, rfl⟩ := h
  simp [values, ofValues]
  exact ⟨h1, h2, h3, h4, h5, h6, h7, h8, h9, h10, h11, h12, h13⟩

theorem Header.values_fits (h : Header) : Fits headerWidths h.values := by
  simp only [Fits, headerWidths, values, List.forall₂_cons, List.Forall₂.nil, and_true]
  exact ⟨UInt32.toNat_lt _, UInt8.toNat_lt _, UInt8.toNat_lt _, UInt16.toNat_lt _, UInt16.toNat_lt _,
    UInt16.toNat_lt _, UInt32.toNat_lt _, UInt32.toNat_lt _, UInt32.toNat_lt _, UInt16.toNat_lt _,
    UInt8.toNat_lt _, UInt8.toNat_lt _, UInt16.toNat_lt _, UInt16.toNat_lt _⟩

theorem Header.ofValues_values (h : Header) : ofValues h.values = h := by
  simp [ofValues, values]

theorem Header.values_ofValues {vs : List Nat} (h : Fits headerWidths vs) :
    (ofValues vs).values = vs := by
  simp only [Fits, headerWidths, List.forall₂_cons_left_iff, List.forall₂_nil_left_iff] at h
  obtain ⟨a, _, h1, ⟨b, _, h2, ⟨c, _, h3, ⟨d, _, h4, ⟨e, _, h5, ⟨f, _, h6, ⟨g, _, h7, ⟨i, _, h8,
    ⟨j, _, h9, ⟨k, _, h10, ⟨l, _, h11, ⟨m, _, h12, ⟨n, _, h13, ⟨o, _, h14, rfl, rfl⟩, rfl⟩, rfl⟩, rfl⟩,
    rfl⟩, rfl⟩, rfl⟩, rfl⟩, rfl⟩, rfl⟩, rfl⟩, rfl⟩, rfl⟩, rfl⟩ := h
  simp [values, ofValues]
  exact ⟨h1, h2, h3, h4, h5, h6, h7, h8, h9, h10, h11, h12, h13, h14⟩

@[simp] theorem descriptorEncode_length (o : Descriptor) : (descriptorEncode o).length = descriptorSize :=
  ByteCodec.encode_length rfl

@[simp] theorem headerEncode_length (h : Header) : (headerEncode h).length = manifestHeaderSize :=
  ByteCodec.encode_length rfl

theorem headerDecode_encode (h : Header) (rest : Bytes) : headerDecode (headerEncode h ++ rest) = h := by
  rw [headerDecode, headerEncode, ByteCodec.decode_encode h.values_fits, Header.ofValues_values]

theorem headerEncode_decode {data : Bytes} (h : manifestHeaderSize ≤ data.length) :
    headerEncode (headerDecode data) = data.take manifestHeaderSize := by
  have hlen : (data.take manifestHeaderSize).length = headerWidths.sum := by
    rw [List.length_take]
    exact Nat.min_eq_left h
  have hdec := ByteCodec.decode_append headerWidths hlen (data.drop manifestHeaderSize)
  rw [List.take_append_drop] at hdec
  rw [headerEncode, headerDecode, Header.values_ofValues (ByteCodec.decode_fits _ h), hdec,
    ByteCodec.encode_decode _ hlen]

theorem descriptorDecode_encode (o : Descriptor) (rest : Bytes) :
    descriptorDecode (descriptorEncode o ++ rest) = o := by
  rw [descriptorDecode, descriptorEncode, ByteCodec.decode_encode o.values_fits,
    Descriptor.ofValues_values]

theorem descriptorEncode_decode {data : Bytes} (h : descriptorSize ≤ data.length) :
    descriptorEncode (descriptorDecode data) = data.take descriptorSize := by
  have hlen : (data.take descriptorSize).length = descriptorWidths.sum := by
    rw [List.length_take]
    exact Nat.min_eq_left h
  have hdec := ByteCodec.decode_append descriptorWidths hlen (data.drop descriptorSize)
  rw [List.take_append_drop] at hdec
  rw [descriptorEncode, descriptorDecode, Descriptor.values_ofValues (ByteCodec.decode_fits _ h), hdec,
    ByteCodec.encode_decode _ hlen]

theorem descriptors_length (os : List Descriptor) :
    (os.flatMap descriptorEncode).length = os.length * descriptorSize := by
  induction os with
  | nil => rfl
  | cons o os ih =>
    rw [List.flatMap_cons, List.length_append, descriptorEncode_length, ih, List.length_cons,
      Nat.succ_mul, Nat.add_comm]

theorem descriptorsDecode_encode (os : List Descriptor) (rest : Bytes) :
    descriptorsDecode os.length (os.flatMap descriptorEncode ++ rest) = os := by
  induction os with
  | nil => rfl
  | cons o os ih =>
    rw [List.flatMap_cons, List.length_cons, descriptorsDecode, List.append_assoc,
      descriptorDecode_encode, List.drop_left' (descriptorEncode_length o), ih]

theorem descriptorsEncode_decode (n : Nat) {data : Bytes} (h : n * descriptorSize ≤ data.length) :
    (descriptorsDecode n data).flatMap descriptorEncode = data.take (n * descriptorSize) := by
  induction n generalizing data with
  | zero => rw [Nat.zero_mul, List.take_zero]; rfl
  | succ n ih =>
    have hfirst : descriptorSize ≤ data.length := by
      rw [Nat.succ_mul] at h
      omega
    have hrest : n * descriptorSize ≤ (data.drop descriptorSize).length := by
      rw [List.length_drop]
      rw [Nat.succ_mul] at h
      omega
    rw [descriptorsDecode, List.flatMap_cons, descriptorEncode_decode hfirst, ih hrest, Nat.succ_mul,
      Nat.add_comm, List.take_add]

theorem descriptorsDecode_length (n : Nat) (data : Bytes) : (descriptorsDecode n data).length = n := by
  induction n generalizing data with
  | zero => rfl
  | succ n ih => rw [descriptorsDecode, List.length_cons, ih]

end Fields

/-! Extensions. -/

theorem extensionsValidate_acceptAll {supported : UInt8 → Bool} {data : Bytes}
    (h : extensionsValidate supported data = .ok ()) :
    extensionsValidate extensionAcceptAll data = .ok () := by
  induction data using extensionsValidate.induct supported with
  | case1 => rw [extensionsValidate]
  | case2 kind flags high low rest hbad =>
    rw [extensionsValidate, if_pos hbad] at h
    cases h
  | case3 kind flags high low rest hok hcrit =>
    rw [extensionsValidate, if_neg hok, if_pos hcrit] at h
    cases h
  | case4 kind flags high low rest hok hcrit ih =>
    rw [extensionsValidate, if_neg hok, if_neg hcrit] at h
    rw [extensionsValidate, if_neg hok, if_neg (by simp [extensionAcceptAll])]
    exact ih h
  | case5 data hnil hshort => rw [extensionsValidate] at h <;> simp_all

theorem objectExtensionsValidate_ok {supported : UInt8 → Bool} {data : Bytes} {origin : Nat}
    {os : List Descriptor} : objectExtensionsValidate supported data origin os = .ok () ↔
      ∀ o ∈ os, o.extensionSize.toNat > 0 → extensionsValidate supported
        (slice data (o.extensionOffset.toNat - origin) o.extensionSize.toNat) = .ok () := by
  induction os with
  | nil => simp [objectExtensionsValidate]
  | cons o os ih =>
    rw [objectExtensionsValidate, List.forall_mem_cons]
    by_cases hpos : o.extensionSize.toNat > 0
    · rw [if_pos hpos]
      cases hval : extensionsValidate supported
          (slice data (o.extensionOffset.toNat - origin) o.extensionSize.toNat) with
      | error e => simp [hpos]
      | ok _ => simp [ih]
    · rw [if_neg hpos, ih]
      simp [hpos]

/-! What a successful call checked. -/

/-- The checks of `manifestBuild` and its result. -/
structure Built (auth : Authenticator) (m : Manifest) (extensions : Bytes) (room : Nat)
    (data : Bytes) : Prop where
  length : extensions.length ≤ uint16Max
  count : m.count ≤ manifestMaxObjects
  generation : ¬ (m.generation = 0 ∨ m.previousGeneration ≥ m.generation)
  size : totalSize m.count extensions.length ≤ uint16Max
  room : totalSize m.count extensions.length ≤ room
  descriptors : descriptorsValid m.descriptors (extensionStart m.count)
    (extensionStart m.count + extensions.length) = true
  area : extensionsValidate extensionAcceptAll extensions = .ok ()
  objects : objectExtensionsValidate extensionAcceptAll extensions (extensionStart m.count)
    m.descriptors = .ok ()
  sealed : ∃ tag, auth.tag (buildBody m extensions) = .ok tag ∧ data = buildBody m extensions ++ tag

theorem manifestBuild_ok {auth : Authenticator} {m : Manifest} {extensions : Bytes} {room : Nat}
    {data : Bytes} : manifestBuild auth m extensions room = .ok data ↔
      Built auth m extensions room data := by
  constructor
  · intro h
    unfold manifestBuild at h
    by_cases hext : extensions.length > uint16Max
    · rw [if_pos hext] at h
      cases h
    by_cases hcount : m.count > manifestMaxObjects
    · rw [if_neg hext, if_pos hcount] at h
      cases h
    by_cases hgen : m.generation = 0 ∨ m.previousGeneration ≥ m.generation
    · rw [if_neg hext, if_neg hcount, if_pos hgen] at h
      cases h
    by_cases hsize : totalSize m.count extensions.length > uint16Max ∨
        room < totalSize m.count extensions.length
    · rw [if_neg hext, if_neg hcount, if_neg hgen, if_pos hsize] at h
      cases h
    by_cases hdesc : descriptorsValid m.descriptors (extensionStart m.count)
        (extensionStart m.count + extensions.length) = false
    · rw [if_neg hext, if_neg hcount, if_neg hgen, if_neg hsize, if_pos hdesc] at h
      cases h
    rw [if_neg hext, if_neg hcount, if_neg hgen, if_neg hsize, if_neg hdesc] at h
    cases harea : extensionsValidate extensionAcceptAll extensions with
    | error e => simp [harea] at h
    | ok _ =>
      cases hobj : objectExtensionsValidate extensionAcceptAll extensions (extensionStart m.count)
          m.descriptors with
      | error e => simp [harea, hobj] at h
      | ok _ =>
        cases htag : auth.tag (buildBody m extensions) with
        | error e => simp [harea, hobj, htag] at h
        | ok tag =>
          simp only [harea, hobj, htag, Except.ok.injEq] at h
          exact ⟨by omega, by omega, hgen, by omega, by omega, Bool.not_eq_false _ ▸ hdesc, harea, hobj,
            tag, htag, h.symm⟩
  · intro h
    obtain ⟨tag, htag, rfl⟩ := h.sealed
    have hext := Nat.not_lt.mpr h.length
    have hcount := Nat.not_lt.mpr h.count
    have hsize := Nat.not_lt.mpr h.size
    have hroom := Nat.not_lt.mpr h.room
    simp only [manifestBuild, gt_iff_lt, hext, hcount, h.generation, hsize, hroom, h.descriptors,
      h.area, h.objects, htag, or_self, if_false, Bool.true_eq_false]

/-- The checks of `manifestParse` and its result. -/
structure Parsed (auth : Authenticator) (supported : UInt8 → Bool) (data : Bytes) (p : Manifest) :
    Prop where
  long : manifestHeaderSize + authTagSize ≤ data.length
  short : data.length ≤ uint16Max
  header : headerValid (headerDecode data) data.length = true
  tag : auth.tag (data.take (data.length - authTagSize)) =
    .ok (data.drop (data.length - authTagSize))
  area : extensionsValidate supported (slice data
    (extensionStart (headerDecode data).objectCount.toNat) (headerDecode data).extensionSize.toNat) =
      .ok ()
  generation : ¬ ((headerDecode data).generation = 0 ∨
    (headerDecode data).previousGeneration ≥ (headerDecode data).generation)
  descriptors : descriptorsValid
    (descriptorsDecode (headerDecode data).objectCount.toNat (data.drop manifestHeaderSize))
    (extensionStart (headerDecode data).objectCount.toNat)
    (extensionStart (headerDecode data).objectCount.toNat + (headerDecode data).extensionSize.toNat) =
      true
  objects : objectExtensionsValidate supported data 0
    (descriptorsDecode (headerDecode data).objectCount.toNat (data.drop manifestHeaderSize)) = .ok ()
  result : p = parsedManifest (headerDecode data)
    (descriptorsDecode (headerDecode data).objectCount.toNat (data.drop manifestHeaderSize))

theorem manifestParse_ok {auth : Authenticator} {supported : UInt8 → Bool} {data : Bytes}
    {p : Manifest} : manifestParse auth supported data = .ok p ↔ Parsed auth supported data p := by
  constructor
  · intro h
    unfold manifestParse at h
    by_cases hlen : data.length < manifestHeaderSize + authTagSize ∨ data.length > uint16Max
    · rw [if_pos hlen] at h
      cases h
    rw [if_neg hlen] at h
    dsimp only at h
    by_cases hhead : headerValid (headerDecode data) data.length = false
    · rw [if_pos hhead] at h
      cases h
    rw [if_neg hhead] at h
    cases htag : auth.tag (data.take (data.length - authTagSize)) with
    | error e => simp [htag] at h
    | ok tag =>
      simp only [htag] at h
      by_cases hsame : tag ≠ data.drop (data.length - authTagSize)
      · rw [if_pos hsame] at h
        cases h
      rw [if_neg hsame] at h
      rw [ne_eq, not_not] at hsame
      subst hsame
      cases harea : extensionsValidate supported (slice data
          (extensionStart (headerDecode data).objectCount.toNat)
          (headerDecode data).extensionSize.toNat) with
      | error e => simp [harea] at h
      | ok _ =>
        simp only [harea] at h
        by_cases hgen : (headerDecode data).generation = 0 ∨
            (headerDecode data).previousGeneration ≥ (headerDecode data).generation
        · rw [if_pos hgen] at h
          cases h
        rw [if_neg hgen] at h
        by_cases hdesc : descriptorsValid
            (descriptorsDecode (headerDecode data).objectCount.toNat (data.drop manifestHeaderSize))
            (extensionStart (headerDecode data).objectCount.toNat)
            (extensionStart (headerDecode data).objectCount.toNat +
              (headerDecode data).extensionSize.toNat) = false
        · rw [if_pos hdesc] at h
          cases h
        rw [if_neg hdesc] at h
        cases hobj : objectExtensionsValidate supported data 0
            (descriptorsDecode (headerDecode data).objectCount.toNat
              (data.drop manifestHeaderSize)) with
        | error e => simp [hobj] at h
        | ok _ =>
          simp only [hobj, Except.ok.injEq] at h
          exact ⟨by omega, by omega, Bool.not_eq_false _ ▸ hhead, htag, harea, hgen,
            Bool.not_eq_false _ ▸ hdesc, hobj, h.symm⟩
  · intro h
    have hlong := Nat.not_lt.mpr h.long
    have hshort := Nat.not_lt.mpr h.short
    simp only [manifestParse, gt_iff_lt, hlong, hshort, h.header, h.tag, h.area, h.generation,
      h.descriptors, h.objects, h.result, or_self, if_false, Bool.true_eq_false, ne_eq,
      not_true_eq_false]

/-! The two directions. -/

theorem Manifest.descriptors_length {m : Manifest} (h : m.count ≤ manifestMaxObjects) :
    m.descriptors.length = m.count := by
  rw [descriptors, List.length_take, Vector.length_toList]
  exact Nat.min_eq_left h

theorem objectArray_take {os : List Descriptor} (h : os.length ≤ manifestMaxObjects) :
    (objectArray os).toList.take os.length = os := by
  apply List.ext_getElem
  · rw [List.length_take, Vector.length_toList]
    exact Nat.min_eq_left h
  · intro i _ hi
    simp [objectArray, List.getElem_take, hi]

theorem slice_append (before middle after : Bytes) {offset size : Nat} (hfrom : before.length ≤ offset)
    (hto : offset + size ≤ before.length + middle.length) :
    slice (before ++ middle ++ after) offset size = slice middle (offset - before.length) size := by
  have hdrop : (before ++ middle).drop offset = middle.drop (offset - before.length) := by
    rw [List.drop_append, List.drop_eq_nil_of_le hfrom, List.nil_append]
  have hsize : size ≤ (middle.drop (offset - before.length)).length := by
    rw [List.length_drop]
    omega
  have hoffset : offset ≤ (before ++ middle).length := by
    rw [List.length_append]
    omega
  rw [slice, slice, List.drop_append_of_le_length hoffset, hdrop, List.take_append_of_le_length hsize]

theorem descriptorsValid_range {os : List Descriptor} {start finish : Nat} {o : Descriptor}
    (h : descriptorsValid os start finish = true) (ho : o ∈ os) (hpos : o.extensionSize.toNat > 0) :
    start ≤ o.extensionOffset.toNat ∧
      o.extensionOffset.toNat + o.extensionSize.toNat ≤ finish := by
  rw [descriptorsValid, Bool.and_eq_true, List.all_eq_true] at h
  have hvalid := h.1 o ho
  simp only [descriptorValid, Bool.and_eq_true, Bool.not_eq_true', Bool.and_eq_false_iff,
    Bool.or_eq_false_iff, decide_eq_false_iff_not] at hvalid
  omega

theorem headerValid_iff {h : Header} {size : Nat} : headerValid h size = true ↔
    h.magic = manifestMagic ∧ h.version = manifestFormatVersion ∧ h.headerSize = 32 ∧
    h.objectCount.toNat ≤ manifestMaxObjects ∧ h.descriptorSize = 36 ∧ h.reserved = 0 ∧
    h.totalSize.toNat = size ∧ totalSize h.objectCount.toNat h.extensionSize.toNat = size := by
  simp only [headerValid, Bool.and_eq_true, decide_eq_true_eq, and_assoc]

section RoundTrip

variable {auth : Authenticator} {m p : Manifest} {extensions data : Bytes} {room : Nat}
  {supported : UInt8 → Bool}

theorem Built.header_sizes (h : Built auth m extensions room data) :
    (buildHeader m extensions).objectCount.toNat = m.count ∧
    (buildHeader m extensions).extensionSize.toNat = extensions.length ∧
    (buildHeader m extensions).totalSize.toNat = totalSize m.count extensions.length := by
  have hcount := h.count
  have hlength := h.length
  have hsize := h.size
  simp only [uint16Max, manifestMaxObjects] at hcount hlength hsize
  exact ⟨UInt16.toNat_ofNat_of_lt' (by simp only [UInt16.size]; omega),
    UInt16.toNat_ofNat_of_lt' (by simp only [UInt16.size]; omega),
    UInt16.toNat_ofNat_of_lt' (by simp only [UInt16.size]; omega)⟩

theorem Built.start_length (h : Built auth m extensions room data) :
    (headerEncode (buildHeader m extensions) ++ m.descriptors.flatMap descriptorEncode).length =
      extensionStart m.count := by
  rw [List.length_append, headerEncode_length, descriptors_length,
    Manifest.descriptors_length h.count]
  rfl

theorem Built.length_eq (h : Built auth m extensions room data) :
    data.length = totalSize m.count extensions.length := by
  obtain ⟨tag, htag, rfl⟩ := h.sealed
  rw [List.length_append, buildBody, List.length_append, h.start_length, auth.tag_length htag]
  rfl

theorem Built.headerDecode_eq (h : Built auth m extensions room data) :
    headerDecode data = buildHeader m extensions := by
  obtain ⟨tag, -, rfl⟩ := h.sealed
  simp only [buildBody, List.append_assoc]
  exact headerDecode_encode _ _

theorem Built.descriptorsDecode_eq (h : Built auth m extensions room data) :
    descriptorsDecode m.count (data.drop manifestHeaderSize) = m.descriptors := by
  obtain ⟨tag, -, rfl⟩ := h.sealed
  simp only [buildBody, List.append_assoc]
  rw [List.drop_left' (headerEncode_length _), ← Manifest.descriptors_length h.count,
    descriptorsDecode_encode]

theorem Built.slice_eq (h : Built auth m extensions room data) {offset size : Nat}
    (hfrom : extensionStart m.count ≤ offset)
    (hto : offset + size ≤ extensionStart m.count + extensions.length) :
    slice data offset size = slice extensions (offset - extensionStart m.count) size := by
  obtain ⟨tag, -, rfl⟩ := h.sealed
  rw [← h.start_length] at hfrom hto ⊢
  exact slice_append _ _ _ hfrom hto

theorem Built.slice_area (h : Built auth m extensions room data) :
    slice data (extensionStart m.count) extensions.length = extensions := by
  rw [h.slice_eq (Nat.le_refl _) (Nat.le_refl _), Nat.sub_self, slice, List.drop_zero,
    List.take_length]

theorem Built.parsed (h : Built auth m extensions room data) :
    Parsed auth extensionAcceptAll data
      (parsedManifest (buildHeader m extensions) m.descriptors) := by
  obtain ⟨hcount, hext, htotal⟩ := h.header_sizes
  have hlen := h.length_eq
  have hhead := h.headerDecode_eq
  constructor
  · rw [hlen]
    simp only [totalSize, extensionStart]
    omega
  · rw [hlen]
    exact h.size
  · rw [hhead, headerValid_iff, hcount, hext, htotal, hlen]
    exact ⟨rfl, rfl, rfl, h.count, rfl, rfl, rfl, rfl⟩
  · obtain ⟨tag, htag, rfl⟩ := h.sealed
    have hcut : (buildBody m extensions ++ tag).length - authTagSize =
        (buildBody m extensions).length := by
      rw [List.length_append, auth.tag_length htag, Nat.add_sub_cancel]
    rw [hcut, List.take_left, List.drop_left]
    exact htag
  · rw [hhead, hcount, hext, h.slice_area]
    exact h.area
  · rw [hhead]
    exact h.generation
  · rw [hhead, hcount, hext, h.descriptorsDecode_eq]
    exact h.descriptors
  · rw [hhead, hcount, h.descriptorsDecode_eq, objectExtensionsValidate_ok]
    intro o ho hpos
    obtain ⟨hfrom, hto⟩ := descriptorsValid_range h.descriptors ho hpos
    rw [Nat.sub_zero, h.slice_eq hfrom hto]
    exact objectExtensionsValidate_ok.mp h.objects o ho hpos
  · rw [hhead, hcount, h.descriptorsDecode_eq]

theorem Parsed.count_eq (h : Parsed auth supported data p) :
    p.count = (headerDecode data).objectCount.toNat := by
  rw [h.result, Manifest.count]
  by_cases h0 : (headerDecode data).objectCount = 0
  · simp [parsedManifest, h0]
  · simp [parsedManifest, h0]

theorem Parsed.descriptors_eq (h : Parsed auth supported data p) :
    p.descriptors = descriptorsDecode (headerDecode data).objectCount.toNat
      (data.drop manifestHeaderSize) := by
  obtain ⟨-, -, -, hmax, -⟩ := headerValid_iff.mp h.header
  have hlen := descriptorsDecode_length (headerDecode data).objectCount.toNat
    (data.drop manifestHeaderSize)
  have htake := objectArray_take (hlen.trans_le hmax)
  rw [hlen] at htake
  rw [Manifest.descriptors, h.count_eq, h.result]
  exact htake

/-- The extension bytes of a parsed manifest. -/
def Manifest.extensionBytes (p : Manifest) (data : Bytes) : Bytes :=
  slice data p.extensionOffset.toNat p.extensionSize.toNat

theorem Parsed.built (h : Parsed auth supported data p) (hroom : data.length ≤ room) :
    Built auth p (p.extensionBytes data) room data := by
  obtain ⟨hmagic, hversion, hsize, hmax, hdsize, hreserved, htotal, hsum⟩ :=
    headerValid_iff.mp h.header
  have hlong := h.long
  have hshort := h.short
  have hoffset : p.extensionOffset.toNat = extensionStart (headerDecode data).objectCount.toNat := by
    rw [h.result]
    apply UInt16.toNat_ofNat_of_lt'
    simp only [UInt16.size, totalSize, uint16Max] at *
    omega
  have hextSize : p.extensionSize = (headerDecode data).extensionSize := by rw [h.result]; rfl
  have hlen : (p.extensionBytes data).length = (headerDecode data).extensionSize.toNat := by
    rw [Manifest.extensionBytes, slice, List.length_take, List.length_drop, hoffset, hextSize]
    simp only [totalSize] at hsum
    omega
  have hgen : p.generation = (headerDecode data).generation ∧
      p.previousGeneration = (headerDecode data).previousGeneration := by
    rw [h.result]
    exact ⟨rfl, rfl⟩
  have hheader : buildHeader p (p.extensionBytes data) = headerDecode data := by
    rw [buildHeader, hlen, h.count_eq, hsum, ← htotal, UInt16.ofNat_toNat, UInt16.ofNat_toNat,
      UInt16.ofNat_toNat, h.result, ← hmagic, ← hversion, ← hsize, ← hdsize, ← hreserved]
    rfl
  have hbody : buildBody p (p.extensionBytes data) = data.take (data.length - authTagSize) := by
    have hroomy : (headerDecode data).objectCount.toNat * descriptorSize ≤
        (data.drop manifestHeaderSize).length := by
      rw [List.length_drop]
      simp only [totalSize, extensionStart] at hsum
      omega
    have hcut : data.length - authTagSize = manifestHeaderSize +
        ((headerDecode data).objectCount.toNat * descriptorSize +
          (headerDecode data).extensionSize.toNat) := by
      simp only [totalSize, extensionStart] at hsum
      omega
    rw [buildBody, hheader, headerEncode_decode (by omega), h.descriptors_eq,
      descriptorsEncode_decode _ hroomy, Manifest.extensionBytes, slice, hoffset, hextSize, hcut,
      List.take_add, List.take_add, List.drop_drop, List.append_assoc, extensionStart]
  have hslice : ∀ o ∈ p.descriptors, o.extensionSize.toNat > 0 →
      slice (p.extensionBytes data) (o.extensionOffset.toNat - extensionStart p.count)
        o.extensionSize.toNat = slice data o.extensionOffset.toNat o.extensionSize.toNat := by
    intro o ho hpos
    rw [h.descriptors_eq] at ho
    obtain ⟨hfrom, hto⟩ := descriptorsValid_range h.descriptors ho hpos
    have hsplit : data.take (extensionStart p.count) ++ p.extensionBytes data ++
        data.drop (extensionStart p.count + (headerDecode data).extensionSize.toNat) = data := by
      rw [Manifest.extensionBytes, slice, hoffset, hextSize, h.count_eq, ← List.take_add,
        List.take_append_drop]
    have hbefore : (data.take (extensionStart p.count)).length = extensionStart p.count := by
      rw [List.length_take, h.count_eq]
      simp only [totalSize] at hsum
      omega
    rw [← h.count_eq, ← hbefore] at hfrom hto
    rw [← hlen] at hto
    have hmid := slice_append _ (p.extensionBytes data)
      (data.drop (extensionStart p.count + (headerDecode data).extensionSize.toNat)) hfrom hto
    rw [hsplit, hbefore] at hmid
    exact hmid.symm
  constructor
  · rw [hlen]
    have := UInt16.toNat_lt (headerDecode data).extensionSize
    simp only [uint16Max]
    omega
  · rw [h.count_eq]
    exact hmax
  · rw [hgen.1, hgen.2]
    exact h.generation
  · rw [h.count_eq, hlen, hsum]
    exact hshort
  · rw [h.count_eq, hlen, hsum]
    exact hroom
  · rw [h.count_eq, hlen, h.descriptors_eq]
    exact h.descriptors
  · rw [Manifest.extensionBytes, hoffset, hextSize]
    exact extensionsValidate_acceptAll h.area
  · rw [objectExtensionsValidate_ok]
    intro o ho hpos
    rw [hslice o ho hpos]
    rw [h.descriptors_eq] at ho
    have hval := objectExtensionsValidate_ok.mp h.objects o ho hpos
    rw [Nat.sub_zero] at hval
    exact extensionsValidate_acceptAll hval
  · refine ⟨data.drop (data.length - authTagSize), ?_, ?_⟩
    · rw [hbody]
      exact h.tag
    · rw [hbody, List.take_append_drop]

end RoundTrip

/-- A manifest that is built comes back from its bytes, and bytes that are parsed are the ones that
the parsed manifest is built into. -/
theorem manifest_round_trip (auth : Authenticator) :
    (∀ m extensions room data, manifestBuild auth m extensions room = .ok data →
      ∃ p, manifestParse auth extensionAcceptAll data = .ok p ∧
        p.flags = m.flags ∧ p.namespaceId = m.namespaceId ∧ p.containerKind = m.containerKind ∧
        p.containerId = m.containerId ∧ p.generation = m.generation ∧
        p.previousGeneration = m.previousGeneration ∧ p.objectCount.toNat = m.count ∧
        p.descriptors = m.descriptors ∧ p.extensionOffset.toNat = extensionStart m.count ∧
        p.extensionSize.toNat = extensions.length ∧ p.totalSize.toNat = data.length ∧
        p.extensionBytes data = extensions) ∧
    ∀ supported data p room, manifestParse auth supported data = .ok p → data.length ≤ room →
      manifestBuild auth p (p.extensionBytes data) room = .ok data := by
  constructor
  · intro m extensions room data hbuild
    have hbuilt := manifestBuild_ok.mp hbuild
    have hparsed := hbuilt.parsed
    obtain ⟨hcount, hext, htotal⟩ := hbuilt.header_sizes
    have hoffset : (parsedManifest (buildHeader m extensions) m.descriptors).extensionOffset.toNat =
        extensionStart m.count := by
      have hsize := hbuilt.size
      simp only [totalSize, uint16Max] at hsize
      have hlt : extensionStart m.count < UInt16.size := by
        simp only [UInt16.size]
        omega
      rw [parsedManifest, hcount, UInt16.toNat_ofNat_of_lt' hlt]
    refine ⟨_, manifestParse_ok.mpr hparsed, rfl, rfl, rfl, rfl, rfl, rfl, hcount, ?_, hoffset, hext,
      ?_, ?_⟩
    · rw [hparsed.descriptors_eq, hbuilt.headerDecode_eq, hcount, hbuilt.descriptorsDecode_eq]
    · exact htotal.trans hbuilt.length_eq.symm
    · rw [Manifest.extensionBytes, hoffset]
      exact (congrArg _ hext).trans hbuilt.slice_area
  · intro supported data p room hparse hroom
    exact manifestBuild_ok.mpr ((manifestParse_ok.mp hparse).built hroom)

/-- One object in the single-object form, with an extension of its own. -/
def sampleManifest : Manifest where
  flags := 0
  namespaceId := 2
  containerKind := 1
  containerId := 7
  generation := 3
  previousGeneration := 2
  objectCount := 0
  hasObject := true
  objects := objectArray [{
    objectType := 1, generation := 3, logicalSize := 5, recordId := 0xa000, storedSize := 5
    policyId := 0x0101, protection := 2, extensionOffset := 68, extensionSize := 4 }]

/-- A build that succeeds: 32 bytes, one descriptor, four bytes of extensions and the tag. -/
example : (manifestBuild ⟨fun _ => .ok (List.replicate 16 0), fun h => by cases h; rfl⟩ sampleManifest
    [9, 0, 0, 0] 100).toOption.map List.length = some 88 := by
  decide +kernel

end Container.Codec

end KeyWallet
