import NemoMessenger.Wire.Objects
import NemoMessenger.Server.GroupAppend
import NemoMessenger.Client.Message

/-!
# Sealed group files

A group file is sealed with HPKE to a key pair made for it, put behind its length and padded with
zeros to an attachment bucket; the secret travels inside MLS and the host keeps the blob. A slice
that is out of bounds is a panic, and `none` here.
-/

namespace NemoMessenger.Wire

/-- `&bytes[start..stop]`. -/
def slice (bytes : Bytes) (start stop : ℕ) : Option Bytes :=
  if start ≤ stop ∧ stop ≤ bytes.length then some ((bytes.take stop).drop start) else none

/-- `bytes[start..stop].copy_from_slice(source)`. -/
def copyInto (bytes : Bytes) (start stop : ℕ) (source : Bytes) : Option Bytes :=
  if start ≤ stop ∧ stop ≤ bytes.length ∧ source.length = stop - start then
    some (bytes.take start ++ (source ++ bytes.drop stop))
  else none

/-- `AttachmentSizeBucket::for_len`: the first of the buckets, from the smallest on. -/
def AttachmentSizeBucket.forLen (n : ℕ) : Except WireError AttachmentSizeBucket :=
  if n ≤ a1.innerLen then .ok .a1
  else if n ≤ a2.innerLen then .ok .a2
  else if n ≤ a3.innerLen then .ok .a3
  else if n ≤ a4.innerLen then .ok .a4
  else .error .noBucket

theorem AttachmentSizeBucket.forLen_eq_ok {n : ℕ} {bucket : AttachmentSizeBucket}
    (h : forLen n = .ok bucket) :
    n ≤ bucket.innerLen ∧ ∀ other : AttachmentSizeBucket, n ≤ other.innerLen →
      bucket.innerLen ≤ other.innerLen := by
  unfold forLen at h
  split_ifs at h <;> cases h
  all_goals
    refine ⟨by assumption, fun other hother ↦ ?_⟩
    cases other <;> simp only [innerLen, Wire.a1, Wire.a2, Wire.a3, Wire.a4] at * <;> omega

theorem AttachmentSizeBucket.innerLen_le (bucket : AttachmentSizeBucket) :
    bucket.innerLen ≤ a4.innerLen := by
  cases bucket <;> decide

theorem AttachmentSizeBucket.exists_forLen {n : ℕ} (h : n ≤ a4.innerLen) :
    ∃ bucket, forLen n = .ok bucket := by
  unfold forLen
  split_ifs
  all_goals exact ⟨_, rfl⟩

namespace Crypto

/-- `hpke::open` with its slices. -/
def openSlices (crypto : Crypto) (secret : Key) (destinationServerId : ServerId)
    (ciphertext : Bytes) : Option (Except WireError Bytes) :=
  if ciphertext.length < encapLen then some (.error (.hpke "truncated enc"))
  else do
    let front ← slice ciphertext 0 encapLen
    match copyFixed 32 front with
    | .error e => some (.error e)
    | .ok enc =>
      let body ← slice ciphertext encapLen ciphertext.length
      some (crypto.hpkeOpen secret enc body (aad destinationServerId))

theorem openSlices_eq (crypto : Crypto) (secret : Key) (destinationServerId : ServerId)
    (ciphertext : Bytes) :
    crypto.openSlices secret destinationServerId ciphertext =
      some (crypto.openSealed secret destinationServerId ciphertext) := by
  unfold openSlices openSealed encapKey
  by_cases hshort : ciphertext.length < encapLen
  · rw [if_pos hshort, if_pos hshort]
    rfl
  rw [if_neg hshort, if_neg hshort, slice, if_pos ⟨Nat.zero_le _, not_lt.mp hshort⟩, slice,
    if_pos ⟨not_lt.mp hshort, le_rfl⟩, List.take_length, List.drop_zero]
  cases hfixed : copyFixed 32 (ciphertext.take encapLen) <;> simp [hfixed, bind, Except.bind]

/-- `hpke::open` inverts `hpke::seal` to the public key of a pair, at one destination. -/
def Inverts (crypto : Crypto) (keys : HpkeKeypair) : Prop :=
  ∀ entropy destination plaintext ciphertext,
    crypto.hpkeSeal entropy keys.publicKey (aad destination) plaintext = .ok ciphertext →
      crypto.openSealed keys.secret destination ciphertext = .ok plaintext

end Crypto

end NemoMessenger.Wire

namespace NemoMessenger.Client

open Wire Server

/-- `KEY_MATERIAL`. -/
def keyMaterial : ℕ := 32 * 2

/-- `seal_group_file`, with the key pair and the randomness it draws. -/
def sealGroupFile (crypto : Crypto) (keys : HpkeKeypair) (entropy : Key) (plaintext : Bytes) :
    Option (Except CoreError (Bytes × AttachmentSizeBucket × Bytes)) :=
  let dest := keys.serverId crypto
  match crypto.hpkeSeal entropy keys.publicKey (Crypto.aad dest) plaintext with
  | .error e => some (.error (.wire e))
  | .ok ciphertext =>
    let need := saturatingAdd 4 ciphertext.length
    match AttachmentSizeBucket.forLen need with
    | .error e => some (.error (.wire e))
    | .ok bucket =>
      if 2 ^ 32 ≤ ciphertext.length then some (.error (.wire .noBucket))
      else do
        let blob ← copyInto (.replicate bucket.innerLen 0) 0 4 (toBeBytes 4 ciphertext.length)
        let blob ← copyInto blob 4 (4 + ciphertext.length) ciphertext
        some (.ok (keys.secret.data ++ keys.publicKey.data, bucket, blob))

/-- `open_group_file`. -/
def openGroupFile (crypto : Crypto) (key blob : Bytes) : Option (Except CoreError Bytes) :=
  if key.length ≠ keyMaterial ∨ blob.length < 4 then some (.error .badCiphertext)
  else do
    let head ← slice blob 0 4
    let n := fromBeBytes head
    if saturatingAdd 4 n > blob.length then some (.error .badCiphertext)
    else do
      let front ← slice key 0 32
      match copyFixed 32 front with
      | .error e => some (.error (.wire e))
      | .ok secret =>
        let back ← slice key 32 key.length
        match copyFixed 32 back with
        | .error e => some (.error (.wire e))
        | .ok publicKey =>
          let ciphertext ← slice blob 4 (4 + n)
          (crypto.openSlices secret (crypto.serverId publicKey) ciphertext).map liftWire

/-- The blob a host is given: the length, the ciphertext, and zeros up to the bucket. -/
def fileBlob (bucket : AttachmentSizeBucket) (ciphertext : Bytes) : Bytes :=
  toBeBytes 4 ciphertext.length ++
    (ciphertext ++ .replicate (bucket.innerLen - (4 + ciphertext.length)) 0)

theorem length_fileBlob {bucket : AttachmentSizeBucket} {ciphertext : Bytes}
    (h : 4 + ciphertext.length ≤ bucket.innerLen) :
    (fileBlob bucket ciphertext).length = bucket.innerLen := by
  rw [fileBlob, List.length_append, List.length_append, length_toBeBytes, List.length_replicate]
  omega

theorem lt_of_fits {bucket : AttachmentSizeBucket} {ciphertext : Bytes}
    (h : 4 + ciphertext.length ≤ bucket.innerLen) : ciphertext.length < 256 ^ 4 := by
  have hle := bucket.innerLen_le
  have ha4 : AttachmentSizeBucket.a4.innerLen = 16777216 := rfl
  omega

/-- Both copies of `seal_group_file` are in bounds. -/
theorem sealGroupFile_eq {crypto : Crypto} {keys : HpkeKeypair} {entropy : Key}
    {plaintext ciphertext : Bytes} {bucket : AttachmentSizeBucket}
    (hseal : crypto.hpkeSeal entropy keys.publicKey (Crypto.aad (keys.serverId crypto)) plaintext =
      .ok ciphertext)
    (hbucket : AttachmentSizeBucket.forLen (saturatingAdd 4 ciphertext.length) = .ok bucket) :
    4 + ciphertext.length ≤ bucket.innerLen ∧
      sealGroupFile crypto keys entropy plaintext =
        some (.ok (keys.secret.data ++ keys.publicKey.data, bucket,
          fileBlob bucket ciphertext)) := by
  have hle := (AttachmentSizeBucket.forLen_eq_ok hbucket).1
  have ha4 : bucket.innerLen ≤ 16777216 := bucket.innerLen_le
  have hfits : 4 + ciphertext.length ≤ bucket.innerLen := by
    unfold saturatingAdd u64Max at hle
    omega
  refine ⟨hfits, ?_⟩
  have hlength : (List.replicate bucket.innerLen (0 : UInt8)).length = bucket.innerLen :=
    List.length_replicate
  have hhead : copyInto (.replicate bucket.innerLen 0) 0 4 (toBeBytes 4 ciphertext.length) =
      some (toBeBytes 4 ciphertext.length ++ .replicate (bucket.innerLen - 4) 0) := by
    rw [copyInto, if_pos ⟨by omega, by omega, length_toBeBytes _ _⟩, List.take_zero,
      List.nil_append, List.drop_replicate]
  have hbody : copyInto (toBeBytes 4 ciphertext.length ++ .replicate (bucket.innerLen - 4) 0) 4
      (4 + ciphertext.length) ciphertext = some (fileBlob bucket ciphertext) := by
    have hfour : (toBeBytes 4 ciphertext.length).length = 4 := length_toBeBytes _ _
    rw [copyInto, if_pos ⟨by omega, by
      rw [List.length_append, hfour, List.length_replicate]; omega, by omega⟩,
      List.take_left' hfour, ← List.drop_drop, List.drop_left' hfour, List.drop_replicate,
      Nat.sub_sub, fileBlob]
  unfold sealGroupFile
  simp only [hseal, hbucket, hhead, hbody, Option.bind_eq_bind, Option.bind_some]
  rw [if_neg (by omega)]

/-- Whatever the key and the blob are, every slice of them is in bounds. -/
theorem openGroupFile_eq (crypto : Crypto) (key blob : Bytes) :
    openGroupFile crypto key blob = some (
      if key.length ≠ keyMaterial ∨ blob.length < 4 ∨
          blob.length < 4 + fromBeBytes (blob.take 4) then .error .badCiphertext
      else do
        let secret ← liftWire (copyFixed 32 (key.take 32))
        let publicKey ← liftWire (copyFixed 32 (key.drop 32))
        liftWire (crypto.openSealed secret (crypto.serverId publicKey)
          ((blob.take (4 + fromBeBytes (blob.take 4))).drop 4))) := by
  unfold openGroupFile
  by_cases hshort : key.length ≠ keyMaterial ∨ blob.length < 4
  · rw [if_pos hshort, if_pos (hshort.imp_right .inl)]
  have hkey : key.length = 64 := not_not.mp (not_or.mp hshort).1
  have hblob : 4 ≤ blob.length := not_lt.mp (not_or.mp hshort).2
  have hn : fromBeBytes (blob.take 4) < 256 ^ 4 := by
    have hlt := fromBeBytes_lt (blob.take 4)
    rwa [List.length_take_of_le hblob] at hlt
  have hhead : slice blob 0 4 = some (blob.take 4) := by
    rw [slice, if_pos ⟨by omega, hblob⟩, List.drop_zero]
  have hsum : saturatingAdd 4 (fromBeBytes (blob.take 4)) = 4 + fromBeBytes (blob.take 4) := by
    unfold saturatingAdd u64Max
    omega
  rw [if_neg hshort, hhead]
  simp only [Option.bind_eq_bind, Option.bind_some, hsum]
  by_cases hover : blob.length < 4 + fromBeBytes (blob.take 4)
  · rw [if_pos hover, if_pos (.inr (.inr hover))]
  have hfront : slice key 0 32 = some (key.take 32) := by
    rw [slice, if_pos ⟨by omega, by omega⟩, List.drop_zero]
  have hback : slice key 32 key.length = some (key.drop 32) := by
    rw [slice, if_pos ⟨by omega, le_rfl⟩, List.take_length]
  have hbody : slice blob 4 (4 + fromBeBytes (blob.take 4)) =
      some ((blob.take (4 + fromBeBytes (blob.take 4))).drop 4) := by
    rw [slice, if_pos ⟨by omega, by omega⟩]
  rw [if_neg hover, if_neg (by rw [← or_assoc]; exact not_or.mpr ⟨hshort, hover⟩)]
  simp only [hfront, hback, hbody, Option.bind_some, Crypto.openSlices_eq, Option.map_some]
  cases copyFixed 32 (key.take 32) with
  | error e => rfl
  | ok secret => cases copyFixed 32 (key.drop 32) <;> rfl

theorem openGroupFile_fileBlob {crypto : Crypto} {keys : HpkeKeypair}
    {bucket : AttachmentSizeBucket} {ciphertext : Bytes}
    (h : 4 + ciphertext.length ≤ bucket.innerLen) :
    openGroupFile crypto (keys.secret.data ++ keys.publicKey.data) (fileBlob bucket ciphertext) =
      some (liftWire (crypto.openSealed keys.secret (keys.serverId crypto) ciphertext)) := by
  have hlength := length_fileBlob h
  have hfour : (toBeBytes 4 ciphertext.length).length = 4 := length_toBeBytes _ _
  have hhead : (fileBlob bucket ciphertext).take 4 = toBeBytes 4 ciphertext.length :=
    List.take_left' hfour
  have hn : fromBeBytes (toBeBytes 4 ciphertext.length) = ciphertext.length :=
    fromBeBytes_toBeBytes_of_lt (lt_of_fits h)
  have hbody : ((fileBlob bucket ciphertext).take (4 + ciphertext.length)).drop 4 = ciphertext := by
    rw [fileBlob, ← List.append_assoc, List.take_left' (by rw [List.length_append, hfour]),
      List.drop_left' hfour]
  have hsecret : keys.secret.data.length = 32 := keys.secret.length_data
  have hpublic : keys.publicKey.data.length = 32 := keys.publicKey.length_data
  rw [openGroupFile_eq, hhead, hn, hbody, if_neg, List.take_left' hsecret,
    List.drop_left' hsecret, copyFixed_data, copyFixed_data]
  · rfl
  · rw [List.length_append, hsecret, hpublic, hlength, keyMaterial]
    omega

/-! ## The host -/

/-- A reserve that is appended leaves an empty slot of the size of its bucket, and a stream row. -/
theorem append_reserve_eq_ok {crypto : Crypto} {host after : GroupHost} {groupId : GroupId}
    {cred : MemberCred} {reserve : AttachmentReserve} {draws : ℕ → Key × Key}
    {appended : StreamAppend}
    (h : host.append crypto groupId cred .attachmentReserve reserve.encode draws =
      (.ok appended, after)) :
    ∃ (g : GroupState) (ttl : TtlBucket), host.groups.lookup groupId = some g ∧
      host.authorizeLive crypto groupId cred = .ok () ∧
      after = (host.pushRow groupId g .attachmentReserve reserve.encode).putFile
        reserve.fetchToken
        { groupId := groupId
          owner := cred.credentialId
          size := reserve.sizeBucket.innerLen
          expiresAt := saturatingAdd host.now (ttl.ttlSecs.getD streamMaxAgeSecs)
          bytes := none } := by
  have hdecode : AttachmentReserve.decode reserve.encode =
      (TtlBucket.fromU8 reserve.ttlBucket.bucket).map fun ttlBucket ↦
        { reserve with ttlBucket } := by
    simpa using reserve.decode_append []
  unfold GroupHost.append at h
  cases hlive : host.authorizeLive crypto groupId cred with
  | error e =>
    rw [hlive] at h
    cases h
  | ok u =>
    obtain ⟨g, hg⟩ := GroupHost.exists_group_of_authorizeLive crypto hlive
    simp only [hlive, GroupHost.appendReserve, hdecode] at h
    cases httl : TtlBucket.fromU8 reserve.ttlBucket.bucket with
    | error e =>
      rw [httl] at h
      cases h
    | ok ttl =>
      refine ⟨g, ttl, hg, rfl, ?_⟩
      simp only [httl, Except.map, GroupHost.fanoutCopy_of_group crypto hg] at h
      split_ifs at h
      · cases h
      · cases h
      · cases h
      · cases hseals : GroupHost.sealCopies crypto g .attachmentReserve reserve.encode draws with
        | error e =>
          rw [hseals] at h
          cases h
        | ok outers =>
          rw [hseals] at h
          exact (congrArg Prod.snd h).symm

/-- The blob of a sealed file, and the host that has its reserve. -/
structure SealedFile (crypto : Crypto) (keys : HpkeKeypair) (plaintext key : Bytes)
    (bucket : AttachmentSizeBucket) (blob : Bytes) : Prop where
  length : blob.length = bucket.innerLen
  smallest : ∃ entropy ciphertext,
    crypto.hpkeSeal entropy keys.publicKey (Crypto.aad (keys.serverId crypto)) plaintext =
      .ok ciphertext ∧ 4 + ciphertext.length ≤ bucket.innerLen ∧
    ∀ other : AttachmentSizeBucket, 4 + ciphertext.length ≤ other.innerLen →
      bucket.innerLen ≤ other.innerLen
  uploads : ∀ (host after : GroupHost) (groupId : GroupId) (cred : MemberCred)
    (reserve : AttachmentReserve) (draws : ℕ → Key × Key) (appended : StreamAppend),
    reserve.sizeBucket = bucket →
    host.append crypto groupId cred .attachmentReserve reserve.encode draws =
      (.ok appended, after) →
    (host.now < u64Max →
      (after.uploadFile crypto groupId cred reserve.fetchToken blob).1 = .ok ()) ∧
    ∃ slot, after.files.lookup reserve.fetchToken = some slot ∧ ∀ later : GroupHost,
      later.files.lookup reserve.fetchToken = some slot →
      later.authorizeLive crypto groupId cred = .ok () → later.now < slot.expiresAt →
      (later.uploadFile crypto groupId cred reserve.fetchToken blob).1 = .ok ()
  opens : openGroupFile crypto key blob = some (.ok plaintext)

/-- An empty slot of the size of the blob takes it, from its owner and before it expires. -/
theorem uploadFile_of_slot {crypto : Crypto} {host : GroupHost} {groupId : GroupId}
    {cred : MemberCred} {fetchToken : Key} {slot : FileSlot} {blob : Bytes}
    (hslot : host.files.lookup fetchToken = some slot) (hgroup : slot.groupId = groupId)
    (howner : slot.owner = cred.credentialId) (hbytes : slot.bytes = none)
    (hsize : blob.length = slot.size)
    (hlive : host.authorizeLive crypto groupId cred = .ok ()) (htime : host.now < slot.expiresAt) :
    (host.uploadFile crypto groupId cred fetchToken blob).1 = .ok () := by
  unfold GroupHost.uploadFile
  simp only [hlive, hslot]
  rw [if_neg (by rw [not_or, not_or]; exact ⟨not_not.mpr hgroup, not_not.mpr howner, by omega⟩),
    if_neg (by rw [not_or]; exact ⟨by simp [hbytes], not_not.mpr hsize⟩)]

theorem uploads_of_length {crypto : Crypto} {bucket : AttachmentSizeBucket} {blob : Bytes}
    (hlength : blob.length = bucket.innerLen) {host after : GroupHost} {groupId : GroupId}
    {cred : MemberCred} {reserve : AttachmentReserve} {draws : ℕ → Key × Key}
    {appended : StreamAppend} (hbucket : reserve.sizeBucket = bucket)
    (h : host.append crypto groupId cred .attachmentReserve reserve.encode draws =
      (.ok appended, after)) :
    (host.now < u64Max →
      (after.uploadFile crypto groupId cred reserve.fetchToken blob).1 = .ok ()) ∧
    ∃ slot, after.files.lookup reserve.fetchToken = some slot ∧ ∀ later : GroupHost,
      later.files.lookup reserve.fetchToken = some slot →
      later.authorizeLive crypto groupId cred = .ok () → later.now < slot.expiresAt →
      (later.uploadFile crypto groupId cred reserve.fetchToken blob).1 = .ok () := by
  obtain ⟨g, ttl, hg, hlive, rfl⟩ := append_reserve_eq_ok h
  have hsize : blob.length = reserve.sizeBucket.innerLen := by rw [hbucket, hlength]
  refine ⟨fun hnow ↦ ?_, _, AList.lookup_insert _, fun later hslot hlive htime ↦
    uploadFile_of_slot hslot rfl rfl rfl (by exact hsize) hlive htime⟩
  refine uploadFile_of_slot (AList.lookup_insert _) rfl rfl rfl (by exact hsize) ?_ ?_
  · have hgroup : ((host.pushRow groupId g .attachmentReserve reserve.encode).groups).lookup
        groupId = some _ := AList.lookup_insert _
    unfold GroupHost.authorizeLive at hlive ⊢
    rw [hg] at hlive
    simp only [GroupHost.putFile, hgroup]
    exact hlive
  · have hage : 0 < ttl.ttlSecs.getD streamMaxAgeSecs := by
      unfold TtlBucket.ttlSecs
      split_ifs <;> decide
    show host.now < saturatingAdd host.now _
    unfold saturatingAdd
    omega

/-- A group file that is sealed opens to what it was, the host takes its blob, and the smallest
bucket that fits is enough; and no key and no blob make the reader leave the blob. -/
theorem groupFile_roundTrip {crypto : Crypto} {keys : HpkeKeypair} (h : crypto.Inverts keys) :
    (∀ entropy plaintext, ∃ outcome,
      sealGroupFile crypto keys entropy plaintext = some outcome ∧
      ∀ key bucket blob, outcome = .ok (key, bucket, blob) →
        SealedFile crypto keys plaintext key bucket blob) ∧
    (∀ entropy plaintext ciphertext,
      crypto.hpkeSeal entropy keys.publicKey (Crypto.aad (keys.serverId crypto)) plaintext =
        .ok ciphertext → 4 + ciphertext.length ≤ AttachmentSizeBucket.a4.innerLen →
      ∃ file, sealGroupFile crypto keys entropy plaintext = some (.ok file)) ∧
    ∀ key blob, ∃ outcome, openGroupFile crypto key blob = some outcome := by
  refine ⟨fun entropy plaintext ↦ ?_, fun entropy plaintext ciphertext hseal hfits ↦ ?_,
    fun key blob ↦ ⟨_, openGroupFile_eq crypto key blob⟩⟩
  · cases hseal : crypto.hpkeSeal entropy keys.publicKey (Crypto.aad (keys.serverId crypto))
        plaintext with
    | error e => exact ⟨.error (.wire e), by simp only [sealGroupFile, hseal], nofun⟩
    | ok ciphertext =>
      cases hbucket : AttachmentSizeBucket.forLen (saturatingAdd 4 ciphertext.length) with
      | error e => exact ⟨.error (.wire e), by simp only [sealGroupFile, hseal, hbucket], nofun⟩
      | ok bucket =>
        obtain ⟨hfits, hsealed⟩ := sealGroupFile_eq hseal hbucket
        refine ⟨_, hsealed, ?_⟩
        rintro _ _ _ ⟨⟩
        have hlength := length_fileBlob hfits
        refine ⟨hlength, ⟨entropy, ciphertext, hseal, hfits, fun other hother ↦ ?_⟩,
          fun _ _ _ _ _ _ _ ↦ uploads_of_length hlength, ?_⟩
        · exact (AttachmentSizeBucket.forLen_eq_ok hbucket).2 other
            ((Nat.min_le_left _ _).trans hother)
        · rw [openGroupFile_fileBlob hfits, h _ _ _ _ hseal]
          rfl
  · obtain ⟨bucket, hbucket⟩ :=
      AttachmentSizeBucket.exists_forLen ((Nat.min_le_left _ u64Max).trans hfits)
    exact ⟨_, (sealGroupFile_eq hseal hbucket).2⟩

theorem inverts_transparent (keys : HpkeKeypair) : Crypto.transparent.Inverts keys := by
  intro entropy destination plaintext ciphertext hseal
  cases hseal
  unfold Crypto.openSealed
  rw [Crypto.encapKey_append]
  exact congrArg Except.ok (List.drop_left' entropy.length_data)

theorem groupFile_roundTrip_transparent :
    let keys : HpkeKeypair := ⟨.replicate 32 1, .replicate 32 1⟩
    (∀ entropy plaintext, ∃ outcome,
      sealGroupFile .transparent keys entropy plaintext = some outcome ∧
      ∀ key bucket blob, outcome = .ok (key, bucket, blob) →
        SealedFile .transparent keys plaintext key bucket blob) ∧
    (∀ entropy plaintext ciphertext,
      Crypto.transparent.hpkeSeal entropy keys.publicKey
        (Crypto.aad (keys.serverId .transparent)) plaintext = .ok ciphertext →
      4 + ciphertext.length ≤ AttachmentSizeBucket.a4.innerLen →
      ∃ file, sealGroupFile .transparent keys entropy plaintext = some (.ok file)) ∧
    ∀ key blob, ∃ outcome, openGroupFile .transparent key blob = some outcome :=
  groupFile_roundTrip (inverts_transparent ⟨.replicate 32 1, .replicate 32 1⟩)

end NemoMessenger.Client
