import NemoMessenger.Data.Once
import NemoMessenger.Server.GroupTurn

/-!
# Group files

A member reserves a file under a token of its own choice, uploads the bytes once, and every live
member who knows the token fetches them until the reservation expires. Over a run, the reservation
under a token and the bytes behind it are each set by one operation, which the answer to a fetch is
traced back to, and what is reserved in a group stays within the budget of the host.
-/

namespace NemoMessenger.Server

open NemoMessenger.Data NemoMessenger.Wire

/-! ## Reserving and uploading -/

/-- The slot `append_reserve` makes of a reservation. -/
def reservedSlot (reserve : AttachmentReserve) (now : ℕ) (groupId : GroupId) (owner : Key) :
    FileSlot where
  groupId := groupId
  owner := owner
  size := reserve.sizeBucket.innerLen
  expiresAt := saturatingAdd now (reserve.ttlBucket.ttlSecs.getD streamMaxAgeSecs)
  bytes := none

/-- The operation is a reservation that succeeds, of this slot under this token. -/
inductive GroupOp.Reserves (crypto : Crypto) (host : GroupHost) : GroupOp → Key → FileSlot → Prop
  | append {groupId : GroupId} {cred : MemberCred} {body : Bytes} {draws : ℕ → Key × Key}
    {reserve : AttachmentReserve} {out : StreamAppend}
    (hreserve : AttachmentReserve.decode body = .ok reserve)
    (hok : (host.append crypto groupId cred .attachmentReserve body draws).1 = .ok out) :
    Reserves crypto host (.append groupId cred .attachmentReserve body draws) reserve.fetchToken
      (reservedSlot reserve host.now groupId cred.credentialId)

/-- The operation is an upload that succeeds, of these bytes under this token. -/
inductive GroupOp.Uploads (crypto : Crypto) (host : GroupHost) : GroupOp → Key → Bytes → Prop
  | upload {groupId : GroupId} {cred : MemberCred} {fetchToken : Key} {body : Bytes}
    (hok : (host.uploadFile crypto groupId cred fetchToken body).1 = .ok ()) :
    Uploads crypto host (.uploadFile groupId cred fetchToken body) fetchToken body

namespace GroupHost

variable {crypto : Crypto} {host : GroupHost} {groupId : GroupId} {cred : MemberCred}
  {type : MessageType} {body : Bytes}

/-- Clock, budget and files are the same. -/
def SameFiles (host host' : GroupHost) : Prop :=
  host'.now = host.now ∧ host'.fileBudget = host.fileBudget ∧ host'.files = host.files

theorem SameFiles.refl (host : GroupHost) : host.SameFiles host := ⟨rfl, rfl, rfl⟩

theorem SameFiles.trans {host' host'' : GroupHost} (h : host.SameFiles host')
    (h' : host'.SameFiles host'') : host.SameFiles host'' :=
  ⟨h'.1.trans h.1, h'.2.1.trans h.2.1, h'.2.2.trans h.2.2⟩

theorem Quiet.sameFiles {host' : GroupHost} (h : host.Quiet host') : host.SameFiles host' :=
  ⟨h.now, h.fileBudget, h.files⟩

theorem sameFiles_fanoutCopy (host : GroupHost) (groupId : GroupId) (type : MessageType)
    (body : Bytes) (draws : ℕ → Key × Key) :
    host.SameFiles (host.fanoutCopy crypto groupId type body draws).2 := by
  unfold fanoutCopy
  split
  · exact .refl host
  · split_ifs
    · exact .refl host
    · dsimp only
      split <;> exact ⟨rfl, rfl, rfl⟩

theorem sameFiles_appendHostRevocation (host : GroupHost) (groupId : GroupId)
    (stmt : RevocationStatement) (draws : ℕ → Key × Key) :
    host.SameFiles (host.appendHostRevocation crypto groupId stmt draws).2 := by
  unfold appendHostRevocation
  split_ifs
  · exact .refl host
  · exact sameFiles_fanoutCopy _ _ _ _ _

theorem sameFiles_readied (host : GroupHost) (groupId : GroupId) (cred : MemberCred) (body : Bytes)
    (type : MessageType) : host.SameFiles (host.readied groupId cred body type) := by
  cases type with
  | signingKeyReplace =>
    dsimp only [readied]
    split
    · exact .refl host
    · exact (quiet_modifyCred _ _ _ _).sameFiles
  | _ => exact .refl host

theorem sameFiles_settled (host : GroupHost) (now : ℕ) (groupId : GroupId) (cred : MemberCred)
    (body : Bytes) (htype : type ≠ .attachmentReserve) :
    host.SameFiles (host.settled now groupId cred body type) := by
  cases type with
  | attachmentReserve => exact absurd rfl htype
  | removeBundle =>
    dsimp only [settled]
    split
    · exact .refl host
    · exact (quiet_modifyCred _ _ _ _).sameFiles
  | _ => exact .refl host

/-- The host behind the checks of an append and its copies. -/
def copied (crypto : Crypto) (host : GroupHost) (groupId : GroupId) (cred : MemberCred)
    (type : MessageType) (body : Bytes) (draws : ℕ → Key × Key) : GroupHost :=
  ((host.readied groupId cred body type).fanoutCopy crypto groupId type body draws).2

theorem sameFiles_copied (host : GroupHost) (groupId : GroupId) (cred : MemberCred)
    (type : MessageType) (body : Bytes) (draws : ℕ → Key × Key) :
    host.SameFiles (host.copied crypto groupId cred type body draws) :=
  (host.sameFiles_readied groupId cred body type).trans (sameFiles_fanoutCopy _ _ _ _ _)

/-- An append that fails leaves the files; one that succeeds has passed its checks and settles. -/
theorem append_copied (draws : ℕ → Key × Key) :
    host.SameFiles (host.append crypto groupId cred type body draws).2 ∧
        (∀ out, (host.append crypto groupId cred type body draws).1 ≠ .ok out) ∨
      host.authorizeLive crypto groupId cred = .ok () ∧
      host.ChecksPass crypto groupId cred body type ∧
      ∃ out, host.append crypto groupId cred type body draws =
        (.ok out, (host.copied crypto groupId cred type body draws).settled host.now groupId cred
          body type) := by
  by_cases h : host.authorizeLive crypto groupId cred = .ok () ∧
      host.ChecksPass crypto groupId cred body type
  · obtain ⟨hlive, hpass⟩ := h
    have hcopied := @sameFiles_copied crypto host groupId cred type body draws
    have happend := append_passed draws hlive hpass
    unfold copied at hcopied ⊢
    revert hcopied happend
    rcases (host.readied groupId cred body type).fanoutCopy crypto groupId type body draws with
      ⟨_ | out, after⟩
    · intro hcopied happend
      rw [happend]
      exact .inl ⟨hcopied, nofun⟩
    · intro _ happend
      exact .inr ⟨hlive, hpass, out, happend⟩
  · obtain ⟨e, he⟩ := append_refused draws fun hlive hpass ↦ h ⟨hlive, hpass⟩
    rw [he]
    exact .inl ⟨.refl host, nofun⟩

/-- A reservation that succeeds puts its slot under a free token, within the budget. -/
theorem reserved_of_ok {reserve : AttachmentReserve} {out : StreamAppend} {draws : ℕ → Key × Key}
    (hreserve : AttachmentReserve.decode body = .ok reserve)
    (hok : (host.append crypto groupId cred .attachmentReserve body draws).1 = .ok out) :
    host.files.lookup reserve.fetchToken = none ∧
      saturatingAdd (host.liveFileBytes groupId) reserve.sizeBucket.innerLen ≤ host.fileBudget ∧
      (host.copied crypto groupId cred .attachmentReserve body draws).putFile reserve.fetchToken
          (reservedSlot reserve host.now groupId cred.credentialId) =
        (host.append crypto groupId cred .attachmentReserve body draws).2 := by
  rcases @append_copied crypto host groupId cred .attachmentReserve body draws with
    ⟨-, herror⟩ | ⟨-, hpass, out', heq⟩
  · exact absurd hok (herror out)
  · obtain ⟨reserve', hreserve', hfree, hbudget⟩ := hpass
    cases hreserve.symm.trans hreserve'
    refine ⟨hfree, hbudget, ?_⟩
    rw [heq]
    dsimp only [settled]
    rw [hreserve]
    rfl

/-- An upload that succeeds fills the slot of its credential with as many bytes as were reserved. -/
theorem uploaded_of_ok {fetchToken : Key}
    (hok : (host.uploadFile crypto groupId cred fetchToken body).1 = .ok ()) :
    ∃ slot, host.files.lookup fetchToken = some slot ∧ slot.groupId = groupId ∧
      slot.owner = cred.credentialId ∧ host.now < slot.expiresAt ∧ slot.bytes = none ∧
      body.length = slot.size ∧ host.authorizeLive crypto groupId cred = .ok () ∧
      (host.uploadFile crypto groupId cred fetchToken body).2 =
        host.putFile fetchToken { slot with bytes := some body } := by
  unfold uploadFile at hok ⊢
  split at hok
  · cases hok
  · rename_i hlive
    split at hok
    · cases hok
    · rename_i slot hslot
      split_ifs at hok with hforeign hfilled
      push Not at hforeign hfilled
      obtain ⟨hgroup, howner, hexpires⟩ := hforeign
      rw [hlive, hslot]
      simp only
      rw [if_neg (by simp [hgroup, howner, hexpires]), if_neg (by simpa using hfilled)]
      refine ⟨slot, rfl, hgroup, howner, hexpires, ?_, hfilled.2, trivial, rfl⟩
      simpa using hfilled.1

theorem sameFiles_upload_error {fetchToken : Key}
    (hok : (host.uploadFile crypto groupId cred fetchToken body).1 ≠ .ok ()) :
    host.SameFiles (host.uploadFile crypto groupId cred fetchToken body).2 := by
  unfold uploadFile at hok ⊢
  split at hok
  · exact .refl host
  · split at hok
    · exact .refl host
    · split_ifs at hok ⊢
      · exact .refl host
      · exact .refl host
      · exact absurd rfl hok

end GroupHost

/-! ## One operation -/

section Step

variable {crypto : Crypto} {host : GroupHost} {op : GroupOp} {token : Key} {slot : FileSlot}
  {bytes : Bytes}

/-- A reservation puts its slot under a free token, within the budget of the host. -/
theorem GroupOp.Reserves.spec (h : op.Reserves crypto host token slot) :
    host.files.lookup token = none ∧ slot.bytes = none ∧
      saturatingAdd (host.liveFileBytes slot.groupId) slot.size ≤ host.fileBudget ∧
      (op.apply crypto host).now = host.now ∧
      (op.apply crypto host).fileBudget = host.fileBudget ∧
      (op.apply crypto host).files = host.files.insert token slot := by
  cases h with
  | @append groupId cred body draws reserve out hreserve hok =>
    obtain ⟨hfree, hbudget, hput⟩ := GroupHost.reserved_of_ok hreserve hok
    obtain ⟨hnow, hlimit, hfiles⟩ :=
      @GroupHost.sameFiles_copied crypto host groupId cred .attachmentReserve body draws
    dsimp only [apply]
    rw [← hput]
    refine ⟨hfree, rfl, hbudget, hnow, hlimit, ?_⟩
    rw [GroupHost.putFile, hfiles]

/-- An upload fills the slot under its token, which its credential reserved. -/
theorem GroupOp.Uploads.spec (h : op.Uploads crypto host token bytes) :
    ∃ slot, host.files.lookup token = some slot ∧ slot.bytes = none ∧ bytes.length = slot.size ∧
      host.now < slot.expiresAt ∧ (∃ cred : MemberCred, cred.credentialId = slot.owner ∧
        host.authorizeLive crypto slot.groupId cred = .ok () ∧
        op = .uploadFile slot.groupId cred token bytes) ∧
      (op.apply crypto host).now = host.now ∧
      (op.apply crypto host).fileBudget = host.fileBudget ∧
      (op.apply crypto host).files = host.files.insert token { slot with bytes := some bytes } := by
  cases h with
  | @upload groupId cred _ _ hok =>
    obtain ⟨slot, hslot, hgroup, howner, hexpires, hempty, hlength, hlive, hput⟩ :=
      GroupHost.uploaded_of_ok hok
    refine ⟨slot, hslot, hempty, hlength, hexpires, ⟨cred, howner.symm, ?_, ?_⟩, ?_⟩
    · rw [hgroup]
      exact hlive
    · rw [hgroup]
    · dsimp only [apply]
      rw [hput]
      exact ⟨rfl, rfl, rfl⟩

/-- Besides setting the clock, an operation leaves the files, reserves one, or uploads one. -/
theorem GroupOp.files (crypto : Crypto) (host : GroupHost) (op : GroupOp) :
    (∃ now, op = .setNow now) ∨ host.SameFiles (op.apply crypto host) ∨
      (∃ token slot, op.Reserves crypto host token slot) ∨
      ∃ token bytes, op.Uploads crypto host token bytes := by
  cases op with
  | setNow now => exact .inl ⟨now, rfl⟩
  | createGroupFor signingPk fanout creator groupId cred =>
    refine .inr (.inl ?_)
    dsimp only [apply, GroupHost.createGroupFor]
    split_ifs
    · exact .refl host
    · exact ⟨rfl, rfl, rfl⟩
  | storeInvite groupId cred invite =>
    exact .inr (.inl (host.quiet_storeInvite groupId cred invite).sameFiles)
  | accept groupId nonce cred pendingId =>
    exact .inr (.inl (host.quiet_accept groupId nonce cred pendingId).sameFiles)
  | admitJoiner groupId admitter admission joinerSigningPk fanout =>
    exact .inr (.inl
      (host.quiet_admitJoiner groupId admitter admission joinerSigningPk fanout).sameFiles)
  | refreshFanout groupId cred fanout =>
    exact .inr (.inl (host.quiet_refreshFanout groupId cred fanout).sameFiles)
  | appendHostRevocation groupId stmt draws =>
    exact .inr (.inl (host.sameFiles_appendHostRevocation groupId stmt draws))
  | uploadFile groupId cred fetchToken body =>
    by_cases hok : (host.uploadFile crypto groupId cred fetchToken body).1 = .ok ()
    · exact .inr (.inr (.inr ⟨fetchToken, body, .upload hok⟩))
    · exact .inr (.inl (GroupHost.sameFiles_upload_error hok))
  | append groupId cred type body draws =>
    rcases @GroupHost.append_copied crypto host groupId cred type body draws with
      ⟨hsame, -⟩ | ⟨-, hpass, out, heq⟩
    · exact .inr (.inl hsame)
    · by_cases htype : type = .attachmentReserve
      · subst htype
        obtain ⟨reserve, hreserve, -⟩ := hpass
        exact .inr (.inr (.inl ⟨_, _, .append hreserve (congrArg Prod.fst heq)⟩))
      · have hcopied := @GroupHost.sameFiles_copied crypto host groupId cred type body draws
        refine .inr (.inl (hcopied.trans ?_))
        dsimp only [apply]
        rw [heq]
        exact GroupHost.sameFiles_settled _ _ _ _ _ htype

end Step

/-! ## The files of a run -/

/-- The reservation under a token, without the bytes. -/
def GroupHost.promise (host : GroupHost) (token : Key) : Option FileSlot :=
  (host.files.lookup token).map fun slot ↦ { slot with bytes := none }

/-- The bytes under a token. -/
def GroupHost.blob (host : GroupHost) (token : Key) : Option Bytes :=
  (host.files.lookup token).bind FileSlot.bytes

namespace GroupHost

variable {crypto : Crypto} {host : GroupHost} {token : Key}

theorem promise_of_files {host' : GroupHost} (h : host'.files = host.files) :
    host'.promise token = host.promise token := by
  rw [promise, h, promise]

theorem blob_of_files {host' : GroupHost} (h : host'.files = host.files) :
    host'.blob token = host.blob token := by
  rw [blob, h, blob]

/-- What an operation does to the slots: nothing, or one of the two ways to set a value. -/
theorem files_apply (crypto : Crypto) (host : GroupHost) (op : GroupOp) :
    (op.apply crypto host).files = host.files ∨
      (∃ token slot, op.Reserves crypto host token slot) ∨
      ∃ token bytes, op.Uploads crypto host token bytes := by
  rcases op.files crypto host with ⟨now, rfl⟩ | hsame | hsets
  · exact .inl rfl
  · exact .inl hsame.2.2
  · exact .inr hsets

/-- The reservation under a token is made once. -/
theorem writeOnce_promise (crypto : Crypto) (token : Key) :
    WriteOnce (GroupOp.apply crypto) (promise · token)
      fun host op slot ↦ op.Reserves crypto host token slot where
  unset h := by rw [promise, h.spec.1, Option.map_none]
  stores {host op slot} h := by
    obtain ⟨-, hempty, -, -, -, hfiles⟩ := h.spec
    rw [promise, hfiles, AList.lookup_insert, Option.map_some, ← hempty]
  keeps {host op} h := by
    rcases files_apply crypto host op with hsame | ⟨token', slot, hreserves⟩ | ⟨token', bytes, hup⟩
    · exact promise_of_files hsame
    · have hne : token ≠ token' := by
        rintro rfl
        exact h slot hreserves
      rw [promise, hreserves.spec.2.2.2.2.2, FiniteMap.lookup_insert_ite, if_neg hne, promise]
    · obtain ⟨slot, hslot, -, -, -, -, -, -, hfiles⟩ := hup.spec
      rw [promise, hfiles, FiniteMap.lookup_insert_ite, promise]
      split_ifs with htoken
      · rw [htoken, hslot]
        rfl
      · rfl

/-- The bytes under a token are uploaded once. -/
theorem writeOnce_blob (crypto : Crypto) (token : Key) :
    WriteOnce (GroupOp.apply crypto) (blob · token)
      fun host op bytes ↦ op.Uploads crypto host token bytes where
  unset h := by
    obtain ⟨slot, hslot, hempty, -⟩ := h.spec
    rw [blob, hslot, Option.bind_some, hempty]
  stores {host op bytes} h := by
    obtain ⟨slot, -, -, -, -, -, -, -, hfiles⟩ := h.spec
    rw [blob, hfiles, AList.lookup_insert, Option.bind_some]
  keeps {host op} h := by
    rcases files_apply crypto host op with hsame | ⟨token', slot, hreserves⟩ | ⟨token', bytes, hup⟩
    · exact blob_of_files hsame
    · obtain ⟨hfree, hempty, -, -, -, hfiles⟩ := hreserves.spec
      rw [blob, hfiles, FiniteMap.lookup_insert_ite, blob]
      split_ifs with htoken
      · rw [htoken, hfree, Option.bind_some, hempty, Option.bind_none]
      · rfl
    · have hne : token ≠ token' := by
        rintro rfl
        exact h bytes hup
      obtain ⟨slot, -, -, -, -, -, -, -, hfiles⟩ := hup.spec
      rw [blob, hfiles, FiniteMap.lookup_insert_ite, if_neg hne, blob]

theorem fetchFile_eq_ok_iff {groupId : GroupId} {cred : MemberCred} {bytes : Bytes} :
    host.fetchFile crypto groupId cred token = .ok bytes ↔
      host.authorizeLive crypto groupId cred = .ok () ∧ ∃ slot, host.promise token = some slot ∧
        slot.groupId = groupId ∧ host.now < slot.expiresAt ∧ host.blob token = some bytes := by
  unfold fetchFile
  cases hlive : host.authorizeLive crypto groupId cred with
  | error e =>
    refine iff_of_false nofun ?_
    rintro ⟨hok, -⟩
    cases hok
  | ok u =>
    rw [promise, blob]
    cases hslot : host.files.lookup token with
    | none =>
      refine iff_of_false nofun ?_
      rintro ⟨-, slot, hsome, -⟩
      cases hsome
    | some slot =>
      have hiff : (∃ slot', (some slot).map (fun slot : FileSlot ↦ { slot with bytes := none }) =
            some slot' ∧ slot'.groupId = groupId ∧ host.now < slot'.expiresAt ∧
            slot.bytes = some bytes) ↔
          (slot.groupId = groupId ∧ host.now < slot.expiresAt) ∧ slot.bytes = some bytes := by
        simp [and_assoc]
      rw [Option.bind_some, hiff]
      by_cases hvalid : slot.groupId = groupId ∧ host.now < slot.expiresAt
      · cases hbytes : slot.bytes <;> simp [bind, Except.bind, hvalid, hbytes]
      · simp [bind, Except.bind, hvalid]

/-- The bytes behind a slot. -/
theorem lookup_of_promise {slot : FileSlot} (h : host.promise token = some slot) :
    host.files.lookup token = some { slot with bytes := host.blob token } := by
  rw [promise] at h
  obtain ⟨slot', hslot, rfl⟩ := Option.map_eq_some_iff.mp h
  rw [blob, hslot]
  rfl

end GroupHost

section Run

variable {crypto : Crypto} {ops : List GroupOp} {token : Key}

theorem promise_new (token : Key) : GroupHost.new.promise token = none := rfl

theorem blob_new (token : Key) : GroupHost.new.blob token = none := rfl

/-- The bytes a fetch answers are those of the one upload under the token, made by the credential
that had reserved it, with the length that was reserved; and until the reservation expires, every
live member of its group is answered with them. -/
theorem fetchFile_run_iff (crypto : Crypto) (ops : List GroupOp) (groupId : GroupId)
    (cred : MemberCred) (token : Key) (bytes : Bytes) :
    let host := run (GroupOp.apply crypto) .new ops
    host.fetchFile crypto groupId cred token = .ok bytes ↔
      host.authorizeLive crypto groupId cred = .ok () ∧ ∃ slot : FileSlot,
        slot.groupId = groupId ∧ host.now < slot.expiresAt ∧ bytes.length = slot.size ∧
        (∃ before op later, ops = before ++ op :: later ∧
          op.Reserves crypto (run (GroupOp.apply crypto) .new before) token slot) ∧
        ∃ before owner later, ops = before ++ .uploadFile groupId owner token bytes :: later ∧
          owner.credentialId = slot.owner ∧
          ((run (GroupOp.apply crypto) .new before).uploadFile crypto groupId owner token bytes).1 =
            .ok () := by
  intro host
  have hpromise (slot : FileSlot) := (GroupHost.writeOnce_promise crypto token).run_eq_some_iff
    (promise_new token) ops slot
  have hblob := (GroupHost.writeOnce_blob crypto token).run_eq_some_iff (blob_new token)
    ops bytes
  rw [GroupHost.fetchFile_eq_ok_iff]
  refine and_congr_right fun _ ↦ exists_congr fun slot ↦ ?_
  constructor
  · rintro ⟨hslot, rfl, hexpires, hbytes⟩
    obtain ⟨before, op, later, hops, hup⟩ := hblob.mp hbytes
    obtain ⟨slot', hslot', -, hlength, -, ⟨owner, howner, -, rfl⟩, -⟩ := hup.spec
    -- The slot that was filled is the one that is there at the end.
    have hsame : { slot' with bytes := none } = slot := by
      have hbefore : (run (GroupOp.apply crypto) .new before).promise token =
          some { slot' with bytes := none } := by
        rw [GroupHost.promise, hslot']
        rfl
      have hlast := (GroupHost.writeOnce_promise crypto token).mono hbefore
        (.uploadFile slot'.groupId owner token bytes :: later)
      rw [← run_append, ← hops] at hlast
      exact Option.some.inj (hlast.symm.trans hslot)
    subst hsame
    refine ⟨rfl, hexpires, hlength, (hpromise _).mp hslot, before, owner, later, hops, howner, ?_⟩
    cases hup with
    | upload hok => exact hok
  · rintro ⟨hgroup, hexpires, -, hreserved, before, owner, later, hops, -, hok⟩
    exact ⟨(hpromise slot).mpr hreserved, hgroup, hexpires,
      hblob.mpr ⟨before, _, later, hops, .upload hok⟩⟩

/-- A token belongs to the group and the credential that reserved it for as long as the host runs:
its size and expiry do not change, bytes once uploaded stay as they are, and no later reservation
or second upload under it succeeds. -/
theorem slot_kept (crypto : Crypto) (ops later : List GroupOp) (token : Key) (slot : FileSlot)
    (hslot : (run (GroupOp.apply crypto) .new ops).files.lookup token = some slot) :
    let host := run (GroupOp.apply crypto) .new (ops ++ later)
    ∃ bytes, host.files.lookup token = some { slot with bytes } ∧
      (slot.bytes.isSome → bytes = slot.bytes) ∧
      (∀ op slot', ¬GroupOp.Reserves crypto host op token slot') ∧
      (bytes.isSome → ∀ op body, ¬GroupOp.Uploads crypto host op token body) := by
  intro host
  have hpromise := GroupHost.writeOnce_promise crypto token
  have hblob := GroupHost.writeOnce_blob crypto token
  have hfirst : (run (GroupOp.apply crypto) .new ops).promise token =
      some { slot with bytes := none } := by
    rw [GroupHost.promise, hslot]
    rfl
  have hlast : host.promise token = some { slot with bytes := none } := by
    have hmono := hpromise.mono hfirst later
    rwa [← run_append] at hmono
  have hstored := GroupHost.lookup_of_promise hlast
  refine ⟨host.blob token, hstored, fun hfilled ↦ ?_, fun op slot' h ↦ ?_,
    fun hfilled op body h ↦ ?_⟩
  · obtain ⟨bytes, hbytes⟩ := Option.isSome_iff_exists.mp hfilled
    have hbefore : (run (GroupOp.apply crypto) .new ops).blob token = some bytes := by
      rw [GroupHost.blob, hslot]
      exact hbytes
    have hmono := hblob.mono hbefore later
    rw [← run_append] at hmono
    rw [hbytes]
    exact hmono
  · rw [hpromise.unset h] at hlast
    cases hlast
  · rw [hblob.unset h] at hfilled
    cases hfilled

/-- A new group whose creator reserves a file. -/
def reservedAlone : List GroupOp :=
  let key : Key := .replicate 32 1
  [.createGroupFor key ⟨key, key⟩ none ⟨key⟩ ⟨key, key⟩,
    .append ⟨key⟩ ⟨key, key⟩ .attachmentReserve
      (AttachmentReserve.encode ⟨.replicate 32 7, .a1, .default⟩) fun _ ↦ (key, key)]

set_option maxRecDepth 100000 in
theorem slot_kept_reservedAlone :
    let slot := reservedSlot ⟨.replicate 32 7, .a1, .default⟩ 1700000000 ⟨.replicate 32 1⟩
      (.replicate 32 1)
    let host := run (GroupOp.apply .transparent) .new (reservedAlone ++ [.setNow 1700000001])
    ∃ bytes, host.files.lookup (.replicate 32 7) = some { slot with bytes } ∧
      (slot.bytes.isSome → bytes = slot.bytes) ∧
      (∀ op slot', ¬GroupOp.Reserves .transparent host op (.replicate 32 7) slot') ∧
      (bytes.isSome → ∀ op body, ¬GroupOp.Uploads .transparent host op (.replicate 32 7) body) :=
  slot_kept .transparent reservedAlone [.setNow 1700000001] (.replicate 32 7) _ (by decide +kernel)

/-! ## The budget -/

/-- The operation does not set the clock back. -/
def GroupOp.Forward (host : GroupHost) : GroupOp → Prop
  | setNow now => host.now ≤ now.toNat
  | _ => True

/-- What a slot weighs in the files of a group. -/
def FileSlot.liveSize (now : ℕ) (groupId : GroupId) (slot : FileSlot) : ℕ :=
  if slot.groupId = groupId ∧ now < slot.expiresAt then slot.size else 0

theorem liveFileBytes_eq (host : GroupHost) (groupId : GroupId) :
    host.liveFileBytes groupId = FiniteMap.sumBy (·.liveSize host.now groupId) host.files := by
  rw [GroupHost.liveFileBytes, FiniteMap.sumBy_retain fun slot : FileSlot ↦
    decide (slot.groupId = groupId) && decide (host.now < slot.expiresAt)]
  congr 1
  funext slot
  simp only [FileSlot.liveSize, Bool.and_eq_true, decide_eq_true_eq]

/-- Time only frees what is reserved. -/
theorem liveFileBytes_clock (host : GroupHost) {now : ℕ} (h : host.now ≤ now) (groupId : GroupId) :
    ({ host with now } : GroupHost).liveFileBytes groupId ≤ host.liveFileBytes groupId := by
  rw [liveFileBytes_eq, liveFileBytes_eq]
  refine FiniteMap.sumBy_le_sumBy (fun slot ↦ ?_) _
  unfold FileSlot.liveSize
  split_ifs with hlate hearly
  · exact le_rfl
  · exact absurd ⟨hlate.1, h.trans_lt hlate.2⟩ hearly
  · exact Nat.zero_le _
  · exact le_rfl

/-- The sum of the sizes of the live slots of every group is within the budget of the host. -/
def GroupHost.WithinBudget (host : GroupHost) : Prop :=
  host.fileBudget = fileBudgetBytes ∧ ∀ groupId, host.liveFileBytes groupId ≤ fileBudgetBytes

theorem withinBudget_apply {host : GroupHost} {op : GroupOp} (hforward : op.Forward host)
    (h : host.WithinBudget) : (op.apply crypto host).WithinBudget := by
  obtain ⟨hlimit, hbudget⟩ := h
  rcases op.files crypto host with
    ⟨now, rfl⟩ | ⟨hnow, hkept, hfiles⟩ | ⟨token, slot, hreserves⟩ | ⟨token, bytes, hup⟩
  · exact ⟨hlimit, fun groupId ↦ (liveFileBytes_clock host hforward groupId).trans (hbudget groupId)⟩
  · refine ⟨hkept.trans hlimit, fun groupId ↦ ?_⟩
    rw [liveFileBytes_eq, hnow, hfiles, ← liveFileBytes_eq]
    exact hbudget groupId
  · obtain ⟨hfree, -, hfits, hnow, hkept, hfiles⟩ := hreserves.spec
    refine ⟨hkept.trans hlimit, fun groupId ↦ ?_⟩
    rw [liveFileBytes_eq, hnow, hfiles, FiniteMap.sumBy_insert _ _ hfree, ← liveFileBytes_eq]
    have hother := hbudget groupId
    unfold FileSlot.liveSize
    split_ifs with hlive
    · rw [hlive.1, hlimit, saturatingAdd, min_le_iff] at hfits
      rcases hfits with hfits | hfits
      · rw [Nat.add_comm]
        exact hfits
      · exact absurd hfits (by decide)
    · rw [Nat.zero_add]
      exact hother
  · obtain ⟨slot, hslot, -, -, -, -, hnow, hkept, hfiles⟩ := hup.spec
    refine ⟨hkept.trans hlimit, fun groupId ↦ ?_⟩
    have hsum : FiniteMap.sumBy (·.liveSize host.now groupId)
        (host.files.insert token { slot with bytes := some bytes }) =
        FiniteMap.sumBy (·.liveSize host.now groupId) host.files := by
      refine FiniteMap.sumBy_congr fun key ↦ ?_
      rw [FiniteMap.lookup_insert_ite]
      split_ifs with hkey
      · rw [hkey, hslot]
        rfl
      · rfl
    rw [liveFileBytes_eq, hnow, hfiles, hsum, ← liveFileBytes_eq]
    exact hbudget groupId

/-- In every run with a clock that does not go back, the unexpired reservations of a group are
within the budget. -/
theorem liveFileBytes_run_le (crypto : Crypto) (ops : List GroupOp)
    (hforward : Allowed (GroupOp.apply crypto) GroupOp.Forward .new ops) (groupId : GroupId) :
    (run (GroupOp.apply crypto) .new ops).liveFileBytes groupId ≤ fileBudgetBytes := by
  have hnew : GroupHost.new.WithinBudget := ⟨rfl, fun _ ↦ Nat.zero_le _⟩
  exact (run_invariant GroupHost.WithinBudget (fun _ _ ↦ withinBudget_apply) hforward hnew).2 groupId

theorem liveFileBytes_reservedAlone_le :
    (run (GroupOp.apply .transparent) .new reservedAlone).liveFileBytes ⟨.replicate 32 1⟩ ≤
      fileBudgetBytes :=
  liveFileBytes_run_le .transparent reservedAlone ⟨trivial, trivial, trivial⟩ ⟨.replicate 32 1⟩

end Run

end NemoMessenger.Server
